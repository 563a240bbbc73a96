import SpriteMachine.Duration
import SpriteMachine.Json.Members
import SpriteMachine.Json.Shape

/-!
Settings of a machine, and how they are read from a document.
-/

namespace SpriteMachine

structure Settings where
  framerate : Float := 30.0
  /-- Whether threads run on for the whole frame after something visible changed. -/
  turbo : Bool := false
  /-- How many of the innermost calls are looked at for recursion. -/
  recursionWindow : Nat := 5
  maxCallDepth : Nat := 10000
  spriteFencing : Bool := false
  username : String := ""
  seed : Option Nat := none

namespace Settings

def frameDuration (s : Settings) : Duration :=
  .ofSeconds (1.0 / Double.atLeast 1.0 s.framerate)

def fieldNames : List String :=
  ["framerate","turbo","recursionWindow","maxCallDepth","spriteFencing","username","seed"]

def ofJson? (j : Json) : Option Settings := do
  if !j.isObject || !j.distinct fieldNames then none
  let framerate ← j.defaulted "framerate" 30.0 Json.float?
  let turbo ← j.defaulted "turbo" false Json.bool?
  let recursionWindow ← j.defaulted "recursionWindow" 5 (Json.natural? 64)
  let maxCallDepth ← j.defaulted "maxCallDepth" 10000 (Json.natural? 64)
  let spriteFencing ← j.defaulted "spriteFencing" false Json.bool?
  let username ← j.defaulted "username" "" Json.string?
  let seed ← j.optional "seed" (Json.natural? 64)
  return { framerate, turbo, recursionWindow, maxCallDepth, spriteFencing, username, seed }

/-- Settings written in a text, whose other fields are passed over. -/
def ofText? (text : String) : Option Settings :=
  (Json.parseFields fieldNames text).bind ofJson?

end Settings

end SpriteMachine
