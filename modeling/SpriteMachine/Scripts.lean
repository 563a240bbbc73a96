import SpriteMachine.Event
import SpriteMachine.Script

/-!
What a sprite shares with its clones: scripts that events start, and procedures.
-/

namespace SpriteMachine

/-- Scripts with the events that start them, in the order in which they start. -/
structure Listeners where
  entries : Array (Event × Script) := #[]

namespace Listeners

def add (l : Listeners) (e : Event) (s : Script) : Listeners :=
  ⟨l.entries.push (e,s)⟩

def exactly (l : Listeners) (e : Event) : List Script :=
  l.entries.toList.filterMap fun (f,s) => if f = e then some s else none

/-- The scripts to start. A key starts its own scripts, then those for any key. -/
def matching (l : Listeners) (e : Event) : List Script :=
  match e with
  | .keyPressed (.code n) => l.exactly (.keyPressed (.code n)) ++ l.exactly (.keyPressed .any)
  | e => l.exactly e

def size (l : Listeners) : Nat :=
  l.entries.size

end Listeners

structure Procedure where
  script : Script
  warp : Bool
  arguments : List String

structure Scripts where
  listeners : Listeners := {}
  procedures : List (String × Procedure) := []

namespace Scripts

def define (s : Scripts) (name : String) (p : Procedure) : Scripts :=
  { s with procedures := s.procedures.filter (·.1 != name) ++ [(name,p)] }

def procedure? (s : Scripts) (name : String) : Option Procedure :=
  (s.procedures.find? fun e => e.1 == name).map Prod.snd

def all (s : Scripts) : List Script :=
  (s.listeners.entries.toList.map Prod.snd ++ s.procedures.map (·.2.script)).mergeSort
    fun a b => a.id ≤ b.id

end Scripts

end SpriteMachine
