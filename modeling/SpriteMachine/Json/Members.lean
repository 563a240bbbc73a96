import SpriteMachine.Json.Reader

/-!
Reading some fields of an object. The other fields are looked at for their form alone: they may be nested
at any depth, their numbers may be beyond the range of doubles and their texts may have unpaired surrogates.
-/

namespace SpriteMachine.Json

def Token.mend : Token → Token
  | .flawed like => .value like
  | t => t

/-- How many containers are open after a token, if `depth` were before it. -/
def Token.depthAfter (depth : Nat) : Token → Nat
  | .beginArray | .beginObject => depth + 1
  | .endArray | .endObject => depth - 1
  | _ => depth

/-- Divides tokens after the value that they start with, or after the rest of it if containers are open. -/
def splitValue : Nat → List Token → List Token × List Token
  | _, [] => ([],[])
  | depth, t :: ts =>
    match t.depthAfter depth with
    | 0 => ([t],ts)
    | depth + 1 =>
      let parts := splitValue (depth + 1) ts
      (t :: parts.1,parts.2)

theorem splitValue_append (depth : Nat) (ts : List Token) :
    (splitValue depth ts).1 ++ (splitValue depth ts).2 = ts := by
  induction ts generalizing depth with
  | nil => rfl
  | cons t ts ih =>
    rw [splitValue]
    split
    · rfl
    · simp [ih]

theorem length_splitValue_snd_le (depth : Nat) (ts : List Token) :
    (splitValue depth ts).2.length ≤ ts.length := by
  have h := congrArg List.length (splitValue_append depth ts)
  simp only [List.length_append] at h
  omega

/-- The value of a field, of which only the form counts unless it is wanted. -/
def member? (wanted : Bool) (key : String) (value : List Token) : Option (List (String × Json)) :=
  if wanted then (ofTokens (nestingLimit - 1) value).map fun v => [(key,v)]
  else (ofTokens (value.length + 1) (value.map Token.mend)).map fun _ => []

def members? (wanted : List String) : List Token → Option (List (String × Json))
  | .value (.string key) :: .colon :: ts =>
    match member? (wanted.contains key) key (splitValue 0 ts).1, h : (splitValue 0 ts).2 with
    | some here, [.endObject] => some here
    | some here, .comma :: rest =>
      have : rest.length + 1 ≤ ts.length := by simpa [h] using length_splitValue_snd_le 0 ts
      (members? wanted rest).map (here ++ ·)
    | _, _ => none
  | _ => none
termination_by ts => ts.length

def parseFields (wanted : List String) (text : String) : Option Json := do
  match ← tokensOf text with
  | [.beginObject,.endObject] => return .object []
  | .beginObject :: ts => return .object (← members? wanted ts)
  | _ => none

end SpriteMachine.Json
