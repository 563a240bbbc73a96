import SpriteMachine.Json

/-!
Reading typed fields of objects. A field may be required, optional (absent or null), or have a default
for when it is absent.
-/

namespace SpriteMachine.Json

def required {α : Type} (key : String) (read : Json → Option α) (j : Json) : Option α :=
  (j.get? key).bind read

def optional {α : Type} (key : String) (read : Json → Option α) (j : Json) : Option (Option α) :=
  match j.get? key with
  | none | some .null => some none
  | some v => (read v).map some

def defaulted {α : Type} (key : String) (default : α) (read : Json → Option α) (j : Json) : Option α :=
  match j.get? key with
  | none => some default
  | some v => read v

def listOf {α : Type} (read : Json → Option α) (j : Json) : Option (List α) :=
  j.array?.bind fun items => items.mapM read

def mapOf {α : Type} (read : Json → Option α) (j : Json) : Option (List (String × α)) :=
  j.entries?.bind fun entries => entries.mapM fun e => (read e.2).map (e.1,·)

def isObject : Json → Bool
  | .object _ => true
  | _ => false

def distinct (keys : List String) : Json → Bool
  | .object entries => keys.all fun key => (entries.filter fun e => e.1 == key).length ≤ 1
  | _ => true

def isTrue : Json → Bool
  | .bool b => b
  | .string s => s == "true"
  | _ => false

end SpriteMachine.Json
