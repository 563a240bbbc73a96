import SpriteMachine.Project.Flat
import SpriteMachine.Project.Nested

/-!
Reading projects. Documents of version 3 have a list of targets; those of version 2 do not.
-/

namespace SpriteMachine.Project

def ofJson (j : Json) : Except LoadError Project :=
  match j.get? "targets" with
  | some _ => Flat.read j
  | none => Nested.read j

def ofText (s : String) : Except LoadError Project :=
  match Json.parse s with
  | some j => ofJson j
  | none => .error .notJson

end SpriteMachine.Project
