import SpriteMachine.Json.Printer
import SpriteMachine.Json.Shape
import SpriteMachine.Value

/-!
Values of variables and list items in documents.
-/

namespace SpriteMachine.Json

def asValue : Json → Value
  | .number n => .number n.toFloat
  | .bool b => .bool b
  | j => .text j.asText

def textAt (items : List Json) (i : Nat) : String :=
  match items[i]? with
  | some j => j.asText
  | none => ""

end SpriteMachine.Json
