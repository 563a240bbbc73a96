import SpriteMachine.Json

/-!
Compact JSON text, the keys of objects in order.
-/

namespace SpriteMachine

def JsonNumber.text : JsonNumber → String
  | .integer n => toString n
  | .fraction x => Layout.document.text x

namespace Json

def escapeChar (c : Char) : List Char :=
  match c with
  | '"' => ['\\','"']
  | '\\' => ['\\','\\']
  | '\x08' => ['\\','b']
  | '\x0c' => ['\\','f']
  | '\n' => ['\\','n']
  | '\r' => ['\\','r']
  | '\t' => ['\\','t']
  | c =>
    if c.toNat < 0x20 then
      ['\\','u','0','0',Nat.digitChar (c.toNat / 16),Nat.digitChar (c.toNat % 16)]
    else [c]

def quote (s : String) : String :=
  "\"" ++ String.ofList (s.toList.flatMap escapeChar) ++ "\""

mutual

def render : Json → String
  | .null => "null"
  | .bool b => if b then "true" else "false"
  | .number n => n.text
  | .string s => quote s
  | .array items => "[" ++ String.intercalate "," (renderItems items) ++ "]"
  | .object entries =>
    "\x7b" ++ String.intercalate "," ((byKey (renderEntries entries)).map fun e => quote e.1 ++ ":" ++ e.2)
      ++ "\x7d"

def renderItems : List Json → List String
  | [] => []
  | j :: js => render j :: renderItems js

def renderEntries : List (String × Json) → List (String × String)
  | [] => []
  | (key,j) :: rest => (key,render j) :: renderEntries rest

end

/-- A value as a text: a string is itself, null is empty, anything else is its document text. -/
def asText : Json → String
  | .string s => s
  | .null => ""
  | j => j.render

end Json

end SpriteMachine
