import SpriteMachine.Text.Ranges
import SpriteMachine.Text.ClusterTable
import SpriteMachine.Text.HiddenTable

/-!
Texts in double quotes. Quotes, backslashes and line ends are escaped; characters without a printed
form of their own are written by their code point in hexadecimal digits.
-/

namespace SpriteMachine.Text

def hexDigits (n : Nat) : List Char :=
  Nat.toDigits 16 n

/-- The sound marks of halfwidth Katakana extend the letter before them, but have a width of their own. -/
def isSoundMark (c : Char) : Bool :=
  c.toNat == 0xFF9E || c.toNat == 0xFF9F

def isPrinted (c : Char) : Bool :=
  (isSoundMark c || !within ClusterTable.extend c) && !within HiddenTable.hidden c

def escape (c : Char) : List Char :=
  match c with
  | '"' => ['\\','"']
  | '\\' => ['\\','\\']
  | '\n' => ['\\','n']
  | '\r' => ['\\','r']
  | '\t' => ['\\','t']
  | '\x00' => ['\\','0']
  | c => if isPrinted c then [c] else '\\' :: 'u' :: '\x7b' :: hexDigits c.toNat ++ ['\x7d']

def quoted (s : String) : String :=
  "\"" ++ String.ofList (s.toList.flatMap escape) ++ "\""

def quotedOption : Option String → String
  | some s => "Some(" ++ quoted s ++ ")"
  | none => "None"

end SpriteMachine.Text
