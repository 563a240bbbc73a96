import SpriteMachine.Decimal.Reader
import SpriteMachine.Text.Blank

/-!
Numerals: texts that stand for numbers. Blanks around a numeral do not count; a numeral is a decimal or
`Infinity`, signed or not, or digits after a radix mark. The empty numeral is zero.
-/

namespace SpriteMachine.Numeral

def isBlank (c : Char) : Bool :=
  Text.isBlank c || c.toNat == 0xFEFF

def digitValue? (c : Char) : Option Nat :=
  if '0' ≤ c ∧ c ≤ '9' then some (c.toNat - 0x30)
  else if 'a' ≤ c ∧ c ≤ 'z' then some (c.toNat - 0x57)
  else if 'A' ≤ c ∧ c ≤ 'Z' then some (c.toNat - 0x37)
  else none

def radixValue? (radix : Nat) (ds : List Char) : Option Nat :=
  if ds.isEmpty then none
  else ds.foldlM (fun n c => (digitValue? c).bind fun d => if d < radix then some (n * radix + d) else none) 0

/-- The value of nonempty digits in a radix, with `+` allowed before them, if it fits so many bits. -/
def word? (bits radix : Nat) (cs : List Char) : Option Nat :=
  let ds := match cs with
    | '+' :: ds => ds
    | ds => ds
  (radixValue? radix ds).filter (· < Nat.pow 2 bits)

def radixOf? : Char → Option Nat
  | 'x' | 'X' => some 16
  | 'o' | 'O' => some 8
  | 'b' | 'B' => some 2
  | _ => none

def unsigned? (cs : List Char) : Option Float :=
  if cs = "Infinity".toList then some Double.infinity
  else (Decimal.ofChars? cs).map Decimal.toFloat

/-- The number that a text without blanks around it stands for. Digits after a radix mark have to fit
64 bits. -/
def ofChars? : List Char → Option Float
  | [] => some 0.0
  | '-' :: cs => (unsigned? cs).map fun x => -1.0 * x
  | '+' :: cs => unsigned? cs
  | '0' :: mark :: ds =>
    match radixOf? mark with
    | some radix => ((radixValue? radix ds).filter (· < Nat.pow 2 64)).map Float.ofNat
    | none => unsigned? ('0' :: mark :: ds)
  | cs => unsigned? cs

end SpriteMachine.Numeral

namespace SpriteMachine

def numeral? (s : String) : Option Float :=
  Numeral.ofChars? (Text.strip Numeral.isBlank s.toList)

def readNumber (s : String) : Float :=
  (numeral? s).getD Double.nan

/-- A number typed into a slot: blank slots and texts that are no numerals hold none. -/
def literalNumber? (s : String) : Option Float :=
  if s.toList.all Text.isBlank then none else numeral? s

def literalColour? (s : String) : Option UInt32 :=
  match s.toList with
  | '#' :: hex => if hex.length = 6 then (Numeral.word? 32 16 hex).map UInt32.ofNat else none
  | _ => none

end SpriteMachine
