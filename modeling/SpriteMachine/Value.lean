import SpriteMachine.Decimal.Layout
import SpriteMachine.Text.Case
import SpriteMachine.Value.Numeral

/-!
The values of projects: texts, numbers and truth values, each of which can be read as any other.
-/

namespace SpriteMachine

inductive Value where
  | text (s : String)
  | number (x : Float)
  | bool (b : Bool)

instance : Inhabited Value := ⟨.text ""⟩

def hasDigit (s : String) : Bool :=
  s.toList.any Char.isDigit

def zeroIfNaN (x : Float) : Float :=
  if x.isNaN then 0.0 else x

namespace Value

def ofNat (n : Nat) : Value :=
  .number (Float.ofNat n)

def toText : Value → String
  | .text s => s
  | .number x => numberText x
  | .bool b => if b then "true" else "false"

def toRawNumber : Value → Float
  | .text s => readNumber s
  | .number x => x
  | .bool b => if b then 1.0 else 0.0

def toNumber (v : Value) : Float :=
  zeroIfNaN v.toRawNumber

/-- Zero, the empty text, texts that stand for zero and `false` are false. -/
def toBool : Value → Bool
  | .text s => !(s.isEmpty || s == "false" || readNumber s == 0.0)
  | .number x => x != 0.0
  | .bool b => b

/-- Whether a value is compared as a number: texts are if they have a digit. -/
def isNumeric : Value → Bool
  | .text s => hasDigit s
  | .number _ | .bool _ => true

def folded (v : Value) : String :=
  Text.lower v.toText

/-- A colour as `#` and hexadecimal digits, else the low bits of a number. -/
def toColour : Value → UInt32
  | v@(.text s) =>
    match s.toList with
    | '#' :: hex => UInt32.ofNat ((Numeral.word? 32 16 hex).getD 0)
    | _ => Double.toWord v.toNumber
  | v => Double.toWord v.toNumber

end Value

end SpriteMachine
