import SpriteMachine.Decimal

/-!
Texts of doubles. All of them write the shortest digits that read back; a layout says where positional
notation ends and how the special values are spelled.
-/

namespace SpriteMachine

structure Layout where
  /-- Which of two equally near texts of the same length is written. -/
  tie : Decimal.Tie := .greater
  /-- Whether a number whose leading digit has this decimal exponent is written in positions. -/
  positional : Int → Bool
  /-- Whether whole numbers in positions end in `.0`. -/
  point : Bool
  /-- Whether the sign of zero is written. -/
  signedZero : Bool
  nan : String
  infinity : String

namespace Layout

def zeros (n : Nat) : List Char :=
  List.replicate n '0'

/-- Digits with the decimal point before their last `-exponent` places. -/
def inPositions (point : Bool) (d : Decimal) : List Char :=
  let digits := Nat.toDigits 10 d.coefficient
  if d.exponent < 0 then
    let places := d.exponent.natAbs
    if places < digits.length then
      digits.take (digits.length - places) ++ '.' :: digits.drop (digits.length - places)
    else '0' :: '.' :: zeros (places - digits.length) ++ digits
  else digits ++ zeros d.exponent.toNat ++ if point then ['.','0'] else []

/-- One digit before the point, the others after it, then the signed exponent of the first. -/
def withExponent (lead : Int) (d : Decimal) : List Char :=
  let mark := if lead < 0 then 'e' :: '-' :: Nat.toDigits 10 lead.natAbs
    else 'e' :: '+' :: Nat.toDigits 10 lead.natAbs
  match Nat.toDigits 10 d.coefficient with
  | [] => mark
  | [c] => c :: mark
  | c :: cs => c :: '.' :: cs ++ mark

def magnitude (l : Layout) (d : Decimal) : List Char :=
  let lead := d.exponent + Decimal.digitCount d.coefficient - 1
  if d.coefficient = 0 || l.positional lead then inPositions l.point d else withExponent lead d

def text (l : Layout) (x : Float) : String :=
  match Double.parts? x with
  | none => if x.isNaN then l.nan else if x < 0.0 then "-" ++ l.infinity else l.infinity
  | some p =>
    let body := String.ofList (l.magnitude (Decimal.shortest l.tie p))
    if p.neg && (p.mantissa != 0 || l.signedZero) then "-" ++ body else body

def project : Layout where
  positional e := -6 ≤ e && e ≤ 20
  point := false
  signedZero := false
  nan := "NaN"
  infinity := "Infinity"

def listing : Layout where
  positional _ := true
  point := false
  signedZero := true
  nan := "NaN"
  infinity := "inf"

/-- Fractional numbers in compact documents, always with a point or an exponent. -/
def document : Layout where
  tie := .even
  positional e := -5 ≤ e && e ≤ 15
  point := true
  signedZero := true
  nan := "null"
  infinity := "null"

end Layout

def numberText (x : Float) : String :=
  Layout.project.text x

end SpriteMachine
