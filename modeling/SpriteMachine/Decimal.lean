import SpriteMachine.Double

/-!
Decimal numbers beside doubles: the double nearest to a decimal, and the decimal with the fewest
digits that reads back as a given double.
-/

namespace SpriteMachine

structure Decimal where
  coefficient : Nat
  exponent : Int
  deriving DecidableEq, Repr

namespace Decimal

def digitCount (n : Nat) : Nat :=
  (Nat.repr n).length

/-- The nearest double. Magnitudes far outside the range of doubles are decided by their size alone. -/
def toFloat (d : Decimal) : Float :=
  let size := d.exponent + digitCount d.coefficient
  if d.coefficient = 0 then 0.0
  else if size > 310 then Double.infinity
  else if size < -330 then 0.0
  else Float.ofScientific d.coefficient (d.exponent < 0) d.exponent.natAbs

/-- The exponent of the leading decimal digit of `num / den`, for positive `num` and `den`. -/
def leadingExponent (num den : Nat) : Int :=
  if den ≤ num then digitCount (num / den) - 1 else -digitCount ((den - 1) / num)

/-- Which of two equally near decimals is taken. -/
inductive Tie where
  | greater
  /-- The one whose last digit is even. -/
  | even
  deriving DecidableEq, Repr

/-- Whether `n / m` goes to the integer below it rather than to the one above. -/
def Tie.roundsDown (t : Tie) (n m : Nat) : Bool :=
  2 * (n % m) < m || (t = .even && 2 * (n % m) == m && n / m % 2 == 0)

/-- Of the two multiples of `10 ^ k` around `num / den` that read back as `x`, the nearer one. -/
def onGrid? (tie : Tie) (x : Float) (num den : Nat) (k : Int) : Option Decimal :=
  let n := if k < 0 then num * Nat.pow 10 k.natAbs else num
  let m := if k < 0 then den else den * Nat.pow 10 k.natAbs
  let below : Decimal := ⟨n / m,k⟩
  let above : Decimal := ⟨n / m + 1,k⟩
  let (near,far) := if tie.roundsDown n m then (below,above) else (above,below)
  if near.toFloat == x then some near else if far.toFloat == x then some far else none

def trim (d : Decimal) : Decimal :=
  if h : d.coefficient ≠ 0 ∧ d.coefficient % 10 = 0 then trim ⟨d.coefficient / 10,d.exponent + 1⟩ else d
termination_by d.coefficient
decreasing_by exact Nat.div_lt_self (Nat.pos_of_ne_zero h.1) (by decide)

def exact (p : Double.Parts) : Decimal :=
  if p.exponent < 0 then ⟨p.mantissa * Nat.pow 5 p.exponent.natAbs,p.exponent⟩
  else ⟨p.mantissa * Nat.pow 2 p.exponent.natAbs,0⟩

/-- The fewest digits that read back as the magnitude of the double: the coarsest decimal grid with a
multiple that does. Seventeen digits are always enough. -/
def shortest (tie : Tie) (p : Double.Parts) : Decimal :=
  if p.mantissa = 0 then ⟨0,0⟩
  else
    let num := if p.exponent < 0 then p.mantissa else p.mantissa * Nat.pow 2 p.exponent.natAbs
    let den := if p.exponent < 0 then Nat.pow 2 p.exponent.natAbs else 1
    let lead := leadingExponent num den
    let x := Double.ofParts { p with neg := false }
    trim (((List.range 17).findSome? fun (d : Nat) => onGrid? tie x num den (lead - d)).getD (exact p))

end Decimal

end SpriteMachine
