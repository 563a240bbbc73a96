import SpriteMachine.Value.Order
import SpriteMachine.MathFunction
import SpriteMachine.Text.Cluster

/-!
Operators: what code computes from one or two values without regard to anything else.
-/

namespace SpriteMachine

inductive UnaryOperator where
  | toNumber | toText | toBool | round
  | math (function : UInt32)
  | not | length
  deriving DecidableEq, Repr

inductive BinaryOperator where
  | add | subtract | multiply | divide | mod
  | less | greater | equals
  | numberLess | numberGreater | numberEquals
  | and | or | join | letterOf | contains
  deriving DecidableEq, Repr

/-- The cluster at a position counted from one, else the empty text. -/
def letterAt (index : Float) (s : String) : String :=
  let i := Double.trunc index
  if i >= 1.0 then (Text.clusters s)[Double.toIndex i - 1]?.getD "" else ""

def occursIn (needle : List Char) : List Char → Bool
  | [] => needle.isEmpty
  | c :: cs => needle.isPrefixOf (c :: cs) || occursIn needle cs

def holdsText (s needle : String) : Bool :=
  occursIn (Text.lower needle).toList (Text.lower s).toList

/-- The value of a function by its word; a word without a function gives zero. -/
def mathResult (function : UInt32) (x : Float) : Float :=
  match MathFunction.ofWord? function with
  | some f => f.apply x
  | none => 0.0

def UnaryOperator.apply : UnaryOperator → Value → Value
  | .toNumber, v => .number v.toNumber
  | .toText, v => .text v.toText
  | .toBool, v => .bool v.toBool
  | .round, v => .number (v.toNumber + 0.5).floor
  | .math function, v => .number (mathResult function v.toNumber)
  | .not, v => .bool !v.toBool
  | .length, v => .ofNat (Text.clusters v.toText).length

def BinaryOperator.apply : BinaryOperator → Value → Value → Value
  | .add, a, b => .number (zeroIfNaN (a.toNumber + b.toNumber))
  | .subtract, a, b => .number (zeroIfNaN (a.toNumber - b.toNumber))
  | .multiply, a, b => .number (zeroIfNaN (a.toNumber * b.toNumber))
  | .divide, a, b => .number (zeroIfNaN (a.toNumber / b.toNumber))
  | .mod, a, b => .number (Double.floorMod a.toNumber b.toNumber)
  | .less, a, b => .bool (a.compare b == .lt)
  | .greater, a, b => .bool (a.compare b == .gt)
  | .equals, a, b => .bool (a.equal b)
  | .numberLess, a, b => .bool (Value.numberLess a.toNumber b)
  | .numberGreater, a, b => .bool (Value.numberGreater a.toNumber b)
  | .numberEquals, a, b => .bool (Value.numberEqual a.toNumber b)
  | .and, a, b => .bool (a.toBool && b.toBool)
  | .or, a, b => .bool (a.toBool || b.toBool)
  | .join, a, b => .text (a.toText ++ b.toText)
  | .letterOf, a, b => .text (letterAt a.toNumber b.toText)
  | .contains, a, b => .bool (holdsText a.toText b.toText)

end SpriteMachine
