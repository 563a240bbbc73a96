import SpriteMachine.Value

/-!
Comparison of values: as numbers if both sides are numeric and neither is NaN, else as texts without
regard to case. A number that is written out on the left side has a comparison of its own.
-/

namespace SpriteMachine.Value

def compareNumbers (x y : Float) : Ordering :=
  if x < y then .lt else if x > y then .gt else .eq

def compareTexts (x y : String) : Ordering :=
  if x < y then .lt else if x = y then .eq else .gt

def numericPair? (x y : Value) : Option (Float × Float) :=
  let nx := x.toRawNumber
  let ny := y.toRawNumber
  if x.isNumeric && y.isNumeric && !nx.isNaN && !ny.isNaN then some (nx,ny) else none

def compare (x y : Value) : Ordering :=
  match numericPair? x y with
  | some (nx,ny) => compareNumbers nx ny
  | none => compareTexts x.folded y.folded

def equal (x y : Value) : Bool :=
  match numericPair? x y with
  | some (nx,ny) => nx == ny
  | none => x.folded == y.folded

/-- The right side of a comparison with a written number. Truth values are not numbers here. -/
def operand? : Value → Option Float
  | .bool _ => none
  | v =>
    let n := v.toRawNumber
    if v.isNumeric && !n.isNaN then some n else none

def numberLess (x : Float) (y : Value) : Bool :=
  match y.operand? with
  | some ny => x < ny
  | none => numberText x < y.folded

def numberGreater (x : Float) (y : Value) : Bool :=
  match y.operand? with
  | some ny => x > ny
  | none => y.folded < numberText x

def numberEqual (x : Float) (y : Value) : Bool :=
  match y.operand? with
  | some ny => x == ny
  | none => false

end SpriteMachine.Value
