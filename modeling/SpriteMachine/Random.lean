import SpriteMachine.Value

/-!
A stream of random numbers, and random picks between two values.
-/

namespace SpriteMachine

structure Random where
  state : UInt64

namespace Random

def ofSeed (seed : Nat) : Random :=
  ⟨UInt64.ofNat seed⟩

def next (r : Random) : UInt64 × Random :=
  let s := r.state + 0x9E3779B97F4A7C15
  let a := (s ^^^ (s >>> 30)) * 0xBF58476D1CE4E5B9
  let b := (a ^^^ (a >>> 27)) * 0x94D049BB133111EB
  (b ^^^ (b >>> 31),⟨s⟩)

def unit (r : Random) : Float × Random :=
  let (w,r) := r.next
  ((w >>> 11).toFloat * Double.pow2 (-53),r)

def below (bound : Nat) (r : Random) : Nat × Random :=
  let (w,r) := r.next
  (w.toNat % bound,r)

def isWrittenFractional : Value → Bool
  | .text s => s.toList.contains '.' && !(readNumber s).isNaN
  | _ => false

def isWhole (x : Float) : Bool :=
  x - Double.trunc x == 0.0

/-- A number between two values in either order: a whole one unless a bound is fractional or is written
with a point. -/
def between (x y : Value) (r : Random) : Float × Random :=
  let a := x.toNumber
  let b := y.toNumber
  let low := if a > b then b else a
  let high := if a > b then a else b
  let (u,r) := r.unit
  if !isWrittenFractional x && !isWrittenFractional y && isWhole low && isWhole high then
    ((u * (high - low + 1.0)).floor + low,r)
  else (u * (high - low) + low,r)

end Random

end SpriteMachine
