import SpriteMachine.Double

/-!
Lengths of time in whole nanoseconds.
-/

namespace SpriteMachine

structure Duration where
  nanoseconds : Nat
  deriving DecidableEq, Repr

namespace Duration

def ofSeconds (x : Float) : Duration :=
  match Double.parts? x with
  | some p => ⟨p.scaledNearest 1000000000⟩
  | none => ⟨0⟩

def ofMilliseconds (n : Nat) : Duration :=
  ⟨n * 1000000⟩

def seconds (d : Duration) : Float :=
  Float.ofNat (d.nanoseconds / 1000000000) + Float.ofNat (d.nanoseconds % 1000000000) / 1e9

def milliseconds (d : Duration) : Float :=
  d.seconds * 1000.0

end Duration

end SpriteMachine
