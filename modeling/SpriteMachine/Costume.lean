import SpriteMachine.Geometry

/-!
Costumes and sounds, known by name. Images and samples themselves are never looked at.
-/

namespace SpriteMachine

structure Costume where
  name : String
  centre : Point := {}
  resolution : Float := 1.0
  /-- Size in pixels of the image; zero while it is not known. -/
  width : Float := 0.0
  height : Float := 0.0
  asset : Option String := none

def tiniest : Float :=
  Double.pow2 (-1022)

def Costume.scale (c : Costume) : Float :=
  1.0 / Double.atLeast tiniest c.resolution

structure Sound where
  name : String
  rate : Nat
  samples : Nat
  /-- Sounds that could not be decoded are not played. -/
  decoded : Bool := true
  asset : Option String := none

def Sound.duration (s : Sound) : Float :=
  if s.rate = 0 then 0.0 else Float.ofNat s.samples / Float.ofNat s.rate

end SpriteMachine
