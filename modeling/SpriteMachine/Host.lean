import SpriteMachine.Duration
import SpriteMachine.Geometry
import SpriteMachine.Pen

/-!
What a machine asks of the outside: a clock to read, pictures to draw, sounds to play. Calls that only have
effects there are data, in the order in which they were made.
-/

namespace SpriteMachine

/-- A clock in milliseconds that goes on by a fixed step with every reading. -/
structure Clock where
  now : Float := 0.0
  step : Float := 0.0

def Clock.read (c : Clock) : Clock :=
  { c with now := c.now + c.step }

def Clock.stepping (d : Duration) : Clock where
  step := d.milliseconds

def Clock.advance (c : Clock) (d : Duration) : Clock :=
  { c with now := c.now + d.milliseconds }

inductive HostCall where
  | draw (target : String)
  | line (start stop : Point) (colour : Rgba) (size : Float)
  | dot (place : Point) (colour : Rgba) (size : Float)
  | stamp (target : String)
  | clear
  | touchesColour (target : String) (colour : UInt32)
  | colourTouchesColour (target : String) (mask colour : UInt32)
  | sound (target : Nat) (name : String) (volume pitch : Float)
  | note (instrument : Nat) (key duration volume : Float)
  | drum (drum : Nat) (duration volume : Float)
  | stopSounds
  | stopTarget (target : Nat)
  | resume
  | suspend

end SpriteMachine
