/-!
Builtins: what blocks do that have no instructions of their own. They take operands off the stack and may
put one result back.
-/

namespace SpriteMachine

/-- Moving and turning a target. -/
inductive MotionAction where
  | moveSteps | turnRight | turnLeft | goTo | goToPoint | glideTo | glideToPoint | glideStep
  | pointInDirection | pointTowards | changeX | setX | changeY | setY | bounce | setRotation
  | x | y | direction
  deriving DecidableEq, Repr

/-- How a target looks. -/
inductive LooksAction where
  | say (thinking : Bool)
  | sayFor (thinking : Bool)
  | endSay
  | switchCostume | nextCostume | switchBackdrop | nextBackdrop
  | changeSize | setSize | changeEffect | setEffect | clearEffects
  | show | hide | toLayer | shiftLayer
  | costumeNumberName | backdropNumberName | size
  deriving DecidableEq, Repr

inductive SoundAction where
  | play | playUntilDone | stopAll | changeVolume | setVolume | setPitch | changePitch | clearEffects
  | volume
  deriving DecidableEq, Repr

/-- Clones and the counter. -/
inductive ControlAction where
  | createClone | incrementCounter | clearCounter | counter
  deriving DecidableEq, Repr

inductive SensingAction where
  | ask | takeTicket | currentTicket | endAsk
  | setDragMode | resetTimer
  | touchingObject | touchingColour | colourTouchingColour | distanceTo
  | answer | keyPressed | mouseDown | mouseX | mouseY | timer
  | propertyOf | currentDate | daysSince2000 | username
  deriving DecidableEq, Repr

inductive PenAction where
  | clear | stamp | down | up | setColour
  /-- Sets a part of the colour; its name may be taken without regard to case. -/
  | setParam (folded : Bool)
  | changeParam (folded : Bool)
  | setSize | changeSize
  deriving DecidableEq, Repr

inductive MusicAction where
  | playNote | playDrum | rest | setTempo | changeTempo | setInstrument | tempo
  deriving DecidableEq, Repr

inductive Builtin where
  | motion (a : MotionAction)
  | looks (a : LooksAction)
  | sound (a : SoundAction)
  | control (a : ControlAction)
  | sensing (a : SensingAction)
  | pen (a : PenAction)
  | music (a : MusicAction)
  deriving DecidableEq, Repr

end SpriteMachine
