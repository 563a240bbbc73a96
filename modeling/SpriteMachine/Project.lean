import SpriteMachine.Block
import SpriteMachine.Target

/-!
Projects as they are declared: a stage and sprites, each with data, costumes, sounds and scripts.
-/

namespace SpriteMachine

structure Parameter where
  id : String
  name : String
  default : String := ""
  deriving DecidableEq, Repr

structure Prototype where
  procedure : String
  parameters : List Parameter := []
  warp : Bool := false
  deriving DecidableEq, Repr

inductive Hat where
  | flag
  | clicked
  | startAsClone
  | key (name : String)
  | message (r : Reference)
  | backdrop (name : String)
  | procedure (p : Prototype)
  /-- A block that starts nothing. -/
  | other (opcode : String)
  deriving DecidableEq, Repr

structure Stack where
  hat : Hat
  blocks : List Block

structure VariableDecl where
  id : String
  name : String
  value : Value

structure ListDecl where
  id : String
  name : String
  items : List Value

/-- Where and how a sprite stands on the stage. The size is in percent. -/
structure Placement where
  x : Float := 0.0
  y : Float := 0.0
  direction : Float := 90.0
  size : Float := 100.0
  visible : Bool := true
  draggable : Bool := false
  rotation : RotationStyle := .allAround

/-- A declared target. The stage has no placement. -/
structure Declaration where
  name : String
  isStage : Bool
  vars : List VariableDecl := []
  lists : List ListDecl := []
  scripts : List Stack := []
  costumes : List Costume := []
  costume : Nat := 0
  sounds : List Sound := []
  /-- In percent. -/
  volume : Float := 100.0
  placement : Option Placement := none

structure Project where
  stage : Declaration
  /-- From back to front. -/
  sprites : List Declaration := []
  tempo : Float := 60.0

inductive LoadError where
  | notJson
  | shape
  /-- A block is followed by itself or holds itself. -/
  | cyclic
  deriving DecidableEq, Repr

end SpriteMachine
