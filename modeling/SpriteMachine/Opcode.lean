/-!
Opcodes: the first word of an instruction. Each has a fixed number of operand words.
-/

namespace SpriteMachine

inductive Opcode where
  | pushConstant | pushNumber | pushBool | pop | toNumber | toString | toBoolean | pushVar
  | setVar | changeVar | varWatch | pushList | listAdd | listDelete | listDeleteAll | listInsert
  | listReplace | listItem | listItemNum | listLength | listContains | listWatch | save | restore
  | pushLocal | setLocal | decLocal | pushArg | pushArgNumber | pushArgBoolean | add | subtract
  | multiply | divide | mod | round | mathOp | random | lt | gt
  | equals | numLess | numGreater | numEquals | and | or | not | join
  | letterOf | length | contains | jump | jumpIfFalse | jumpIfTrue | queue | forceQueue
  | finish | endCall | call | broadcast | broadcastAndWait | running | sceneChanged | stop
  | deleteClone | waitElapsed | pushNow | visual | callBuiltin
  deriving DecidableEq, Repr

namespace Opcode

def all : Array Opcode := #[
  .pushConstant,.pushNumber,.pushBool,.pop,.toNumber,.toString,.toBoolean,.pushVar,.setVar,
  .changeVar,.varWatch,.pushList,.listAdd,.listDelete,.listDeleteAll,.listInsert,.listReplace,
  .listItem,.listItemNum,.listLength,.listContains,.listWatch,.save,.restore,.pushLocal,.setLocal,
  .decLocal,.pushArg,.pushArgNumber,.pushArgBoolean,.add,.subtract,.multiply,.divide,.mod,.round,
  .mathOp,.random,.lt,.gt,.equals,.numLess,.numGreater,.numEquals,.and,.or,.not,.join,
  .letterOf,.length,.contains,.jump,.jumpIfFalse,.jumpIfTrue,.queue,.forceQueue,.finish,.endCall,
  .call,.broadcast,.broadcastAndWait,.running,.sceneChanged,.stop,.deleteClone,.waitElapsed,
  .pushNow,.visual,.callBuiltin]

def word (o : Opcode) : UInt32 :=
  UInt32.ofNat o.ctorIdx

def ofWord? (w : UInt32) : Option Opcode :=
  all[w.toNat]?

def name : Opcode → String
  | .pushConstant => "PushConstant"
  | .pushNumber => "PushNumber"
  | .pushBool => "PushBool"
  | .pop => "Pop"
  | .toNumber => "ToNumber"
  | .toString => "ToString"
  | .toBoolean => "ToBoolean"
  | .pushVar => "PushVar"
  | .setVar => "SetVar"
  | .changeVar => "ChangeVar"
  | .varWatch => "VarWatch"
  | .pushList => "PushList"
  | .listAdd => "ListAdd"
  | .listDelete => "ListDelete"
  | .listDeleteAll => "ListDeleteAll"
  | .listInsert => "ListInsert"
  | .listReplace => "ListReplace"
  | .listItem => "ListItem"
  | .listItemNum => "ListItemNum"
  | .listLength => "ListLength"
  | .listContains => "ListContains"
  | .listWatch => "ListWatch"
  | .save => "Save"
  | .restore => "Restore"
  | .pushLocal => "PushLocal"
  | .setLocal => "SetLocal"
  | .decLocal => "DecLocal"
  | .pushArg => "PushArg"
  | .pushArgNumber => "PushArgNumber"
  | .pushArgBoolean => "PushArgBoolean"
  | .add => "Add"
  | .subtract => "Subtract"
  | .multiply => "Multiply"
  | .divide => "Divide"
  | .mod => "Mod"
  | .round => "Round"
  | .mathOp => "MathOp"
  | .random => "Random"
  | .lt => "Lt"
  | .gt => "Gt"
  | .equals => "Equals"
  | .numLess => "NumLess"
  | .numGreater => "NumGreater"
  | .numEquals => "NumEquals"
  | .and => "And"
  | .or => "Or"
  | .not => "Not"
  | .join => "Join"
  | .letterOf => "LetterOf"
  | .length => "Length"
  | .contains => "Contains"
  | .jump => "Jump"
  | .jumpIfFalse => "JumpIfFalse"
  | .jumpIfTrue => "JumpIfTrue"
  | .queue => "Queue"
  | .forceQueue => "ForceQueue"
  | .finish => "End"
  | .endCall => "EndCall"
  | .call => "Call"
  | .broadcast => "Broadcast"
  | .broadcastAndWait => "BroadcastAndWait"
  | .running => "Running"
  | .sceneChanged => "SceneChanged"
  | .stop => "Stop"
  | .deleteClone => "DeleteClone"
  | .waitElapsed => "WaitElapsed"
  | .pushNow => "PushNow"
  | .visual => "Visual"
  | .callBuiltin => "CallBuiltin"

def ofName? (s : String) : Option Opcode :=
  all.find? fun o => o.name == s

def operandWords : Opcode → Nat
  | .pushNumber | .varWatch | .listWatch => 2
  | .call => 3
  | .pop | .toNumber | .toString | .toBoolean | .save | .restore | .add | .subtract
  | .multiply | .divide | .mod | .round | .random | .lt | .gt | .equals
  | .numLess | .numGreater | .numEquals | .and | .or | .not | .join | .letterOf
  | .length | .contains | .finish | .endCall | .broadcast | .broadcastAndWait | .running | .sceneChanged
  | .deleteClone | .pushNow => 0
  | _ => 1

def isTerminator : Opcode → Bool
  | .jump | .queue | .forceQueue | .finish | .endCall | .call => true
  | _ => false

def labelOperand? : Opcode → Option Nat
  | .queue | .forceQueue => some 0
  | .call => some 2
  | _ => none

def isJump : Opcode → Bool
  | .jump | .jumpIfFalse | .jumpIfTrue => true
  | _ => false

end Opcode

inductive StopMode where
  | all | thisScript | otherScripts
  deriving DecidableEq, Repr

def StopMode.modes : List StopMode := [.all,.thisScript,.otherScripts]

def StopMode.word : StopMode → UInt32
  | .all => 0
  | .thisScript => 1
  | .otherScripts => 2

def StopMode.ofWord? (w : UInt32) : Option StopMode :=
  StopMode.modes[w.toNat]?

/-- When a change counts as visible: never, if the target is visible or draws, if it is visible, always.
Later tiers include earlier ones. -/
inductive VisualTier where
  | none | drawing | visible | always
  deriving DecidableEq, Repr

namespace VisualTier

def tiers : List VisualTier := [.none,.drawing,.visible,.always]

def rank : VisualTier → Nat
  | .none => 0
  | .drawing => 1
  | .visible => 2
  | .always => 3

def word (t : VisualTier) : UInt32 :=
  UInt32.ofNat t.rank

def ofWord? (w : UInt32) : Option VisualTier :=
  tiers[w.toNat]?

def max (a b : VisualTier) : VisualTier :=
  if a.rank ≤ b.rank then b else a

end VisualTier

end SpriteMachine
