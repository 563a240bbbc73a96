import SpriteMachine.Opcode
import SpriteMachine.Operator
import SpriteMachine.Handle
import SpriteMachine.Items.Action

/-!
Instructions: an opcode together with its operands.
-/

namespace SpriteMachine

inductive ArgumentForm where
  | plain | number | bool
  deriving DecidableEq, Repr

inductive Instr where
  | pushConstant (index : UInt32)
  | pushNumber (x : Float)
  | pushBool (b : Bool)
  | pop
  | unary (f : UnaryOperator)
  | binary (f : BinaryOperator)
  | random
  | pushVar (var : Handle)
  | setVar (var : Handle)
  | changeVar (var : Handle)
  | watchVar (var : Handle) (visible : Bool)
  | list (action : ListAction) (list : Handle)
  | watchList (list : Handle) (visible : Bool)
  | save
  | restore
  | pushLocal (slot : UInt32)
  | setLocal (slot : UInt32)
  | decLocal (slot : UInt32)
  | pushArg (form : ArgumentForm) (index : UInt32)
  | jump (target : UInt32)
  | jumpIf (wanted : Bool) (target : UInt32)
  | queue (label : UInt32)
  | forceQueue (label : UInt32)
  | finish
  | endCall
  | call (procedure argc ret : UInt32)
  | broadcast
  | broadcastAndWait
  | running
  | sceneChanged
  | stop (mode : UInt32)
  | deleteClone
  | waitElapsed (slot : UInt32)
  | pushNow
  | visual (tier : UInt32)
  | builtin (id : UInt32)

def numberOfWords (low high : UInt32) : Float :=
  Float.ofBits (low.toUInt64 ||| (high.toUInt64 <<< 32))

def wordsOfNumber (x : Float) : UInt32 × UInt32 :=
  (x.toBits.toUInt32,(x.toBits >>> 32).toUInt32)

/-- The instruction of an opcode, whose operands are the first of the three words. -/
def Instr.ofWords (op : Opcode) (a b c : UInt32) : Instr :=
  match op with
  | .pushConstant => .pushConstant a
  | .pushNumber => .pushNumber (numberOfWords a b)
  | .pushBool => .pushBool (a != 0)
  | .pop => .pop
  | .toNumber => .unary .toNumber
  | .toString => .unary .toText
  | .toBoolean => .unary .toBool
  | .pushVar => .pushVar ⟨a⟩
  | .setVar => .setVar ⟨a⟩
  | .changeVar => .changeVar ⟨a⟩
  | .varWatch => .watchVar ⟨a⟩ (b != 0)
  | .pushList => .list .contents ⟨a⟩
  | .listAdd => .list .add ⟨a⟩
  | .listDelete => .list .delete ⟨a⟩
  | .listDeleteAll => .list .clear ⟨a⟩
  | .listInsert => .list .insert ⟨a⟩
  | .listReplace => .list .replace ⟨a⟩
  | .listItem => .list .item ⟨a⟩
  | .listItemNum => .list .itemNumber ⟨a⟩
  | .listLength => .list .length ⟨a⟩
  | .listContains => .list .contains ⟨a⟩
  | .listWatch => .watchList ⟨a⟩ (b != 0)
  | .save => .save
  | .restore => .restore
  | .pushLocal => .pushLocal a
  | .setLocal => .setLocal a
  | .decLocal => .decLocal a
  | .pushArg => .pushArg .plain a
  | .pushArgNumber => .pushArg .number a
  | .pushArgBoolean => .pushArg .bool a
  | .add => .binary .add
  | .subtract => .binary .subtract
  | .multiply => .binary .multiply
  | .divide => .binary .divide
  | .mod => .binary .mod
  | .round => .unary .round
  | .mathOp => .unary (.math a)
  | .random => .random
  | .lt => .binary .less
  | .gt => .binary .greater
  | .equals => .binary .equals
  | .numLess => .binary .numberLess
  | .numGreater => .binary .numberGreater
  | .numEquals => .binary .numberEquals
  | .and => .binary .and
  | .or => .binary .or
  | .not => .unary .not
  | .join => .binary .join
  | .letterOf => .binary .letterOf
  | .length => .unary .length
  | .contains => .binary .contains
  | .jump => .jump a
  | .jumpIfFalse => .jumpIf false a
  | .jumpIfTrue => .jumpIf true a
  | .queue => .queue a
  | .forceQueue => .forceQueue a
  | .finish => .finish
  | .endCall => .endCall
  | .call => .call a b c
  | .broadcast => .broadcast
  | .broadcastAndWait => .broadcastAndWait
  | .running => .running
  | .sceneChanged => .sceneChanged
  | .stop => .stop a
  | .deleteClone => .deleteClone
  | .waitElapsed => .waitElapsed a
  | .pushNow => .pushNow
  | .visual => .visual a
  | .callBuiltin => .builtin a

end SpriteMachine
