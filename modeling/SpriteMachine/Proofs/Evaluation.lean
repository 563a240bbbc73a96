import Mathlib
import SpriteMachine.Compile.Symbols
import SpriteMachine.Palette

/-!
The value of an expression, by recursion over its tree. Operands are evaluated from left to right. A slot gives
the value of its block, or the empty text; where a number, a text or a truth value is wanted the value is read as
one.
-/

namespace SpriteMachine

/-- What is computed from operands, and what is read from lists, arguments and a menu. -/
inductive Operation where
  | add | subtract | multiply | divide | mod | random | less | greater | equals | and | or | not
  | join | letterOf | length | contains | round | math
  | item | itemNumber | listLength | listContains
  | argument | boolArgument | message
  deriving DecidableEq, Repr

namespace Operation

def all : List Operation := [
  .add,.subtract,.multiply,.divide,.mod,.random,.less,.greater,.equals,.and,.or,.not,
  .join,.letterOf,.length,.contains,.round,.math,.item,.itemNumber,.listLength,.listContains,
  .argument,.boolArgument,.message]

def opcode : Operation → String
  | .add => "operator_add"
  | .subtract => "operator_subtract"
  | .multiply => "operator_multiply"
  | .divide => "operator_divide"
  | .mod => "operator_mod"
  | .random => "operator_random"
  | .less => "operator_lt"
  | .greater => "operator_gt"
  | .equals => "operator_equals"
  | .and => "operator_and"
  | .or => "operator_or"
  | .not => "operator_not"
  | .join => "operator_join"
  | .letterOf => "operator_letter_of"
  | .length => "operator_length"
  | .contains => "operator_contains"
  | .round => "operator_round"
  | .math => "operator_mathop"
  | .item => "data_itemoflist"
  | .itemNumber => "data_itemnumoflist"
  | .listLength => "data_lengthoflist"
  | .listContains => "data_listcontainsitem"
  | .argument => "argument_reporter_string_number"
  | .boolArgument => "argument_reporter_boolean"
  | .message => "event_broadcast_menu"

def ofOpcode? (s : String) : Option Operation :=
  all.find? fun o => o.opcode == s

end Operation

/-- What an expression can read: the tables of the target and of the stage, and the arguments of the procedure
with the names of its parameters. -/
structure World where
  own : DataTables
  stage : DataTables
  params : List String
  args : Array Value

namespace World

def tables (w : World) (h : Handle) : DataTables :=
  if h.isStage then w.stage else w.own

def variableAt (w : World) (h : Handle) : Value :=
  (((w.tables h).vars.get? h.index).map Variable.value).getD default

def listAt (w : World) (h : Handle) : Items :=
  (((w.tables h).lists.get? h.index).map ListVariable.list).getD .empty

/-- The argument for the parameter with a name. -/
def argument? (w : World) (name : String) : Option Value :=
  (Palette.paramIndex? w.params name).map fun i => w.args[i.toNat]?.getD default

end World

/-- The same symbols without warnings. -/
def Symbols.quiet (s : Symbols) : Symbols :=
  { s with warnings := {} }

/-- What evaluating changes: names that are not known are declared, and random numbers are drawn. -/
structure EvalState where
  symbols : Symbols
  random : Random

abbrev Eval := StateM EvalState

namespace Eval

/-- Resolves a name. -/
def resolve (find : Symbols → Handle × Symbols) : Eval Handle := fun s =>
  ((find s.symbols).1,{ s with symbols := (find s.symbols).2.quiet })

def draw {α : Type} (f : Random → α × Random) : Eval α := fun s =>
  ((f s.random).1,{ s with random := (f s.random).2 })

def variableNamed (w : World) (r : Reference) : Eval Value := do
  return w.variableAt (← resolve (·.variableHandle r))

def listNamed (w : World) (r : Reference) : Eval Items := do
  return w.listAt (← resolve (·.listHandle r))

end Eval

/-- A slot of a block, with the value of the block in it. -/
structure SlotValue where
  name : String
  value : Option (Eval Value)

namespace SlotValue

def input (slots : List SlotValue) (name : String) : Eval Value :=
  ((slots.find? fun s => s.name == name).bind SlotValue.value).getD (pure (.text ""))

def number (slots : List SlotValue) (name : String) : Eval Float :=
  Value.toNumber <$> input slots name

def text (slots : List SlotValue) (name : String) : Eval String :=
  Value.toText <$> input slots name

def condition (slots : List SlotValue) (name : String) : Eval Bool :=
  Value.toBool <$> input slots name

end SlotValue

def Primitive.value (w : World) : Primitive → Eval Value
  | .text s => return .text s
  | .number written => return ((literalNumber? written).map .number).getD (.text written)
  | .colour written => return .number (((literalColour? written).map fun c => Float.ofNat c.toNat).getD 0.0)
  | .variableOf r => Eval.variableNamed w r
  | .listOf r => return .text (← Eval.listNamed w r).contents
  | .messageOf r => return .text r.name

open SlotValue

/-- Compares two slots. A number that is written on the left side is compared in its own way. -/
def comparison (b : Block) (slots : List SlotValue) (general : Value → Value → Bool)
    (numeric : Float → Value → Bool) : Eval Value :=
  match (b.slot? "OPERAND1").bind Slot.literal? with
  | some x => do return .bool (numeric x (← input slots "OPERAND2"))
  | none => do
    let x ← input slots "OPERAND1"
    let y ← input slots "OPERAND2"
    return .bool (general x y)

/-- Arithmetic that has no result gives zero. -/
def arithmetic (slots : List SlotValue) (f : Float → Float → Float) : Eval Value := do
  let x ← number slots "NUM1"
  let y ← number slots "NUM2"
  return .number (zeroIfNaN (f x y))

/-- Reads the list that a block names; a block that names none has another value. -/
def ofList (w : World) (b : Block) (otherwise : Value) (f : Items → Eval Value) : Eval Value :=
  match b.field? "LIST" with
  | some field => do f (← Eval.listNamed w field.reference)
  | none => return otherwise

def Operation.value (w : World) (b : Block) (slots : List SlotValue) : Operation → Eval Value
  | .add => arithmetic slots (· + ·)
  | .subtract => arithmetic slots (· - ·)
  | .multiply => arithmetic slots (· * ·)
  | .divide => arithmetic slots (· / ·)
  | .mod => do
    let x ← number slots "NUM1"
    let y ← number slots "NUM2"
    return .number (Double.floorMod x y)
  | .random => do
    let x ← input slots "FROM"
    let y ← input slots "TO"
    return .number (← Eval.draw (Random.between x y))
  | .less => comparison b slots (fun x y => x.compare y == .lt) Value.numberLess
  | .greater => comparison b slots (fun x y => x.compare y == .gt) Value.numberGreater
  | .equals => comparison b slots Value.equal Value.numberEqual
  | .and => do
    let x ← condition slots "OPERAND1"
    let y ← condition slots "OPERAND2"
    return .bool (x && y)
  | .or => do
    let x ← condition slots "OPERAND1"
    let y ← condition slots "OPERAND2"
    return .bool (x || y)
  | .not => do return .bool !(← condition slots "OPERAND")
  | .join => do
    let x ← text slots "STRING1"
    let y ← text slots "STRING2"
    return .text (x ++ y)
  | .letterOf => do
    let i ← number slots "LETTER"
    let s ← text slots "STRING"
    return .text (letterAt i s)
  | .length => do return .ofNat (Text.clusters (← text slots "STRING")).length
  | .contains => do
    let x ← text slots "STRING1"
    let y ← text slots "STRING2"
    return .bool (holdsText x y)
  | .round => do return .number ((← number slots "NUM") + 0.5).floor
  | .math =>
    match MathFunction.ofName? (Text.lower (b.fieldText "OPERATOR")) with
    | some f => do return .number (f.apply (← number slots "NUM"))
    | none => return .number 0.0
  | .item => ofList w b (.text "") fun l => do
    let index ← input slots "INDEX"
    Eval.draw (l.item index)
  | .itemNumber => ofList w b (.number 0.0) fun l => do return .ofNat (l.indexOf (← input slots "ITEM"))
  | .listLength => ofList w b (.number 0.0) fun l => return .ofNat l.length
  | .listContains => ofList w b (.bool false) fun l => do return .bool (l.contains (← input slots "ITEM"))
  | .argument => return (w.argument? (b.fieldText "VALUE")).getD (.number 0.0)
  | .boolArgument => return .bool (((w.argument? (b.fieldText "VALUE")).map Value.toBool).getD false)
  | .message => return .text (b.fieldText "BROADCAST_OPTION")

/-- The value of a block, given those of its slots. A block that is not known has the empty text. -/
def reporterValue (w : World) (b : Block) (slots : List SlotValue) : Eval Value :=
  match b.primitive? with
  | some p => p.value w
  | none =>
    match Operation.ofOpcode? b.opcode with
    | some o => o.value w b slots
    | none => return .text ""

mutual

def evaluate (w : World) : Block → Eval Value
  | .mk opcode mutation slots fields => reporterValue w (.mk opcode mutation slots fields) (slotValues w slots)

def slotValues (w : World) : List Slot → List SlotValue
  | [] => []
  | s :: rest => slotValue w s :: slotValues w rest

def slotValue (w : World) : Slot → SlotValue
  | .mk name blocks shadow => ⟨name,firstValue w blocks <|> shadowValue w shadow⟩

def firstValue (w : World) : List Block → Option (Eval Value)
  | [] => none
  | b :: _ => some (evaluate w b)

def shadowValue (w : World) : Option Block → Option (Eval Value)
  | none => none
  | some b => some (evaluate w b)

end

/-- Whether the palette has a reporter with an opcode. -/
def Palette.reports (opcode : String) : Bool :=
  (find? opcode).any fun e => e.1.reporter

mutual

/-- Whether a block and all that give it values are primitives, operations or not known. -/
def isExpression : Block → Bool
  | .mk opcode mutation slots fields =>
    ((Block.mk opcode mutation slots fields).primitive?.isSome || (Operation.ofOpcode? opcode).isSome ||
      !Palette.reports opcode) && areExpressions slots

def areExpressions : List Slot → Bool
  | [] => true
  | s :: rest => isExpressionSlot s && areExpressions rest

def isExpressionSlot : Slot → Bool
  | .mk _ blocks shadow => startsWithExpression blocks && (!blocks.isEmpty || isExpressionShadow shadow)

def startsWithExpression : List Block → Bool
  | [] => true
  | b :: _ => isExpression b

def isExpressionShadow : Option Block → Bool
  | none => true
  | some b => isExpression b

end

end SpriteMachine
