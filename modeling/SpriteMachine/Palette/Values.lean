import SpriteMachine.MathFunction
import SpriteMachine.Palette.Entry
import SpriteMachine.Text.Case

/-!
Blocks that compute with values, and those for variables and lists.
-/

namespace SpriteMachine.Palette

open Step Entry

def binary (form : String → Step) (first second : String) (o : Opcode) : Recipe := fun _ =>
  [form first,form second,op o]

def unary (operand : Step) (o : Opcode) : Recipe := fun _ =>
  [operand,op o]

/-- A number that is written on the left side has instructions of its own. -/
def comparison (general numeric : Opcode) : Recipe := fun s =>
  match (s.block.slot? "OPERAND1").bind Slot.literal? with
  | some x => [pushNumber x,input "OPERAND2",op numeric]
  | none => [input "OPERAND1",input "OPERAND2",op general]

def mathFunction : Recipe := fun s =>
  let name := s.field "OPERATOR"
  match MathFunction.ofName? (Text.lower name) with
  | some f => [number "NUM",op .mathOp [f.word]]
  | none => [warn s!"unknown math function {name}",pushNumber 0.0]

def operators : List Entry := [
  value "operator_add" (binary number "NUM1" "NUM2" .add),
  value "operator_subtract" (binary number "NUM1" "NUM2" .subtract),
  value "operator_multiply" (binary number "NUM1" "NUM2" .multiply),
  value "operator_divide" (binary number "NUM1" "NUM2" .divide),
  value "operator_mod" (binary number "NUM1" "NUM2" .mod),
  value "operator_random" (binary input "FROM" "TO" .random),
  value "operator_lt" (comparison .lt .numLess),
  value "operator_gt" (comparison .gt .numGreater),
  value "operator_equals" (comparison .equals .numEquals),
  value "operator_and" (binary condition "OPERAND1" "OPERAND2" .and),
  value "operator_or" (binary condition "OPERAND1" "OPERAND2" .or),
  value "operator_not" (unary (condition "OPERAND") .not),
  value "operator_join" (binary text "STRING1" "STRING2" .join),
  value "operator_letter_of" fun _ => [number "LETTER",text "STRING",op .letterOf],
  value "operator_length" (unary (text "STRING") .length),
  value "operator_contains" (binary text "STRING1" "STRING2" .contains),
  value "operator_round" (unary (number "NUM") .round),
  value "operator_mathop" mathFunction]

/-- Steps for the variable that a block names; without one there is a warning. -/
def withVariable (operands : List Step) (o : Opcode) (extra : List UInt32 := []) : Recipe := fun s =>
  match s.block.field? "VARIABLE" with
  | some f => .emit (.bindVariable f.reference) :: operands ++ [.emit (.bound o extra)]
  | none => [warn s!"{s.block.opcode} without a variable"]

/-- Steps for the list that a block names; without one there is a warning and perhaps a value. -/
def withList (operands : List Step) (o : Opcode) (extra : List UInt32 := []) (otherwise : List Step := []) :
    Recipe := fun s =>
  match s.block.field? "LIST" with
  | some f => .emit (.bindList f.reference) :: operands ++ [.emit (.bound o extra)]
  | none => warn s!"{s.block.opcode} without a list" :: otherwise

def data : List Entry := [
  statement "data_setvariableto" (withVariable [input "VALUE"] .setVar),
  statement "data_changevariableby" (withVariable [number "VALUE"] .changeVar),
  statement "data_showvariable" (withVariable [] .varWatch [1]),
  statement "data_hidevariable" (withVariable [] .varWatch [0]),
  statement "data_showlist" (withList [] .listWatch [1]),
  statement "data_hidelist" (withList [] .listWatch [0]),
  statement "data_addtolist" (withList [input "ITEM"] .listAdd),
  statement "data_deleteoflist" (withList [input "INDEX"] .listDelete),
  statement "data_deletealloflist" (withList [] .listDeleteAll),
  statement "data_insertatlist" (withList [input "ITEM",input "INDEX"] .listInsert),
  statement "data_replaceitemoflist" (withList [input "INDEX",input "ITEM"] .listReplace),
  value "data_itemoflist" (withList [input "INDEX"] .listItem [] [pushText ""]),
  value "data_itemnumoflist" (withList [input "ITEM"] .listItemNum [] [pushNumber 0.0]),
  value "data_lengthoflist" (withList [] .listLength [] [pushNumber 0.0]),
  value "data_listcontainsitem" (withList [input "ITEM"] .listContains [] [pushBool false])]

end SpriteMachine.Palette
