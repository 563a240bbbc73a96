import SpriteMachine.Value.Numeral

/-!
Blocks: the trees that scripts are made of. A block has named slots that hold other blocks, and named
fields that hold texts.
-/

namespace SpriteMachine

/-- A variable, list or message as a block names it. -/
structure Reference where
  id : String
  name : String
  deriving DecidableEq, Repr

/-- The text of a field, and the id of what it names, if it has one. -/
structure Field where
  value : String
  id : Option String := none
  deriving DecidableEq, Repr

def Field.reference (f : Field) : Reference :=
  ⟨f.id.getD f.value,f.value⟩

/-- What the call of a procedure says about it. -/
structure Mutation where
  procedure : String := ""
  /-- The slots of the arguments, in the order of the arguments. -/
  argumentIds : List String := []
  warp : Bool := false
  deriving DecidableEq, Repr

mutual

inductive Block where
  | mk (opcode : String) (mutation : Option Mutation) (slots : List Slot) (fields : List (String × Field))

/-- A slot with the blocks that were put into it, and the block that shows while it is empty. -/
inductive Slot where
  | mk (name : String) (blocks : List Block) (shadow : Option Block)

end

namespace Slot

def name : Slot → String
  | .mk name _ _ => name

def blocks : Slot → List Block
  | .mk _ blocks _ => blocks

def shadow : Slot → Option Block
  | .mk _ _ shadow => shadow

def holding (name : String) (b : Block) : Slot :=
  .mk name [b] none

def value? : Slot → Option Block
  | .mk _ (b :: _) _ => some b
  | .mk _ [] shadow => shadow

end Slot

/-- A block that stands for a value by itself. -/
inductive Primitive where
  | text (s : String)
  | number (written : String)
  | colour (written : String)
  | variableOf (r : Reference)
  | listOf (r : Reference)
  | messageOf (r : Reference)
  deriving DecidableEq, Repr

namespace Block

def opcode : Block → String
  | .mk opcode _ _ _ => opcode

def mutation : Block → Option Mutation
  | .mk _ mutation _ _ => mutation

def slots : Block → List Slot
  | .mk _ _ slots _ => slots

def fields : Block → List (String × Field)
  | .mk _ _ _ fields => fields

def leaf (opcode : String) (fields : List (String × Field)) : Block :=
  .mk opcode none [] fields

def text (s : String) : Block :=
  leaf "text" [("TEXT",⟨s,none⟩)]

def number (written : String) : Block :=
  leaf "math_number" [("NUM",⟨written,none⟩)]

def variableNamed (id name : String) : Block :=
  leaf "data_variable" [("VARIABLE",⟨name,some id⟩)]

def listNamed (id name : String) : Block :=
  leaf "data_listcontents" [("LIST",⟨name,some id⟩)]

def messageNamed (id name : String) : Block :=
  leaf "event_broadcast_menu" [("BROADCAST_OPTION",⟨name,some id⟩)]

def slot? (b : Block) (name : String) : Option Slot :=
  b.slots.find? fun s => s.name == name

def field? (b : Block) (name : String) : Option Field :=
  (b.fields.find? fun f => f.1 == name).map Prod.snd

def fieldText (b : Block) (name : String) : String :=
  match b.field? name with
  | some f => f.value
  | none => ""

/-- The primitive that a block is, if it is one and has the field for it. -/
def primitive? (b : Block) : Option Primitive :=
  match b.opcode with
  | "text" => (b.field? "TEXT").map fun f => .text f.value
  | "math_number" | "math_integer" | "math_whole_number" | "math_positive_number" | "math_angle" =>
    (b.field? "NUM").map fun f => .number f.value
  | "colour_picker" => (b.field? "COLOUR").map fun f => .colour f.value
  | "data_variable" => (b.field? "VARIABLE").map fun f => .variableOf f.reference
  | "data_listcontents" => (b.field? "LIST").map fun f => .listOf f.reference
  | "event_broadcast_menu" => (b.field? "BROADCAST_OPTION").map fun f => .messageOf f.reference
  | _ => none

end Block

/-- The number that is written in a slot, if its value is a number literal. -/
def Slot.literal? (s : Slot) : Option Float :=
  match s.value?.bind Block.primitive? with
  | some (.number written) => literalNumber? written
  | _ => none

end SpriteMachine
