import SpriteMachine.Palette

/-!
Expanding block trees into directives. Every block gives two lists, one for a block that is run and one for
a block whose value is wanted; each is put together from the lists of the blocks in its slots.
-/

namespace SpriteMachine

structure BlockCode where
  statement : List Directive
  reporter : List Directive

structure SlotCode where
  name : String
  value : Option Block
  /-- Pushes the value, if there is one. -/
  reporter : List Directive
  statements : List Directive

namespace SlotCode

def inputCode : Option SlotCode → List Directive
  | some { value := some _, reporter, .. } => reporter
  | _ => [.pushText ""]

def param? (params : List String) (opcode : String) (b : Block) : Option UInt32 :=
  if b.opcode == opcode then (b.field? "VALUE").bind fun f => Palette.paramIndex? params f.value else none

def literal? (b : Block) : Option Float :=
  match b.primitive? with
  | some (.number written) => literalNumber? written
  | _ => none

def numberCode (params : List String) : Option SlotCode → List Directive
  | some { value := some b, reporter, .. } =>
    match literal? b, param? params "argument_reporter_string_number" b with
    | some x, _ => [.pushNumber x]
    | none, some i => [.op .pushArgNumber [i]]
    | none, none => reporter ++ [.op .toNumber []]
  | _ => [.pushNumber 0.0]

def textCode (s : Option SlotCode) : List Directive :=
  match (s.bind SlotCode.value).bind Block.primitive? with
  | some (.text t) => [.pushText t]
  | _ => inputCode s ++ [.op .toString []]

def conditionCode (params : List String) : Option SlotCode → List Directive
  | some { value := some b, reporter, .. } =>
    match param? params "argument_reporter_boolean" b with
    | some i => [.op .pushArgBoolean [i]]
    | none => reporter
  | _ => [.pushBool false]

def substackCode : Option SlotCode → List Directive
  | some s => s.statements
  | none => []

end SlotCode

def primitiveCode : Primitive → List Directive
  | .text s => [.pushText s]
  | .number written =>
    match literalNumber? written with
    | some x => [.pushNumber x]
    | none => [.pushText written]
  | .colour written =>
    match literalColour? written with
    | some rgb => [.pushNumber (Float.ofNat rgb.toNat)]
    | none => [.warn s!"expected hex color code but got {written}",.pushNumber 0.0]
  | .variableOf r => [.pushVariable r]
  | .listOf r => [.pushList r]
  | .messageOf r => [.pushText r.name]

def callEntryCode (opcode : String) : List Directive :=
  match Palette.indexOf? opcode with
  | some id => [.op .callBuiltin [UInt32.ofNat id]]
  | none => [.warn s!"missing helper {opcode}"]

def stepCode (params : List String) (slots : List SlotCode) (e : Entry) (id : Nat) : Step → List Directive
  | .input s => SlotCode.inputCode (find s)
  | .number s => SlotCode.numberCode params (find s)
  | .text s => SlotCode.textCode (find s)
  | .condition s => SlotCode.conditionCode params (find s)
  | .substack s => SlotCode.substackCode (find s)
  | .inputs => e.inputs.flatMap fun s => SlotCode.inputCode (find s)
  | .callSelf => [.op .callBuiltin [UInt32.ofNat id]]
  | .callEntry opcode => callEntryCode opcode
  | .emit d => [d]
where
  find (name : String) : Option SlotCode :=
    slots.find? fun s => s.name == name

def entryCode (site : Site) (slots : List SlotCode) (e : Entry) (id : Nat) : List Directive :=
  let steps :=
    match e.recipe with
    | some recipe => recipe site
    | none => [.inputs,.callSelf]
  .enter :: steps.flatMap (stepCode site.params slots e id) ++ [.leave]

/-- Blocks that are not known as statements are left out with a warning. -/
def statementCode (site : Site) (slots : List SlotCode) : List Directive :=
  match Palette.find? site.block.opcode with
  | some (e,id) =>
    if e.reporter then [.warn s!"unknown statement {site.block.opcode}"] else entryCode site slots e id
  | none => [.warn s!"unknown statement {site.block.opcode}"]

/-- Blocks that are not known as reporters have the empty text, with a warning. -/
def reporterCode (site : Site) (slots : List SlotCode) : List Directive :=
  let unknown := [.warn s!"unknown expression {site.block.opcode}",.pushText ""]
  match site.block.primitive? with
  | some p => primitiveCode p
  | none =>
    match Palette.find? site.block.opcode with
    | some (e,id) => if e.reporter then entryCode site slots e id else unknown
    | none => unknown

mutual

def expand (params : List String) : Block → BlockCode
  | .mk opcode mutation slots fields =>
    let site : Site := ⟨.mk opcode mutation slots fields,params⟩
    let codes := expandSlots params slots
    ⟨statementCode site codes,reporterCode site codes⟩

def expandSlots (params : List String) : List Slot → List SlotCode
  | [] => []
  | s :: rest => expandSlot params s :: expandSlots params rest

def expandSlot (params : List String) : Slot → SlotCode
  | .mk name blocks shadow =>
    let codes := expandBlocks params blocks
    let shadowCode := expandShadow params shadow
    { name
      value := blocks.head? <|> shadow
      reporter := ((codes.head? <|> shadowCode).map BlockCode.reporter).getD []
      statements := codes.flatMap BlockCode.statement }

def expandBlocks (params : List String) : List Block → List BlockCode
  | [] => []
  | b :: rest => expand params b :: expandBlocks params rest

def expandShadow (params : List String) : Option Block → Option BlockCode
  | none => none
  | some b => some (expand params b)

end

def expandStack (params : List String) (blocks : List Block) : List Directive :=
  (expandBlocks params blocks).flatMap BlockCode.statement

end SpriteMachine
