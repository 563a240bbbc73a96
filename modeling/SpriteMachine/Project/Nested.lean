import SpriteMachine.Project
import SpriteMachine.Project.Data
import SpriteMachine.Project.Renaming

/-!
Version 2 documents. The document is the stage, and the sprites are among its children. A block is an
array of its name and its arguments, which may be blocks themselves; a script is an array of blocks.
-/

namespace SpriteMachine.Nested

/-! Blocks -/

structure Filling where
  slots : List Slot := []
  fields : List (String × Field) := []

def Filling.append (f g : Filling) : Filling :=
  ⟨f.slots ++ g.slots,f.fields ++ g.fields⟩

def Filling.slot (name : String) (b : Option Block) : Filling :=
  { slots := (b.map (Slot.holding name)).toList }

def literal? : Json → Option Block
  | .null => none
  | .number n => some (.number n.text)
  | j => some (.text j.asText)

def fillLiteral (place : ArgumentPlace) (j : Json) : Filling :=
  let text := j.asText
  match place with
  | .input s => .slot s (literal? j)
  | .menu s menu => .slot s ((literal? j).map fun _ => .leaf menu [(s,{ value := text })])
  | .field name => { fields := [(name,{ value := text })] }
  | .variableName => { fields := [("VARIABLE",⟨text,some text⟩)] }
  | .listName => { fields := [("LIST",⟨text,some text⟩)] }
  | .message => .slot "BROADCAST_INPUT" (some (.messageNamed text text))
  | .substack _ => {}

def argumentId (i : Nat) : String :=
  s!"arg{i}"

def reporter? (opcode : String) (args : List Json) : Option Block :=
  let name := Json.textAt args 0
  match opcode with
  | "readVariable" => some (.variableNamed name name)
  | "contentsOfList:" => some (.listNamed name name)
  | "getParam" =>
    match (args[1]?).bind Json.string? with
    | some "b" => some (.leaf "argument_reporter_boolean" [("VALUE",{ value := name })])
    | _ => some (.leaf "argument_reporter_string_number" [("VALUE",{ value := name })])
  | _ => none

def callBlock (procedure : String) (slots : List Slot) : Block :=
  .mk "procedures_call" (some { procedure, argumentIds := slots.map Slot.name }) slots []

def renamedBlock (r : Renamed) (f : Filling) : Block :=
  let implied := (r.implied.map fun (name,value) => (name,({ value } : Field))).toList
  .mk r.opcode none f.slots (implied ++ f.fields)

mutual

def blockOf : List Json → Option Block
  | .string opcode :: args =>
    match reporter? opcode args with
    | some b => some b
    | none =>
      if opcode == "call" then
        match args with
        | [] => some (callBlock "" [])
        | name :: rest => some (callBlock name.asText (callSlots 0 rest))
      else
        match renamings.lookup opcode with
        | some r => some (renamedBlock r (fillAll r.places args))
        | none => some (.leaf opcode [])
  | _ => none

def blockOfJson : Json → Option Block
  | .array parts => blockOf parts
  | _ => none

def stackOf : List Json → List Block
  | [] => []
  | j :: js => (blockOfJson j).toList ++ stackOf js

def fill (place : ArgumentPlace) : Json → Filling
  | .array parts =>
    match place with
    | .input s | .menu s _ => .slot s (blockOf parts)
    | .message => .slot "BROADCAST_INPUT" (blockOf parts)
    | .substack s => { slots := [.mk s (stackOf parts) none] }
    | place => fillLiteral place (.array parts)
  | j => fillLiteral place j

def fillAll : List ArgumentPlace → List Json → Filling
  | place :: places, j :: js => (fill place j).append (fillAll places js)
  | _, _ => {}

def valueOf : Json → Option Block
  | .array parts => blockOf parts
  | j => literal? j

/-- The arguments of a call from the one with a number on. An empty one is the empty text. -/
def callSlots : Nat → List Json → List Slot
  | _, [] => []
  | i, j :: js => .holding (argumentId i) ((valueOf j).getD (.text "")) :: callSlots (i + 1) js

end

/-! Scripts -/

/-- The head of a procedure: its name, parameter names, defaults and whether it runs without yielding. -/
def prototype (hat : List Json) : Prototype :=
  let items := fun i => ((hat[i]?).bind Json.array?).getD []
  { procedure := Json.textAt hat 1
    parameters := (items 2).zipIdx.map fun (name,i) =>
      ⟨argumentId i,name.asText,Json.textAt (items 3) i⟩
    warp := (hat[4]?).any Json.isTrue }

def hat? (opcode : String) (hat : List Json) : Option Hat :=
  let text := Json.textAt hat 1
  match opcode with
  | "whenGreenFlag" => some .flag
  | "whenClicked" => some .clicked
  | "whenCloned" => some .startAsClone
  | "whenKeyPressed" => some (.key text)
  | "whenIReceive" => some (.message ⟨text,text⟩)
  | "whenSceneStarts" => some (.backdrop text)
  | "procDef" => some (.procedure (prototype hat))
  | _ => none

def stack? : List Json → Option Stack
  | [] => none
  | first :: rest => do
    let hat ← first.array?
    let opcode ← (← hat.head?).string?
    match hat? opcode hat with
    | some h => return ⟨h,stackOf rest⟩
    | none => return ⟨.other opcode,stackOf (first :: rest)⟩

/-- Scripts stand at a point of the screen, which is not looked at. -/
def placedStack? (j : Json) : Option Stack := do
  let blocks ← ((← j.array?)[2]?).bind Json.array?
  stack? blocks

/-! Targets -/

def variableDecl? (j : Json) : Option VariableDecl := do
  let name ← j.required "name" Json.string?
  return ⟨name,name,((j.get? "value").getD .null).asValue⟩

def listDecl? (j : Json) : Option ListDecl := do
  let name ← j.required "listName" Json.string?
  let items ← j.defaulted "contents" [] (Json.listOf some)
  return ⟨name,name,items.map Json.asValue⟩

def costume? (j : Json) : Option Costume := do
  return {
    name := ← j.required "costumeName" Json.string?
    centre := ⟨← j.defaulted "rotationCenterX" 0.0 Json.float?,
      ← j.defaulted "rotationCenterY" 0.0 Json.float?⟩
    resolution := (← j.optional "bitmapResolution" Json.float?).getD 1.0
    asset := ← j.optional "baseLayerMD5" Json.string? }

def sound? (j : Json) : Option Sound := do
  let rate ← j.defaulted "rate" 0 (Json.natural? 32)
  let samples ← j.defaulted "sampleCount" 0 (Json.natural? 32)
  return {
    name := ← j.required "soundName" Json.string?
    rate, samples
    decoded := rate > 0 && samples > 0
    asset := ← j.optional "md5" Json.string? }

def placement? (j : Json) : Option Placement := do
  let style ← j.optional "rotationStyle" Json.string?
  return {
    x := (← j.optional "scratchX" Json.float?).getD 0.0
    y := (← j.optional "scratchY" Json.float?).getD 0.0
    direction := (← j.optional "direction" Json.float?).getD 90.0
    size := (← j.optional "scale" Json.float?).getD 1.0 * 100.0
    visible := (← j.optional "visible" Json.bool?).getD true
    draggable := (← j.optional "isDraggable" Json.bool?).getD false
    rotation := (style.bind RotationStyle.ofName?).getD .allAround }

structure NestedTarget where
  declaration : Declaration
  children : List Json
  tempo : Option Float

def target? (isStage : Bool) (j : Json) : Option NestedTarget := do
  let name ← j.required "objName" Json.string?
  let vars ← j.defaulted "variables" [] (Json.listOf variableDecl?)
  let lists ← j.defaulted "lists" [] (Json.listOf listDecl?)
  let scripts ← j.defaulted "scripts" [] (Json.listOf some)
  let costumes ← j.defaulted "costumes" [] (Json.listOf costume?)
  let costume ← j.defaulted "currentCostumeIndex" 0.0 Json.float?
  let sounds ← j.defaulted "sounds" [] (Json.listOf sound?)
  let children ← j.defaulted "children" [] (Json.listOf some)
  let tempo ← j.optional "tempoBPM" Json.float?
  let volume ← j.optional "volume" Json.float?
  let placement ← placement? j
  return {
    declaration := {
      name, isStage, vars, lists, costumes, sounds
      scripts := scripts.filterMap placedStack?
      costume := Double.toIndex costume
      volume := volume.getD 100.0
      placement := if isStage then none else some placement }
    children, tempo }

def read (j : Json) : Except LoadError Project :=
  match target? true j with
  | some stage => .ok {
      stage := stage.declaration
      sprites := stage.children.filterMap fun child => (target? false child).map (·.declaration)
      tempo := stage.tempo.getD 60.0 }
  | none => .error .shape

end SpriteMachine.Nested
