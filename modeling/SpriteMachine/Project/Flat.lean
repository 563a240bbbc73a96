import SpriteMachine.Json.Reader
import SpriteMachine.Project
import SpriteMachine.Project.Data

/-!
Version 3 documents. The blocks of a target are a flat map: a block names the one that follows it and
those in its slots by their ids. Following the ids gives trees, unless they lead back to a block from
itself, which no document should do.
-/

namespace SpriteMachine.Flat

structure FlatMutation where
  procedure : Option String
  ids : Option String
  names : Option String
  defaults : Option String
  warp : Option Json

structure FlatBlock where
  opcode : String
  next : Option String
  inputs : List (String × Json)
  fields : List (String × Json)
  topLevel : Bool
  mutation : Option FlatMutation

/-- An entry of the map: a block, or a value that lies about. -/
inductive Entry where
  | block (b : FlatBlock)
  | primitive (parts : List Json)

abbrev BlockMap := List (String × Entry)

/-! Shapes -/

def mutation? (j : Json) : Option FlatMutation := do
  if !j.isObject then none
  return {
    procedure := ← j.optional "proccode" Json.string?
    ids := ← j.optional "argumentids" Json.string?
    names := ← j.optional "argumentnames" Json.string?
    defaults := ← j.optional "argumentdefaults" Json.string?
    warp := ← j.optional "warp" some }

def flatBlock? (j : Json) : Option FlatBlock := do
  return {
    opcode := ← j.required "opcode" Json.string?
    next := ← j.optional "next" Json.string?
    inputs := ← j.defaulted "inputs" [] (Json.mapOf some)
    fields := ← j.defaulted "fields" [] (Json.mapOf some)
    topLevel := ← j.defaulted "topLevel" false Json.bool?
    mutation := ← j.optional "mutation" mutation? }

def entry? : Json → Option Entry
  | .array parts => some (.primitive parts)
  | j => (flatBlock? j).map .block

def costume? (j : Json) : Option Costume := do
  let md5ext ← j.optional "md5ext" Json.string?
  let assetId ← j.optional "assetId" Json.string?
  return {
    name := ← j.required "name" Json.string?
    centre := ⟨← j.defaulted "rotationCenterX" 0.0 Json.float?,
      ← j.defaulted "rotationCenterY" 0.0 Json.float?⟩
    resolution := (← j.optional "bitmapResolution" Json.float?).getD 1.0
    asset := md5ext <|> assetId }

def sound? (j : Json) : Option Sound := do
  let rate ← j.defaulted "rate" 0 (Json.natural? 32)
  let samples ← j.defaulted "sampleCount" 0 (Json.natural? 32)
  let md5ext ← j.optional "md5ext" Json.string?
  let assetId ← j.optional "assetId" Json.string?
  return {
    name := ← j.required "name" Json.string?
    rate, samples
    decoded := rate > 0 && samples > 0
    asset := md5ext <|> assetId }

/-! Blocks -/

def encodedTexts (s : Option String) : List String :=
  match (s.bind Json.parse).bind Json.array? with
  | some items => items.map Json.asText
  | none => []

def field? (j : Json) : Option Field := do
  let parts ← j.array?
  let value ← parts.head?
  return { value := value.asText, id := (parts[1]?).bind Json.string? }

/-- A primitive is an array of its kind, its value and perhaps an id. -/
def primitive? (parts : List Json) : Option Block := do
  let kind ← (← parts.head?).natural? 8
  let value := Json.textAt parts 1
  let id := if parts.length > 2 then Json.textAt parts 2 else value
  match kind with
  | 4 => some (.leaf "math_number" [("NUM",{ value })])
  | 5 => some (.leaf "math_positive_number" [("NUM",{ value })])
  | 6 => some (.leaf "math_whole_number" [("NUM",{ value })])
  | 7 => some (.leaf "math_integer" [("NUM",{ value })])
  | 8 => some (.leaf "math_angle" [("NUM",{ value })])
  | 9 => some (.leaf "colour_picker" [("COLOUR",{ value })])
  | 10 => some (.text value)
  | 11 => some (.messageNamed id value)
  | 12 => some (.variableNamed id value)
  | 13 => some (.listNamed id value)
  | _ => none

/-- The blocks of one part of a slot: those from an id on, or a primitive. -/
def part? (follow : String → Option (List Block)) : Option Json → Option (List Block)
  | some (.string id) => follow id
  | some (.array parts) => some (primitive? parts).toList
  | _ => some []

/-- A slot is an array: 1 and a shadow, 2 and blocks, or 3, blocks and a shadow. Other slots are left out. -/
def slot? (follow : String → Option (List Block)) (name : String) (j : Json) : Option (Option Slot) :=
  match j.array? with
  | none => some none
  | some parts =>
    match (parts.head?).bind (Json.natural? 8) with
    | some 1 => do
      let shadow ← part? follow parts[1]?
      return some (.mk name [] shadow.head?)
    | some 2 => do
      let blocks ← part? follow parts[1]?
      return some (.mk name blocks none)
    | some 3 => do
      let blocks ← part? follow parts[1]?
      let shadow ← part? follow parts[2]?
      return some (.mk name blocks shadow.head?)
    | _ => some none

def FlatMutation.convert (m : FlatMutation) : Mutation where
  procedure := m.procedure.getD ""
  argumentIds := encodedTexts m.ids
  warp := m.warp.any Json.isTrue

def fieldsOf (b : FlatBlock) : List (String × Field) :=
  b.fields.filterMap fun (name,j) => (field? j).map (name,·)

def blockOf (follow : String → Option (List Block)) (b : FlatBlock) : Option Block := do
  let slots ← b.inputs.mapM fun (name,j) => slot? follow name j
  return .mk b.opcode (b.mutation.map FlatMutation.convert) (slots.filterMap id) (fieldsOf b)

/-- The blocks from an id on. The budget bounds how many ids a path may have; `none` if that is not enough. -/
def chain (blocks : BlockMap) : Nat → String → Option (List Block)
  | 0, _ => none
  | budget + 1, id =>
    match blocks.lookup id with
    | none => some []
    | some (.primitive parts) => some (primitive? parts).toList
    | some (.block b) => do
      let head ← blockOf (chain blocks budget) b
      let rest ←
        match b.next with
        | some next => chain blocks budget next
        | none => some []
      return head :: rest

/-- A path without a repetition has at most every id of the map and one that is missing. -/
def follow (blocks : BlockMap) (id : String) : Option (List Block) :=
  chain blocks (blocks.length + 1) id

/-! Scripts -/

def prototype? (blocks : BlockMap) (definition : FlatBlock) : Option Prototype := do
  let input ← definition.inputs.lookup "custom_block"
  let id ← ((← input.array?)[1]?).bind Json.string?
  match blocks.lookup id with
  | some (.block b) =>
    let m ← b.mutation
    let names := (encodedTexts m.ids).zip (encodedTexts m.names)
    let defaults := encodedTexts m.defaults
    return {
      procedure := m.procedure.getD ""
      parameters := names.zipIdx.map fun ((id,name),i) => ⟨id,name,defaults[i]?.getD ""⟩
      warp := m.warp.any Json.isTrue }
  | _ => none

def hat? (blocks : BlockMap) (b : FlatBlock) : Option Hat :=
  let field := fun name => (b.fields.lookup name).bind field?
  let text := fun name => ((field name).map Field.value).getD ""
  match b.opcode with
  | "event_whenflagclicked" => some .flag
  | "event_whenthisspriteclicked" | "event_whenstageclicked" => some .clicked
  | "control_start_as_clone" => some .startAsClone
  | "event_whenkeypressed" => some (.key (text "KEY_OPTION"))
  | "event_whenbroadcastreceived" =>
    match field "BROADCAST_OPTION" with
    | some f => some (.message f.reference)
    | none => some (.other b.opcode)
  | "event_whenbackdropswitchesto" => some (.backdrop (text "BACKDROP"))
  | "procedures_definition" =>
    match prototype? blocks b with
    | some p => some (.procedure p)
    | none => some (.other b.opcode)
  | _ => none

/-- The script of a top block. Without a hat, the block itself is the first of the script. -/
def stack? (blocks : BlockMap) (id : String) (b : FlatBlock) : Option Stack := do
  match hat? blocks b with
  | some hat =>
    match b.next with
    | some next => return ⟨hat,← follow blocks next⟩
    | none => return ⟨hat,[]⟩
  | none => return ⟨.other b.opcode,← follow blocks id⟩

def scripts? (blocks : BlockMap) : Option (List Stack) :=
  (blocks.filterMap fun (id,e) =>
    match e with
    | .block b => if b.topLevel then some (id,b) else none
    | .primitive _ => none).mapM fun (id,b) => stack? blocks id b

/-! Targets -/

def variableDecl? (id : String) : Json → Option VariableDecl
  | .array (name :: value :: _) => some ⟨id,name.asText,value.asValue⟩
  | _ => none

def listDecl? (id : String) : Json → Option ListDecl
  | .array (name :: .array items :: _) => some ⟨id,name.asText,items.map Json.asValue⟩
  | _ => none

structure FlatTarget where
  declaration : Declaration
  blocks : BlockMap
  layer : Int
  tempo : Option Float

def placement? (j : Json) : Option Placement := do
  let style ← j.optional "rotationStyle" Json.string?
  return {
    x := (← j.optional "x" Json.float?).getD 0.0
    y := (← j.optional "y" Json.float?).getD 0.0
    direction := (← j.optional "direction" Json.float?).getD 90.0
    size := (← j.optional "size" Json.float?).getD 100.0
    visible := (← j.optional "visible" Json.bool?).getD true
    draggable := (← j.optional "draggable" Json.bool?).getD false
    rotation := (style.bind RotationStyle.ofName?).getD .allAround }

def target? (j : Json) : Option FlatTarget := do
  let isStage ← j.required "isStage" Json.bool?
  let name ← j.required "name" Json.string?
  let vars ← j.defaulted "variables" [] (Json.mapOf some)
  let lists ← j.defaulted "lists" [] (Json.mapOf some)
  let blocks ← j.defaulted "blocks" [] (Json.mapOf entry?)
  let costume ← j.defaulted "currentCostume" 0 (Json.natural? 64)
  let costumes ← j.defaulted "costumes" [] (Json.listOf costume?)
  let sounds ← j.defaulted "sounds" [] (Json.listOf sound?)
  let volume ← j.defaulted "volume" 100.0 Json.float?
  let layer ← j.defaulted "layerOrder" 0 (Json.signed? 64)
  let tempo ← j.optional "tempo" Json.float?
  let placement ← placement? j
  return {
    declaration := {
      name, isStage, costumes, costume, sounds, volume
      vars := vars.filterMap fun (id,j) => variableDecl? id j
      lists := lists.filterMap fun (id,j) => listDecl? id j
      placement := if isStage then none else some placement }
    blocks, layer, tempo }

def FlatTarget.declare (t : FlatTarget) : Except LoadError Declaration :=
  match scripts? t.blocks with
  | some scripts => .ok { t.declaration with scripts }
  | none => .error .cyclic

def FlatTarget.isStage (t : FlatTarget) : Bool :=
  t.declaration.isStage

/-- The project of some targets: the first stage by layer, then the sprites by layer. -/
def ofTargets (targets : List FlatTarget) : Except LoadError Project := do
  let sorted := targets.mergeSort fun a b => a.layer ≤ b.layer
  let sprites ← (sorted.filter fun t => !t.isStage).mapM FlatTarget.declare
  match sorted.find? FlatTarget.isStage with
  | some stage => return { stage := ← stage.declare, sprites, tempo := stage.tempo.getD 60.0 }
  | none => return { stage := { name := "Stage", isStage := true }, sprites }

def read (j : Json) : Except LoadError Project :=
  match j.required "targets" (Json.listOf target?) with
  | some targets => ofTargets targets
  | none => .error .shape

end SpriteMachine.Flat
