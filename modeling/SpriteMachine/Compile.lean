import SpriteMachine.Compile.Emitter
import SpriteMachine.Compile.Expand
import SpriteMachine.Project
import SpriteMachine.Text.Quoted

/-!
Compiling projects. The stage comes first; each sprite then sees the stage's tables as the scripts before it
have left them.
-/

namespace SpriteMachine

/-- A project that is ready to run. -/
structure Program where
  stage : Target
  /-- From back to front. -/
  sprites : List Target
  tempo : Float
  warnings : Warnings

namespace Compile

/-- A target on the way: its scripts so far, its symbols, and the number of the next script. -/
structure Progress where
  symbols : Symbols
  scripts : Scripts := {}
  next : Nat

def script (symbols : Symbols) (name : String) (params : List String) (blocks : List Block)
    (terminator : Opcode) (id : Nat) : Except BuildFault (Script × Symbols) := do
  let start : Emitter := { symbols, code := { name } }
  let e := (start.run (expandStack params blocks)).op terminator []
  return (← e.code.build id,e.symbols)

/-- The event that a hat waits for; a key that is not known gives a warning. -/
def event? : Hat → Option Event
  | .flag => some .greenFlag
  | .clicked => some .clicked
  | .startAsClone => some .cloned
  | .key name => (Key.ofName? name).map .keyPressed
  | .message r => some (.ofMessage r.name)
  | .backdrop name => some (.ofBackdrop name)
  | .procedure _ | .other _ => none

def procedure (p : Progress) (proto : Prototype) (blocks : List Block) : Except BuildFault Progress := do
  let params := proto.parameters.map Parameter.name
  let (s,symbols) ← script p.symbols proto.procedure params blocks .endCall p.next
  return {
    symbols
    scripts := p.scripts.define proto.procedure { script := s, warp := proto.warp, arguments := params }
    next := p.next + 1 }

def listener (target : String) (p : Progress) (event : Event) (blocks : List Block) :
    Except BuildFault Progress := do
  let (s,symbols) ← script p.symbols s!"{target} #{p.next}" [] blocks .finish p.next
  return {
    symbols
    scripts := { p.scripts with listeners := p.scripts.listeners.add event s }
    next := p.next + 1 }

/-- Compiles a script of a target. Scripts that nothing starts and empty ones are left out. -/
def stack (target : String) (p : Progress) (s : Stack) : Except BuildFault Progress :=
  match s.hat with
  | .other opcode =>
    if (Palette.indexOf? opcode).isSome then .ok p
    else .ok { p with symbols := p.symbols.warn s!"unknown top level block {opcode}" }
  | hat =>
    if s.blocks.isEmpty then .ok p
    else
      match hat with
      | .procedure proto => procedure p proto s.blocks
      | .key name =>
        match event? (.key name) with
        | some e => listener target p e s.blocks
        | none => .ok { p with symbols := p.symbols.warn s!"unknown key {Text.quoted name}" }
      | hat =>
        match event? hat with
        | some e => listener target p e s.blocks
        | none => .ok p

def declareData (d : Declaration) : DataTables where
  vars := d.vars.foldl (fun t v => t.insert v.id ⟨v.name,v.value⟩) .empty
  lists := d.lists.foldl (fun t l => t.insert l.id ⟨l.name,.ofList l.items⟩) .empty

def buildTarget (d : Declaration) (kind : TargetKind) (data : DataTables) (scripts : Scripts) : Target :=
  let t : Target := {
    name := d.name, kind, scripts, data
    costumes := d.costumes.toArray
    costume := min d.costume (d.costumes.length - 1)
    sounds := d.sounds.toArray }
  let t := t.setVolume d.volume
  match d.placement with
  | none => t
  | some p => { t with
      position := ⟨p.x,p.y⟩
      direction := p.direction
      scale := p.size / 100.0
      visible := p.visible
      draggable := p.draggable
      rotation := p.rotation }

def scripts (d : Declaration) (symbols : Symbols) (next : Nat) : Except BuildFault Progress :=
  d.scripts.foldlM (stack d.name) { symbols, next }

/-- The sprites so far, and what they leave behind for those to come. -/
structure Sprites where
  targets : Array Target := #[]
  stage : DataTables
  next : Nat
  warnings : Warnings

def sprite (s : Sprites) (d : Declaration) : Except BuildFault Sprites := do
  let p ← scripts d { isStage := false, own := declareData d, stage := s.stage } s.next
  return {
    targets := s.targets.push (buildTarget d .sprite p.symbols.own p.scripts)
    stage := p.symbols.stage
    next := p.next
    warnings := s.warnings.extend p.symbols.warnings }

end Compile

open Compile

def compile (project : Project) : Except BuildFault Program := do
  if !project.stage.isStage then throw .missingStage
  let p ← scripts project.stage { isStage := true, stage := declareData project.stage } 0
  let s ← project.sprites.foldlM sprite {
    stage := p.symbols.stage, next := p.next, warnings := Warnings.extend {} p.symbols.warnings }
  return {
    stage := buildTarget project.stage .stage s.stage p.scripts
    sprites := s.targets.toList
    tempo := Double.clamp 20.0 500.0 project.tempo
    warnings := s.warnings }

end SpriteMachine
