import SpriteMachine.Machine.Input
import SpriteMachine.Machine.Sprites

/-!
Builtins that ask the user and look around.
-/

namespace SpriteMachine

/-- Whether a target says a question itself: the stage and hidden sprites leave it to the prompt. -/
def Target.saysQuestion (t : Target) (question : String) : Bool :=
  !question.isEmpty && t.visible && !t.isStage

def Machine.touchingColour (m : Machine) (id : Nat) (colour : UInt32) : Bool × Machine :=
  match m.targets.get? id with
  | some t => (m.touchedColours.contains colour,m.call (.touchesColour t.name colour))
  | none => (false,m)

def Machine.colourTouchingColour (m : Machine) (id : Nat) (mask colour : UInt32) : Bool × Machine :=
  match m.targets.get? id with
  | some t =>
    (m.touchedColours.contains mask && m.touchedColours.contains colour,
      m.call (.colourTouchesColour t.name mask colour))
  | none => (false,m)

def Machine.landmark? (m : Machine) (name : String) : Option Point :=
  if name == "_mouse_" then some m.panel.mouse
  else ((m.sprite? name).bind m.targets.get?).map Target.position

/-- What a target has under a name: the stage and sprites know different names. -/
def Target.attribute? (t : Target) (name : String) : Option Value :=
  if t.isStage then
    match name with
    | "background #" | "backdrop #" => some (.ofNat (t.costume + 1))
    | "backdrop name" => some (.text t.costumeName)
    | "volume" => some (.number (t.volume * 100.0))
    | _ => none
  else
    match name with
    | "x position" => some (.number t.position.x)
    | "y position" => some (.number t.position.y)
    | "direction" => some (.number t.direction)
    | "costume #" => some (.ofNat (t.costume + 1))
    | "costume name" => some (.text t.costumeName)
    | "size" => some (.number (t.scale * 100.0))
    | "volume" => some (.number (t.volume * 100.0))
    | _ => none

def Target.property (t : Target) (name : String) : Value :=
  match t.attribute? name with
  | some v => v
  | none =>
    match t.data.vars.find? (·.name == name) with
    | some v => v.value
    | none => .number 0.0

namespace Turn

/-! A question keeps its ticket and the number of the bubble that shows it, or -1 if the prompt does. -/

def ask : Exec Unit := do
  let question ← popText
  if (← own).saysQuestion question then
    setNumber 1 (← sayOwn question false)
    modifyMachine (·.modifyPanel fun p => { p with question := none, promptVisible := true })
  else
    setNumber 1 (-1.0)
    modifyMachine (·.modifyPanel fun p =>
      { p with question := if question.isEmpty then none else some question, promptVisible := true })
  modifyMachine Machine.setVisual

def takeTicket : Exec Unit := do
  pushNumber (Float.ofNat (← machineIs fun m => m.panel.nextTicket))
  modifyMachine (·.modifyPanel fun p => { p with nextTicket := p.nextTicket + 1 })

def sensing : SensingAction → Exec Unit
  | .ask => ask
  | .takeTicket => takeTicket
  | .currentTicket => do pushNumber (Float.ofNat (← machineIs fun m => m.panel.turn))
  | .endAsk => do endBubble (← numberIn 1)
  | .setDragMode => do
    let draggable ← popBool
    modifyOwn fun t => { t with draggable }
  | .resetTimer => modifyMachine Machine.resetTimer
  | .touchingObject => do
    let what ← popText
    let id ← ownId
    pushBool (← machineIs fun m => m.touching id what)
  | .touchingColour => do
    let colour ← pop
    let id ← ownId
    pushBool (← onMachine (·.touchingColour id colour.toColour))
  | .colourTouchingColour => do
    let (mask,colour) ← popPair
    let id ← ownId
    pushBool (← onMachine (·.colourTouchingColour id mask.toColour colour.toColour))
  | .distanceTo => do
    let name ← popText
    match ← machineIs (·.landmark? name) with
    | some p => pushNumber ((← own).position.distance p)
    | none => pushNumber 10000.0
  | .answer => do pushText (← machineIs fun m => m.panel.answer)
  | .keyPressed => do
    let name ← popText
    pushBool (← machineIs fun m => (Key.ofName? name).any m.isKeyDown)
  | .mouseDown => do pushBool (← machineIs fun m => m.panel.mouseDown)
  | .mouseX => do pushNumber (← machineIs fun m => m.panel.mouse.x)
  | .mouseY => do pushNumber (← machineIs fun m => m.panel.mouse.y)
  | .timer => do pushNumber (← machineIs Machine.timer)
  | .propertyOf => do
    let (name,object) ← popPair
    match ← machineIs fun m => (m.object? object.toText).bind m.targets.get? with
    | some t => push (t.property name.toText)
    | none => pushNumber 0.0
  | .currentDate => do
    let name ← popText
    push (.ofNat (← machineIs fun m => m.moment.part name))
  | .daysSince2000 => do pushNumber (← machineIs fun m => m.moment.daysSince2000)
  | .username => do pushText (← machineIs fun m => m.settings.username)

end Turn

end SpriteMachine
