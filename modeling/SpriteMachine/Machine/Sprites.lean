import SpriteMachine.Machine.Turn

/-!
Builtins that move targets and change their looks.
-/

namespace SpriteMachine

/-- The part of a glide that is done; one that takes no time is done at once. -/
def glideFraction (elapsed duration : Float) : Float :=
  if duration <= 0.0 then 1.0 else Double.atMost 1.0 (elapsed / duration)

/-- The direction of a point as seen from another; to the right if they are the same. -/
def directionTo (p q : Point) : Float :=
  let dx := q.x - p.x
  let dy := q.y - p.y
  if dx == 0.0 && dy == 0.0 then 90.0 else Float.atan2 dx dy * 180.0 / pi

def RotationStyle.ofNumber (x : Float) : RotationStyle :=
  match Double.toNatUpTo (Nat.pow 2 32 - 1) x with
  | 1 => .leftRight
  | 2 => .dontRotate
  | _ => .allAround

def Target.costumeBy (t : Target) (which : String) : Value :=
  if which == "number" then .ofNat (t.costume + 1) else .text t.costumeName

def Target.size (t : Target) : Float :=
  if t.isStage then 100.0 else t.scale * 100.0

namespace Turn

/-! While a target glides, locals hold the start time, the duration, the place where it began, and the way
to go in either direction. -/

def beginGlide (seconds : Float) (p : Point) : Exec Unit := do
  let t ← own
  setNumber 0 (← machineIs Machine.frameTime)
  setNumber 1 seconds
  setNumber 2 t.position.x
  setNumber 3 t.position.y
  setNumber 4 (p.x - t.position.x)
  setNumber 5 (p.y - t.position.y)

def glideStep : Exec Unit := do
  let elapsed := (← machineIs Machine.frameTime) - (← numberIn 0)
  let fraction := glideFraction elapsed ((← numberIn 1) * 1000.0)
  moveOwn ⟨(← numberIn 2) + fraction * (← numberIn 4),(← numberIn 3) + fraction * (← numberIn 5)⟩
  pushBool (fraction < 1.0)

def turnBy (sign : Float) : Exec Unit := do
  let degrees ← popNumber
  modifyOwn fun t => t.setDirection (t.direction + sign * degrees)

def motion : MotionAction → Exec Unit
  | .moveSteps => do
    let steps ← popNumber
    let t ← own
    let angle := radians (90.0 - t.direction)
    moveOwn ⟨t.position.x + steps * angle.cos,t.position.y + steps * angle.sin⟩
  | .turnRight => turnBy 1.0
  | .turnLeft => turnBy (-1.0)
  | .goTo => do
    let name ← popText
    match ← onMachine (·.place? name) with
    | some p => moveOwn p
    | none => pure ()
  | .goToPoint => do
    let (x,y) ← popPair
    moveOwn ⟨x.toNumber,y.toNumber⟩
  | .glideTo => do
    let (seconds,name) ← popPair
    match ← onMachine (·.place? name.toText) with
    | some p =>
      beginGlide seconds.toNumber p
      pushBool true
    | none => pushBool false
  | .glideToPoint => do
    let (seconds,x,y) ← popTriple
    beginGlide seconds.toNumber ⟨x.toNumber,y.toNumber⟩
    pushBool true
  | .glideStep => glideStep
  | .pointInDirection => do
    let degrees ← popNumber
    modifyOwn (·.setDirection degrees)
  | .pointTowards => do
    let name ← popText
    match ← onMachine (·.place? name) with
    | some p => modifyOwn fun t => { t with direction := directionTo t.position p }
    | none => pure ()
  | .changeX => do
    let dx ← popNumber
    let p := (← own).position
    moveOwn ⟨p.x + dx,p.y⟩
  | .setX => do
    let x ← popNumber
    moveOwn ⟨x,(← own).position.y⟩
  | .changeY => do
    let dy ← popNumber
    let p := (← own).position
    moveOwn ⟨p.x,p.y + dy⟩
  | .setY => do
    let y ← popNumber
    moveOwn ⟨(← own).position.x,y⟩
  | .bounce => modifyOwn Target.bounce
  | .setRotation => do
    let style ← popNumber
    modifyOwn fun t => { t with rotation := .ofNumber style }
  | .x => do pushNumber (← own).position.x
  | .y => do pushNumber (← own).position.y
  | .direction => do pushNumber (← own).direction

/-! A timed bubble keeps the time at which it was put up, how long it stays, and its number. -/

def sayOwn (text : String) (thinking : Bool) : Exec Float := do
  modifyOwn (·.say text thinking)
  return Float.ofNat (← own).sayId

def endBubble (number : Float) : Exec Unit :=
  modifyOwn fun t => if Float.ofNat t.sayId == number then t.say "" false else t

def looks : LooksAction → Exec Unit
  | .say thinking => do
    let text ← popText
    modifyOwn (·.say text thinking)
  | .sayFor thinking => do
    let (text,seconds) ← popPair
    let number ← sayOwn text.toText thinking
    setNumber 0 (← machineIs Machine.frameTime)
    setNumber 1 seconds.toNumber
    setNumber 2 number
  | .endSay => do endBubble (← numberIn 2)
  | .switchCostume => do
    let v ← pop
    modifyOwn (·.setCostume v)
  | .nextCostume => modifyOwn Target.nextCostume
  | .switchBackdrop => do
    let v ← pop
    modifyMachine (·.modifyTarget Machine.stageId (·.setCostume v))
  | .nextBackdrop => modifyMachine (·.modifyTarget Machine.stageId Target.nextCostume)
  | .changeSize => do
    let x ← popNumber
    modifyOwn fun t => { t with scale := Double.atLeast 0.0 (t.scale + x / 100.0) }
  | .setSize => do
    let x ← popNumber
    modifyOwn fun t => { t with scale := Double.atLeast 0.0 (x / 100.0) }
  | .changeEffect => do
    let (name,x) ← popPair
    modifyOwn fun t => { t with effects := t.effects.change name.toText x.toNumber }
  | .setEffect => do
    let (name,x) ← popPair
    modifyOwn fun t => { t with effects := t.effects.set name.toText x.toNumber }
  | .clearEffects => modifyOwn fun t => { t with effects := {} }
  | .show => modifyOwn fun t => { t with visible := true }
  | .hide => modifyOwn fun t => { t with visible := false }
  | .toLayer => do
    let front ← popBool
    let id ← ownId
    modifyMachine fun m => m.moveLayer id (if front then m.children.length else 0)
  | .shiftLayer => do
    let layers ← popNumber
    let id ← ownId
    modifyMachine (·.shiftLayer id layers)
  | .costumeNumberName => do
    let which ← popText
    push ((← own).costumeBy which)
  | .backdropNumberName => do
    let which ← popText
    push ((← machineIs Machine.stage).costumeBy which)
  | .size => do pushNumber (← own).size

end Turn

end SpriteMachine
