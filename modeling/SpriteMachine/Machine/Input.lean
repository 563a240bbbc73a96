import SpriteMachine.Machine.Queue
import SpriteMachine.Machine.Scene

/-!
Input: keys, the mouse, sprites in the hand of the user, and answers.
-/

namespace SpriteMachine.Machine

def keyDown (m : Machine) (k : Key) : Machine :=
  let m := m.modifyPanel fun p => { p with keys := if p.keys.contains k then p.keys else p.keys ++ [k] }
  (m.trigger (.keyPressed k)).2

def keyUp (m : Machine) (k : Key) : Machine :=
  m.modifyPanel fun p => { p with keys := p.keys.erase k }

def isKeyDown (m : Machine) : Key → Bool
  | .any => !m.panel.keys.isEmpty
  | k => m.panel.keys.contains k

def moveMouse (m : Machine) (p : Point) : Machine :=
  m.modifyPanel fun panel => { panel with mouse := p }

def beginDrag (m : Machine) (id : Nat) : Machine :=
  let mouse := m.panel.mouse
  m.modifyTarget id fun t => { t with
    drag := some ⟨t.position,⟨t.position.x - mouse.x,t.position.y - mouse.y⟩⟩ }

def endDrag (m : Machine) (id : Nat) : Machine :=
  match m.targets.get? id with
  | none => m
  | some t =>
    match t.drag with
    | none => m
    | some d =>
      let m := m.modifyTarget id fun t => { t with drag := none }
      if samePlace d.start t.position then (m.triggerFor id .clicked).2 else m

def applyDrags (m : Machine) : Machine :=
  let drags := m.children.filterMap fun id =>
    ((m.targets.get? id).bind Target.drag).map (id,·.offset)
  let mouse := m.panel.mouse
  drags.foldl (fun m (id,o) => m.moveTo id ⟨o.x + mouse.x,o.y + mouse.y⟩) m

def isUnderMouse (m : Machine) (id : Nat) : Bool :=
  (m.targets.get? id).any fun t => t.visible && t.effects.ghost < 100.0 && t.touchesPoint m.panel.mouse

/-- The mouse takes the foremost sprite under it in hand if it can be dragged; else it clicks that sprite,
or the stage. -/
def press (m : Machine) : Machine :=
  let m := m.modifyPanel fun p => { p with mouseDown := true }
  match m.children.reverse.find? m.isUnderMouse with
  | some id =>
    if (m.targets.get? id).any Target.draggable then m.beginDrag id else (m.triggerFor id .clicked).2
  | none => (m.triggerFor stageId .clicked).2

def release (m : Machine) : Machine :=
  m.children.foldl endDrag (m.modifyPanel fun p => { p with mouseDown := false })

def submitAnswer (m : Machine) (answer : String) : Machine :=
  m.modifyPanel fun p =>
    if p.turn < p.nextTicket then
      let p := { p with answer, turn := p.turn + 1 }
      if p.turn < p.nextTicket then p else { p with promptVisible := false, question := none }
    else p

end SpriteMachine.Machine
