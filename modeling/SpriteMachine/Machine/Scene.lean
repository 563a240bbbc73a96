import SpriteMachine.Machine
import SpriteMachine.Target.Outline

/-!
The scene: targets by name, their variables and monitors, the order in which sprites are drawn, and where
they are.
-/

namespace SpriteMachine.Machine

def isSpriteNamed (m : Machine) (name : String) (id : Nat) : Bool :=
  (m.targets.get? id).any fun t => t.name == name && !t.isClone

def object? (m : Machine) (name : String) : Option Nat :=
  match m.children.find? (m.isSpriteNamed name) with
  | some id => some id
  | none => if name == "_stage_" || m.stage.name == name then some stageId else none

def sprite? (m : Machine) (name : String) : Option Nat :=
  (m.object? name).filter (· != stageId)

/-! Variables and lists by name: a target sees its own first, then those of the stage. -/

def variableNamed? (m : Machine) (id : Nat) (name : String) : Option Value := do
  let t ← m.targets.get? id
  let v ← (t.data.vars.find? (·.name == name)).or (m.stage.data.vars.find? (·.name == name))
  return v.value

def listNamed? (m : Machine) (id : Nat) (name : String) : Option Items :=
  let own := (m.targets.get? id).bind fun t => t.data.lists.find? (·.name == name)
  (own.or (m.stage.data.lists.find? (·.name == name))).map ListVariable.list

def ownVariableIndex? (m : Machine) (name : String) (id : Nat) : Option Nat :=
  (m.targets.get? id).bind fun t => t.data.vars.findIdx? (·.name == name)

def setVariableAt (m : Machine) (id index : Nat) (v : Value) : Machine :=
  m.modifyTarget id fun t =>
    { t with data := { t.data with
        vars := t.data.vars.modify index fun x => { x with value := v } } }

def setListAt (m : Machine) (id index : Nat) (l : Items) : Machine :=
  m.modifyTarget id fun t =>
    { t with data := { t.data with lists := t.data.lists.modify index fun x => { x with list := l } } }

def setVariableNamed? (m : Machine) (id : Nat) (name : String) (v : Value) : Option Machine :=
  match m.ownVariableIndex? name id with
  | some i => some (m.setVariableAt id i v)
  | none => (m.ownVariableIndex? name stageId).map fun i => m.setVariableAt stageId i v

/-! Monitors -/

/-- Whose monitor a target's is: clones share that of their sprite. -/
def watcherOwner (m : Machine) (id : Nat) : Nat :=
  match m.targets.get? id with
  | some t => if t.isClone then (m.object? t.name).getD id else id
  | none => id

def setWatcher (m : Machine) (id : Nat) (data : Watched) (visible : Bool) : Machine :=
  let owner := m.watcherOwner id
  let same := fun (w : Watcher) => w.target = owner ∧ w.data = data
  if m.watchers.any same then
    { m with watchers := m.watchers.map fun w => if same w then { w with visible } else w }
  else { m with watchers := m.watchers ++ [⟨owner,data,visible⟩] }

/-! Layers -/

/-- Moves a sprite to a place in the drawing order, at most to the front. -/
def moveLayer (m : Machine) (id position : Nat) : Machine :=
  if m.children.contains id then
    let others := m.children.erase id
    { m with children := others.insertIdx (min position others.length) id }
  else m

/-- Moves a sprite by some layers towards the front, or towards the back if there are less than none. -/
def shiftLayer (m : Machine) (id : Nat) (layers : Float) : Machine :=
  let current := m.children.idxOf id
  m.moveLayer id (Double.toIndex (Double.atLeast 0.0 (Float.ofNat current + layers)))

/-! Places -/

def isVisualChange (t : Target) : VisualTier → Bool
  | .none => false
  | .drawing => t.visible || t.pen.down
  | .visible => t.visible
  | .always => true

def visualCheck (m : Machine) (id : Nat) (tier : VisualTier) : Machine :=
  if (m.targets.get? id).any (isVisualChange · tier) then m.setVisual else m

def samePlace (p q : Point) : Bool :=
  p.x == q.x && p.y == q.y

/-- Moves a sprite; its pen draws a line to where it was sent if it is down and the sprite is not in the
hand of the user. -/
def moveTo (m : Machine) (id : Nat) (p : Point) : Machine :=
  match m.targets.get? id with
  | none => m
  | some t =>
    if samePlace t.position p && !t.pen.down then m
    else
      let fenced := m.settings.spriteFencing
      let m := m.modifyTarget id fun t =>
        let t := { t with position := p }
        if fenced then t.keepInView else t
      if t.pen.down && t.drag.isNone then
        m.call (.line t.position p t.pen.colour.toRgba t.pen.size)
      else m

/-- A place by name: that of the mouse, a random one, or that of a target. -/
def place? (m : Machine) (name : String) : Option Point × Machine :=
  if name == "_mouse_" then (some m.panel.mouse,m)
  else if name == "_random_" then
    let (u,r) := m.random.unit
    let (v,r) := r.unit
    let x := (2.0 * halfWidth * u - halfWidth).round
    let y := (2.0 * halfHeight * v - halfHeight).round
    (some ⟨x,y⟩,{ m with random := r })
  else (((m.object? name).bind m.targets.get?).map Target.position,m)

/-- Whether a visible sprite touches the mouse, the edge of the stage, or a sprite or clone by its name. -/
def touching (m : Machine) (id : Nat) (what : String) : Bool :=
  match m.targets.get? id with
  | none => false
  | some t =>
    if !t.visible then false
    else if what == "_mouse_" then t.touchesPoint m.panel.mouse
    else if what == "_edge_" then t.touchesEdge
    else t.overlapsAny (((m.children.filter (· != id)).filterMap m.targets.get?).filter (·.name == what))

/-! Sounds -/

/-- The calls that play a sound and its length; nothing if there is none to be heard. -/
def playSound? (m : Machine) (id : Nat) (v : Value) : Option (Float × Machine) := do
  let t ← m.targets.get? id
  let s ← t.sound? v
  if s.decoded then some (s.duration,m.call (.sound id s.name t.volume t.pitch)) else none

end SpriteMachine.Machine
