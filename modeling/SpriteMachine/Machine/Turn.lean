import SpriteMachine.Machine.Scene

/-!
A turn: a machine while one of its threads runs. Code changes both, or faults and leaves them as they were
at that point.
-/

namespace SpriteMachine

structure Turn where
  machine : Machine
  active : Activation

abbrev Exec := EStateM Fault Turn

namespace Turn

def onActive {α : Type} (f : Activation → Except Fault (α × Activation)) : Exec α := fun t =>
  match f t.active with
  | .ok (x,a) => .ok x { t with active := a }
  | .error e => .error e t

def modifyActive (f : Activation → Activation) : Exec Unit :=
  modify fun t => { t with active := f t.active }

def modifyMachine (f : Machine → Machine) : Exec Unit :=
  modify fun t => { t with machine := f t.machine }

def onMachine {α : Type} (f : Machine → α × Machine) : Exec α :=
  modifyGet fun t =>
    let (x,m) := f t.machine
    (x,{ t with machine := m })

def machineIs {α : Type} (f : Machine → α) : Exec α :=
  return f (← get).machine

def ownId : Exec Nat :=
  return (← get).active.target

/-! Operands -/

def pop : Exec Value :=
  onActive Activation.pop

def popNumber : Exec Float :=
  return (← pop).toNumber

def popText : Exec String :=
  return (← pop).toText

def popBool : Exec Bool :=
  return (← pop).toBool

def popPair : Exec (Value × Value) :=
  onActive fun a => a.pop₂.map fun (x,y,a) => ((x,y),a)

def popTriple : Exec (Value × Value × Value) :=
  onActive fun a => a.pop₃.map fun (x,y,z,a) => ((x,y,z),a)

def push (v : Value) : Exec Unit :=
  modifyActive (·.push v)

def pushNumber (x : Float) : Exec Unit :=
  push (.number x)

def pushText (s : String) : Exec Unit :=
  push (.text s)

def pushBool (b : Bool) : Exec Unit :=
  push (.bool b)

/-! Locals -/

def getLocal (slot : UInt32) : Exec Value :=
  return (← get).active.locals.get slot

def numberIn (slot : UInt32) : Exec Float :=
  return (← getLocal slot).toNumber

def setLocal (slot : UInt32) (v : Value) : Exec Unit :=
  modifyActive fun a => { a with locals := a.locals.set slot v }

def setNumber (slot : UInt32) (x : Float) : Exec Unit :=
  setLocal slot (.number x)

/-! The running target, which may be gone -/

def target (id : Nat) : Exec Target := fun t =>
  match t.machine.target id with
  | .ok x => .ok x t
  | .error e => .error e t

def own : Exec Target := do
  target (← ownId)

def modifyOwn (f : Target → Target) : Exec Unit := do
  let id ← ownId
  let _ ← target id
  modifyMachine (·.modifyTarget id f)

def moveOwn (p : Point) : Exec Unit := do
  let id ← ownId
  modifyMachine (·.moveTo id p)

end Turn

end SpriteMachine
