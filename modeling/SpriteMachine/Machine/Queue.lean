import SpriteMachine.Machine

/-!
The queue: how events start threads, and how threads and clones go away.
-/

namespace SpriteMachine

def Thread.shell (t : Thread) : Thread :=
  { t with resume := none, frames := [], stopped := true }

def Thread.stop (t : Thread) : Thread :=
  { t with stopped := true }

def Thread.runs (target base : Nat) (t : Thread) : Bool :=
  t.target == target && t.base == base

namespace Machine

def setSlot (m : Machine) (i : Nat) (t : Option Thread) : Machine :=
  { m with queue := m.queue.setIfInBounds i t }

def slotOf? (m : Machine) (target base : Nat) : Option Nat :=
  m.queue.findIdx? fun t => t.any (Thread.runs target base)

/-- Starts a script on a target. If it runs there already it is either started over or left alone. -/
def startThread (m : Machine) (target : Nat) (s : Script) (restart : Bool) : Machine :=
  let m := { m with starts := m.starts + 1 }
  match m.slotOf? target s.id with
  | some i => if restart then m.setSlot i (some (.start target s)) else m
  | none => { m with queue := m.queue.push (some (.start target s)) }

/-- Starts the scripts of a target that wait for an event; these are their ids. -/
def triggerFor (m : Machine) (target : Nat) (e : Event) : List Nat × Machine :=
  match m.targets.get? target with
  | none => ([],m)
  | some t =>
    let scripts := t.scripts.listeners.matching e
    (scripts.map Script.id,scripts.foldl (fun m s => m.startThread target s e.restarts) m)

/-- Starts scripts on all targets, the foremost sprite first and the stage last. -/
def trigger (m : Machine) (e : Event) : List Nat × Machine :=
  (m.children.reverse ++ [stageId]).foldl (fun (started,m) id =>
    let (ids,m) := m.triggerFor id e
    (started ++ ids,m)) ([],m)

def greenFlag (m : Machine) : Machine :=
  (m.resetTimer.trigger .greenFlag).2

def isCloneId (m : Machine) (id : Nat) : Bool :=
  (m.targets.get? id).any Target.isClone

def removeTarget (m : Machine) (id : Nat) : Machine :=
  { m with
    children := m.children.filter (· != id)
    targets := m.targets.remove id }.call (.stopTarget id)

/-- Stops all threads, which stay in the queue until the end of the pass, and puts the scene to rest: no
clones, no effects, no prompt, and no bubbles of sprites. -/
def stopAll (m : Machine) : Machine :=
  let m := m.modifyPanel fun p =>
    { p with promptVisible := false, question := none, turn := 0, nextTicket := 0 }
  let m := { m with queue := m.queue.map (Option.map Thread.stop) }
  let m := (m.modifyTarget stageId fun t => { t with effects := {} }).call .stopSounds
  let m := (m.children.filter m.isCloneId).foldl removeTarget m
  m.children.foldl (fun m id => m.modifyTarget id fun t => { t with effects := {}, bubble := none }) m

def createClone (m : Machine) (parent : Nat) : Option Nat × Machine :=
  match m.targets.get? parent with
  | none => (none,m)
  | some t =>
    if t.isStage then (none,m)
    else
      let id := m.targets.nextId
      let m := { m with
        targets := m.targets.insert t.makeClone
        children := m.children.insertIdx (m.children.idxOf parent) id }
      let m := (m.triggerFor id .cloned).2
      (some id,if t.visible then m.setVisual else m)

def dropThreads (m : Machine) (p : Nat → Thread → Bool) : Machine :=
  { m with queue := m.queue.mapIdx fun i t => t.filter fun t => !p i t }

def deleteClone (m : Machine) (id : Nat) : Machine :=
  if m.isCloneId id then (m.removeTarget id).dropThreads fun _ t => t.target == id else m

def sweep (m : Machine) : Machine :=
  { m with queue := m.queue.filter fun t => t.any fun t => !t.stopped }

end Machine

end SpriteMachine
