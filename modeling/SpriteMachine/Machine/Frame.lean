import SpriteMachine.Machine.Exec

/-!
Frames. In a frame the threads of the queue are resumed in passes, each until it yields, until something
visible changed or the time for the frame is over; then the scene is drawn. Fuel bounds each loop: the
instructions of a resumption, the slots of a pass, and the passes of a frame.
-/

namespace SpriteMachine

inductive Halt where
  | done (m : Machine) (a : Activation)
  | fault (m : Machine) (f : Fault)
  | outOfFuel

/-- Where a thread is after an instruction: at an offset of a script, unless it leaves off. -/
inductive Motion where
  | going (t : Turn) (s : Script) (pc : Nat)
  | halted (h : Halt)

inductive Outcome where
  | done (m : Machine)
  | fault (m : Machine) (f : Fault)
  | outOfFuel

namespace Machine

/-- Performs the instruction at an offset of a script. Where it leaves the script, the thread goes on at once
if it has somewhere to go. -/
def advance (t : Turn) (s : Script) (pc : Nat) : Motion :=
  match s.fetch pc with
  | .error f => .halted (.fault t.machine f)
  | .ok (i,next) =>
    match Turn.exec s next i t with
    | .error f t => .halted (.fault t.machine f)
    | .ok (.next pc) t => .going t s pc
    | .ok .leave t =>
      match t.active.immediate with
      | none => .halted (.done t.machine t.active)
      | some k =>
        .going { t with active := { t.active with immediate := none, stack := [] } } k.script k.pc

def run : Nat → Turn → Script → Nat → Halt
  | 0, _, _, _ => .outOfFuel
  | fuel + 1, t, s, pc =>
    match advance t s pc with
    | .going t s pc => run fuel t s pc
    | .halted h => h

def activate (fuel : Nat) (m : Machine) (a : Activation) : Halt :=
  match a.immediate with
  | none => .done m a
  | some k => run fuel ⟨m,{ a with immediate := none, stack := [] }⟩ k.script k.pc

def runDetached (fuel : Nat) (m : Machine) (target : Nat) (s : Script) : Outcome :=
  match m.activate fuel (.detached target s) with
  | .done m _ => .done m
  | .fault m f => .fault m f
  | .outOfFuel => .outOfFuel

def putBack (m : Machine) (i : Nat) (a : Activation) : Machine :=
  match a.requeue with
  | some k => m.setSlot i (some (a.toThread k))
  | none => m

def resumeThread (fuel : Nat) (m : Machine) (i : Nat) (t : Thread) : Outcome :=
  match Activation.ofThread i t with
  | .error f => .fault m f
  | .ok a =>
    match (m.setSlot i (some t.shell)).activate fuel a with
    | .done m a => .done (m.putBack i a)
    | .fault m f => .fault m f
    | .outOfFuel => .outOfFuel

/-- Resumes the thread in a slot, if there is one. The thread of a target that is gone is stopped. -/
def resume (fuel : Nat) (m : Machine) (i : Nat) : Outcome :=
  match (m.queue[i]?).join with
  | none => .done m
  | some t =>
    if t.stopped then .done m
    else if m.targets.contains t.target then m.resumeThread fuel i t
    else .done (m.setSlot i (some t.stop))

/-- Resumes the threads from a slot on, also those that are started meanwhile. -/
def resumeFrom (fuel : Nat) : Nat → Nat → Machine → Outcome
  | 0, _, _ => .outOfFuel
  | n + 1, i, m =>
    if i < m.queue.size then
      match m.resume fuel i with
      | .done m => resumeFrom fuel n (i + 1) m
      | o => o
    else .done m

def pass (fuel : Nat) (m : Machine) : Outcome :=
  match resumeFrom fuel fuel 0 m with
  | .done m => .done m.sweep
  | o => o

/-- Passes until something visible changed, the time is over, or the queue is empty. -/
def passes (fuel : Nat) (start budget : Float) : Nat → Machine → Outcome
  | 0, _ => .outOfFuel
  | n + 1, m =>
    match m.pass fuel with
    | .done m =>
      if m.settings.turbo || !m.visual then
        let (now,m) := m.readClock
        if now - start < budget && !m.queue.isEmpty then passes fuel start budget n m else .done m
      else .done m
    | o => o

def draw (m : Machine) : Machine :=
  (stageId :: m.children).foldl (fun m id =>
    match m.targets.get? id with
    | some t => m.call (.draw t.name)
    | none => m) m

def step (fuel : Nat) (m : Machine) : Outcome :=
  let m := ({ m with visual := false }.applyDrags).call .resume
  let (start,m) := m.readClock
  let (now,m) := m.now
  let budget := m.settings.frameDuration.milliseconds
  match { m with frameTime := now }.passes fuel start budget fuel with
  | .done m => .done m.draw
  | o => o

def halt (m : Machine) : Machine :=
  { m with time := { m.time with running := false } }

def tick (fuel : Nat) (m : Machine) : Outcome :=
  if m.time.running then
    match m.step fuel with
    | .fault m f => .fault m.halt f
    | o => o
  else .done m

end Machine

end SpriteMachine
