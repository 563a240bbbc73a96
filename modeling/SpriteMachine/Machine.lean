import SpriteMachine.Arena
import SpriteMachine.Calendar
import SpriteMachine.Compile
import SpriteMachine.ProjectTime
import SpriteMachine.Settings
import SpriteMachine.Thread

/-!
The machine that runs a project: its targets, the queue of its threads, and what they share.
-/

namespace SpriteMachine

inductive Watched where
  | variableAt (index : Nat)
  | listAt (index : Nat)
  deriving DecidableEq, Repr

structure Watcher where
  target : Nat
  data : Watched
  visible : Bool

/-- Input, the prompt, and what else belongs to no target. Questions take tickets and are answered in the
order of these. -/
structure Panel where
  mouse : Point := {}
  mouseDown : Bool := false
  keys : List Key := []
  turn : Nat := 0
  nextTicket : Nat := 0
  /-- The question in the prompt, if no sprite says it. -/
  question : Option String := none
  promptVisible : Bool := false
  answer : String := ""
  /-- Beats in a minute. -/
  tempo : Float := 60.0
  counter : Float := 0.0

structure Machine where
  targets : Arena Target
  /-- The sprites and clones, from back to front. -/
  children : List Nat
  /-- Threads keep their slots while they run; slots that fall empty are swept out after a pass. -/
  queue : Array (Option Thread) := #[]
  /-- In the order in which they were first shown or hidden. -/
  watchers : List Watcher := []
  settings : Settings := {}
  panel : Panel := {}
  /-- Whether something visible changed in this frame. -/
  visual : Bool := false
  time : ProjectTime
  frameTime : Float := 0.0
  timerStart : Float := 0.0
  random : Random
  starts : Nat := 0
  /-- The colours that sprites touch, as the outside tells. -/
  touchedColours : List UInt32 := []
  moment : Moment := {}
  log : Array HostCall := #[]

namespace Machine

def stageId : Nat := 0

def ofProgram (p : Program) (settings : Settings) (clock : Clock) : Machine where
  targets := .ofList (p.stage :: p.sprites)
  children := List.range' 1 p.sprites.length
  settings := settings
  panel := { tempo := p.tempo }
  time := .ofClock clock
  random := .ofSeed (settings.seed.getD 0)

def call (m : Machine) (c : HostCall) : Machine :=
  { m with log := m.log.push c }

def flushLog (m : Machine) : Array HostCall × Machine :=
  (m.log,{ m with log := #[] })

def target (m : Machine) (id : Nat) : Except Fault Target :=
  match m.targets.get? id with
  | some t => .ok t
  | none => .error (.missingTarget id)

def stage (m : Machine) : Target :=
  (m.targets.get? stageId).getD { name := "", kind := .stage }

def modifyTarget (m : Machine) (id : Nat) (f : Target → Target) : Machine :=
  { m with targets := m.targets.modify id f }

def modifyPanel (m : Machine) (f : Panel → Panel) : Machine :=
  { m with panel := f m.panel }

def setVisual (m : Machine) : Machine :=
  { m with visual := true }

def threads (m : Machine) : List Thread :=
  m.queue.toList.filterMap id

def readClock (m : Machine) : Float × Machine :=
  let (x,time) := m.time.read
  (x,{ m with time })

def now (m : Machine) : Float × Machine :=
  let (x,time) := m.time.now
  (x,{ m with time })

def adjustClock (m : Machine) (f : Clock → Clock) : Machine :=
  { m with time := m.time.adjust f }

def timer (m : Machine) : Float :=
  (m.frameTime - m.timerStart) / 1000.0

def resetTimer (m : Machine) : Machine :=
  let (x,m) := m.now
  { m with timerStart := x }

def start (m : Machine) : Machine :=
  if m.time.running then m else { m with time := m.time.start }.call .resume

def pause (m : Machine) : Machine :=
  if m.time.running then { m with time := m.time.pause }.call .suspend else m

end Machine

end SpriteMachine
