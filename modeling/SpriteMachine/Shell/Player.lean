import SpriteMachine.Machine.Frame
import SpriteMachine.Text.Paint

/-!
A player runs a project without a screen: it writes down what targets say and ask, and answers from a list.
-/

namespace SpriteMachine.Shell

structure Player where
  machine : Machine
  answers : List String := []
  /-- What each target said at the end of the last frame. -/
  speech : List (Nat × Option String) := []
  lines : Array String := #[]
  fault : Option Fault := none

namespace Player

def write (p : Player) (line : String) : Player :=
  { p with lines := p.lines.push line }

def begin (m : Machine) (answers : List String) : Player where
  machine := m.start.greenFlag
  answers := answers

def tick (fuel : Nat) (p : Player) : Player :=
  match p.machine.tick fuel with
  | .done m => { p with machine := m }
  | .fault m f => { p with machine := m, fault := some f }
  | .outOfFuel => { p with machine := p.machine.halt }

def listen (p : Player) (id : Nat) (t : Target) : Player :=
  let text := t.bubble.map Bubble.text
  if p.speech.lookup id == some text then p
  else
    let p := { p with speech := (id,text) :: p.speech.filter (·.1 != id) }
    match text with
    | some text => p.write (Text.Paint.on .bold t.name ++ ": " ++ text)
    | none => p

def listenToAll (p : Player) : Player :=
  p.machine.targets.toList.foldl (fun p (id,t) => p.listen id t) p

/-- The question that is open is written even if nobody answers it. -/
def writeQuestion (p : Player) : Player :=
  match p.machine.panel.promptVisible, p.machine.panel.question with
  | true, some q => p.write (Text.Paint.on .yellow "?" ++ " " ++ q)
  | _, _ => p

def reply (p : Player) : Player :=
  match p.machine.panel.promptVisible, p.answers with
  | true, a :: rest => { p with machine := p.machine.submitAnswer a, answers := rest }
  | _, _ => p

def isStuck (p : Player) : Bool :=
  p.machine.panel.promptVisible && p.answers.isEmpty

def isOver (p : Player) : Bool :=
  !p.machine.time.running || p.machine.queue.isEmpty

def frame (fuel : Nat) (p : Player) : Player × Bool :=
  let p := (p.tick fuel).listenToAll.writeQuestion
  if p.isStuck then (p,false)
  else
    let p := p.reply
    (p,!p.isOver)

/-- Lets the clock go on to the end of a frame that began at a reading of it. -/
def rest (started : Float) (p : Player) : Player :=
  let left := p.machine.settings.frameDuration.milliseconds - (p.machine.time.clock.now - started)
  if left > 0.0 then { p with machine := p.machine.adjustClock fun c => { c with now := c.now + left } }
  else p

/-- Plays at most some frames, each of which takes its time unless they are to be fast. -/
def play (fast : Bool) (fuel : Nat) : Nat → Player → Player
  | 0, p => p
  | n + 1, p =>
    let started := p.machine.time.clock.now
    let (p,more) := p.frame fuel
    if more then play fast fuel n (if fast then p else p.rest started) else p

end Player

end SpriteMachine.Shell
