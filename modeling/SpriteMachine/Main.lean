import SpriteMachine.Shell
import Std.Time.DateTime.Timestamp

/-!
The command line. The first argument names the tool. A performance is written out frame by frame, at the
pace of the project unless it is to be fast.
-/

namespace SpriteMachine.Shell

def systemDisk : Disk IO where
  isDirectory path := ({ root := path, fileName := "" : IO.FS.DirEntry }).root.isDir
  read? path := do
    try return some (← IO.FS.readFile path)
    catch _ => return none

/-- Between two readings of the clock in a frame a hundredth of a millisecond is taken to pass. -/
def systemClock : IO Clock := do
  return { now := Float.ofNat (← IO.monoNanosNow) / 1e6, step := 0.01 }

def systemMoment : IO Moment := do
  return ⟨(← Std.Time.Timestamp.now).toMillisecondsSinceUnixEpoch.val.toNat⟩

def systemFuel : Nat := Nat.pow 2 62

/-- Sleeps for what is left of a frame that began at a reading of the clock. -/
def sleepFrame (started : Float) (frame : Duration) : IO Unit := do
  let rest := frame.milliseconds - ((← systemClock).now - started)
  if rest > 0.0 then IO.sleep (UInt32.ofNat (Double.toIndex rest))

def perform (fast : Bool) : Nat → Player → IO Player
  | 0, p => return p
  | n + 1, p => do
    let clock ← systemClock
    let moment ← systemMoment
    let m := { p.machine with moment }.adjustClock fun _ => clock
    let (p,more) := { p with machine := m }.frame systemFuel
    for line in p.lines do IO.println line
    (← IO.getStdout).flush
    let p := { p with lines := #[] }
    if more then
      if !fast then sleepFrame clock.now p.machine.settings.frameDuration
      perform fast n p
    else return p

def Report.print (r : Report) : IO UInt32 := do
  IO.print r.output
  match r.failure with
  | some message => IO.eprintln ("Error: " ++ message)
  | none => pure ()
  return UInt32.ofNat r.code

def playNow (a : Arguments) (path : String) : IO Report := do
  match ← (prepare systemDisk (← systemClock) a path).run with
  | .error message => return fail message
  | .ok p => return (← perform p.fast p.frames p.player).report

def Tool.start (t : Tool) (args : List String) : IO UInt32 := do
  match t, t.arguments args with
  | .player, .ok (a,path) => (← playNow a path).print
  | _, _ => (← t.run systemDisk (← systemClock) systemFuel args).print

end SpriteMachine.Shell

open SpriteMachine.Shell in
def main (args : List String) : IO UInt32 := do
  match args with
  | name :: args =>
    match Tool.ofName? name with
    | some t => t.start args
    | none => ({ code := 2 } : Report).print
  | [] => ({ code := 2 } : Report).print
