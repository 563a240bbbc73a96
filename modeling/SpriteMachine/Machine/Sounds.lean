import SpriteMachine.Machine.Turn

/-!
Builtins that play sounds and music.
-/

namespace SpriteMachine.Turn

def playOwn (v : Value) : Exec (Option Float) := do
  let id ← ownId
  onMachine fun m =>
    match m.playSound? id v with
    | some (duration,m) => (some duration,m)
    | none => (none,m)

def sound : SoundAction → Exec Unit
  | .play => do
    let _ ← playOwn (← pop)
  | .playUntilDone => do
    match ← playOwn (← pop) with
    | some duration =>
      setNumber 0 (← machineIs Machine.frameTime)
      setNumber 1 duration
      pushBool true
    | none => pushBool false
  | .stopAll => modifyMachine (·.call .stopSounds)
  | .changeVolume => do
    let x ← popNumber
    modifyOwn fun t => t.setVolume (t.volume * 100.0 + x)
  | .setVolume => do
    let x ← popNumber
    modifyOwn (·.setVolume x)
  | .setPitch => do
    let x ← popNumber
    modifyOwn (·.setPitch x)
  | .changePitch => do
    let x ← popNumber
    modifyOwn fun t => t.setPitch (t.pitch + x)
  | .clearEffects => modifyOwn (·.setPitch 0.0)
  | .volume => do pushNumber ((← own).volume * 100.0)

def beatSeconds (beats tempo : Float) : Float :=
  beats * 60.0 / tempo

def limitTempo (x : Float) : Float :=
  Double.clamp 20.0 500.0 x

def soundIndex (count x : Float) : Nat :=
  Double.toIndex (Double.clamp 1.0 count x.round) - 1

def secondsOf (beats : Float) : Exec Float :=
  machineIs fun m => beatSeconds beats m.panel.tempo

def music : MusicAction → Exec Unit
  | .playNote => do
    let (key,beats) ← popPair
    let t ← own
    let duration ← secondsOf beats.toNumber
    modifyMachine (·.call (.note t.instrument key.toNumber duration t.volume))
    pushNumber duration
  | .playDrum => do
    let (drum,beats) ← popPair
    let t ← own
    let duration ← secondsOf beats.toNumber
    modifyMachine (·.call (.drum (soundIndex 18.0 drum.toNumber) duration t.volume))
    pushNumber duration
  | .rest => do
    let beats ← popNumber
    pushNumber (← secondsOf beats)
  | .setTempo => do
    let x ← popNumber
    modifyMachine (·.modifyPanel fun p => { p with tempo := limitTempo x })
  | .changeTempo => do
    let x ← popNumber
    modifyMachine (·.modifyPanel fun p => { p with tempo := limitTempo (p.tempo + x) })
  | .setInstrument => do
    let x ← popNumber
    modifyOwn fun t => { t with instrument := soundIndex 21.0 x }
  | .tempo => do pushNumber (← machineIs fun m => m.panel.tempo)

end SpriteMachine.Turn
