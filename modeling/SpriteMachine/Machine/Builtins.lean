import SpriteMachine.Machine.Drawing
import SpriteMachine.Machine.Sensing
import SpriteMachine.Machine.Sounds

/-!
What each builtin does.
-/

namespace SpriteMachine.Turn

def createCloneOf (name : String) : Exec Unit := do
  let parent ← if name == "_myself_" then some <$> ownId else machineIs (·.sprite? name)
  match parent with
  | some id => modifyMachine fun m => (m.createClone id).2
  | none => pure ()

def control : ControlAction → Exec Unit
  | .createClone => do createCloneOf (← popText)
  | .incrementCounter => modifyMachine (·.modifyPanel fun p => { p with counter := p.counter + 1.0 })
  | .clearCounter => modifyMachine (·.modifyPanel fun p => { p with counter := 0.0 })
  | .counter => do pushNumber (← machineIs fun m => m.panel.counter)

def builtin : Builtin → Exec Unit
  | .motion a => motion a
  | .looks a => looks a
  | .sound a => sound a
  | .control a => control a
  | .sensing a => sensing a
  | .pen a => pen a
  | .music a => music a

end SpriteMachine.Turn
