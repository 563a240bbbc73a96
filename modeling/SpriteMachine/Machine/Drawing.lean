import SpriteMachine.Machine.Turn

/-!
Builtins that draw with the pen.
-/

namespace SpriteMachine.Turn

def modifyPen (f : Pen → Pen) : Exec Unit :=
  modifyOwn fun t => { t with pen := f t.pen }

def modifyParam (folded : Bool) (f : PenColour → String → Float → PenColour) : Exec Unit := do
  let (name,x) ← popPair
  let name := if folded then Text.lower name.toText else name.toText
  modifyPen fun p => { p with colour := f p.colour name x.toNumber }

def pen : PenAction → Exec Unit
  | .clear => modifyMachine (·.call .clear)
  | .stamp => do
    let id ← ownId
    match ← machineIs (·.targets.get? id) with
    | some t => modifyMachine (·.call (.stamp t.name))
    | none => pure ()
  | .down => do
    modifyPen fun p => { p with down := true }
    let t ← own
    modifyMachine (·.call (.dot t.position t.pen.colour.toRgba t.pen.size))
  | .up => modifyPen fun p => { p with down := false }
  | .setColour => do
    let v ← pop
    modifyPen fun p => { p with colour := .ofWord v.toColour }
  | .setParam folded => modifyParam folded PenColour.setParam
  | .changeParam folded => modifyParam folded PenColour.changeParam
  | .setSize => do
    let x ← popNumber
    modifyPen fun p => { p with size := Double.atLeast 1.0 x }
  | .changeSize => do
    let x ← popNumber
    modifyPen fun p => { p with size := Double.atLeast 1.0 (p.size + x) }

end SpriteMachine.Turn
