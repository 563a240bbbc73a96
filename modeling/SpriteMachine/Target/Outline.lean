import SpriteMachine.Target

/-!
The outline of a target on the stage, and what keeps it there.
-/

namespace SpriteMachine.Target

def turn (direction : Float) (p : Point) : Point :=
  let s := (radians direction).sin
  let c := (radians direction).cos
  ⟨s * p.x - c * p.y,c * p.x + s * p.y⟩

def costumeBounds (t : Target) (c : Costume) : Bounds :=
  let scale := c.scale * t.scale
  let left := -c.centre.x * scale
  let top := c.centre.y * scale
  let right := left + c.width * scale
  let bottom := top - c.height * scale
  match t.rotation with
  | .allAround =>
    Bounds.around ([⟨left,top⟩,⟨right,top⟩,⟨left,bottom⟩,⟨right,bottom⟩].map (turn t.direction))
  | .leftRight =>
    if t.direction < 0.0 then ⟨-left - c.width * scale,-left,top,bottom⟩
    else ⟨left,right,top,bottom⟩
  | .dontRotate => ⟨left,right,top,bottom⟩

def bounds (t : Target) : Bounds :=
  match t.currentCostume? with
  | none => .ofPoint t.position
  | some c => (t.costumeBounds c).shift t.position

def touchesEdge (t : Target) : Bool :=
  t.bounds.reachesEdge

def touchesPoint (t : Target) (p : Point) : Bool :=
  t.visible && t.bounds.contains p

def overlapsAny (t : Target) (others : List Target) : Bool :=
  others.any fun o => o.visible && t.bounds.intersects o.bounds

def keepInView (t : Target) : Target :=
  let b := t.bounds
  let inset := Double.atMost 15.0 (Double.floor (Double.least (b.right - b.left) (b.top - b.bottom) / 2.0))
  let x := t.position.x
  let x := if b.right - inset < -halfWidth then x - (b.right - inset + halfWidth) else x
  let x := if b.left + inset > halfWidth then x - (b.left + inset - halfWidth) else x
  let y := t.position.y
  let y := if b.bottom + inset > halfHeight then y - (b.bottom + inset - halfHeight) else y
  let y := if b.top - inset < -halfHeight then y - (b.top - inset + halfHeight) else y
  { t with position := ⟨x,y⟩ }

def bounce (t : Target) : Target :=
  let b := t.bounds
  let dl := halfWidth + b.left
  let dt := halfHeight - b.top
  let dr := halfWidth - b.right
  let db := halfHeight + b.bottom
  let d := Double.least (Double.least (Double.least dl dt) dr) db
  if d > 0.0 then t
  else
    let dx := (radians t.direction).sin
    let dy := -(radians t.direction).cos
    let away := fun x => Double.atLeast 0.2 (Float.abs x)
    let (dx,dy) :=
      if d == dl then (away dx,dy)
      else if d == dt then (dx,away dy)
      else if d == dr then (-(away dx),dy)
      else (dx,-(away dy))
    { t with direction := Float.atan2 dy dx * 180.0 / pi + 90.0 }

end SpriteMachine.Target
