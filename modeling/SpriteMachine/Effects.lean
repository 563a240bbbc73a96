import SpriteMachine.Double

/-!
Graphic effects of a target. Each has its own range.
-/

namespace SpriteMachine

inductive Effect where
  | color | fisheye | whirl | pixelate | mosaic | brightness | ghost
  deriving DecidableEq, Repr

def Effect.ofName? : String → Option Effect
  | "color" => some .color
  | "fisheye" => some .fisheye
  | "whirl" => some .whirl
  | "pixelate" => some .pixelate
  | "mosaic" => some .mosaic
  | "brightness" => some .brightness
  | "ghost" => some .ghost
  | _ => none

/-- The value that an effect takes when it is set: transparency and brightness stay in their range, hue
turns round. -/
def Effect.limit : Effect → Float → Float
  | .ghost, x => Double.clamp 0.0 100.0 x
  | .brightness, x => Double.clamp (-100.0) 100.0 x
  | .color, x =>
    if x.isFinite then
      let r := Double.remainder x 200.0
      if r < 0.0 then r + 200.0 else r
    else x
  | _, x => x

structure Effects where
  color : Float := 0.0
  fisheye : Float := 0.0
  whirl : Float := 0.0
  pixelate : Float := 0.0
  mosaic : Float := 0.0
  brightness : Float := 0.0
  ghost : Float := 0.0

namespace Effects

def get (f : Effects) : Effect → Float
  | .color => f.color
  | .fisheye => f.fisheye
  | .whirl => f.whirl
  | .pixelate => f.pixelate
  | .mosaic => f.mosaic
  | .brightness => f.brightness
  | .ghost => f.ghost

def put (f : Effects) (x : Float) : Effect → Effects
  | .color => { f with color := x }
  | .fisheye => { f with fisheye := x }
  | .whirl => { f with whirl := x }
  | .pixelate => { f with pixelate := x }
  | .mosaic => { f with mosaic := x }
  | .brightness => { f with brightness := x }
  | .ghost => { f with ghost := x }

def set (f : Effects) (name : String) (x : Float) : Effects :=
  match Effect.ofName? name with
  | some e => f.put (e.limit x) e
  | none => f

def change (f : Effects) (name : String) (delta : Float) : Effects :=
  match Effect.ofName? name with
  | some e => f.put (e.limit (f.get e + delta)) e
  | none => f

end Effects

end SpriteMachine
