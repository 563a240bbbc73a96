import SpriteMachine.Double

/-!
Pens. A pen keeps its colour as hue, saturation, brightness and opacity; it draws in red, green and blue.
-/

namespace SpriteMachine

/-- Channels from 0 to 255, and opacity from 0 to 1. -/
structure Rgba where
  r : Float
  g : Float
  b : Float
  a : Float

/-- Hue from 0 to 360, saturation and brightness from 0 to 100, opacity from 0 to 1. -/
structure PenColour where
  hue : Float
  saturation : Float
  brightness : Float
  alpha : Float

namespace PenColour

def channel (w : UInt32) (shift : UInt32) : Float :=
  ((w >>> shift) &&& 0xff).toNat.toFloat / 255.0

/-- The hue of a colour whose greatest channel exceeds the least by `delta`. -/
def hueOf (r g b greatest delta : Float) : Float :=
  if delta == 0.0 then 0.0
  else if greatest == r then 60.0 * Double.remEuclid ((g - b) / delta) 6.0
  else if greatest == g then 60.0 * ((b - r) / delta + 2.0)
  else 60.0 * ((r - g) / delta + 4.0)

/-- The colour of a word `0xAARRGGBB`; no opacity means full opacity. -/
def ofWord (w : UInt32) : PenColour :=
  let r := channel w 16
  let g := channel w 8
  let b := channel w 0
  let a := channel w 24
  let greatest := Double.greatest (Double.greatest r g) b
  let delta := greatest - Double.least (Double.least r g) b
  { hue := hueOf r g b greatest delta
    saturation := if greatest == 0.0 then 0.0 else delta / greatest * 100.0
    brightness := greatest * 100.0
    alpha := if a == 0.0 then 1.0 else a }

def setParam (c : PenColour) (name : String) (x : Float) : PenColour :=
  match name with
  | "color" => { c with hue := Double.remEuclid (x * 360.0 / 100.0) 360.0 }
  | "saturation" => { c with saturation := Double.clamp 0.0 100.0 x }
  | "brightness" => { c with brightness := Double.clamp 0.0 100.0 x }
  | "transparency" => { c with alpha := Double.clamp 0.0 1.0 (1.0 - x / 100.0) }
  | _ => c

def changeParam (c : PenColour) (name : String) (delta : Float) : PenColour :=
  match name with
  | "color" => { c with hue := Double.remEuclid (c.hue + delta * 360.0 / 100.0) 360.0 }
  | "saturation" => { c with saturation := Double.clamp 0.0 100.0 (c.saturation + delta) }
  | "brightness" => { c with brightness := Double.clamp 0.0 100.0 (c.brightness + delta) }
  | "transparency" => { c with alpha := Double.clamp 0.0 1.0 (c.alpha - delta / 100.0) }
  | _ => c

def toRgba (c : PenColour) : Rgba :=
  let h := c.hue / 60.0
  let s := c.saturation / 100.0
  let v := c.brightness / 100.0
  let sector := h.floor
  let f := h - sector
  let p := v * (1.0 - s)
  let q := v * (1.0 - s * f)
  let t := v * (1.0 - s * (1.0 - f))
  let (r,g,b) :=
    match (Double.toSigned sector).tmod 6 with
    | 0 => (v,t,p)
    | 1 => (q,v,p)
    | 2 => (p,v,t)
    | 3 => (p,q,v)
    | 4 => (t,p,v)
    | _ => (v,p,q)
  ⟨(r * 255.0).floor,(g * 255.0).floor,(b * 255.0).floor,c.alpha⟩

end PenColour

structure Pen where
  colour : PenColour := .ofWord 0x0000ff
  size : Float := 1.0
  down : Bool := false

end SpriteMachine
