import SpriteMachine.MathFunction

/-!
Points and boxes on the stage, whose middle is the origin. The second coordinate grows upwards.
-/

namespace SpriteMachine

structure Point where
  x : Float := 0.0
  y : Float := 0.0

def Point.distance (p q : Point) : Float :=
  Double.hypot (p.x - q.x) (p.y - q.y)

def halfWidth : Float := 240.0

def halfHeight : Float := 180.0

structure Bounds where
  left : Float
  right : Float
  top : Float
  bottom : Float

namespace Bounds

def ofPoint (p : Point) : Bounds :=
  ⟨p.x,p.x,p.y,p.y⟩

/-- The smallest box around some points; infinite and inside out if there are none. -/
def around (points : List Point) : Bounds where
  left := (points.map Point.x).foldl Double.least Double.infinity
  right := (points.map Point.x).foldl Double.greatest (-Double.infinity)
  top := (points.map Point.y).foldl Double.greatest (-Double.infinity)
  bottom := (points.map Point.y).foldl Double.least Double.infinity

def shift (b : Bounds) (p : Point) : Bounds :=
  ⟨p.x + b.left,p.x + b.right,p.y + b.top,p.y + b.bottom⟩

def contains (b : Bounds) (p : Point) : Bool :=
  p.x >= b.left && p.x <= b.right && p.y >= b.bottom && p.y <= b.top

def intersects (a b : Bounds) : Bool :=
  a.left <= b.right && b.left <= a.right && a.bottom <= b.top && b.bottom <= a.top

def reachesEdge (b : Bounds) : Bool :=
  b.left <= -halfWidth || b.right >= halfWidth || b.top >= halfHeight || b.bottom <= -halfHeight

end Bounds

end SpriteMachine
