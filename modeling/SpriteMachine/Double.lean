/-!
Doubles read as exact numbers. A finite double is `± mantissa · 2 ^ exponent`; truncation, floor and
remainder are computed on that triple in integer arithmetic, so they are exact for every argument.
-/

namespace SpriteMachine.Double

/-- The number `± mantissa · 2 ^ exponent`. -/
structure Parts where
  neg : Bool
  mantissa : Nat
  exponent : Int
  deriving DecidableEq, Repr

/-- The exact value of a finite double; `none` for infinities and NaN. -/
def parts? (x : Float) : Option Parts :=
  let bits := x.toBits.toNat
  let field : Nat := bits / Nat.pow 2 52 % 2048
  let fraction : Nat := bits % Nat.pow 2 52
  let neg := bits / Nat.pow 2 63 == 1
  if field = 2047 then none
  else if field = 0 then some ⟨neg,fraction,-1074⟩
  else some ⟨neg,Nat.pow 2 52 + fraction,(field : Int) - 1075⟩

def Parts.whole (p : Parts) : Nat :=
  if p.exponent < 0 then p.mantissa / Nat.pow 2 p.exponent.natAbs else p.mantissa * Nat.pow 2 p.exponent.natAbs

def Parts.isWhole (p : Parts) : Bool :=
  p.exponent ≥ 0 || p.mantissa % Nat.pow 2 p.exponent.natAbs == 0

def Parts.trunc (p : Parts) : Int :=
  if p.neg then -(p.whole : Int) else p.whole

def Parts.floor (p : Parts) : Int :=
  if p.neg && !p.isWhole then -(p.whole : Int) - 1 else p.trunc

def trunc? (x : Float) : Option Int :=
  (parts? x).map Parts.trunc

def floor? (x : Float) : Option Int :=
  (parts? x).map Parts.floor

/-- The greatest whole number up to a double, as a double; infinities and NaN stay as they are. -/
def floor (x : Float) : Float :=
  match floor? x with
  | some n => if x == Float.ofInt n then x else Float.ofInt n
  | none => x

def nan : Float := 0.0 / 0.0

def infinity : Float := 1.0 / 0.0

def isNegative (x : Float) : Bool :=
  x.toBits.toNat / Nat.pow 2 63 == 1

def pow2 (q : Int) : Float :=
  if q < -1022 then Float.ofBits (UInt64.ofNat (Nat.pow 2 (q + 1074).toNat))
  else Float.ofBits (UInt64.ofNat ((q + 1023).toNat * Nat.pow 2 52))

/-- The double `± mantissa · 2 ^ exponent`, for a mantissa below `2 ^ 53` and an exponent of a double. -/
def ofParts (p : Parts) : Float :=
  let magnitude := Float.ofNat p.mantissa * pow2 p.exponent
  if p.neg then -magnitude else magnitude

/-- The remainder of truncated division. It has the sign of the dividend and is exact. -/
def remainder (x y : Float) : Float :=
  match parts? x, parts? y with
  | some a, some b =>
    if b.mantissa = 0 then nan
    else if a.mantissa = 0 then x
    else
      let e := min a.exponent b.exponent
      let r := a.mantissa * Nat.pow 2 (a.exponent - e).toNat % (b.mantissa * Nat.pow 2 (b.exponent - e).toNat)
      ofParts ⟨a.neg,r,e⟩
  | some _, none => if y.isNaN then nan else x
  | none, _ => nan

def remEuclid (x y : Float) : Float :=
  let r := remainder x y
  if r < 0.0 then r + y.abs else r

def floorMod (x y : Float) : Float :=
  let r := remainder x y
  if r / y < 0.0 then r + y else r

def trunc (x : Float) : Float :=
  if x < 0.0 then x.ceil else x.floor

def atLeast (bound x : Float) : Float :=
  if x > bound then x else bound

def atMost (bound x : Float) : Float :=
  if x < bound then x else bound

def least (x y : Float) : Float :=
  if x.isNaN then y else if y < x then y else x

def greatest (x y : Float) : Float :=
  if x.isNaN then y else if y > x then y else x

def clamp (low high x : Float) : Float :=
  if x < low then low else if x > high then high else x

def toNatUpTo (limit : Nat) (x : Float) : Nat :=
  match trunc? x with
  | some n => min limit n.toNat
  | none => if x > 0.0 then limit else 0

def toIndex (x : Float) : Nat :=
  toNatUpTo (Nat.pow 2 64 - 1) x

def leastSigned : Int := -9223372036854775808

def greatestSigned : Int := 9223372036854775807

def toSigned (x : Float) : Int :=
  match trunc? x with
  | some n => max leastSigned (min greatestSigned n)
  | none => if x > 0.0 then greatestSigned else if x < 0.0 then leastSigned else 0

def toWord (x : Float) : UInt32 :=
  UInt32.ofInt (toSigned x)

/-- The integer nearest to `mantissa · 2 ^ exponent · scale`; a half goes to the even neighbour. -/
def Parts.scaledNearest (p : Parts) (scale : Nat) : Nat :=
  let num := p.mantissa * scale
  if p.exponent ≥ 0 then num * Nat.pow 2 p.exponent.toNat
  else
    let den := Nat.pow 2 p.exponent.natAbs
    let q := num / den
    let r := num % den
    if 2 * r > den || (2 * r == den && q % 2 == 1) then q + 1 else q

/-- The value of the double nearest to a natural number; a half goes to the even neighbour. -/
def nearestNat (n : Nat) : Nat :=
  let unit := Nat.pow 2 (n.log2 - 52)
  let q := n / unit
  let r := n % unit
  (if 2 * r > unit || (2 * r == unit && q % 2 == 1) then q + 1 else q) * unit

/-- The length of the vector `(x, y)`: the rounded root, then one step of correction. A coordinate that is
far smaller than the other is added to it. Squares that would leave the range are scaled into it. -/
def hypot (x y : Float) : Float :=
  if x.isInf || y.isInf then infinity
  else if x.isNaN || y.isNaN then nan
  else
    let a := greatest x.abs y.abs
    let b := least x.abs y.abs
    if a > pow2 511 then
      if b <= a * pow2 (-54) then a + b
      else corrected (a * pow2 (-600)) (b * pow2 (-600)) / pow2 (-600)
    else if b < pow2 (-459) then
      if a >= b / pow2 (-54) then a + b
      else corrected (a / pow2 (-600)) (b / pow2 (-600)) * pow2 (-600)
    else if b <= a * pow2 (-54) then a + b
    else corrected a b
where
  corrected (a b : Float) : Float :=
    let h := (a * a + b * b).sqrt
    if h <= 2.0 * b then
      let d := h - b
      let t₁ := a * (2.0 * d - a)
      let t₂ := (d - 2.0 * (a - b)) * d
      h - (t₁ + t₂) / (2.0 * h)
    else
      let d := h - a
      let t₁ := 2.0 * d * (a - 2.0 * b)
      let t₂ := (4.0 * d - b) * b + d * d
      h - (t₁ + t₂) / (2.0 * h)

end SpriteMachine.Double
