import SpriteMachine.Double

/-!
The functions of one number that projects know by name. Angles are in degrees.
-/

namespace SpriteMachine

inductive MathFunction where
  | abs | floor | ceiling | sqrt | sin | cos | tan | asin | acos | atan | ln | log | exp | pow10
  deriving DecidableEq, Repr

namespace MathFunction

def all : List MathFunction :=
  [.abs,.floor,.ceiling,.sqrt,.sin,.cos,.tan,.asin,.acos,.atan,.ln,.log,.exp,.pow10]

def name : MathFunction → String
  | .abs => "abs"
  | .floor => "floor"
  | .ceiling => "ceiling"
  | .sqrt => "sqrt"
  | .sin => "sin"
  | .cos => "cos"
  | .tan => "tan"
  | .asin => "asin"
  | .acos => "acos"
  | .atan => "atan"
  | .ln => "ln"
  | .log => "log"
  | .exp => "e ^"
  | .pow10 => "10 ^"

def ofName? (s : String) : Option MathFunction :=
  all.find? fun f => f.name == s

def ofWord? (w : UInt32) : Option MathFunction :=
  all[w.toNat]?

def word (f : MathFunction) : UInt32 :=
  UInt32.ofNat (all.idxOf f)

end MathFunction

def pi : Float := 3.141592653589793

def radians (degrees : Float) : Float :=
  degrees * pi / 180.0

def roundTrig (x : Float) : Float :=
  (x * 1e10).round / 1e10

def tangent (degrees : Float) : Float :=
  let angle := Double.remEuclid degrees 360.0
  if angle == 90.0 then Double.infinity
  else if angle == 270.0 then -Double.infinity
  else roundTrig (radians angle).tan

def MathFunction.apply (f : MathFunction) (x : Float) : Float :=
  match f with
  | .abs => x.abs
  | .floor => x.floor
  | .ceiling => x.ceil
  | .sqrt => x.sqrt
  | .sin => roundTrig (radians x).sin
  | .cos => roundTrig (radians x).cos
  | .tan => tangent x
  | .asin => x.asin * 180.0 / pi
  | .acos => x.acos * 180.0 / pi
  | .atan => x.atan * 180.0 / pi
  | .ln => x.log
  | .log => x.log10
  | .exp => x.exp
  | .pow10 => Float.pow 10.0 x

end SpriteMachine
