import SpriteMachine.Costume
import SpriteMachine.Effects
import SpriteMachine.Pen
import SpriteMachine.Scripts
import SpriteMachine.Table

/-!
Targets: the stage, the sprites and their clones.
-/

namespace SpriteMachine

structure Variable where
  name : String
  value : Value

structure ListVariable where
  name : String
  list : Items

structure DataTables where
  vars : Table Variable := .empty
  lists : Table ListVariable := .empty

inductive RotationStyle where
  | allAround | leftRight | dontRotate
  deriving DecidableEq, Repr

def RotationStyle.ofName? : String → Option RotationStyle
  | "all around" | "normal" => some .allAround
  | "left-right" | "leftRight" => some .leftRight
  | "don't rotate" | "none" => some .dontRotate
  | _ => none

inductive TargetKind where
  | stage | sprite | clone
  deriving DecidableEq, Repr

structure Bubble where
  text : String
  thinking : Bool

/-- A sprite in the hand of the user: where it was, and where it is held. -/
structure Drag where
  start : Point
  offset : Point

/-- The stage has a position like all targets, but nothing looks at it. -/
structure Target where
  name : String
  kind : TargetKind
  scripts : Scripts := {}
  data : DataTables := {}
  costumes : Array Costume := #[]
  costume : Nat := 0
  sounds : Array Sound := #[]
  volume : Float := 1.0
  pitch : Float := 0.0
  instrument : Nat := 0
  effects : Effects := {}
  position : Point := {}
  direction : Float := 90.0
  scale : Float := 1.0
  visible : Bool := true
  rotation : RotationStyle := .allAround
  draggable : Bool := false
  drag : Option Drag := none
  pen : Pen := {}
  bubble : Option Bubble := none
  /-- How often a bubble was put up or taken down. -/
  sayId : Nat := 0

namespace Target

def isStage (t : Target) : Bool :=
  t.kind = .stage

def isClone (t : Target) : Bool :=
  t.kind = .clone

/-- A copy that runs the same scripts. It starts without a bubble, and its lists count as new. -/
def makeClone (t : Target) : Target :=
  { t with
    kind := .clone
    data := { t.data with lists := t.data.lists.map fun l => { l with list := l.list.unmodified } }
    drag := none
    bubble := none
    sayId := 0 }

def currentCostume? (t : Target) : Option Costume :=
  t.costumes[t.costume]?

def costumeName (t : Target) : String :=
  match t.currentCostume? with
  | some c => c.name
  | none => ""

def nextCostume (t : Target) : Target :=
  if t.costumes.isEmpty then t else { t with costume := (t.costume + 1) % t.costumes.size }

def previousCostume (t : Target) : Target :=
  if t.costumes.isEmpty then t
  else { t with costume := (t.costume + t.costumes.size - 1) % t.costumes.size }

def wrapIndex (x : Float) (size : Nat) : Nat :=
  match Double.trunc? x with
  | some n => (n % (size : Int)).toNat
  | none => 0

def numberedCostume (t : Target) (n : Float) : Target :=
  let n := if n.isFinite then n else 1.0
  { t with costume := wrapIndex (n.floor - 1.0) t.costumes.size }

/-- Takes the costume with a name, the next or the previous one, or the one with a written number. -/
def namedCostume (t : Target) (name : String) : Target :=
  match t.costumes.findIdx? fun c => c.name == name with
  | some i => { t with costume := i }
  | none =>
    if name == (if t.isStage then "next backdrop" else "next costume") then t.nextCostume
    else if name == (if t.isStage then "previous backdrop" else "previous costume") then
      t.previousCostume
    else
      let n := readNumber name
      if n.isFinite && hasDigit name then t.numberedCostume n else t

def setCostume (t : Target) (v : Value) : Target :=
  if t.costumes.isEmpty then t
  else
    match v with
    | .number n => t.numberedCostume n
    | v => t.namedCostume v.toText

def wrapDegrees (degrees : Float) : Float :=
  let d := Double.remainder degrees 360.0
  let d := if d > 180.0 then d - 360.0 else d
  if d <= -180.0 then d + 360.0 else d

def setDirection (t : Target) (degrees : Float) : Target :=
  if degrees.isFinite then { t with direction := wrapDegrees degrees } else t

def say (t : Target) (text : String) (thinking : Bool) : Target :=
  { t with
    bubble := if text.isEmpty then none else some ⟨text,thinking⟩
    sayId := t.sayId + 1 }

def numberedSound? (t : Target) (n : Float) : Option Sound :=
  if t.sounds.isEmpty || !n.isFinite then none
  else t.sounds[wrapIndex (n - 1.0).round t.sounds.size]?

def sound? (t : Target) (v : Value) : Option Sound :=
  match v with
  | .text s =>
    match t.sounds.find? fun sound => sound.name == s with
    | some sound => some sound
    | none => t.numberedSound? (readNumber s)
  | v => t.numberedSound? v.toRawNumber

def setVolume (t : Target) (percent : Float) : Target :=
  { t with volume := Double.clamp 0.0 1.0 (percent / 100.0) }

def setPitch (t : Target) (pitch : Float) : Target :=
  { t with pitch := if pitch.isNaN then 0.0 else Double.clamp (-360.0) 360.0 pitch }

end Target

end SpriteMachine
