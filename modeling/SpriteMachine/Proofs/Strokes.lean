import SpriteMachine.Proofs.Shapes

/-!
Strokes of the pen. A sprite that moves with its pen down draws a line from where it is to where it is sent. If it is kept in
view it may come to stand elsewhere, and the next line begins there.
-/

namespace SpriteMachine

namespace Target

/-- Where a target comes to stand when it is sent to a place. -/
def land (t : Target) (fenced : Bool) (p : Point) : Point :=
  if fenced then { t with position := p }.keepInView.position else p

/-- The lines, from point to point, that a target draws on its way through some places. -/
def strokes (t : Target) (fenced : Bool) : Point → List Point → List (Point × Point)
  | _, [] => []
  | here, p :: ps => (here,p) :: t.strokes fenced (t.land fenced p) ps

/-- Where a target is after that. -/
def finish (t : Target) (fenced : Bool) (here : Point) (ps : List Point) : Point :=
  ps.foldl (fun _ p => t.land fenced p) here

theorem strokes_position {t : Target} {fenced : Bool} (q here : Point) (ps : List Point) :
    { t with position := q }.strokes fenced here ps = t.strokes fenced here ps := by
  induction ps generalizing here with
  | nil => rfl
  | cons p ps ih =>
    rw [strokes,strokes,ih]
    rfl

end Target

/-- Lines form a path to a point: each begins where the one before it ends. -/
def Connected (finish : Point) : List (Point × Point) → Prop
  | [] => True
  | [l] => l.2 = finish
  | l :: l' :: lines => l.2 = l'.1 ∧ Connected finish (l' :: lines)

theorem Target.connected_strokes {t : Target} {fenced : Bool} (here : Point) (ps : List Point) :
    Connected (t.finish fenced here ps) (t.strokes fenced here ps) ↔ ∀ p ∈ ps, t.land fenced p = p := by
  induction ps generalizing here with
  | nil => simp [strokes,Connected]
  | cons p ps ih =>
    cases ps with
    | nil => simp [strokes,Connected,finish,eq_comm]
    | cons p' ps =>
      rw [List.forall_mem_cons,← ih (t.land fenced p),strokes,strokes,Connected,eq_comm]
      rfl

namespace Machine

variable {m : Machine} {id : Nat} {t : Target}

theorem moveTo_penDown (ht : m.targets.get? id = some t) (hdown : t.pen.down = true) (hdrag : t.drag = none) (p : Point) :
    (m.moveTo id p).targets.get? id = some { t with position := t.land m.settings.spriteFencing p } ∧
    (m.moveTo id p).log = m.log.push (.line t.position p t.pen.colour.toRgba t.pen.size) ∧
    (m.moveTo id p).settings = m.settings := by
  have hdraws : (t.pen.down && t.drag.isNone) = true := by rw [hdown,hdrag]; rfl
  have hmoves : ¬ (samePlace t.position p && !t.pen.down) = true := by simp [hdown]
  unfold moveTo
  simp only [ht,if_neg hmoves,if_pos hdraws]
  refine ⟨?_,rfl,rfl⟩
  change (m.targets.modify id _).get? id = _
  rw [Arena.get?_modify,if_pos rfl,ht,Target.land]
  cases m.settings.spriteFencing <;> rfl

theorem moves_penDown (ht : m.targets.get? id = some t) (hdown : t.pen.down = true) (hdrag : t.drag = none)
    (ps : List Point) :
    (ps.foldl (fun m p => m.moveTo id p) m).targets.get? id =
      some { t with position := t.finish m.settings.spriteFencing t.position ps } ∧
    (ps.foldl (fun m p => m.moveTo id p) m).log.toList = m.log.toList ++
      (t.strokes m.settings.spriteFencing t.position ps).map fun l => .line l.1 l.2 t.pen.colour.toRgba t.pen.size := by
  induction ps generalizing m t with
  | nil => exact ⟨ht,(List.append_nil _).symm⟩
  | cons p ps ih =>
    obtain ⟨hthere,hlog,hsettings⟩ := moveTo_penDown ht hdown hdrag p
    obtain ⟨hend,hlines⟩ := ih hthere hdown hdrag
    rw [hsettings] at hend hlines
    refine ⟨hend,?_⟩
    rw [List.foldl_cons,hlines,hlog,Target.strokes_position,Array.toList_push,Target.strokes,List.map_cons,
      List.append_assoc]
    rfl

/-- A sprite that goes from place to place with its pen down, and in no one's hand, draws one line to each place, from where it
came to stand before. The lines form a path that ends where the sprite is in the end exactly if it came to stand at every
place it was sent to, as it does where sprites are not kept in view. -/
theorem lines_of_moves (ht : m.targets.get? id = some t) (hdown : t.pen.down = true) (hdrag : t.drag = none)
    (ps : List Point) :
    let fenced := m.settings.spriteFencing
    let finish := t.finish fenced t.position ps
    let lines := t.strokes fenced t.position ps
    let m' := ps.foldl (fun m p => m.moveTo id p) m
    m'.targets.get? id = some { t with position := finish } ∧
    m'.log.toList = m.log.toList ++ lines.map (fun l => .line l.1 l.2 t.pen.colour.toRgba t.pen.size) ∧
    (Connected finish lines ↔ ∀ p ∈ ps, t.land fenced p = p) ∧ (fenced = false → Connected finish lines) := by
  intro fenced finish lines m'
  obtain ⟨hend,hlines⟩ := moves_penDown ht hdown hdrag ps
  have hconnected : Connected finish lines ↔ ∀ p ∈ ps, t.land fenced p = p := t.connected_strokes t.position ps
  exact ⟨hend,hlines,hconnected,fun hfenced => hconnected.2 fun p _ => by rw [hfenced]; rfl⟩

/-! A sprite without a costume, which is kept from leaving the stage. -/

def pennant : Target where
  name := "Cat"
  kind := .sprite
  pen := { down := true }

def drawingBoard (fenced : Bool) : Machine where
  targets := .ofList [{ name := "Stage", kind := .stage },pennant]
  children := [1]
  settings := { spriteFencing := fenced }
  time := .ofClock {}
  random := .ofSeed 0

theorem lines_of_moves_pennant : (drawingBoard true).targets.get? 1 = some pennant ∧
    Connected (pennant.finish true {} [⟨100.0,0.0⟩,⟨100.0,50.0⟩])
      (pennant.strokes true {} [⟨100.0,0.0⟩,⟨100.0,50.0⟩]) := by
  have hstays : ∀ p ∈ ([⟨100.0,0.0⟩,⟨100.0,50.0⟩] : List Point),
      (pennant.land true p).x = p.x ∧ (pennant.land true p).y = p.y := by
    decide +kernel
  have ht : (drawingBoard true).targets.get? 1 = some pennant := rfl
  refine ⟨ht,(lines_of_moves ht rfl rfl _).2.2.1.2 fun p hp => ?_⟩
  exact congrArg₂ Point.mk (hstays p hp).1 (hstays p hp).2

/-- The line goes on to where the sprite was sent, and the sprite does not. -/
theorem not_connected_pennant : (drawingBoard true).targets.get? 1 = some pennant ∧
    ¬ Connected (pennant.finish true {} [⟨300.0,0.0⟩]) (pennant.strokes true {} [⟨300.0,0.0⟩]) := by
  refine ⟨rfl,fun hpath => absurd (congrArg (fun p : Point => p.x.toBits) hpath) ?_⟩
  decide +kernel

end Machine

end SpriteMachine
