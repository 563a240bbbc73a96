import SpriteMachine.Proofs.Persistence

/-!
The instruments of a machine: its panel, its time and its monitors. What happens to the scene and to the queue leaves them
alone. An instruction leaves the time alone but for readings of the clock, and so does a whole frame.
-/

namespace SpriteMachine

namespace Machine

def instruments (m : Machine) : Panel × ProjectTime × List Watcher :=
  (m.panel,m.time,m.watchers)

/-! The scene and the queue -/

section Apart

variable (m : Machine)

@[simp] theorem instruments_moveTo (id : Nat) (p : Point) : (m.moveTo id p).instruments = m.instruments := by
  unfold moveTo
  split
  · rfl
  · split
    · rfl
    · dsimp only
      split <;> rfl

@[simp] theorem instruments_moveLayer (id position : Nat) : (m.moveLayer id position).instruments = m.instruments := by
  unfold moveLayer
  split <;> rfl

@[simp] theorem instruments_startThread (id : Nat) (s : Script) (restart : Bool) :
    (m.startThread id s restart).instruments = m.instruments := by
  obtain ⟨queue,starts,heq⟩ := m.startThread_eq id s restart
  rw [heq]
  rfl

@[simp] theorem instruments_triggerFor (id : Nat) (e : Event) : (m.triggerFor id e).2.instruments = m.instruments := by
  obtain ⟨queue,starts,heq⟩ := m.triggerFor_eq id e
  rw [heq]
  rfl

@[simp] theorem instruments_trigger (e : Event) : (m.trigger e).2.instruments = m.instruments := by
  obtain ⟨queue,starts,heq⟩ := m.trigger_eq e
  rw [heq]
  rfl

@[simp] theorem instruments_createClone (parent : Nat) : (m.createClone parent).2.instruments = m.instruments := by
  obtain ⟨_,_,_,_,_,heq⟩ := m.createClone_frame parent
  rw [heq]
  rfl

@[simp] theorem instruments_deleteClone (id : Nat) : (m.deleteClone id).instruments = m.instruments := by
  unfold deleteClone
  split <;> rfl

@[simp] theorem instruments_putBack (i : Nat) (a : Activation) : (m.putBack i a).instruments = m.instruments := by
  unfold putBack
  split <;> rfl

theorem instruments_foldl {α : Type} {f : Machine → α → Machine} (hf : ∀ m x, (f m x).instruments = m.instruments)
    (l : List α) : (l.foldl f m).instruments = m.instruments := by
  induction l generalizing m with
  | nil => rfl
  | cons x l ih => exact (ih (f m x)).trans (hf m x)

@[simp] theorem instruments_draw : m.draw.instruments = m.instruments := by
  refine instruments_foldl m (fun m id => ?_) _
  split <;> rfl

@[simp] theorem instruments_applyDrags : m.applyDrags.instruments = m.instruments :=
  instruments_foldl m (fun m _ => m.instruments_moveTo _ _) _

theorem panel_beginFrame : m.beginFrame.panel = m.panel :=
  congrArg Prod.fst (instruments_applyDrags { m with visual := false })

@[simp] theorem instruments_endDrag (id : Nat) : (m.endDrag id).instruments = m.instruments := by
  unfold endDrag
  split
  · rfl
  · split
    · rfl
    · dsimp only
      split
      · exact instruments_triggerFor _ _ _
      · rfl

@[simp] theorem instruments_stopAll : m.stopAll.instruments =
    ({ m.panel with promptVisible := false, question := none, turn := 0, nextTicket := 0 },m.time,m.watchers) := by
  obtain ⟨_,_,_,heq⟩ := m.stopAll_frame
  rw [heq]
  rfl

/-- What a host action does to the instruments. -/
def instrumental : HostAction → Machine
  | .greenFlag => m.resetTimer
  | .press => m.modifyPanel fun p => { p with mouseDown := true }
  | .release => m.modifyPanel fun p => { p with mouseDown := false }
  | .keyDown k => m.modifyPanel fun p => { p with keys := if p.keys.contains k then p.keys else p.keys ++ [k] }
  | .trigger _ | .triggerFor .. | .endDrag _ | .createClone _ | .deleteClone _ | .moveTo .. | .moveLayer .. => m
  | a => a.apply m

theorem instruments_host (a : HostAction) : (a.apply m).instruments = (m.instrumental a).instruments := by
  cases a with
  | greenFlag | keyDown k => exact instruments_trigger _ _
  | press =>
    change m.press.instruments = _
    unfold Machine.press
    dsimp only
    split
    · split
      · rfl
      · exact instruments_triggerFor _ _ _
    · exact instruments_triggerFor _ _ _
  | release => exact instruments_foldl _ (fun m id => m.instruments_endDrag id) _
  | trigger e => exact m.instruments_trigger e
  | triggerFor id e => exact m.instruments_triggerFor id e
  | endDrag id => exact m.instruments_endDrag id
  | createClone parent => exact m.instruments_createClone parent
  | deleteClone id => exact m.instruments_deleteClone id
  | moveTo id q => exact m.instruments_moveTo id q
  | moveLayer id position => exact m.instruments_moveLayer id position
  | _ => rfl

end Apart

end Machine

/-! The time in a frame -/

theorem ProjectTime.Reads.trans {t t' t'' : ProjectTime} (h : t.Reads t') (h' : t'.Reads t'') : t.Reads t'' := by
  induction h' with
  | refl => exact h
  | read _ ih => exact .read ih

theorem ProjectTime.Reads.eq {t t' : ProjectTime} (h : t.Reads t') : t' = { t with clock := t'.clock } := by
  induction h with
  | refl => rfl
  | read _ ih => rw [ih]

namespace Machine

variable {m m' : Machine}

theorem time_eq (h : m'.instruments = m.instruments) : m'.time = m.time :=
  congrArg (·.2.1) h

theorem reads_of_instruments (h : m'.instruments = m.instruments) : m.time.Reads m'.time := by
  rw [time_eq h]
  exact .refl

theorem Edits.reads {i : Instr} {own : Nat} (h : m.Edits i own m') : m.time.Reads m'.time := by
  induction h with
  | refl => exact .refl
  | target _ _ _ ih | layer _ _ ih | watcher _ _ _ ih | panel _ _ ih | prompt _ _ _ ih | ticket _ _ ih | visual _ _ ih =>
    exact ih
  | clone _ _ parent ih => exact ih.trans (reads_of_instruments (instruments_createClone _ _))
  | aside _ _ htime ih => exact ih.trans htime

end Machine

theorem Turn.Effect.reads {t : Turn} {i : Instr} {m : Machine} (h : t.Effect i m) : t.machine.time.Reads m.time := by
  cases h with
  | edits h => exact h.reads
  | raises _ => exact Machine.reads_of_instruments (Machine.instruments_trigger _ _)
  | stopsAll _ =>
    have hstop : t.machine.stopAll.time = t.machine.time := congrArg (·.2.1) t.machine.instruments_stopAll
    rw [hstop]
    exact .refl
  | stopsOthers => exact .refl
  | deletes _ _ => exact Machine.reads_of_instruments (Machine.instruments_deleteClone _ _)

namespace Machine

variable {m m' : Machine}

theorem reads_beginFrame (m : Machine) : m.time.Reads m.beginFrame.time := by
  have hdrags : ({ m with visual := false }.applyDrags).time = m.time :=
    time_eq (instruments_applyDrags { m with visual := false })
  rw [← hdrags]
  exact .read (.read .refl)

theorem persistent_reads (t : ProjectTime) : Persistent fun m => t.Reads m.time where
  effect h hm := hm.trans h.reads
  slot _ _ hm := hm
  sweep hm := hm
  clock hm := hm.read
  begins hm := hm.trans (reads_beginFrame _)
  draw hm := hm.trans (reads_of_instruments (instruments_draw _))

theorem reads_step {fuel : Nat} (h : (m.step fuel).machine? = some m') : m.time.Reads m'.time :=
  (persistent_reads m.time).step h .refl

end Machine

end SpriteMachine
