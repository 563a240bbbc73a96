import SpriteMachine.Proofs.Instruments

/-!
The time of a project over calls of the host, as long as no sum is rounded. The time that is kept goes on by what the
clock goes on while the project runs, and stands still else. It is also the time that is shown while the project runs;
between a pause and the next start the time that is shown is ahead of it, and a fault takes it back to the last start.
-/

namespace SpriteMachine

/-- The exact number that a finite double stands for. -/
def Double.value (x : Float) : ℚ :=
  match Double.parts? x with
  | some p => (if p.neg then -1 else 1) * p.mantissa * 2 ^ p.exponent
  | none => 0

namespace ProjectTime

/-- What the clock shows. -/
def reading (t : ProjectTime) : ℚ :=
  Double.value t.clock.now

/-- What the clock showed at the last start. -/
def startReading (t : ProjectTime) : ℚ :=
  Double.value t.since

/-- The time of the project as it is shown. -/
def shown (t : ProjectTime) : ℚ :=
  Double.value t.now.1

/-- The time from which a start goes on, which while the project runs is the time that is shown. -/
def kept (t : ProjectTime) : ℚ :=
  if t.running then t.shown else Double.value t.before

/-- No rounding in the sum that is shown. -/
def IsExact (t : ProjectTime) : Prop :=
  t.shown = Double.value t.before + t.reading - t.startReading

instance (t : ProjectTime) : Decidable t.IsExact :=
  inferInstanceAs (Decidable (_ = _))

/-- What the time goes on by between two states of it: what the clock does, if the project is left running. -/
def ran (t t' : ProjectTime) : ℚ :=
  if t'.running then t'.reading - t.reading else 0

variable {t t' : ProjectTime}

theorem kept_of_running (h : t.running = true) : t.kept = t.shown := by
  rw [kept,if_pos h]

theorem kept_of_resting (h : t.running = false) : t.kept = Double.value t.before := by
  rw [kept,h]
  rfl

theorem kept_clock (h : t' = { t with clock := t'.clock }) (ht : t.IsExact) (ht' : t'.IsExact) :
    t'.kept = t.kept + t.ran t' := by
  have hrunning : t'.running = t.running := by rw [h]
  have hbefore : t'.before = t.before := by rw [h]
  have hsince : t'.startReading = t.startReading := by rw [startReading,h,startReading]
  cases hrun : t.running with
  | true =>
    rw [kept_of_running hrun,kept_of_running (hrunning.trans hrun),ran,if_pos (hrunning.trans hrun),ht',ht,hbefore,
      hsince]
    ring
  | false =>
    rw [kept_of_resting hrun,kept_of_resting (hrunning.trans hrun),ran,hrunning.trans hrun,hbefore]
    simp

theorem kept_start (hrun : t.running = false) (ht' : t.start.IsExact) : t.start.kept = t.kept + t.ran t.start := by
  have hrun' : t.start.running = true := rfl
  rw [kept_of_resting hrun,kept_of_running hrun',ran,if_pos hrun',ht']
  change Double.value t.before + t.start.reading - t.reading = _
  ring

theorem kept_pause (hrun : t.running = true) : t.pause.kept = t.kept + t.ran t.pause := by
  have hrun' : t.pause.running = false := rfl
  rw [kept_of_running hrun,kept_of_resting hrun',ran,hrun']
  simp
  rfl

theorem shown_eq (ht : t.IsExact) : t.shown = t.kept + if t.running then 0 else t.reading - t.startReading := by
  cases hrun : t.running with
  | true =>
    rw [kept_of_running hrun]
    simp
  | false =>
    rw [kept_of_resting hrun,ht]
    simp
    ring

end ProjectTime

namespace Machine

/-- A call of the host, by a clock that does not go back and without rounding. It ends in a fault or not. -/
inductive Called (m : Machine) : Bool → Machine → Prop
  | host {a : HostAction} (h : a ≠ .halt) (hclock : m.time.reading ≤ (a.apply m).time.reading) (hexact : m.time.IsExact)
      (hexact' : (a.apply m).time.IsExact) : Called m false (a.apply m)
  | tick {m' : Machine} {fuel : Nat} (h : m.tick fuel = .done m') (hclock : m.time.reading ≤ m'.time.reading)
      (hexact : m.time.IsExact) (hexact' : m'.time.IsExact) : Called m false m'
  | fault {m' : Machine} {fuel : Nat} {f : Fault} (h : m.tick fuel = .fault m' f)
      (hclock : m.time.reading ≤ m'.time.reading) (hexact : m.time.IsExact) (hexact' : m'.time.IsExact) : Called m true m'

/-- Calls one after the other none of which faults, and the time for which the project runs meanwhile. -/
inductive Calls (m : Machine) : ℚ → Machine → Prop
  | refl : Calls m 0 m
  | tail {r : ℚ} {m' m'' : Machine} (h : Calls m r m') (hcall : m'.Called false m'') :
      Calls m (r + m'.time.ran m''.time) m''

variable {m m' : Machine}

/-- But for a start, a pause and a halt, the host leaves the time alone or reads or sets the clock. -/
theorem time_host {a : HostAction} (hstart : a ≠ .start) (hpause : a ≠ .pause) (hhalt : a ≠ .halt) :
    (a.apply m).time = { m.time with clock := (a.apply m).time.clock } := by
  rw [time_eq (m.instruments_host a)]
  cases a with
  | start => exact absurd rfl hstart
  | pause => exact absurd rfl hpause
  | halt => exact absurd rfl hhalt
  | stopAll =>
    have htime : m.stopAll.time = m.time := congrArg (·.2.1) m.instruments_stopAll
    change m.stopAll.time = { m.time with clock := m.stopAll.time.clock }
    rw [htime]
  | setWatcher id data visible =>
    obtain ⟨_,heq⟩ := m.setWatcher_eq id data visible
    change (m.setWatcher id data visible).time = { m.time with clock := (m.setWatcher id data visible).time.clock }
    rw [heq]
  | _ => rfl

theorem time_start (m : Machine) : m.start.time = if m.time.running then m.time else m.time.start := by
  unfold Machine.start
  split <;> rfl

theorem time_pause (m : Machine) : m.pause.time = if m.time.running then m.time.pause else m.time := by
  unfold Machine.pause
  split <;> rfl

theorem time_tick {fuel : Nat} (h : m.tick fuel = .done m') : m'.time = { m.time with clock := m'.time.clock } := by
  unfold tick at h
  split at h
  · split at h
    · cases h
    · exact (reads_step (by rw [h]; rfl)).eq
  · cases h
    rfl

theorem time_fault {fuel : Nat} {f : Fault} (h : m.tick fuel = .fault m' f) :
    m.time.running = true ∧ m'.time = { m.time with clock := m'.time.clock, running := false } := by
  unfold tick at h
  split at h
  next hrun =>
    refine ⟨hrun,?_⟩
    split at h
    next m₁ _ hstep =>
      cases h
      have hreads : m₁.time = { m.time with clock := m₁.time.clock } := (reads_step (by rw [hstep]; rfl)).eq
      change { m₁.time with running := false } = { m.time with clock := m₁.time.clock, running := false }
      rw [hreads]
    next hnot => exact absurd h (hnot _ _)
  · cases h

/-! Over calls -/

theorem Called.exact {b : Bool} (h : m.Called b m') : m.time.IsExact ∧ m'.time.IsExact := by
  cases h with
  | host _ _ hexact hexact' | tick _ _ hexact hexact' | fault _ _ hexact hexact' => exact ⟨hexact,hexact'⟩

theorem Called.reading_le {b : Bool} (h : m.Called b m') : m.time.reading ≤ m'.time.reading := by
  cases h with
  | host _ hclock _ _ | tick _ hclock _ _ | fault _ hclock _ _ => exact hclock

theorem Called.kept (h : m.Called false m') : m'.time.kept = m.time.kept + m.time.ran m'.time := by
  have hstay : ∀ t : ProjectTime, t.kept = t.kept + t.ran t := by
    intro t
    rw [ProjectTime.ran,sub_self,ite_self,add_zero]
  cases h with
  | @host a hhalt hclock hexact hexact' =>
    by_cases hstart : a = .start
    · subst hstart
      change m.start.time.IsExact at hexact'
      change m.start.time.kept = _ + m.time.ran m.start.time
      rw [time_start] at hexact' ⊢
      cases hrun : m.time.running with
      | true => exact hstay m.time
      | false =>
        rw [hrun] at hexact'
        exact ProjectTime.kept_start hrun hexact'
    by_cases hpause : a = .pause
    · subst hpause
      change m.pause.time.kept = _ + m.time.ran m.pause.time
      rw [time_pause]
      cases hrun : m.time.running with
      | true => exact ProjectTime.kept_pause hrun
      | false => exact hstay m.time
    · exact ProjectTime.kept_clock (time_host hstart hpause hhalt) hexact hexact'
  | tick h _ hexact hexact' => exact ProjectTime.kept_clock (time_tick h) hexact hexact'

theorem Called.ran_nonneg {b : Bool} (h : m.Called b m') : 0 ≤ m.time.ran m'.time := by
  unfold ProjectTime.ran
  split
  · exact sub_nonneg.2 h.reading_le
  · exact le_refl 0

theorem Calls.kept {r : ℚ} (h : m.Calls r m') : m'.time.kept = m.time.kept + r := by
  induction h with
  | refl => rw [add_zero]
  | tail _ hcall ih => rw [hcall.kept,ih,add_assoc]

theorem Calls.nonneg {r : ℚ} (h : m.Calls r m') : 0 ≤ r := by
  induction h with
  | refl => exact le_refl 0
  | tail _ hcall ih => exact add_nonneg ih hcall.ran_nonneg

theorem Called.of_fault (h : m.Called true m') : m'.time.shown - m.time.shown = m'.time.reading - m.time.reading ∧
    m'.time.kept = m.time.kept - (m.time.reading - m.time.startReading) := by
  obtain ⟨hexact,hexact'⟩ := h.exact
  cases h with
  | fault h _ _ _ =>
    obtain ⟨hrun,htime⟩ := time_fault h
    have hbefore : m'.time.before = m.time.before := by rw [htime]
    have hsince : m'.time.startReading = m.time.startReading := by rw [ProjectTime.startReading,htime,ProjectTime.startReading]
    have hrun' : m'.time.running = false := by rw [htime]
    constructor
    · rw [hexact,hexact',hbefore,hsince]
      ring
    · rw [ProjectTime.kept_of_running hrun,ProjectTime.kept_of_resting hrun',hbefore,hexact]
      ring

theorem Calls.exact {r : ℚ} (h : m.Calls r m') (hm : m.time.IsExact) : m'.time.IsExact := by
  cases h with
  | refl => exact hm
  | tail _ hcall => exact hcall.exact.2

end Machine

/-- Over calls of the host none of which faults, the time of the project goes on by what the clock goes on while the
project runs; a call that leaves the project at rest leaves it as it is. So the times that are shown while the project
runs never decrease, and a start goes on from the last pause. But a project at rest shows what it did at the pause and
once more the time since the last start, and then goes on with the clock; and a fault, which still shows a time that
goes on, takes the project back to the last start. -/
theorem time_of_calls {m m' : Machine} {r : ℚ} (h : m.Calls r m') (hexact : m.time.IsExact) :
    0 ≤ r ∧ m'.time.kept = m.time.kept + r ∧
    (m.time.running = true → m'.time.running = true → m.time.shown ≤ m'.time.shown) ∧
    m'.time.shown = m'.time.kept + (if m'.time.running then 0 else m'.time.reading - m'.time.startReading) ∧
    (∀ m'', m'.Called false m'' → m''.time.running = false → m''.time.kept = m'.time.kept) ∧
    ∀ m'', m'.Called true m'' → m''.time.shown - m'.time.shown = m''.time.reading - m'.time.reading ∧
      m''.time.kept = m'.time.kept - (m'.time.reading - m'.time.startReading) := by
  refine ⟨h.nonneg,h.kept,?_,ProjectTime.shown_eq (h.exact hexact),?_,fun m'' => Machine.Called.of_fault⟩
  · intro hrun hrun'
    rw [← ProjectTime.kept_of_running hrun,← ProjectTime.kept_of_running hrun',h.kept]
    exact le_add_of_nonneg_right h.nonneg
  · intro m'' hcall hrest
    rw [hcall.kept,ProjectTime.ran,hrest]
    exact add_zero _

/-! A project that does nothing -/

def bareMachine : Machine :=
  .ofProgram { stage := { name := "Stage", kind := .stage }, sprites := [], tempo := 60.0, warnings := {} } {} {}

/-- It is started, and a second goes by. -/
def bareRunning : Machine :=
  bareMachine.start.adjustClock (·.advance (.ofMilliseconds 1000))

/-- Then it runs for a frame. -/
def bareTicked : Machine :=
  (bareRunning.tick 2).machine?.getD bareRunning

/-- Then it is paused, and half a second goes by. -/
def barePaused : Machine :=
  bareTicked.pause.adjustClock (·.advance (.ofMilliseconds 500))

theorem bareRunning_tick : bareRunning.tick 2 = .done bareTicked := by
  have hdone : (bareRunning.tick 2).fault? = none ∧ (bareRunning.tick 2).machine?.isSome = true := by decide +kernel
  unfold bareTicked
  generalize bareRunning.tick 2 = o at hdone
  cases o with
  | done m => rfl
  | fault m f => cases hdone.1
  | outOfFuel => cases hdone.2

/-- A project that ran for a second and was at rest for half a second goes on from one second. -/
theorem time_of_calls_bareMachine : ∃ r, bareMachine.Calls r barePaused.start ∧ r = 1000 ∧
    barePaused.start.time.running = true ∧ barePaused.start.time.shown = 1000 := by
  have hcalls : ∃ r, bareMachine.Calls r barePaused.start ∧ r = 1000 :=
    ⟨_,.tail (.tail (.tail (.tail (.tail (.tail .refl
      (.host (a := .start) HostAction.noConfusion (by decide +kernel) (by decide +kernel) (by decide +kernel)))
      (.host (a := .adjustClock _) HostAction.noConfusion (by decide +kernel) (by decide +kernel) (by decide +kernel)))
      (.tick bareRunning_tick (by decide +kernel) (by decide +kernel) (by decide +kernel)))
      (.host (a := .pause) HostAction.noConfusion (by decide +kernel) (by decide +kernel) (by decide +kernel)))
      (.host (a := .adjustClock _) HostAction.noConfusion (by decide +kernel) (by decide +kernel) (by decide +kernel)))
      (.host (a := .start) HostAction.noConfusion (by decide +kernel) (by decide +kernel) (by decide +kernel)),
      by decide +kernel⟩
  obtain ⟨r,hcalls,rfl⟩ := hcalls
  have hrunning : barePaused.start.time.running = true := by decide +kernel
  obtain ⟨-,hkept,-⟩ := time_of_calls hcalls (by decide +kernel)
  refine ⟨1000,hcalls,rfl,hrunning,?_⟩
  have hnone : bareMachine.time.kept = 0 := by decide +kernel
  rw [← ProjectTime.kept_of_running hrunning,hkept,hnone,zero_add]

/-- A pause does not stop the time that is shown, and the next start sets it back. -/
theorem pause_shows_more : bareTicked.time.shown = 1000 ∧ bareTicked.pause.time.shown = 2000 ∧
    barePaused.time.shown = 2500 ∧ barePaused.start.time.shown = 1000 := by
  decide +kernel

end SpriteMachine
