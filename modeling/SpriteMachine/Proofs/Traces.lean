import SpriteMachine.Proofs.Phases

/-!
Traces: which instructions are performed, and in which order. A thread that is resumed performs one after another until it
leaves off, the threads of a pass have their turns in the order of the queue, and a frame goes on with passes.
-/

namespace SpriteMachine

/-- An instruction that is performed: the turn in which it is, and where it stands. -/
structure Act where
  turn : Turn
  script : Script
  pc : Nat
  instr : Instr

namespace Machine

/-- What a thread performs from an offset of a script on. -/
def runTrace : Nat → Turn → Script → Nat → List Act
  | 0, _, _, _ => []
  | fuel + 1, t, s, pc =>
    match s.fetch pc with
    | .error _ => []
    | .ok (i,_) =>
      match advance t s pc with
      | .going u r q => ⟨t,s,pc,i⟩ :: runTrace fuel u r q
      | .halted _ => [⟨t,s,pc,i⟩]

/-- What the thread in a slot performs when it is resumed. -/
def resumeTrace (fuel : Nat) (m : Machine) (i : Nat) : List Act :=
  match (m.queue[i]?).join with
  | none => []
  | some t =>
    if t.stopped then []
    else if m.targets.contains t.target then
      match Activation.ofThread i t with
      | .error _ => []
      | .ok a =>
        match a.immediate with
        | none => []
        | some k => runTrace fuel ⟨m.setSlot i (some t.shell),{ a with immediate := none, stack := [] }⟩ k.script k.pc
    else []

/-- What the threads from a slot on perform, also those that are started meanwhile. -/
def resumeFromTrace (fuel : Nat) : Nat → Nat → Machine → List Act
  | 0, _, _ => []
  | n + 1, i, m =>
    if i < m.queue.size then
      match m.resume fuel i with
      | .done m' => resumeTrace fuel m i ++ resumeFromTrace fuel n (i + 1) m'
      | _ => resumeTrace fuel m i
    else []

/-- What is performed in passes. -/
def passesTrace (fuel : Nat) (start budget : Float) : Nat → Machine → List Act
  | 0, _ => []
  | n + 1, m =>
    match m.pass fuel with
    | .done m' =>
      resumeFromTrace fuel fuel 0 m ++
        if m'.settings.turbo || !m'.visual then
          if m'.readClock.1 - start < budget && !m'.readClock.2.queue.isEmpty then
            passesTrace fuel start budget n m'.readClock.2
          else []
        else []
    | _ => resumeFromTrace fuel fuel 0 m

/-- What is performed in a frame. -/
def stepTrace (fuel : Nat) (m : Machine) : List Act :=
  let m := ({ m with visual := false }.applyDrags).call .resume
  let (start,m) := m.readClock
  let (now,m) := m.now
  passesTrace fuel start m.settings.frameDuration.milliseconds fuel { m with frameTime := now }

variable {m m' : Machine} {t u : Turn} {s r : Script} {pc q next fuel slot : Nat} {i : Instr} {th : Thread}

/-- The instructions of a run, with its outcome: the first is performed, and the rest if the thread goes on. -/
theorem runTrace_going (hfetch : s.fetch pc = .ok (i,next)) (h : advance t s pc = .going u r q) (fuel : Nat) :
    runTrace (fuel + 1) t s pc = ⟨t,s,pc,i⟩ :: runTrace fuel u r q ∧ run (fuel + 1) t s pc = run fuel u r q := by
  simp [runTrace,run,hfetch,h]

theorem runTrace_halted (hfetch : s.fetch pc = .ok (i,next)) {halt : Halt} (h : advance t s pc = .halted halt) (fuel : Nat) :
    runTrace (fuel + 1) t s pc = [⟨t,s,pc,i⟩] ∧ run (fuel + 1) t s pc = halt := by
  simp [runTrace,run,hfetch,h]

theorem runTrace_stuck {f : Fault} (hfetch : s.fetch pc = .error f) (fuel : Nat) :
    runTrace (fuel + 1) t s pc = [] ∧ run (fuel + 1) t s pc = .fault t.machine f := by
  simp [runTrace,run,advance,hfetch]

/-- The resumption of a slot runs its thread. If the thread cannot be taken up, nothing is performed, and no target
changes. -/
theorem resume_cases (m : Machine) (slot fuel : Nat) :
    (resumeTrace fuel m slot = [] ∧ ∃ m', (m.resume fuel slot).machine? = some m' ∧ m'.targets = m.targets) ∨
      ∃ t s pc, m.Resumption slot (fun _ _ => True) 0 t s pc ∧ resumeTrace fuel m slot = runTrace fuel t s pc ∧
        m.resume fuel slot = afterHalt slot (run fuel t s pc) := by
  unfold resume resumeTrace resumeThread activate
  cases hslot : (m.queue[slot]?).join with
  | none => exact .inl ⟨rfl,m,rfl,rfl⟩
  | some th =>
    dsimp only
    by_cases hstopped : th.stopped = true
    · simp only [hstopped,if_true]
      exact .inl ⟨trivial,m,rfl,rfl⟩
    · by_cases hcontains : m.targets.contains th.target = true
      · simp only [hstopped,hcontains,if_true]
        cases hload : Activation.ofThread slot th with
        | error f => exact .inl ⟨rfl,m,rfl,rfl⟩
        | ok a =>
          dsimp only
          cases hk : a.immediate with
          | none => exact .inl ⟨rfl,_,rfl,targets_putBack _ _ _⟩
          | some k =>
            have hload := Resumption.load (P := fun _ _ => True) (Option.join_eq_some_iff.1 hslot) (by simpa using hstopped) hload hk
            refine .inr ⟨_,_,_,hload,rfl,?_⟩
            dsimp only
            cases run fuel _ k.script k.pc <;> rfl
      · simp only [hstopped,hcontains]
        exact .inl ⟨rfl,_,rfl,rfl⟩

theorem Resumption.target {P : Turn → Instr → Prop} (h : m.Resumption slot P 0 t s pc)
    (hth : m.queue[slot]? = some (some th)) : t.active.target = th.target ∧ t.machine.targets = m.targets := by
  cases h with
  | load hu hlive hload hk =>
    rw [hth] at hu
    cases hu
    unfold Activation.ofThread at hload
    split at hload
    · cases hload
    · split at hload
      · cases hload
      · cases hload
        exact ⟨rfl,rfl⟩

theorem stepTrace_eq (fuel : Nat) (m : Machine) : ∃ start budget,
    m.stepTrace fuel = m.beginFrame.passesTrace fuel start budget fuel ∧
    ∀ m', m.step fuel = .done m' → ∃ m₁, m.beginFrame.passes fuel start budget fuel = .done m₁ ∧ m' = m₁.draw := by
  refine ⟨(({ m with visual := false }.applyDrags).call .resume).readClock.1,
    m.beginFrame.settings.frameDuration.milliseconds,rfl,fun m' hstep => ?_⟩
  unfold step at hstep
  dsimp only at hstep
  split at hstep
  next m₁ hpasses =>
    cases hstep
    exact ⟨m₁,hpasses,rfl⟩
  next hother => exact absurd hstep (hother m')

/-! What is performed is met in steps. -/

theorem steps_of_mem_runTrace {a : Act} (ha : a ∈ runTrace fuel t s pc) :
    Phase.Steps (.turn t s pc) (.turn a.turn a.script a.pc) ∧ ∃ next, a.script.fetch a.pc = .ok (a.instr,next) := by
  induction fuel generalizing t s pc with
  | zero => simp [runTrace] at ha
  | succ fuel ih =>
    cases hfetch : s.fetch pc with
    | error f => simp [runTrace,hfetch] at ha
    | ok found =>
      obtain ⟨i,next⟩ := found
      cases hadvance : advance t s pc with
      | going u r q =>
        rw [(runTrace_going hfetch hadvance fuel).1,List.mem_cons] at ha
        rcases ha with rfl | ha
        · exact ⟨.refl,next,hfetch⟩
        · obtain ⟨hsteps,hthere⟩ := ih ha
          exact ⟨.head (.advance hadvance) hsteps,hthere⟩
      | halted halt =>
        rw [(runTrace_halted hfetch hadvance fuel).1,List.mem_singleton] at ha
        subst ha
        exact ⟨.refl,next,hfetch⟩

theorem steps_of_mem_resumeTrace {a : Act} (ha : a ∈ resumeTrace fuel m slot) :
    Phase.Steps (.frame m) (.turn a.turn a.script a.pc) ∧ ∃ next, a.script.fetch a.pc = .ok (a.instr,next) := by
  rcases m.resume_cases slot fuel with ⟨hnone,-⟩ | ⟨t,s,pc,hload,heq,-⟩
  · simp [hnone] at ha
  · rw [heq] at ha
    obtain ⟨hsteps,hthere⟩ := steps_of_mem_runTrace ha
    exact ⟨hload.steps.trans hsteps,hthere⟩

section Sound

variable {p : Program} {c : Settings}

theorem steps_of_mem_resumeFromTrace (h : m.Sound p c) (hp : p.Sound) {n i : Nat} {a : Act}
    (ha : a ∈ resumeFromTrace fuel n i m) :
    Phase.Steps (.frame m) (.turn a.turn a.script a.pc) ∧ ∃ next, a.script.fetch a.pc = .ok (a.instr,next) := by
  induction n generalizing m i with
  | zero => simp [resumeFromTrace] at ha
  | succ n ih =>
    by_cases hi : i < m.queue.size
    · simp only [resumeFromTrace,hi,if_true] at ha
      have hcomes := Phase.comes_resume h hp fuel i
      have hsafe := h.resume hp fuel i
      cases hresume : m.resume fuel i with
      | done m₁ =>
        rw [hresume] at hcomes hsafe
        simp only [hresume,List.mem_append] at ha
        rcases ha with ha | ha
        · exact steps_of_mem_resumeTrace ha
        · cases hsafe with
          | done h₁ =>
            obtain ⟨hsteps,hthere⟩ := ih h₁ ha
            exact ⟨Relation.ReflTransGen.trans hcomes hsteps,hthere⟩
      | fault m₁ f | outOfFuel =>
        simp only [hresume] at ha
        exact steps_of_mem_resumeTrace ha
    · simp [resumeFromTrace,hi] at ha

theorem steps_of_mem_passesTrace (h : m.Sound p c) (hp : p.Sound) {start budget : Float} {n : Nat} {a : Act}
    (ha : a ∈ passesTrace fuel start budget n m) :
    Phase.Steps (.frame m) (.turn a.turn a.script a.pc) ∧ ∃ next, a.script.fetch a.pc = .ok (a.instr,next) := by
  induction n generalizing m with
  | zero => simp [passesTrace] at ha
  | succ n ih =>
    unfold passesTrace at ha
    have hcomes := Phase.comes_resumeFrom h hp fuel fuel 0
    have hsafe := h.resumeFrom hp fuel fuel 0
    cases hfrom : resumeFrom fuel fuel 0 m with
    | fault m₁ f | outOfFuel =>
      simp only [pass,hfrom] at ha
      exact steps_of_mem_resumeFromTrace h hp ha
    | done m₁ =>
      rw [hfrom] at hcomes hsafe
      simp only [pass,hfrom,List.mem_append] at ha
      rcases ha with ha | ha
      · exact steps_of_mem_resumeFromTrace h hp ha
      · split at ha
        · split at ha
          · cases hsafe with
            | done h₁ =>
              obtain ⟨hsteps,hthere⟩ := ih (h₁.sweep.alike (.readClock _)) ha
              have hswept : Phase.Steps (.frame m) (.frame m₁.sweep.readClock.2) :=
                (Relation.ReflTransGen.tail hcomes (.sweep m₁)).tail (.clock _)
              exact ⟨hswept.trans hsteps,hthere⟩
          · simp at ha
        · simp at ha

theorem steps_of_mem_stepTrace (h : m.Sound p c) (hp : p.Sound) {a : Act} (ha : a ∈ m.stepTrace fuel) :
    Phase.Steps (.idle m) (.turn a.turn a.script a.pc) ∧ ∃ next, a.script.fetch a.pc = .ok (a.instr,next) := by
  obtain ⟨start,budget,htrace,-⟩ := m.stepTrace_eq fuel
  rw [htrace] at ha
  obtain ⟨hsteps,hthere⟩ := steps_of_mem_passesTrace (h.alike (.beginFrame m)) hp ha
  exact ⟨.head (.begin m) hsteps,hthere⟩

end Sound

end Machine

end SpriteMachine
