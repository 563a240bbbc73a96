import SpriteMachine.Proofs.Arrivals
import SpriteMachine.Proofs.Instruments
import SpriteMachine.Proofs.Layers

/-!
A machine at rest. When all threads are stopped the clones go, effects and the prompt are reset, and the bubbles of sprites
are taken down. The bubble of the stage stays.
-/

namespace SpriteMachine

namespace Machine

variable {m : Machine}

theorem get?_modifyTargets {f : Target → Target} (hf : ∀ t, f (f t) = f t) (ids : List Nat) (m : Machine) (id : Nat) :
    (ids.foldl (fun m id => m.modifyTarget id f) m).targets.get? id =
      if id ∈ ids then (m.targets.get? id).map f else m.targets.get? id := by
  induction ids generalizing m with
  | nil => simp
  | cons x ids ih =>
    rw [List.foldl_cons,ih]
    change (if id ∈ ids then ((m.targets.modify x f).get? id).map f else (m.targets.modify x f).get? id) = _
    rw [Arena.get?_modify]
    by_cases hx : x = id
    · cases m.targets.get? id <;> simp [hx,hf]
    · simp [hx,Ne.symm hx]

theorem get?_stopAll {n : Nat} (h : m.Listed n) (id : Nat) : m.stopAll.targets.get? id =
    if id = stageId then (m.targets.get? id).map fun t => { t with effects := {} }
    else if m.isCloneId id then none
    else (m.targets.get? id).map fun t => { t with effects := {}, bubble := none } := by
  unfold stopAll
  dsimp only
  generalize hm : Machine.call _ HostCall.stopSounds = m₁
  have hchildren : m₁.children = m.children := by rw [← hm]; rfl
  have htargets : m₁.targets = m.targets.modify stageId fun t => { t with effects := {} } := by rw [← hm]; rfl
  have hclones : m₁.isCloneId = m.isCloneId := by
    funext id
    rw [isCloneId,htargets,Arena.get?_modify,isCloneId]
    split
    · cases m.targets.get? id <;> rfl
    · rfl
  rw [get?_modifyTargets (f := fun t => { t with effects := {}, bubble := none }) fun _ => rfl,(foldl_removeTarget _ m₁).1,
    get?_removeTargets,hchildren,hclones,htargets,Arena.get?_modify]
  simp only [List.mem_filter,h.mem,decide_not,Bool.not_eq_true',decide_eq_false_iff_not]
  by_cases hstage : id = stageId
  · simp [hstage]
  · cases hget : m.targets.get? id with
    | none => simp [hstage,Ne.symm hstage]
    | some t =>
      have hlive : (m.shape? id).isSome = true := by rw [shape?,hget]; rfl
      by_cases hclone : m.isCloneId id = true
      · simp [hstage,hlive,hclone]
      · simp [hstage,Ne.symm hstage,hlive,hclone]

end Machine

/-- After all threads were stopped, wherever the machine was: no target has effects, none is a clone, no sprite has a bubble,
every thread is stopped and nothing is asked. The stage has the bubble it had. -/
theorem rest_of_compile {project : Project} {program : Program} {settings : Settings} {clock : Clock} {σ : Phase}
    {m : Machine} (hcompile : compile project = .ok program)
    (hsteps : Phase.Steps (.idle (.ofProgram program settings clock)) σ) (hm : σ.machine.stopAll = m) :
    (∀ id t, m.targets.get? id = some t →
      t.effects = {} ∧ t.isClone = false ∧ (id ≠ Machine.stageId → t.bubble = none)) ∧
    (∃ t, m.targets.get? Machine.stageId = some t ∧ t.bubble = σ.machine.stage.bubble) ∧
    (∀ t ∈ m.threads, t.stopped = true) ∧
    m.panel.promptVisible = false ∧ m.panel.question = none ∧ m.panel.turn = m.panel.nextTicket := by
  obtain ⟨hstage,hsprites,-⟩ := compile_supplied hcompile
  have hlisted := hsteps.listed (Machine.listed_ofProgram hstage hsprites settings clock)
  have hpanel : σ.machine.stopAll.panel = _ := congrArg Prod.fst σ.machine.instruments_stopAll
  subst hm
  refine ⟨fun id t ht => ?_,?_,fun t ht => ?_,by rw [hpanel],by rw [hpanel],by rw [hpanel]⟩
  · have hclone : t.isClone = false := by
      have hnone := hlisted.stopAll.2 id
      rwa [Machine.isCloneId,ht] at hnone
    rw [Machine.get?_stopAll hlisted] at ht
    split at ht
    next hid =>
      obtain ⟨x,-,rfl⟩ := Option.map_eq_some_iff.1 ht
      exact ⟨rfl,hclone,fun hne => absurd hid hne⟩
    · split at ht
      · cases ht
      · obtain ⟨x,-,rfl⟩ := Option.map_eq_some_iff.1 ht
        exact ⟨rfl,hclone,fun _ => rfl⟩
  · obtain ⟨shape,hshape,-⟩ := hlisted.original Machine.stageId (Nat.zero_le _)
    obtain ⟨x,hx,rfl⟩ := Option.map_eq_some_iff.1 hshape
    refine ⟨{ x with effects := {} },?_,?_⟩
    · rw [Machine.get?_stopAll hlisted,if_pos rfl,hx]
      rfl
    · rw [Machine.stage,hx]
      rfl
  · obtain ⟨i,hi⟩ := Machine.mem_threads.1 ht
    by_contra hlive
    exact σ.machine.not_live_stopAll t ⟨⟨i,hi⟩,eq_false_of_ne_true hlive⟩

/-! A sprite and the stage that say something. -/

def sayBlock (text : String) : Block :=
  .mk "looks_say" none [.holding "MESSAGE" (.text text)] []

def chatter : Project where
  stage := { name := "Stage", isStage := true, scripts := [{ hat := .flag, blocks := [sayBlock "hush"] }] }
  sprites := [{ name := "Cat", isStage := false, scripts := [{ hat := .flag, blocks := [sayBlock "meow"] }] }]

theorem chatter_talks : ∃ p ∈ (compile chatter).toOption, p.isSmall ∧
    ∃ x ∈ ((Machine.ofProgram p shallow {}).greenFlag.step 20).ended?, x.2 = none ∧
      (x.1.targets.get? 1).bind (·.bubble.map Bubble.text) = some "meow" ∧
      x.1.stopAll.stage.bubble.map Bubble.text = some "hush" := by
  decide +kernel

theorem steps_chatter : ∃ p m, compile chatter = .ok p ∧ Phase.Steps (.idle (.ofProgram p shallow {})) (.idle m) ∧
    (m.targets.get? 1).bind (·.bubble.map Bubble.text) = some "meow" ∧
    m.stopAll.stage.bubble.map Bubble.text = some "hush" := by
  obtain ⟨p,hp,hsmall,⟨m,_⟩,hm,rfl,hcat,hstage⟩ := chatter_talks
  have hcompile := Except.mem_toOption.1 hp
  have hprogram := compile_sound hcompile (Program.small_of_isSmall hsmall)
  have hreach : (Machine.ofProgram p shallow {}).Reachable m := .frame (.host .first .greenFlag) (Outcome.eq_done hm)
  exact ⟨p,m,hcompile,hreach.steps (.ofProgram hprogram shallow {}) hprogram,hcat,hstage⟩

theorem rest_of_compile_chatter : ∃ p m, compile chatter = .ok p ∧
    Phase.Steps (.idle (.ofProgram p shallow {})) (.idle m) ∧
    (m.targets.get? 1).bind (·.bubble.map Bubble.text) = some "meow" ∧
    (∀ t, m.stopAll.targets.get? 1 = some t → t.bubble = none) ∧ ∀ t ∈ m.stopAll.threads, t.stopped = true := by
  obtain ⟨p,m,hcompile,hsteps,hcat,-⟩ := steps_chatter
  obtain ⟨hrest,-,hthreads,-⟩ := rest_of_compile hcompile hsteps rfl
  exact ⟨p,m,hcompile,hsteps,hcat,fun t ht => (hrest 1 t ht).2.2 (by decide),hthreads⟩

/-- The stage still says what it said. -/
theorem stage_talks_at_rest : ∃ p m, compile chatter = .ok p ∧
    Phase.Steps (.idle (.ofProgram p shallow {})) (.idle m) ∧ m.stopAll.stage.bubble ≠ none := by
  obtain ⟨p,m,hcompile,hsteps,-,hstage⟩ := steps_chatter
  refine ⟨p,m,hcompile,hsteps,fun hnone => ?_⟩
  rw [hnone] at hstage
  cases hstage

end SpriteMachine
