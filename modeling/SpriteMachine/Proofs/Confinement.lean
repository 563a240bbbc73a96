import SpriteMachine.Proofs.Traces

/-!
Whom a thread can touch. What a resumed thread changes is confined to its own target and the stage, as long as it does
not stop all threads: other targets that were alive stay alive and keep all their data, even if they are cloned.
-/

namespace SpriteMachine

namespace Machine

/-- What happens is confined to a target and the stage: other targets that were alive are as they were. -/
def Confined (own : Nat) (m m' : Machine) : Prop :=
  ∀ id x, id ≠ own → id ≠ stageId → m.targets.get? id = some x → m'.targets.get? id = some x

variable {own : Nat} {m m' m'' : Machine}

namespace Confined

theorem refl (own : Nat) (m : Machine) : Confined own m m := fun _ _ _ _ hx => hx

theorem trans (h : Confined own m m') (h' : Confined own m' m'') : Confined own m m'' :=
  fun id x hown hstage hx => h' id x hown hstage (h id x hown hstage hx)

theorem of_targets (h : m'.targets = m.targets) : Confined own m m' := by
  intro id x _ _ hx
  rw [h,hx]

theorem modifyTarget (m : Machine) {id : Nat} (hid : id = own ∨ id = stageId) (f : Target → Target) :
    Confined own m (m.modifyTarget id f) := by
  intro j x hown hstage hx
  have hne : id ≠ j := by
    rintro rfl
    exact hid.elim hown hstage
  change (m.targets.modify id f).get? j = some x
  rw [Arena.get?_modify,if_neg hne,hx]

theorem createClone (m : Machine) (parent : Nat) : Confined own m (m.createClone parent).2 := by
  intro id x _ _ hx
  rcases m.targets_createClone parent with h | ⟨t,-,-,h⟩
  · rw [h,hx]
  · have hne : id ≠ m.targets.nextId := by
      rintro rfl
      simp [Arena.get?_eq_none_of_size_le,Arena.nextId] at hx
    rw [h,Arena.get?_insert,if_neg hne,hx]

theorem deleteClone (m : Machine) (id : Nat) : Confined id m (m.deleteClone id) := by
  intro j x hown _ hx
  unfold Machine.deleteClone
  split
  · change (m.targets.remove id).get? j = some x
    rw [Arena.get?_remove,if_neg hown,hx]
  · exact hx

end Confined

theorem Edits.confined {i : Instr} (h : m.Edits i own m') : Confined own m m' := by
  induction h with
  | refl => exact .refl _ _
  | target _ hid _ ih => exact ih.trans (.modifyTarget _ hid _)
  | clone _ _ parent ih => exact ih.trans (.createClone _ parent)
  | layer _ _ ih | watcher _ _ _ ih | panel _ _ ih | prompt _ _ _ ih | ticket _ _ ih | visual _ _ ih => exact ih.trans (.of_targets rfl)
  | aside _ hm _ ih =>
    rw [hm]
    exact ih.trans (.of_targets rfl)

end Machine

/-- An instruction that does not stop all threads touches its own target and the stage. -/
theorem Turn.Effect.confined {t : Turn} {i : Instr} {m : Machine} (h : t.Effect i m) (hi : i.stopsAll = false) :
    Machine.Confined t.active.target t.machine m := by
  cases h with
  | edits h => exact h.confined
  | @raises e _ =>
    obtain ⟨queue,starts,heq⟩ := t.machine.trigger_eq e
    rw [heq]
    exact .of_targets rfl
  | stopsAll hall => simp [hi] at hall
  | stopsOthers => exact .of_targets rfl
  | deletes _ _ => exact .deleteClone _ _

namespace Machine

variable {m m' : Machine} {slot pc fuel : Nat} {t : Turn} {s : Script}

/-- A thread that does not stop all threads touches nobody else while it runs, and when it has left off. -/
theorem confined_run (hcalm : ∀ a ∈ runTrace fuel t s pc, a.instr.stopsAll = false) :
    (∀ a ∈ runTrace fuel t s pc, Confined t.active.target t.machine a.turn.machine) ∧
      ∀ m', (run fuel t s pc).machine? = some m' → Confined t.active.target t.machine m' := by
  induction fuel generalizing t s pc with
  | zero => simp [runTrace,run,Halt.machine?]
  | succ fuel ih =>
    cases hfetch : s.fetch pc with
    | error f =>
      obtain ⟨htrace,hrun⟩ := runTrace_stuck (t := t) hfetch fuel
      rw [htrace,hrun]
      refine ⟨by simp,fun m' hm' => ?_⟩
      cases hm'
      exact .refl _ _
    | ok found =>
      obtain ⟨i,next⟩ := found
      cases hadvance : advance t s pc with
      | going u r q =>
        obtain ⟨htrace,hrun⟩ := runTrace_going hfetch hadvance fuel
        rw [htrace] at hcalm ⊢
        rw [hrun]
        obtain ⟨hi,hrest⟩ := List.forall_mem_cons.1 hcalm
        obtain ⟨heffect,hsame⟩ := effect_of_going hfetch hadvance
        obtain ⟨hduring,hend⟩ := ih hrest
        rw [hsame.target] at hduring hend
        have hfirst := heffect.confined hi
        refine ⟨List.forall_mem_cons.2 ⟨.refl _ _,fun a ha => hfirst.trans (hduring a ha)⟩,fun m' hm' => ?_⟩
        exact hfirst.trans (hend m' hm')
      | halted halt =>
        obtain ⟨htrace,hrun⟩ := runTrace_halted hfetch hadvance fuel
        rw [htrace] at hcalm ⊢
        rw [hrun]
        refine ⟨by simpa using Confined.refl _ _,fun m' hm' => ?_⟩
        exact (effect_of_halted hfetch hadvance hm').confined (hcalm _ List.mem_cons_self)

theorem targets_afterHalt {halt : Halt} (h : (afterHalt slot halt).machine? = some m') :
    ∃ m, halt.machine? = some m ∧ m'.targets = m.targets := by
  cases halt with
  | done m a =>
    cases h
    exact ⟨m,rfl,targets_putBack _ _ _⟩
  | fault m f =>
    cases h
    exact ⟨m',rfl,rfl⟩
  | outOfFuel => cases h

end Machine

/-- A resumed thread touches only its own target and the stage, unless it stops all threads. Every other target that was
alive is alive at each instruction of the resumption and at its end, also if it ends in a fault, with all its data as
they were: variables, lists, position, direction, costume, effects, pen, bubble and its number, volume, and the rest. -/
theorem others_of_resume (m : Machine) {slot fuel : Nat} {th : Thread} (hth : m.queue[slot]? = some (some th))
    (hcalm : ∀ a ∈ m.resumeTrace fuel slot, a.instr.stopsAll = false) {id : Nat} {x : Target}
    (hx : m.targets.get? id = some x) (hown : id ≠ th.target) (hstage : id ≠ Machine.stageId) :
    (∀ a ∈ m.resumeTrace fuel slot, a.turn.machine.targets.get? id = some x) ∧
    ∀ m', (m.resume fuel slot).machine? = some m' → m'.targets.get? id = some x := by
  rcases m.resume_cases slot fuel with ⟨htrace,m₁,hm₁,htargets⟩ | ⟨t,s,pc,hload,htrace,hresume⟩
  · refine ⟨by simp [htrace],fun m' hm' => ?_⟩
    rw [hm₁] at hm'
    cases hm'
    rw [htargets,hx]
  · rw [htrace] at hcalm ⊢
    obtain ⟨htarget,hsame⟩ := hload.target hth
    obtain ⟨hduring,hend⟩ := Machine.confined_run hcalm
    rw [htarget] at hduring hend
    rw [← hsame] at hx
    refine ⟨fun a ha => hduring a ha id x hown hstage hx,fun m' hm' => ?_⟩
    rw [hresume] at hm'
    obtain ⟨m₁,hm₁,htargets⟩ := Machine.targets_afterHalt hm'
    rw [htargets]
    exact hend m₁ hm₁ id x hown hstage hx

/-! A sprite clones another one and moves. -/

def herdingProject : Project where
  stage := { name := "Stage", isStage := true }
  sprites := [
    { name := "Shepherd", isStage := false
      scripts := [{
        hat := .flag
        blocks := [
          .mk "control_create_clone_of" none [.mk "CLONE_OPTION" [
            .mk "control_create_clone_of_menu" none [] [("CLONE_OPTION",⟨"Sheep",none⟩)]] none] [],
          .mk "motion_changexby" none [.mk "DX" [] (some (.number "10"))] []] }] },
    { name := "Sheep", isStage := false }]

def herdingFrame (p : Program) : Machine :=
  (Machine.ofProgram p shallow {}).greenFlag.beginFrame

/-- The shepherd does not stop all threads, and there is a clone of the sheep afterwards. -/
theorem herdingProject_runs : ∃ p ∈ (compile herdingProject).toOption,
    (∀ a ∈ (herdingFrame p).resumeTrace 12 0, a.instr.stopsAll = false) ∧
    ∃ slot ∈ (herdingFrame p).queue[0]?, ∃ t ∈ slot, t.target = 1 ∧ ∃ x ∈ (herdingFrame p).targets.get? 2,
    ∃ m ∈ ((herdingFrame p).resume 12 0).machine?, m.isCloneId 3 = true := by
  decide +kernel

theorem others_of_resume_herdingProject : ∃ p t x m, compile herdingProject = .ok p ∧
    (herdingFrame p).queue[0]? = some (some t) ∧ t.target = 1 ∧
    (∀ a ∈ (herdingFrame p).resumeTrace 12 0, a.instr.stopsAll = false) ∧
    ((herdingFrame p).resume 12 0).machine? = some m ∧ m.isCloneId 3 = true ∧
    (herdingFrame p).targets.get? 2 = some x ∧ m.targets.get? 2 = some x := by
  obtain ⟨p,hp,hcalm,_,ht,t,rfl,htarget,x,hx,m,hm,hclone⟩ := herdingProject_runs
  have hother : 2 ≠ t.target := by simp [htarget]
  have hsame := (others_of_resume (herdingFrame p) ht hcalm hx hother (by decide)).2 m hm
  exact ⟨p,t,x,m,Except.mem_toOption.1 hp,ht,htarget,hcalm,hm,hclone,hx,hsame⟩

end SpriteMachine
