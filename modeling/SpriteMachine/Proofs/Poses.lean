import SpriteMachine.Proofs.SpriteList

/-!
What targets wear and how they face in the course of a run. Instructions change poses, and clones have that of their
parents; nothing else gives a target another one.
-/

namespace SpriteMachine

namespace Machine

variable {P : Pose → Prop} {m m' : Machine}

/-- All targets that are alive have poses with a property. -/
def Posed (P : Pose → Prop) (m : Machine) : Prop :=
  ∀ id q, m.pose? id = some q → P q

namespace Posed

theorem of_eq (h : m.Posed P) (ht : m'.targets = m.targets) : m'.Posed P := by
  intro id q hq
  rw [pose?,ht] at hq
  exact h id q hq

theorem nudged (h : m.Posed P) (hn : m.Nudged m') : m'.Posed P := by
  intro id q hq
  rw [hn.poses] at hq
  exact h id q hq

theorem modifyTarget (h : m.Posed P) (id : Nat) {f : Target → Target} (hf : ∀ t, P t.pose → P (f t).pose) :
    (m.modifyTarget id f).Posed P := by
  intro j q hq
  rw [pose?,Machine.modifyTarget,Arena.get?_modify] at hq
  split at hq
  · rw [Option.map_map] at hq
    obtain ⟨t,ht,rfl⟩ := Option.map_eq_some_iff.1 hq
    exact hf t (h j t.pose (by rw [pose?,ht]; rfl))
  · exact h j q hq

theorem removeTarget (h : m.Posed P) (id : Nat) : (m.removeTarget id).Posed P := by
  intro j q hq
  simp only [pose?,Machine.removeTarget,Machine.call,Arena.get?_remove] at hq
  split at hq
  · cases hq
  · exact h j q hq

theorem deleteClone (h : m.Posed P) (id : Nat) : (m.deleteClone id).Posed P := by
  unfold Machine.deleteClone
  split
  · exact (h.removeTarget id).of_eq rfl
  · exact h

theorem createClone (h : m.Posed P) (parent : Nat) : (m.createClone parent).2.Posed P := by
  rcases m.targets_createClone parent with heq | ⟨t,ht,-,heq⟩
  · exact h.of_eq heq
  · intro id q hq
    rw [pose?,heq,Arena.get?_insert] at hq
    split at hq
    · cases hq
      exact h parent t.pose (by rw [pose?,ht]; rfl)
    · exact h id q hq

theorem startThread (h : m.Posed P) (id : Nat) (s : Script) (restart : Bool) : (m.startThread id s restart).Posed P := by
  obtain ⟨_,_,heq⟩ := m.startThread_eq id s restart
  rw [heq]
  exact h.of_eq rfl

theorem stopAll (h : m.Posed P) : m.stopAll.Posed P := by
  unfold Machine.stopAll
  dsimp only
  generalize hm : Machine.call _ HostCall.stopSounds = m₁
  have h₁ : m₁.Posed P := by
    rw [← hm]
    refine (modifyTarget (f := fun t => { t with effects := {} }) ?_ stageId fun _ hq => hq).of_eq rfl
    exact h.of_eq rfl
  have h₂ : ((m₁.children.filter m₁.isCloneId).foldl Machine.removeTarget m₁).Posed P :=
    List.foldlRecOn _ _ h₁ fun _ hm id _ => hm.removeTarget id
  exact List.foldlRecOn _ _ h₂ fun _ hm id _ => hm.modifyTarget id fun _ hq => hq

theorem edits {i : Instr} {own : Nat} (h : m.Posed P) (he : m.Edits i own m')
    (hchange : ∀ {t t' : Target}, t.Change i t' → P t.pose → P t'.pose) : m'.Posed P := by
  induction he with
  | refl => exact h
  | target _ _ hf ih => exact ih.modifyTarget _ fun t => hchange (hf t)
  | clone _ _ parent ih => exact ih.createClone parent
  | layer _ _ ih | watcher _ _ _ ih | panel _ _ ih | prompt _ _ _ ih | ticket _ _ ih | visual _ _ ih => exact ih.of_eq rfl
  | aside _ hm _ ih =>
    rw [hm]
    exact ih.of_eq rfl

theorem effect {i : Instr} {t : Turn} (h : t.machine.Posed P) (he : t.Effect i m)
    (hchange : ∀ {t t' : Target}, t.Change i t' → P t.pose → P t'.pose) : m.Posed P := by
  cases he with
  | edits he => exact h.edits he hchange
  | raises _ => exact trigger_keeps (fun _ _ restart h => h.startThread _ _ restart) _ h
  | stopsAll _ => exact h.stopAll
  | stopsOthers => exact h.of_eq rfl
  | deletes _ _ => exact h.deleteClone _

theorem host (h : m.Posed P) (a : HostAction) : (a.apply m).Posed P :=
  host_keeps (fun hn h => h.nudged hn) (fun _ _ restart h => h.startThread _ _ restart) (fun parent h => h.createClone parent)
    (fun id h => h.deleteClone id) a (fun _ h => h.stopAll) h

end Posed

end Machine

theorem Phase.Steps.posed {P : Pose → Prop} {σ τ : Phase} (h : Steps σ τ) (hσ : σ.machine.Posed P)
    (hchange : ∀ {t : Turn} {s : Script} {pc next : Nat} {i : Instr} {x x' : Target}, Steps σ (.turn t s pc) →
      s.fetch pc = .ok (i,next) → x.Change i x' → P x.pose → P x'.pose) : τ.machine.Posed P := by
  induction h with
  | refl => exact hσ
  | tail hsteps hstep ih =>
    refine hstep.keeps (fun _ h => h.of_eq rfl) (fun hn h => h.nudged hn) (fun a h => h.host a)
      (fun id s restart h => h.startThread id s restart) (fun hturn hfetch he h => h.effect he ?_) ih
    subst hturn
    exact hchange hsteps hfetch

/-- The pose of a target in the project. -/
def Declaration.pose (d : Declaration) : Pose where
  direction := (d.placement.map Placement.direction).getD 90.0
  costume := min d.costume (d.costumes.length - 1)
  costumes := d.costumes.toArray

theorem Compile.pose_buildTarget (d : Declaration) (kind : TargetKind) (data : DataTables) (scripts : Scripts) :
    (buildTarget d kind data scripts).pose = d.pose := by
  unfold buildTarget Declaration.pose
  cases d.placement <;> rfl

/-- What is so of the poses in a project, and what instructions keep, is so of every target that is ever alive. -/
theorem posed_of_compile {P : Pose → Prop} {project : Project} {program : Program} {settings : Settings} {clock : Clock}
    {σ : Phase} (hcompile : compile project = .ok program)
    (hsteps : Phase.Steps (.idle (.ofProgram program settings clock)) σ)
    (hproject : ∀ d ∈ project.stage :: project.sprites, P d.pose)
    (hchange : ∀ {t : Turn} {s : Script} {pc next : Nat} {i : Instr} {x x' : Target},
      Phase.Steps (.idle (.ofProgram program settings clock)) (.turn t s pc) → s.fetch pc = .ok (i,next) →
        x.Change i x' → P x.pose → P x'.pose)
    {id : Nat} {t : Target} (ht : σ.machine.targets.get? id = some t) : P t.pose := by
  refine hsteps.posed (fun id q hq => ?_) hchange id t.pose (by rw [Machine.pose?,ht]; rfl)
  change (Machine.ofProgram program settings clock).pose? id = some q at hq
  rw [Machine.pose?,Machine.ofProgram,Arena.get?_ofList] at hq
  obtain ⟨x,hx,rfl⟩ := Option.map_eq_some_iff.1 hq
  obtain ⟨d,hd,symbols,next,r,kind,data,-,rfl⟩ := compile_built hcompile x (List.mem_of_getElem? hx)
  rw [Compile.pose_buildTarget]
  exact hproject d hd

end SpriteMachine
