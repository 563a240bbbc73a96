import SpriteMachine.Proofs.SpriteList

/-!
The order of the sprites, from back to front. A clone comes in right behind its parent, a sprite that is moved stands
where it was sent or in front, and sprites that neither come nor go nor move stay in order. In all phases of a machine the
list agrees with the targets that are alive.
-/

namespace SpriteMachine

/-! Lists with a member put in -/

theorem insertIdx_length (back front : List Nat) (x : Nat) :
    (back ++ front).insertIdx back.length x = back ++ x :: front := by
  induction back with
  | nil => rfl
  | cons b back ih => simp [ih]

variable {l : List Nat} {a : Nat}

theorem insertIdx_idxOf (h : a ∈ l) (x : Nat) :
    ∃ back front, l = back ++ a :: front ∧ l.insertIdx (l.idxOf a) x = back ++ x :: a :: front := by
  obtain ⟨back,front,rfl,hback⟩ := List.eq_append_cons_of_mem h
  have hidx : (back ++ a :: front).idxOf a = back.length := by
    rw [List.idxOf_append_of_notMem hback,List.idxOf_cons_self,Nat.add_zero]
  exact ⟨back,front,rfl,by rw [hidx,insertIdx_length]⟩

theorem idxOf_insertIdx {i : Nat} (h : a ∉ l) (hi : i ≤ l.length) : (l.insertIdx i a).idxOf a = i := by
  have hlength : (l.take i).length = i := List.length_take_of_le hi
  have hback : a ∉ l.take i := fun hmem => h (List.mem_of_mem_take hmem)
  have hinsert := insertIdx_length (l.take i) (l.drop i) a
  rw [List.take_append_drop,hlength] at hinsert
  rw [hinsert,List.idxOf_append_of_notMem hback,List.idxOf_cons_self,hlength,Nat.add_zero]

theorem filter_insertIdx (i : Nat) : (l.insertIdx i a).filter (· ≠ a) = l.filter (· ≠ a) := by
  induction l generalizing i with
  | nil => cases i <;> simp
  | cons b l ih =>
    cases i with
    | zero => simp
    | succ i => simp only [List.insertIdx_succ_cons,List.filter_cons,ih]

namespace Machine

variable {p : Program} {c : Settings} {n : Nat} {m : Machine} {id parent : Nat}

theorem children_triggerFor (m : Machine) (id : Nat) (e : Event) : (m.triggerFor id e).2.children = m.children := by
  obtain ⟨queue,starts,heq⟩ := m.triggerFor_eq id e
  rw [heq]

/-! Clones come in -/

theorem Listed.nextId_not_mem (h : m.Listed n) : m.targets.nextId ∉ m.children := by
  rw [h.mem,shape?]
  have hnone : m.targets.get? m.targets.nextId = none := Arena.get?_eq_none_of_size_le _ (Nat.le_refl _)
  simp [hnone]

/-- A sprite or clone that is alive can be cloned. Its clone has a new id and stands right behind it. -/
theorem Listed.createClone_eq (h : m.Listed n) (hm : m.Sound p c) (hparent : parent ∈ m.children) :
    ∃ new m', m.createClone parent = (some new,m') ∧ new ∉ m.children ∧
      ∃ back front, m.children = back ++ parent :: front ∧ m'.children = back ++ new :: parent :: front := by
  obtain ⟨hother,hlive⟩ := (h.mem parent).1 hparent
  rw [shape?,Option.isSome_map,Option.isSome_iff_exists] at hlive
  obtain ⟨t,ht⟩ := hlive
  have hshape : m.shape? parent = some t.shape := by
    rw [shape?,ht]
    rfl
  have hstage : t.isStage = false := by
    by_contra hstage
    exact hother ((hm.shapes hshape).2 (by simpa [Target.isStage,Target.shape] using hstage))
  obtain ⟨back,front,hchildren,hinsert⟩ := insertIdx_idxOf hparent m.targets.nextId
  unfold Machine.createClone
  rw [ht]
  simp only [hstage,Bool.false_eq_true,if_false]
  refine ⟨m.targets.nextId,_,rfl,h.nextId_not_mem,back,front,hchildren,?_⟩
  split <;> exact (children_triggerFor _ _ _).trans hinsert

theorem Listed.createClone_eq_none (h : m.Listed n) (hm : m.Sound p c) (hp : p.Sound) (hparent : parent ∉ m.children) :
    m.createClone parent = (none,m) := by
  unfold Machine.createClone
  split
  · rfl
  next t ht =>
    have hshape : m.shape? parent = some t.shape := by
      rw [shape?,ht]
      rfl
    have hparent : parent = stageId := by
      by_contra hother
      exact hparent ((h.mem parent).2 ⟨hother,by simp [hshape]⟩)
    subst hparent
    rw [hm.stage] at hshape
    have hkind : t.isStage = true := by
      have hstage : p.stage.shape.kind = t.shape.kind := congrArg Shape.kind (Option.some.inj hshape)
      simpa [Target.isStage,Target.shape,hp.stage] using hstage.symm
    rw [if_pos hkind]

/-! Sprites are moved -/

theorem Listed.moveLayer_eq (h : m.Listed n) (hid : id ∈ m.children) (position : Nat) :
    (m.moveLayer id position).children.idxOf id = min position (m.children.length - 1) ∧
      (m.moveLayer id position).children.filter (· ≠ id) = m.children.filter (· ≠ id) := by
  have hlist : (m.moveLayer id position).children =
      (m.children.erase id).insertIdx (min position (m.children.erase id).length) id := by
    simp [moveLayer,hid]
  have herase : (m.children.erase id).length = m.children.length - 1 := List.length_erase_of_mem hid
  have hrest : (m.children.erase id).filter (· ≠ id) = m.children.filter (· ≠ id) := by
    rw [h.nodup.erase_eq_filter,List.filter_filter]
    refine List.filter_congr fun x _ => ?_
    by_cases hx : x = id <;> simp [hx]
  rw [hlist,filter_insertIdx,hrest,idxOf_insertIdx h.nodup.not_mem_erase (Nat.min_le_right _ _),herase]
  exact ⟨rfl,rfl⟩

theorem moveLayer_of_not_mem (hid : id ∉ m.children) (position : Nat) : m.moveLayer id position = m := by
  simp [moveLayer,hid]

/-! Clones go -/

theorem deleteClone_children (m : Machine) (id : Nat) :
    (m.deleteClone id).children = if m.isCloneId id then m.children.filter (· ≠ id) else m.children := by
  unfold deleteClone
  split
  · simp [dropThreads,removeTarget,Machine.call,bne,Bool.beq_eq_decide_eq]
  · rfl

theorem children_foldl_modifyTarget (ids : List Nat) (f : Target → Target) (m : Machine) :
    (ids.foldl (fun m id => m.modifyTarget id f) m).children = m.children := by
  induction ids generalizing m with
  | nil => rfl
  | cons id ids ih => exact ih _

theorem stopAll_children (m : Machine) : m.stopAll.children = m.children.filter fun id => !m.isCloneId id := by
  unfold stopAll
  dsimp only
  rw [children_foldl_modifyTarget]
  generalize hm : Machine.call _ HostCall.stopSounds = m₁
  have hchildren : m₁.children = m.children := by rw [← hm]; rfl
  have hclones : ∀ id, m₁.isCloneId id = m.isCloneId id := by
    intro id
    rw [isCloneId_eq,isCloneId_eq,← hm]
    exact congrArg _ ((Alike.modifyTarget _ stageId (f := fun t => { t with effects := {} }) fun _ => rfl).shapes id)
  rw [(foldl_removeTarget _ m₁).1,hchildren]
  refine List.filter_congr fun id hid => ?_
  simp [hid,hclones]

end Machine

/-- The list of sprites agrees with the targets that are alive, whatever the machine does and in the midst of it. The
stage is alive and not listed, every other target that is alive is listed once, and so are the sprites of the program at
all times: what is listed can be looked up. A sprite or clone is cloned right behind itself. One that is moved goes where
it is sent, at most to the front, and shifting it moves it to where the layers lead. Nothing else in the list changes its
order, and clones that go leave the others in order, too. -/
theorem sprites_of_compile {project : Project} {program : Program} (hcompile : compile project = .ok program)
    (hsmall : program.Small) {settings : Settings} {clock : Clock} {σ : Phase}
    (hsteps : Phase.Steps (.idle (.ofProgram program settings clock)) σ) {m : Machine} (hm : σ.machine = m) :
    (m.targets.contains Machine.stageId = true ∧ Machine.stageId ∉ m.children) ∧
    (m.children.Nodup ∧ ∀ id, id ∈ m.children ↔ id ≠ Machine.stageId ∧ m.targets.contains id = true) ∧
    (∀ id, 1 ≤ id → id ≤ program.sprites.length → id ∈ m.children ∧ m.isCloneId id = false) ∧
    (∀ id ∈ Machine.stageId :: m.children, ∃ t, m.targets.get? id = some t) ∧
    (∀ parent ∈ m.children, ∃ new m', m.createClone parent = (some new,m') ∧ new ∉ m.children ∧
      ∃ back front, m.children = back ++ parent :: front ∧ m'.children = back ++ new :: parent :: front) ∧
    (∀ parent, parent ∉ m.children → m.createClone parent = (none,m)) ∧
    (∀ id ∈ m.children, ∀ position,
      (m.moveLayer id position).children.idxOf id = min position (m.children.length - 1) ∧
      (m.moveLayer id position).children.filter (· ≠ id) = m.children.filter (· ≠ id)) ∧
    (∀ id ∈ m.children, ∀ layers,
      (m.shiftLayer id layers).children.idxOf id =
        min (Double.toIndex (Double.atLeast 0.0 (Float.ofNat (m.children.idxOf id) + layers))) (m.children.length - 1) ∧
      (m.shiftLayer id layers).children.filter (· ≠ id) = m.children.filter (· ≠ id)) ∧
    (∀ id, id ∉ m.children → ∀ position layers, m.moveLayer id position = m ∧ m.shiftLayer id layers = m) ∧
    (∀ id, (m.deleteClone id).children = if m.isCloneId id then m.children.filter (· ≠ id) else m.children) ∧
    m.stopAll.children = m.children.filter fun id => !m.isCloneId id := by
  subst hm
  have hprogram := compile_sound hcompile hsmall
  have hlisted := hsteps.listed (Machine.listed_ofProgram hprogram.stage hprogram.sprites settings clock)
  have hsound := (hsteps.sound_ofProgram hprogram).machine
  have hmem : ∀ id, id ∈ σ.machine.children ↔ id ≠ Machine.stageId ∧ σ.machine.targets.contains id = true := by
    intro id
    rw [hlisted.mem,Machine.shape?,Option.isSome_map]
    rfl
  have hstage : σ.machine.targets.contains Machine.stageId = true := by
    have hlive := hsound.stage
    rw [Machine.shape?,Option.map_eq_some_iff] at hlive
    obtain ⟨t,ht,-⟩ := hlive
    rw [Arena.contains,ht]
    rfl
  refine ⟨⟨hstage,fun hlist => ((hmem _).1 hlist).1 rfl⟩,⟨hlisted.nodup,hmem⟩,fun id hfirst hlast => ?_,?_,
    fun parent => hlisted.createClone_eq hsound,fun parent => hlisted.createClone_eq_none hsound hprogram,
    fun id => hlisted.moveLayer_eq,fun id hid layers => hlisted.moveLayer_eq hid _,
    fun id hid position layers => ⟨Machine.moveLayer_of_not_mem hid _,Machine.moveLayer_of_not_mem hid _⟩,
    Machine.deleteClone_children _,Machine.stopAll_children _⟩
  · obtain ⟨shape,hshape,-⟩ := hlisted.original id hlast
    exact ⟨(hlisted.mem id).2 ⟨Nat.ne_of_gt hfirst,by simp [hshape]⟩,hlisted.not_isCloneId hlast⟩
  · intro id hid
    have hlive : σ.machine.targets.contains id = true := by
      rcases List.mem_cons.1 hid with rfl | hid
      · exact hstage
      · exact ((hmem id).1 hid).2
    exact Option.isSome_iff_exists.1 hlive

/-! Three sprites, the first of which is cloned by the host. -/

def parade : Project where
  stage := { name := "Stage", isStage := true }
  sprites := [{ name := "Cat", isStage := false },{ name := "Dog", isStage := false },{ name := "Owl", isStage := false }]

def paradeWithClone (p : Program) : Machine :=
  (HostAction.createClone 1).apply (Machine.ofProgram p shallow {})

theorem parade_runs : ∃ p ∈ (compile parade).toOption, p.isSmall ∧ (paradeWithClone p).children = [4,1,2,3] := by
  decide +kernel

theorem sprites_of_compile_parade : ∃ p, compile parade = .ok p ∧ (paradeWithClone p).children = [4,1,2,3] ∧
    (∃ new m', (paradeWithClone p).createClone 2 = (some new,m') ∧
      ∃ back front, [4,1,2,3] = back ++ 2 :: front ∧ m'.children = back ++ new :: 2 :: front) ∧
    ((paradeWithClone p).moveLayer 4 9).children.idxOf 4 = 3 ∧
    ((paradeWithClone p).moveLayer 4 9).children.filter (· ≠ 4) = [1,2,3] ∧
    (paradeWithClone p).createClone 7 = (none,paradeWithClone p) := by
  obtain ⟨p,hp,hsmall,hlist⟩ := parade_runs
  have hcompile := Except.mem_toOption.1 hp
  have hsteps : Phase.Steps (.idle (.ofProgram p shallow {})) (.idle (paradeWithClone p)) := .single (.host _ _)
  obtain ⟨-,-,-,-,hclone,hnone,hmove,-⟩ :=
    sprites_of_compile hcompile (Program.small_of_isSmall hsmall) hsteps rfl
  simp only [Phase.machine,hlist] at hclone hnone hmove
  obtain ⟨new,m',heq,-,hplace⟩ := hclone 2 (by decide)
  obtain ⟨hfront,hrest⟩ := hmove 4 (by decide) 9
  exact ⟨p,hcompile,hlist,⟨new,m',heq,hplace⟩,hfront,hrest,hnone 7 (by decide)⟩

end SpriteMachine
