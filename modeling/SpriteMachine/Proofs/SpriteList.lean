import SpriteMachine.Proofs.Phases

/-!
The list of sprites, from back to front. It has every live target but the stage, and each once: the sprites of the
program, which are always alive, and the clones, each with the name of one of these. All that a machine does keeps it
so.
-/

namespace SpriteMachine

namespace Machine

/-- The sprites are listed. The program has a number of sprites, whose ids follow that of the stage. -/
structure Listed (n : Nat) (m : Machine) : Prop where
  nodup : m.children.Nodup
  mem : ∀ id, id ∈ m.children ↔ id ≠ stageId ∧ (m.shape? id).isSome
  original : ∀ id ≤ n, ∃ σ, m.shape? id = some σ ∧ σ.kind ≠ .clone
  clone : ∀ id σ, n < id → m.shape? id = some σ → σ.kind = .clone
  stage : ∀ σ, m.shape? stageId = some σ → σ.kind = .stage
  named : ∀ id σ, id ≠ stageId → m.shape? id = some σ →
    ∃ sprite τ, sprite ≠ stageId ∧ sprite ≤ n ∧ m.shape? sprite = some τ ∧ τ.name = σ.name

variable {n : Nat} {m m' : Machine}

theorem isCloneId_eq (m : Machine) (id : Nat) : m.isCloneId id = (m.shape? id).any fun σ => σ.kind = .clone := by
  unfold isCloneId shape?
  cases m.targets.get? id <;> rfl

namespace Listed

theorem perm (h : m.Listed n) (hlist : m'.children.Perm m.children) (hshape : m'.shape? = m.shape?) : m'.Listed n where
  nodup := hlist.nodup_iff.2 h.nodup
  mem id := by rw [hlist.mem_iff,hshape,h.mem]
  original := hshape ▸ h.original
  clone := hshape ▸ h.clone
  stage := hshape ▸ h.stage
  named := hshape ▸ h.named

theorem alike (h : m.Listed n) (ha : m.Alike m') : m'.Listed n := h.perm ha.children (funext ha.shapes)

theorem of_eq (h : m.Listed n) (ht : m'.targets = m.targets) (hc : m'.children = m.children) : m'.Listed n :=
  h.perm (.of_eq hc) (by unfold shape?; rw [ht])

theorem trigger (h : m.Listed n) (e : Event) : (m.trigger e).2.Listed n := by
  obtain ⟨queue,starts,heq⟩ := m.trigger_eq e
  exact h.of_eq (by rw [heq]) (by rw [heq])

theorem startThread (h : m.Listed n) (id : Nat) (s : Script) (restart : Bool) : (m.startThread id s restart).Listed n := by
  obtain ⟨queue,starts,heq⟩ := m.startThread_eq id s restart
  exact h.of_eq (by rw [heq]) (by rw [heq])

end Listed

/-! A clone is put into the list just behind its parent. -/

theorem createClone_cases (m : Machine) (parent : Nat) : (m.createClone parent).2 = m ∨
    ∃ σ : Shape, m.shape? parent = some σ ∧ σ.kind ≠ .stage ∧
      (m.createClone parent).2.children.Perm (m.targets.slots.size :: m.children) ∧ ∀ id, (m.createClone parent).2.shape? id =
        if id = m.targets.slots.size then some { σ with kind := .clone } else m.shape? id := by
  rcases m.createClone_eq parent with h | ⟨t,visual,ht,hstage,h⟩
  · exact .inl h
  · obtain ⟨queue,starts,htrigger⟩ := (m.withClone parent t).triggerFor_eq m.targets.nextId .cloned
    rw [htrigger] at h
    rw [h]
    refine .inr ⟨t.shape,by simp [shape?,ht],by simpa [Target.isStage,Target.shape] using hstage,
      List.perm_insertIdx _ _ List.idxOf_le_length,fun id => ?_⟩
    change ((m.targets.insert t.makeClone).get? id).map Target.shape = _
    rw [Arena.get?_insert]
    by_cases hid : id = m.targets.slots.size
    · simp [hid,Arena.nextId]
    · simp [hid,Arena.nextId,shape?]

theorem Listed.createClone (h : m.Listed n) (parent : Nat) : (m.createClone parent).2.Listed n := by
  rcases m.createClone_cases parent with heq | ⟨σ,hparent,hkind,hlist,hshape⟩
  · rw [heq]
    exact h
  · obtain ⟨σ',hlast,-⟩ := h.original n (Nat.le_refl n)
    have hlt : n < m.targets.slots.size := shape?_lt hlast
    have hfresh : m.shape? m.targets.slots.size = none := by
      simp [shape?,Arena.get?_eq_none_of_size_le]
    have hold : ∀ id ≤ n, (m.createClone parent).2.shape? id = m.shape? id := by
      intro id hid
      rw [hshape,if_neg (by omega)]
    constructor
    · rw [hlist.nodup_iff,List.nodup_cons,h.mem,hfresh]
      simp [h.nodup]
    · intro id
      rw [hlist.mem_iff,List.mem_cons,h.mem,hshape]
      by_cases hid : id = m.targets.slots.size
      · simp only [hid,true_or,if_true,Option.isSome_some,and_true,true_iff,stageId]
        omega
      · simp [hid]
    · intro id hid
      rw [hold id hid]
      exact h.original id hid
    · intro id τ hid hτ
      rw [hshape] at hτ
      split at hτ
      · cases hτ
        rfl
      · exact h.clone id τ hid hτ
    · rw [hold stageId (Nat.zero_le n)]
      exact h.stage
    · have hnames : ∀ id τ, id ≠ stageId → m.shape? id = some τ → ∃ sprite υ, sprite ≠ stageId ∧ sprite ≤ n ∧
          (m.createClone parent).2.shape? sprite = some υ ∧ υ.name = τ.name := by
        intro id τ hid hτ
        obtain ⟨sprite,υ,hsprite,hle,hυ,hname⟩ := h.named id τ hid hτ
        exact ⟨sprite,υ,hsprite,hle,by rw [hold sprite hle,hυ],hname⟩
      intro id τ hid hτ
      rw [hshape] at hτ
      split at hτ
      · cases hτ
        refine hnames parent σ ?_ hparent
        rintro rfl
        exact hkind (h.stage σ hparent)
      · exact hnames id τ hid hτ

/-! Clones are taken out again, alone or all together. -/

theorem get?_removeTargets (ids : List Nat) (m : Machine) (id : Nat) :
    (ids.foldl removeTarget m).targets.get? id = if id ∈ ids then none else m.targets.get? id := by
  induction ids generalizing m with
  | nil => simp
  | cons x ids ih =>
    rw [List.foldl_cons,ih]
    change (if id ∈ ids then none else (m.targets.remove x).get? id) = _
    rw [Arena.get?_remove]
    by_cases hx : id = x <;> simp [hx]

theorem foldl_removeTarget (ids : List Nat) (m : Machine) :
    (ids.foldl removeTarget m).children = m.children.filter (· ∉ ids) ∧
      ∀ id, (ids.foldl removeTarget m).shape? id = if id ∈ ids then none else m.shape? id := by
  constructor
  · induction ids generalizing m with
    | nil => simp
    | cons x ids ih =>
      rw [List.foldl_cons,ih]
      change (m.children.filter (· != x)).filter _ = _
      rw [List.filter_filter]
      refine List.filter_congr fun a _ => ?_
      by_cases ha : a = x <;> simp [ha]
  · intro id
    rw [shape?,get?_removeTargets,shape?]
    split <;> rfl

theorem Listed.not_isCloneId (h : m.Listed n) {id : Nat} (hid : id ≤ n) : m.isCloneId id = false := by
  obtain ⟨σ,hσ,hkind⟩ := h.original id hid
  simp [isCloneId_eq,hσ,hkind]

theorem Listed.removeTargets {ids : List Nat} (h : m.Listed n) (hids : ∀ id ∈ ids, m.isCloneId id = true) :
    (ids.foldl removeTarget m).Listed n := by
  obtain ⟨hlist,hshape⟩ := foldl_removeTarget ids m
  have hold : ∀ id ≤ n, (ids.foldl removeTarget m).shape? id = m.shape? id := by
    intro id hid
    rw [hshape,if_neg]
    intro hmem
    have hclone := hids id hmem
    rw [h.not_isCloneId hid] at hclone
    cases hclone
  constructor
  · rw [hlist]
    exact h.nodup.filter _
  · intro id
    rw [hlist,hshape,List.mem_filter,h.mem]
    by_cases hid : id ∈ ids
    · simp [hid]
    · simp [hid]
  · intro id hid
    rw [hold id hid]
    exact h.original id hid
  · intro id σ hid hσ
    rw [hshape] at hσ
    split at hσ
    · cases hσ
    · exact h.clone id σ hid hσ
  · rw [hold stageId (Nat.zero_le n)]
    exact h.stage
  · intro id σ hid hσ
    rw [hshape] at hσ
    split at hσ
    · cases hσ
    · obtain ⟨sprite,τ,hsprite,hle,hτ,hname⟩ := h.named id σ hid hσ
      exact ⟨sprite,τ,hsprite,hle,by rw [hold sprite hle,hτ],hname⟩

theorem Listed.deleteClone (h : m.Listed n) (id : Nat) : (m.deleteClone id).Listed n := by
  unfold Machine.deleteClone
  split
  next hclone =>
    have hremoved : (m.removeTarget id).Listed n := by
      have hids : ∀ x ∈ [id], m.isCloneId x = true := by simpa using hclone
      exact h.removeTargets hids
    exact hremoved.of_eq rfl rfl
  · exact h

theorem Listed.removeClones (h : m.Listed n) : ((m.children.filter m.isCloneId).foldl removeTarget m).Listed n ∧
    ∀ id, ((m.children.filter m.isCloneId).foldl removeTarget m).isCloneId id = false := by
  constructor
  · exact h.removeTargets fun id hid => (List.mem_filter.1 hid).2
  · intro id
    obtain ⟨-,hshape⟩ := foldl_removeTarget (m.children.filter m.isCloneId) m
    rw [isCloneId_eq,hshape]
    split
    · rfl
    next hnot =>
      -- A clone that is alive is in the list, so it was taken out.
      rw [← isCloneId_eq,Bool.eq_false_iff]
      intro hclone
      have hstage : id ≠ stageId := by
        rintro rfl
        have hno : m.isCloneId stageId = false := h.not_isCloneId (Nat.zero_le n)
        rw [hno] at hclone
        cases hclone
      have hlive : (m.shape? id).isSome := by
        rw [isCloneId_eq] at hclone
        exact Option.isSome_of_any hclone
      exact hnot (List.mem_filter.2 ⟨(h.mem id).2 ⟨hstage,hlive⟩,hclone⟩)

theorem Listed.stopAll (h : m.Listed n) : m.stopAll.Listed n ∧ ∀ id, m.stopAll.isCloneId id = false := by
  unfold Machine.stopAll
  dsimp only
  generalize hm : Machine.call _ HostCall.stopSounds = m₁
  have h₁ : m₁.Listed n := by
    rw [← hm]
    refine Listed.alike ?_ ((Alike.modifyTarget _ stageId (f := fun t => { t with effects := {} }) fun _ => rfl).trans (.call _ _))
    exact h.of_eq rfl rfl
  obtain ⟨h₂,hnone⟩ := h₁.removeClones
  generalize (m₁.children.filter m₁.isCloneId).foldl removeTarget m₁ = m₂ at h₂ hnone
  have hrest : m₂.Alike (m₂.children.foldl
      (fun m id => m.modifyTarget id fun t => { t with effects := {}, bubble := none }) m₂) :=
    (Nudged.foldl (fun m id => .modifyTarget m id (f := fun t => { t with effects := {}, bubble := none }) (fun _ => rfl)
      fun _ => rfl) _ _).toAlike
  refine ⟨h₂.alike hrest,fun id => ?_⟩
  rw [isCloneId_eq,hrest.shapes,← isCloneId_eq,hnone]

theorem Listed.evolves (h : m.Listed n) (he : m.Evolves m') : m'.Listed n := by
  induction he with
  | refl => exact h
  | alike _ ha ih => exact ih.alike ha
  | clone _ parent ih => exact ih.createClone parent

theorem Listed.perm_of_no_clones (h : m.Listed n) (hnone : ∀ id, m.isCloneId id = false) :
    m.children.Perm (List.range' 1 n) := by
  rw [List.perm_ext_iff_of_nodup h.nodup List.nodup_range']
  intro id
  rw [h.mem,List.mem_range'_1,stageId]
  constructor
  · rintro ⟨hstage,hlive⟩
    obtain ⟨σ,hσ⟩ := Option.isSome_iff_exists.1 hlive
    by_contra hid
    have hkind := h.clone id σ (by omega) hσ
    have hclone := hnone id
    simp [isCloneId_eq,hσ,hkind] at hclone
  · intro hid
    obtain ⟨σ,hσ,-⟩ := h.original id (by omega)
    exact ⟨by omega,by simp [hσ]⟩

theorem listed_ofProgram {p : Program} (hstage : p.stage.kind = .stage) (hsprites : ∀ t ∈ p.sprites, t.kind = .sprite)
    (settings : Settings) (clock : Clock) : (Machine.ofProgram p settings clock).Listed p.sprites.length := by
  constructor
  · exact List.nodup_range'
  · intro id
    rw [shape?_ofProgram]
    simp [Machine.ofProgram,stageId]
    omega
  · intro id hid
    rw [shape?_ofProgram]
    cases id with
    | zero => exact ⟨_,rfl,by simp [Target.shape,hstage]⟩
    | succ id =>
      have hsprite := List.getElem?_eq_getElem (l := p.sprites) (i := id) (by omega)
      have hkind := hsprites _ (List.mem_of_getElem? hsprite)
      exact ⟨_,by rw [List.getElem?_cons_succ,hsprite]; rfl,by simp [Target.shape,hkind]⟩
  · intro id σ hid hσ
    rw [shape?_ofProgram,List.getElem?_eq_none (by simp; omega)] at hσ
    cases hσ
  · intro σ hσ
    rw [shape?_ofProgram] at hσ
    cases hσ
    exact hstage
  · intro id σ hid hσ
    obtain ⟨t,ht,-⟩ := Option.map_eq_some_iff.1 (shape?_ofProgram p settings clock id ▸ hσ)
    have hlt := (List.getElem?_eq_some_iff.1 ht).1
    exact ⟨id,σ,hid,by simpa [Nat.lt_succ_iff] using hlt,hσ,rfl⟩

end Machine

theorem Turn.Effect.listed {t : Turn} {i : Instr} {m : Machine} {n : Nat} (h : t.Effect i m) (ht : t.machine.Listed n) :
    m.Listed n := by
  cases h with
  | edits h => exact ht.evolves h.evolves
  | raises _ => exact ht.trigger _
  | stopsAll _ => exact ht.stopAll.1
  | stopsOthers => exact ht.of_eq rfl rfl
  | deletes _ _ => exact ht.deleteClone _

namespace Machine

variable {n : Nat} {m m' : Machine}

theorem Listed.host (h : m.Listed n) (a : HostAction) : (a.apply m).Listed n :=
  host_keeps (fun ha h => h.alike ha.toAlike) (fun _ _ restart h => h.startThread _ _ restart) (fun parent h => h.createClone parent)
    (fun id h => h.deleteClone id) a (fun _ h => h.stopAll.1) h

end Machine

/-- A property that queues and nudges do not touch lasts if host actions, starts and instructions keep it. -/
theorem Phase.Step.keeps {P : Machine → Prop} {σ τ : Phase} (h : Step σ τ)
    (hqueue : ∀ {m : Machine} (queue : Array (Option Thread)), P m → P { m with queue })
    (hnudge : ∀ {m m' : Machine}, m.Nudged m' → P m → P m') (hhost : ∀ {m : Machine} (a : HostAction), P m → P (a.apply m))
    (hstart : ∀ {m : Machine} (id : Nat) (s : Script) (restart : Bool), P m → P (m.startThread id s restart))
    (heffect : ∀ {t : Turn} {s : Script} {pc next : Nat} {i : Instr} {m : Machine}, σ = .turn t s pc →
      s.fetch pc = .ok (i,next) → t.Effect i m → P t.machine → P m)
    (hσ : P σ.machine) : P τ.machine := by
  have hhalted : ∀ {t : Turn} {s : Script} {pc : Nat} {halt : Halt} {m : Machine}, σ = .turn t s pc → P t.machine →
      Machine.advance t s pc = .halted halt → halt.machine? = some m → P m := by
    intro t s pc halt m hturn ht hadvance hm
    rcases Machine.effect_or_eq_of_halted hadvance hm with rfl | ⟨i,next,hfetch,h⟩
    · exact ht
    · exact heffect hturn hfetch h ht
  cases h with
  | host m a => exact hhost a hσ
  | start hx hs restart => exact hstart _ _ restart hσ
  | detach hx hs => exact hσ
  | begin m => exact hnudge (.beginFrame m) hσ
  | take hi hlive hload hk | gone hi hgone | sweep m => exact hqueue _ hσ
  | advance h =>
    obtain ⟨i,next,hfetch⟩ := Machine.fetch_of_going h
    exact heffect rfl hfetch (Machine.effect_of_going hfetch h).1 hσ
  | @layDown _ _ _ i m a h hslot =>
    have hm := hhalted rfl hσ h rfl
    change P (m.putBack i a)
    unfold Machine.putBack
    split
    · exact hqueue _ hm
    · exact hm
  | finish h hslot | fault h => exact hhalted rfl hσ h rfl
  | clock m => exact hnudge (m := m) (.of_eq rfl rfl rfl rfl) hσ
  | draw m => exact hnudge (.draw m) hσ

theorem Phase.Step.listed {σ τ : Phase} {n : Nat} (h : Step σ τ) (hσ : σ.machine.Listed n) : τ.machine.Listed n :=
  h.keeps (fun _ h => h.of_eq rfl rfl) (fun hn h => h.alike hn.toAlike) (fun a h => h.host a)
    (fun _ _ restart h => h.startThread _ _ restart) (fun _ _ he h => he.listed h) hσ

theorem Phase.Steps.listed {σ τ : Phase} {n : Nat} (h : Steps σ τ) (hσ : σ.machine.Listed n) : τ.machine.Listed n := by
  induction h with
  | refl => exact hσ
  | tail _ hstep ih => exact hstep.listed ih

end SpriteMachine
