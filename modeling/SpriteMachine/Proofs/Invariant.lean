import SpriteMachine.Proofs.CallStack

/-!
The invariant of a machine that runs a program: its targets are copies of those of the program, no two slots of
the queue run the same script on the same target, and every thread that is not stopped can be resumed.
-/

namespace SpriteMachine

variable {α : Type} {l : Listeners} {e : Event} {s : Script}

theorem Arena.slots_foldl_insert (vs : List α) (a : Arena α) :
    (vs.foldl Arena.insert a).slots = a.slots ++ (vs.map some).toArray := by
  induction vs generalizing a with
  | nil => simp
  | cons v vs ih =>
    rw [List.foldl_cons,ih,Arena.insert]
    simp

theorem Arena.get?_ofList (vs : List α) (id : Nat) : (Arena.ofList vs).get? id = vs[id]? := by
  rw [Arena.get?,Arena.ofList,Arena.slots_foldl_insert,Arena.empty]
  simp only [Array.empty_append,List.getElem?_toArray,List.getElem?_map]
  cases vs[id]? with
  | none => rfl
  | some v => rfl

theorem Listeners.mem_of_exactly (h : s ∈ l.exactly e) : (e,s) ∈ l.entries := by
  obtain ⟨⟨f,s'⟩,hmem,hsome⟩ := List.mem_filterMap.1 h
  dsimp only at hsome
  split at hsome
  next hf =>
    cases hsome
    subst hf
    exact Array.mem_toList_iff.1 hmem
  · cases hsome

theorem Listeners.mem_of_matching (h : s ∈ l.matching e) : ∃ f, (f,s) ∈ l.entries := by
  unfold matching at h
  split at h
  · rcases List.mem_append.1 h with h | h
    · exact ⟨_,mem_of_exactly h⟩
    · exact ⟨_,mem_of_exactly h⟩
  · exact ⟨_,mem_of_exactly h⟩

namespace Machine

/-- A thread of the queue is what is left of one that runs, or can be resumed on its target; it is stopped if the
target is gone. -/
def Keeps (p : Program) (m : Machine) (t : Thread) : Prop :=
  (t.stopped = true ∧ t.resume = none ∧ t.frames = []) ∨
  ∃ σ : Shape, σ.Of p ∧ t.Sound p.stage.shape σ m.settings.maxCallDepth ∧
    (m.shape? t.target = some σ ∨ t.stopped = true ∧ m.shape? t.target = none)

structure Sound (p : Program) (c : Settings) (m : Machine) : Prop where
  settings : m.settings = c
  stage : m.shape? stageId = some p.stage.shape
  shapes : ∀ {id : Nat} {σ : Shape}, m.shape? id = some σ → σ.Of p ∧ (σ.kind = .stage → id = stageId)
  threads : ∀ {i : Nat} {t : Thread}, m.queue[i]? = some (some t) → m.Keeps p t
  targets : ∀ {i : Nat} {t : Thread}, m.queue[i]? = some (some t) → t.target < m.targets.slots.size
  unique : ∀ {i j : Nat} {t u : Thread}, m.queue[i]? = some (some t) → m.queue[j]? = some (some u) →
    t.target = u.target → t.base = u.base → i = j

variable {id base i : Nat} {σ : Shape} {t : Thread}

theorem shape?_lt {m : Machine} (h : m.shape? id = some σ) : id < m.targets.slots.size := by
  rcases Nat.lt_or_ge id m.targets.slots.size with hlt | hge
  · exact hlt
  · rw [shape?,Arena.get?_eq_none_of_size_le _ hge] at h
    cases h

theorem mem_threads {m : Machine} : t ∈ m.threads ↔ ∃ i : Nat, m.queue[i]? = some (some t) := by
  rw [threads,List.mem_filterMap]
  constructor
  · rintro ⟨o,ho,rfl⟩
    exact Array.mem_iff_getElem?.1 (Array.mem_toList_iff.1 ho)
  · rintro ⟨i,hi⟩
    exact ⟨some t,Array.mem_toList_iff.2 (Array.mem_of_getElem? hi),rfl⟩

variable {p : Program} {c : Settings} {m m' : Machine}

theorem Keeps.congr (h : m.Keeps p t) (hsettings : m'.settings = m.settings)
    (hshape : m'.shape? t.target = m.shape? t.target) : m'.Keeps p t := by
  rcases h with hshell | ⟨σ,hof,hsound,htarget⟩
  · exact .inl hshell
  · exact .inr ⟨σ,hof,by rw [hsettings]; exact hsound,by rw [hshape]; exact htarget⟩

theorem Keeps.stop {t : Thread} (h : m.Keeps p t) (hsettings : m'.settings = m.settings)
    (hshape : m'.shape? t.target = m.shape? t.target ∨ m'.shape? t.target = none) : m'.Keeps p t.stop := by
  rcases h with ⟨-,hresume,hframes⟩ | ⟨σ,hof,hsound,htarget⟩
  · exact .inl ⟨rfl,hresume,hframes⟩
  · refine .inr ⟨σ,hof,by rw [hsettings]; exact hsound.stop,?_⟩
    change m'.shape? t.target = some σ ∨ _
    rcases hshape with hsame | hnone
    · rw [hsame]
      exact htarget.imp_right fun hgone => ⟨rfl,by rw [← hgone.2]; exact hsame⟩
    · exact .inr ⟨rfl,hnone⟩

namespace Sound

theorem shrink (h : m.Sound p c) (hsettings : m'.settings = m.settings)
    (hstage : m'.shape? stageId = m.shape? stageId)
    (hsize : m'.targets.slots.size = m.targets.slots.size)
    (hshapes : ∀ id, m'.shape? id = m.shape? id ∨ m'.shape? id = none)
    (hqueue : ∀ {i : Nat} {t : Thread}, m'.queue[i]? = some (some t) → ∃ u, m.queue[i]? = some (some u) ∧
      (t = u.stop ∨ t = u ∧ (t.stopped = false → m'.shape? t.target = m.shape? t.target))) : m'.Sound p c where
  settings := hsettings.trans h.settings
  stage := hstage.trans h.stage
  shapes {id σ} hσ := by
    rcases hshapes id with hsame | hnone
    · exact h.shapes (hsame ▸ hσ)
    · rw [hnone] at hσ
      cases hσ
  threads {i t} hi := by
    obtain ⟨u,hu,rfl | ⟨rfl,hlive⟩⟩ := hqueue hi
    · exact (h.threads hu).stop hsettings (hshapes _)
    · cases hstopped : t.stopped with
      | false => exact (h.threads hu).congr hsettings (hlive hstopped)
      | true =>
        have hstop : t.stop = t := by rw [Thread.stop,← hstopped]
        rw [← hstop]
        exact (h.threads hu).stop hsettings (hshapes _)
  targets {i t} hi := by
    obtain ⟨u,hu,rfl | ⟨rfl,-⟩⟩ := hqueue hi
    · rw [hsize]
      exact h.targets hu (t := u)
    · rw [hsize]
      exact h.targets hu
  unique {i j t u} hi hj htarget hbase := by
    obtain ⟨t',ht,hold⟩ := hqueue hi
    obtain ⟨u',hu,hold'⟩ := hqueue hj
    have ht' : t'.target = t.target ∧ t'.base = t.base := by
      rcases hold with rfl | ⟨rfl,-⟩ <;> exact ⟨rfl,rfl⟩
    have hu' : u'.target = u.target ∧ u'.base = u.base := by
      rcases hold' with rfl | ⟨rfl,-⟩ <;> exact ⟨rfl,rfl⟩
    exact h.unique ht hu (ht'.1.trans (htarget.trans hu'.1.symm)) (ht'.2.trans (hbase.trans hu'.2.symm))

theorem alike (h : m.Sound p c) (ha : m.Alike m') : m'.Sound p c :=
  h.shrink ha.settings (ha.shapes _) ha.size (fun id => .inl (ha.shapes id)) fun {i t} hi =>
    ⟨t,by rw [← ha.queue]; exact hi,.inr ⟨rfl,fun _ => ha.shapes _⟩⟩

theorem replace (h : m.Sound p c) {i : Nat} {t u : Thread} (hu : m.queue[i]? = some (some u)) (ht : m.Keeps p t)
    (htarget : t.target = u.target) (hbase : t.base = u.base) : (m.setSlot i (some t)).Sound p c := by
  have hslot : ∀ {j : Nat} {x : Thread}, (m.setSlot i (some t)).queue[j]? = some (some x) →
      j = i ∧ x = t ∨ m.queue[j]? = some (some x) := by
    intro j x hx
    simp only [setSlot,Array.getElem?_setIfInBounds] at hx
    split at hx
    next hij =>
      split at hx
      · cases hx
        exact .inl ⟨hij.symm,rfl⟩
      · cases hx
    next => exact .inr hx
  -- The new thread stands for the old one.
  have hold : ∀ {j : Nat} {x : Thread}, (m.setSlot i (some t)).queue[j]? = some (some x) →
      ∃ y, m.queue[j]? = some (some y) ∧ y.target = x.target ∧ y.base = x.base := by
    intro j x hx
    rcases hslot hx with ⟨rfl,rfl⟩ | hx
    · exact ⟨u,hu,htarget.symm,hbase.symm⟩
    · exact ⟨x,hx,rfl,rfl⟩
  refine ⟨h.settings,h.stage,h.shapes,fun hj => ?_,fun hj => ?_,fun hi hj ht hb => ?_⟩
  · rcases hslot hj with ⟨rfl,rfl⟩ | hj
    · exact ht.congr rfl rfl
    · exact (h.threads hj).congr rfl rfl
  · obtain ⟨y,hy,hyt,-⟩ := hold hj
    rw [← hyt]
    exact h.targets hy
  · obtain ⟨x,hx,hxt,hxb⟩ := hold hi
    obtain ⟨y,hy,hyt,hyb⟩ := hold hj
    exact h.unique hx hy (hxt.trans (ht.trans hyt.symm)) (hxb.trans (hb.trans hyb.symm))

end Sound

/-! Starting threads -/

/-- The slots of a machine are taken in another one by threads that run the same scripts. -/
def Retains (m m' : Machine) : Prop :=
  ∀ (i : Nat) (t : Thread), m.queue[i]? = some (some t) →
    ∃ u : Thread, m'.queue[i]? = some (some u) ∧ u.target = t.target ∧ u.base = t.base

theorem Retains.refl (m : Machine) : m.Retains m := fun _ t h => ⟨t,h,rfl,rfl⟩

theorem Retains.trans {m'' : Machine} (h : m.Retains m') (h' : m'.Retains m'') : m.Retains m'' := by
  intro i t ht
  obtain ⟨u,hu,hut,hub⟩ := h i t ht
  obtain ⟨v,hv,hvt,hvb⟩ := h' i u hu
  exact ⟨v,hv,hvt.trans hut,hvb.trans hub⟩

theorem Retains.of_queue (h : m'.queue = m.queue) : m.Retains m' := by
  intro i t ht
  exact ⟨t,by rw [h]; exact ht,rfl,rfl⟩

theorem any_runs {o : Option Thread} :
    o.any (Thread.runs id base) = true ↔ ∃ t, o = some t ∧ t.target = id ∧ t.base = base := by
  cases o with
  | none => simp
  | some t => simp [Thread.runs]

theorem slotOf?_eq_some (h : m.slotOf? id base = some i) :
    ∃ t, m.queue[i]? = some (some t) ∧ t.target = id ∧ t.base = base := by
  obtain ⟨hi,hruns,-⟩ := Array.findIdx?_eq_some_iff_getElem.1 h
  obtain ⟨t,ht,htarget,hbase⟩ := any_runs.1 hruns
  exact ⟨t,by rw [Array.getElem?_eq_getElem hi,ht],htarget,hbase⟩

theorem slotOf?_eq_none (h : m.slotOf? id base = none) (ht : m.queue[i]? = some (some t)) :
    ¬ (t.target = id ∧ t.base = base) := by
  intro hruns
  have hnone := Array.findIdx?_eq_none_iff.1 h _ (Array.mem_of_getElem? ht)
  rw [any_runs.2 ⟨t,rfl,hruns⟩] at hnone
  cases hnone

theorem startThread_cases (m : Machine) (id : Nat) (s : Script) (restart : Bool) :
    ∃ n, (∃ i t, m.queue[i]? = some (some t) ∧ t.target = id ∧ t.base = s.id ∧
        m.startThread id s restart = { m.setSlot i (some (.start id s)) with starts := n }) ∨
      m.startThread id s restart = { m with starts := n } ∨
      (∀ {i : Nat} {t : Thread}, m.queue[i]? = some (some t) → ¬ (t.target = id ∧ t.base = s.id)) ∧
        m.startThread id s restart = { m with queue := m.queue.push (some (.start id s)), starts := n } := by
  refine ⟨m.starts + 1,?_⟩
  unfold startThread
  dsimp only
  split
  next i hi =>
    obtain ⟨t,ht,htarget,hbase⟩ := slotOf?_eq_some hi
    cases restart with
    | true => exact .inl ⟨i,t,ht,htarget,hbase,rfl⟩
    | false => exact .inr (.inl rfl)
  next hnone => exact .inr (.inr ⟨fun ht => slotOf?_eq_none hnone ht,rfl⟩)

theorem Retains.setSlot {i : Nat} {t u : Thread} (hu : m.queue[i]? = some (some u)) (htarget : t.target = u.target)
    (hbase : t.base = u.base) : m.Retains (m.setSlot i (some t)) := by
  intro j x hx
  simp only [Machine.setSlot,Array.getElem?_setIfInBounds]
  by_cases hij : i = j
  · subst hij
    have hlt : i < m.queue.size := (Array.getElem?_eq_some_iff.1 hu).1
    rw [hu] at hx
    cases hx
    exact ⟨t,by simp [hlt],htarget,hbase⟩
  · exact ⟨x,by simp [hij,hx],rfl,rfl⟩

theorem Retains.startThread (m : Machine) (id : Nat) (s : Script) (restart : Bool) :
    m.Retains (m.startThread id s restart) := by
  obtain ⟨n,⟨i,t,ht,htarget,hbase,heq⟩ | heq | ⟨-,heq⟩⟩ := m.startThread_cases id s restart
  · rw [heq]
    exact (Retains.setSlot (t := .start id s) ht htarget.symm hbase.symm).trans (.of_queue rfl)
  · rw [heq]
    exact Retains.of_queue rfl
  · intro j x hx
    have hlt : j < m.queue.size := (Array.getElem?_eq_some_iff.1 hx).1
    refine ⟨x,?_,rfl,rfl⟩
    rw [heq]
    dsimp only
    rw [Array.getElem?_push,if_neg (Nat.ne_of_lt hlt),hx]

theorem Sound.push (h : m.Sound p c) {t : Thread} (ht : m.Keeps p t) (htarget : t.target < m.targets.slots.size)
    (hnew : ∀ {i : Nat} {u : Thread}, m.queue[i]? = some (some u) → ¬ (u.target = t.target ∧ u.base = t.base)) :
    Machine.Sound p c { m with queue := m.queue.push (some t) } := by
  have hslot : ∀ {j : Nat} {x : Thread}, (m.queue.push (some t))[j]? = some (some x) →
      j = m.queue.size ∧ x = t ∨ m.queue[j]? = some (some x) := by
    intro j x hx
    rw [Array.getElem?_push] at hx
    split at hx
    next hj => exact .inl ⟨hj,by cases hx; rfl⟩
    next => exact .inr hx
  refine ⟨h.settings,h.stage,h.shapes,fun hj => ?_,fun hj => ?_,fun {i j x y} hi hj hxy hbase => ?_⟩
  · rcases hslot hj with ⟨-,rfl⟩ | hj
    · exact ht.congr rfl rfl
    · exact (h.threads hj).congr rfl rfl
  · rcases hslot hj with ⟨-,rfl⟩ | hj
    · exact htarget
    · exact h.targets hj
  · rcases hslot hi with ⟨rfl,rfl⟩ | hold
    · rcases hslot hj with ⟨rfl,-⟩ | hold
      · rfl
      · exact absurd ⟨hxy.symm,hbase.symm⟩ (hnew hold)
    · rcases hslot hj with ⟨-,rfl⟩ | hold'
      · exact absurd ⟨hxy,hbase⟩ (hnew hold)
      · exact h.unique hold hold' hxy hbase

theorem Sound.of_eq (h : m.Sound p c) (ht : m'.targets = m.targets) (hq : m'.queue = m.queue)
    (hs : m'.settings = m.settings) : m'.Sound p c := by
  have hshape : ∀ id, m'.shape? id = m.shape? id := fun id => by rw [shape?,shape?,ht]
  refine h.shrink hs (hshape _) (by rw [ht]) (fun id => .inl (hshape id)) fun {i t} hi => ?_
  exact ⟨t,by rw [← hq]; exact hi,.inr ⟨rfl,fun _ => hshape _⟩⟩

theorem Sound.startThread (h : m.Sound p c) (hp : p.Sound) (hσ : m.shape? id = some σ) {s : Script} (hs : s ∈ σ.scripts.all)
    (restart : Bool) : (m.startThread id s restart).Sound p c := by
  have hof := (h.shapes hσ).1
  have hkeeps : m.Keeps p (.start id s) := .inr ⟨σ,hof,.start (hp.shape hof) hs id,.inl hσ⟩
  obtain ⟨n,⟨i,t,ht,htarget,hbase,heq⟩ | heq | ⟨hnew,heq⟩⟩ := m.startThread_cases id s restart
  · rw [heq]
    exact (h.replace ht hkeeps htarget.symm hbase.symm).of_eq rfl rfl rfl
  · rw [heq]
    exact h.of_eq rfl rfl rfl
  · rw [heq]
    exact (h.push hkeeps (shape?_lt hσ) hnew).of_eq rfl rfl rfl

/-! Events -/

section Trigger

variable {P : Machine → Prop}
  (hstart : ∀ {m : Machine} {id : Nat} {σ : Shape} {s : Script}, m.shape? id = some σ → s ∈ σ.scripts.all →
    ∀ restart, P m → P (m.startThread id s restart))

include hstart

theorem triggerFor_keeps (id : Nat) (e : Event) (h : P m) : P (m.triggerFor id e).2 := by
  unfold triggerFor
  split
  · exact h
  next t ht =>
    have hmem : ∀ s ∈ t.scripts.listeners.matching e, s ∈ t.shape.scripts.all := fun s hs =>
      Compile.mem_all.2 (.inl (Listeners.mem_of_matching hs))
    have hshape : m.shape? id = some t.shape := by rw [shape?,ht]; rfl
    dsimp only
    generalize t.scripts.listeners.matching e = scripts at hmem
    clear ht
    induction scripts generalizing m with
    | nil => exact h
    | cons s scripts ih =>
      rw [List.foldl_cons]
      refine ih (hstart hshape (hmem s List.mem_cons_self) _ h) ?_ fun s hs => hmem s (List.mem_cons_of_mem _ hs)
      obtain ⟨queue,starts,heq⟩ := m.startThread_eq id s e.restarts
      rw [heq]
      exact hshape

theorem trigger_keeps (e : Event) (h : P m) : P (m.trigger e).2 := by
  unfold trigger
  generalize m.children.reverse ++ [stageId] = ids
  generalize ([] : List Nat) = started
  induction ids generalizing m started with
  | nil => exact h
  | cons id ids ih =>
    rw [List.foldl_cons]
    exact ih (triggerFor_keeps hstart id e h) _

end Trigger

theorem Sound.triggerFor (h : m.Sound p c) (hp : p.Sound) (id : Nat) (e : Event) : (m.triggerFor id e).2.Sound p c :=
  triggerFor_keeps (fun hσ hs restart h => h.startThread hp hσ hs restart) id e h

theorem Sound.trigger (h : m.Sound p c) (hp : p.Sound) (e : Event) : (m.trigger e).2.Sound p c :=
  trigger_keeps (fun hσ hs restart h => h.startThread hp hσ hs restart) e h

theorem Retains.triggerFor (m : Machine) (id : Nat) (e : Event) : m.Retains (m.triggerFor id e).2 :=
  triggerFor_keeps (P := m.Retains) (fun _ _ restart h => h.trans (.startThread _ _ _ restart)) id e (.refl m)

theorem Retains.trigger (m : Machine) (e : Event) : m.Retains (m.trigger e).2 :=
  trigger_keeps (P := m.Retains) (fun _ _ restart h => h.trans (.startThread _ _ _ restart)) e (.refl m)

theorem trigger_eq (m : Machine) (e : Event) : ∃ queue starts, (m.trigger e).2 = { m with queue, starts } :=
  trigger_keeps (P := fun m' => ∃ queue starts, m' = { m with queue, starts })
    (fun {m' id _ s} _ _ restart h => by
      obtain ⟨queue,starts,rfl⟩ := h
      obtain ⟨queue',starts',h'⟩ := startThread_eq { m with queue, starts } id s restart
      exact ⟨queue',starts',h'⟩) e ⟨m.queue,m.starts,rfl⟩

/-! Clones -/

theorem Sound.insert (h : m.Sound p c) {t : Target} (hof : t.shape.Of p) (hkind : t.kind ≠ .stage) (children : List Nat) :
    Machine.Sound p c { m with targets := m.targets.insert t, children } := by
  generalize hm' : ({ m with targets := m.targets.insert t, children } : Machine) = m'
  have hnew : m'.shape? m.targets.slots.size = some t.shape := by
    rw [shape?,← hm',Arena.get?_insert,Arena.nextId,if_pos rfl]
    rfl
  have hold : ∀ {id : Nat}, id < m.targets.slots.size → m'.shape? id = m.shape? id := by
    intro id hid
    rw [shape?,shape?,← hm',Arena.get?_insert,Arena.nextId,if_neg (Nat.ne_of_lt hid)]
  have hsize : m'.targets.slots.size = m.targets.slots.size + 1 := by
    rw [← hm']
    exact Array.size_push _
  have hqueue : m'.queue = m.queue := by rw [← hm']
  have hsettings : m'.settings = m.settings := by rw [← hm']
  refine ⟨hsettings.trans h.settings,(hold (shape?_lt h.stage)).trans h.stage,fun {id σ} hσ => ?_,fun {i u} hi => ?_,
    fun {i u} hi => ?_,fun {i j u v} hi hj => ?_⟩
  · have hlt := shape?_lt hσ
    rw [hsize] at hlt
    rcases Nat.lt_succ_iff_lt_or_eq.1 hlt with hlt | rfl
    · exact h.shapes (hold hlt ▸ hσ)
    · rw [hnew] at hσ
      cases hσ
      exact ⟨hof,fun hstage => absurd hstage hkind⟩
  · rw [hqueue] at hi
    exact (h.threads hi).congr hsettings (hold (h.targets hi))
  · rw [hqueue] at hi
    have := h.targets hi
    omega
  · rw [hqueue] at hi hj
    exact h.unique hi hj

theorem Sound.insertClone (h : m.Sound p c) {parent : Nat} {x : Target} (hx : m.targets.get? parent = some x)
    (hstage : x.isStage = false) (children : List Nat) :
    Machine.Sound p c { m with targets := m.targets.insert x.makeClone, children } := by
  have hshape : m.shape? parent = some x.shape := by rw [shape?,hx]; rfl
  obtain ⟨t,ht,heq,hkind⟩ := (h.shapes hshape).1
  refine h.insert ⟨t,ht,by rw [Target.shape_makeClone,heq],fun ht => ?_⟩ (by rintro ⟨⟩) children
  have hx : x.kind = .stage := hkind ht
  rw [Target.isStage,hx] at hstage
  cases hstage

theorem Sound.createClone (h : m.Sound p c) (hp : p.Sound) (parent : Nat) : (m.createClone parent).2.Sound p c := by
  rcases m.createClone_eq parent with heq | ⟨t,visual,ht,hstage,heq⟩
  · rw [heq]
    exact h
  · rw [heq]
    exact ((h.insertClone ht hstage _).triggerFor hp m.targets.nextId .cloned).of_eq rfl rfl rfl

theorem Retains.createClone (m : Machine) (parent : Nat) : m.Retains (m.createClone parent).2 := by
  rcases m.createClone_eq parent with heq | ⟨t,visual,-,-,heq⟩
  · rw [heq]
    exact .refl m
  · rw [heq]
    exact (Retains.triggerFor (m.withClone parent t) m.targets.nextId .cloned).trans (.of_queue rfl)

theorem Sound.evolves (h : m.Sound p c) (hp : p.Sound) (he : m.Evolves m') : m'.Sound p c := by
  induction he with
  | refl => exact h
  | alike _ ha ih => exact ih.alike ha
  | clone _ parent ih => exact ih.createClone hp parent

theorem Retains.evolves (he : m.Evolves m') : m.Retains m' := by
  induction he with
  | refl => exact .refl m
  | alike _ ha ih => exact ih.trans (.of_queue ha.queue)
  | clone _ parent ih => exact ih.trans (.createClone _ parent)

/-! Stopping threads and removing targets -/

theorem Sound.dropThreads (h : m.Sound p c) (f : Nat → Thread → Bool) : (m.dropThreads f).Sound p c := by
  refine h.shrink rfl rfl rfl (fun _ => .inl rfl) fun {i t} hi => ⟨t,?_,.inr ⟨rfl,fun _ => rfl⟩⟩
  simp only [Machine.dropThreads,Array.getElem?_mapIdx,Option.map_eq_some_iff,Option.filter_eq_some_iff] at hi
  obtain ⟨o,ho,rfl,-⟩ := hi
  exact ho

theorem shape?_removeTarget (m : Machine) (id j : Nat) :
    (m.removeTarget id).shape? j = if j = id then none else m.shape? j := by
  simp only [shape?,Machine.removeTarget,Machine.call,Arena.get?_remove]
  split <;> rfl

theorem Sound.removeTarget (h : m.Sound p c) {id : Nat} (hid : id ≠ stageId)
    (hstopped : ∀ {i : Nat} {t : Thread}, m.queue[i]? = some (some t) → t.target = id → t.stopped = true) :
    (m.removeTarget id).Sound p c := by
  refine h.shrink rfl ?_ ?_ (fun j => ?_) fun {i t} hi => ⟨t,hi,.inr ⟨rfl,fun hlive => ?_⟩⟩
  · rw [shape?_removeTarget,if_neg (Ne.symm hid)]
  · simp [Machine.removeTarget,Machine.call,Arena.remove]
  · rw [shape?_removeTarget]
    split
    · exact .inr rfl
    · exact .inl rfl
  · rw [shape?_removeTarget,if_neg]
    intro htarget
    rw [hstopped hi htarget] at hlive
    cases hlive

theorem Sound.ne_stageId (h : m.Sound p c) (hp : p.Sound) (hid : m.isCloneId id = true) : id ≠ stageId := by
  rintro rfl
  have hstage := h.stage
  rw [shape?,Option.map_eq_some_iff] at hstage
  obtain ⟨t,ht,hshape⟩ := hstage
  have hkind : t.kind = .stage := by
    rw [← hp.stage]
    exact congrArg Shape.kind hshape
  rw [isCloneId,ht,Option.any_some,Target.isClone,hkind] at hid
  cases hid

theorem Sound.deleteClone (h : m.Sound p c) (hp : p.Sound) (id : Nat) : (m.deleteClone id).Sound p c := by
  unfold Machine.deleteClone
  split
  next hclone =>
    -- The threads can just as well be dropped first.
    refine Sound.removeTarget (h.dropThreads fun _ t => t.target == id) (h.ne_stageId hp hclone) fun {i t} hi htarget => ?_
    simp only [Machine.dropThreads,Array.getElem?_mapIdx,Option.map_eq_some_iff,Option.filter_eq_some_iff] at hi
    obtain ⟨o,-,-,hkept⟩ := hi
    simp [htarget] at hkept
  · exact h

theorem Sound.stopThreads (h : m.Sound p c) :
    Machine.Sound p c { m with queue := m.queue.map (Option.map Thread.stop) } := by
  refine h.shrink rfl rfl rfl (fun _ => .inl rfl) fun {i t} hi => ?_
  simp only [Array.getElem?_map,Option.map_eq_some_iff] at hi
  obtain ⟨o,ho,u,rfl,rfl⟩ := hi
  exact ⟨u,ho,.inl rfl⟩

theorem Sound.removeTargets {ids : List Nat} (h : m.Sound p c) (hids : ∀ id ∈ ids, id ≠ stageId)
    (hstopped : ∀ {i : Nat} {t : Thread}, m.queue[i]? = some (some t) → t.stopped = true) :
    (ids.foldl Machine.removeTarget m).Sound p c := by
  induction ids generalizing m with
  | nil => exact h
  | cons id ids ih =>
    have hremove := h.removeTarget (hids id List.mem_cons_self) fun hi _ => hstopped hi
    exact ih hremove (fun j hj => hids j (List.mem_cons_of_mem _ hj)) hstopped

/-- What stopping all leaves as it is. -/
theorem stopAll_frame (m : Machine) : ∃ targets children log, m.stopAll = { m with
    targets, children, log
    queue := m.queue.map (Option.map Thread.stop)
    panel := { m.panel with promptVisible := false, question := none, turn := 0, nextTicket := 0 } } := by
  have hfold : ∀ {f : Machine → Nat → Machine}, (∀ m id, ∃ targets children log, f m id = { m with targets, children, log }) →
      ∀ (ids : List Nat) (m : Machine), ∃ targets children log, ids.foldl f m = { m with targets, children, log } := by
    intro f hf ids
    induction ids with
    | nil => exact fun m => ⟨_,_,_,rfl⟩
    | cons id ids ih =>
      intro m
      obtain ⟨_,_,_,hfirst⟩ := hf m id
      obtain ⟨_,_,_,hrest⟩ := ih (f m id)
      exact ⟨_,_,_,by rw [List.foldl_cons,hrest,hfirst]⟩
  unfold stopAll
  dsimp only
  generalize hm : Machine.call _ HostCall.stopSounds = m₁
  obtain ⟨_,_,_,hremoved⟩ := hfold (f := removeTarget) (fun _ _ => ⟨_,_,_,rfl⟩) (m₁.children.filter m₁.isCloneId) m₁
  rw [hremoved]
  obtain ⟨_,_,_,hcalm⟩ := hfold (f := fun m id => m.modifyTarget id fun t => { t with effects := {}, bubble := none })
    (fun _ _ => ⟨_,_,_,rfl⟩) _ { m₁ with targets := _, children := _, log := _ }
  rw [hcalm,← hm]
  exact ⟨_,_,_,rfl⟩

theorem Sound.stopAll (h : m.Sound p c) (hp : p.Sound) : m.stopAll.Sound p c := by
  unfold Machine.stopAll
  dsimp only
  generalize hm₁ : m.modifyPanel _ = m₁
  have h₁ : m₁.Sound p c := by
    rw [← hm₁]
    exact h.of_eq rfl rfl rfl
  have h₂ := h₁.stopThreads
  generalize hm₂ : ({ m₁ with queue := m₁.queue.map (Option.map Thread.stop) } : Machine) = m₂ at h₂ ⊢
  have hstopped : ∀ {i : Nat} {t : Thread}, m₂.queue[i]? = some (some t) → t.stopped = true := by
    intro i t hi
    simp only [← hm₂,Array.getElem?_map,Option.map_eq_some_iff] at hi
    obtain ⟨o,-,u,-,rfl⟩ := hi
    rfl
  have h₃ := h₂.alike ((Alike.modifyTarget m₂ stageId (f := fun t => { t with effects := {} }) fun _ => rfl).trans
    (.call _ .stopSounds))
  generalize hm₃ : ((m₂.modifyTarget stageId fun t => { t with effects := {} }).call .stopSounds) = m₃ at h₃ ⊢
  have h₄ : ((m₃.children.filter m₃.isCloneId).foldl Machine.removeTarget m₃).Sound p c := by
    refine h₃.removeTargets (fun id hid => h₃.ne_stageId hp (List.mem_filter.1 hid).2) fun {i t} hi => ?_
    exact hstopped (i := i) (by rw [← hm₃] at hi; exact hi)
  refine h₄.alike (Nudged.foldl ?_ _ _).toAlike
  intro m id
  exact .modifyTarget m id (fun _ => rfl) fun _ => rfl

/-! The end of a pass -/

theorem unique_iff : (∀ {i j : Nat} {t u : Thread}, m.queue[i]? = some (some t) → m.queue[j]? = some (some u) →
      t.target = u.target → t.base = u.base → i = j) ↔
    m.queue.toList.Pairwise fun a b => ∀ t u, a = some t → b = some u → ¬ (t.target = u.target ∧ t.base = u.base) := by
  rw [List.pairwise_iff_getElem]
  constructor
  · intro h i j hi hj hij t u ht hu ⟨htarget,hbase⟩
    have hti : m.queue[i]? = some (some t) := by rw [← Array.getElem?_toList,List.getElem?_eq_getElem hi,ht]
    have huj : m.queue[j]? = some (some u) := by rw [← Array.getElem?_toList,List.getElem?_eq_getElem hj,hu]
    have := h hti huj htarget hbase
    omega
  · intro h i j t u hi hj htarget hbase
    rw [← Array.getElem?_toList] at hi hj
    obtain ⟨hilt,hti⟩ := List.getElem?_eq_some_iff.1 hi
    obtain ⟨hjlt,huj⟩ := List.getElem?_eq_some_iff.1 hj
    rcases Nat.lt_trichotomy i j with hij | hij | hij
    · exact absurd ⟨htarget,hbase⟩ (h i j hilt hjlt hij t u hti huj)
    · exact hij
    · exact absurd ⟨htarget.symm,hbase.symm⟩ (h j i hjlt hilt hij u t huj hti)

theorem mem_queue_of_sweep (h : m.sweep.queue[i]? = some (some t)) :
    t.stopped = false ∧ ∃ j : Nat, m.queue[j]? = some (some t) := by
  have hmem := Array.mem_of_getElem? h
  simp only [Machine.sweep,Array.mem_filter,Option.any_some,Bool.not_eq_true'] at hmem
  obtain ⟨hmem,hlive⟩ := hmem
  exact ⟨hlive,Array.mem_iff_getElem?.1 hmem⟩

theorem Sound.sweep (h : m.Sound p c) : m.sweep.Sound p c := by
  refine ⟨h.settings,h.stage,h.shapes,fun hi => ?_,fun hi => ?_,unique_iff.2 ?_⟩
  · obtain ⟨-,j,hj⟩ := mem_queue_of_sweep hi
    exact (h.threads hj).congr rfl rfl
  · obtain ⟨-,j,hj⟩ := mem_queue_of_sweep hi
    exact h.targets hj
  · rw [Machine.sweep,Array.toList_filter]
    exact (unique_iff.1 h.unique).filter _

/-! A machine before its start -/

theorem shape?_ofProgram (p : Program) (settings : Settings) (clock : Clock) (id : Nat) :
    (Machine.ofProgram p settings clock).shape? id = ((p.stage :: p.sprites)[id]?).map Target.shape := by
  rw [shape?,Machine.ofProgram,Arena.get?_ofList]

theorem Sound.ofProgram (hp : p.Sound) (settings : Settings) (clock : Clock) :
    (Machine.ofProgram p settings clock).Sound p settings := by
  refine ⟨rfl,shape?_ofProgram p settings clock _,fun {id σ} hσ => ?_,fun hi => ?_,fun hi => ?_,fun hi => ?_⟩
  · rw [shape?_ofProgram,Option.map_eq_some_iff] at hσ
    obtain ⟨t,ht,rfl⟩ := hσ
    refine ⟨⟨t,List.mem_of_getElem? ht,rfl,fun h => h⟩,fun hkind => ?_⟩
    cases id with
    | zero => rfl
    | succ id =>
      have hsprite : t.kind = .sprite := hp.sprites t (List.mem_of_getElem? ht)
      rw [Target.shape,hsprite] at hkind
      cases hkind
  all_goals
    simp [Machine.ofProgram] at hi

end Machine

end SpriteMachine
