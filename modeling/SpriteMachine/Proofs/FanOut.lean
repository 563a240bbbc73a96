import SpriteMachine.Proofs.Census

/-!
What an event makes of the queue. Each script that waits for it is started, target by target and on each target in the
order in which the scripts were added, and each start looks for its slot in the queue that the starts before it have
left. In the end it is as if all of them had looked at once: slots that are started over hold fresh threads, the others
are as they were, and threads that had no slot follow in the order in which they were started.
-/

namespace SpriteMachine

/-! Scripts that wait for events have different ids -/

def Listeners.Distinct (l : Listeners) : Prop :=
  (l.entries.toList.map fun x => x.2.id).Nodup

namespace Listeners

variable {l : Listeners} {e f : Event}

theorem exactly_sublist (l : Listeners) (e : Event) :
    ((l.exactly e).map Script.id).Sublist (l.entries.toList.map fun x => x.2.id) := by
  unfold exactly
  induction l.entries.toList with
  | nil => exact .slnil
  | cons x entries ih =>
    rw [List.filterMap_cons,List.map_cons]
    dsimp only
    by_cases hx : x.1 = e
    · rw [if_pos hx]
      exact ih.cons_cons _
    · rw [if_neg hx]
      exact ih.cons _

theorem Distinct.exactly (h : l.Distinct) (e : Event) : ((l.exactly e).map Script.id).Nodup :=
  h.sublist (l.exactly_sublist e)

theorem Distinct.event_eq (h : l.Distinct) {s s' : Script} (hs : s ∈ l.exactly e) (hs' : s' ∈ l.exactly f)
    (hid : s.id = s'.id) : e = f :=
  congrArg Prod.fst (List.inj_on_of_nodup_map h (Array.mem_toList_iff.2 (mem_of_exactly hs))
    (Array.mem_toList_iff.2 (mem_of_exactly hs')) hid)

theorem Distinct.matching (h : l.Distinct) (e : Event) : ((l.matching e).map Script.id).Nodup := by
  unfold Listeners.matching
  split
  next n =>
    rw [List.map_append,List.nodup_append]
    refine ⟨h.exactly _,h.exactly _,?_⟩
    rintro a ha b hb rfl
    obtain ⟨s,hs,rfl⟩ := List.mem_map.1 ha
    obtain ⟨s',hs',hid⟩ := List.mem_map.1 hb
    cases h.event_eq hs hs' hid.symm
  · exact h.exactly _

end Listeners

namespace Compile

/-- The scripts of the listeners so far have different ids, all of which were given out. -/
structure Progress.Numbered (p : Progress) : Prop where
  distinct : p.scripts.listeners.Distinct
  fresh : ∀ x ∈ p.scripts.listeners.entries, x.2.id < p.next

variable {p q : Progress}

theorem Progress.Numbered.procedure {proto : Prototype} {blocks : List Block} (h : p.Numbered)
    (hq : Compile.procedure p proto blocks = .ok q) : q.Numbered := by
  obtain ⟨⟨s,after⟩,-,hq⟩ := Except.bind_eq_ok.1 hq
  cases hq
  exact ⟨h.distinct,fun x hx => Nat.lt_succ_of_lt (h.fresh x hx)⟩

theorem Progress.Numbered.listener {target : String} {event : Event} {blocks : List Block} (h : p.Numbered)
    (hq : Compile.listener target p event blocks = .ok q) : q.Numbered := by
  obtain ⟨⟨s,after⟩,hs,hq⟩ := Except.bind_eq_ok.1 hq
  cases hq
  have hid : s.id = p.next := (script_spec hs).1
  constructor
  · simp only [Listeners.Distinct,Listeners.add,Array.toList_push,List.map_append,List.map_cons,List.map_nil,
      hid,List.nodup_append,List.nodup_cons,List.not_mem_nil,not_false_eq_true,List.nodup_nil,and_true,
      List.mem_singleton,true_and]
    refine ⟨h.distinct,?_⟩
    rintro a ha b rfl rfl
    obtain ⟨x,hx,hnext⟩ := List.mem_map.1 ha
    exact Nat.ne_of_lt (h.fresh x (Array.mem_toList_iff.1 hx)) hnext
  · intro x hx
    rcases Array.mem_push.1 hx with hx | rfl
    · exact Nat.lt_succ_of_lt (h.fresh x hx)
    · exact hid ▸ Nat.lt_succ_self _

theorem Progress.Numbered.stack {target : String} {x : Stack} (h : p.Numbered)
    (hq : Compile.stack target p x = .ok q) : q.Numbered := by
  have hwarn : ∀ message, Progress.Numbered { p with symbols := p.symbols.warn message } :=
    fun _ => ⟨h.distinct,h.fresh⟩
  unfold Compile.stack at hq
  split at hq
  · split at hq <;> cases hq
    · exact h
    · exact hwarn _
  · split at hq
    · cases hq
      exact h
    · split at hq
      · exact h.procedure hq
      · split at hq
        · exact h.listener hq
        · cases hq
          exact hwarn _
      · split at hq
        · exact h.listener hq
        · cases hq
          exact h

theorem distinct_scripts {d : Declaration} {symbols : Symbols} {next : Nat} (h : scripts d symbols next = .ok p) :
    p.scripts.listeners.Distinct := by
  refine (Except.foldlM_keeps (p := fun p : Progress => p.Numbered) (fun _ hq hp => hp.stack hq) h ?_).distinct
  exact ⟨by simp [Listeners.Distinct],by simp⟩

end Compile

theorem compile_distinct {project : Project} {p : Program} (h : compile project = .ok p) :
    ∀ t ∈ p.stage :: p.sprites, t.scripts.listeners.Distinct := by
  intro t ht
  obtain ⟨d,-,symbols,next,q,kind,data,hq,rfl⟩ := compile_built h t ht
  rw [Compile.scripts_buildTarget]
  exact Compile.distinct_scripts hq

/-! All starts at once -/

/-- A thread started over if it is among those that are started. -/
def Thread.renewed (started : List (Nat × Script)) (t : Thread) : Thread :=
  (started.find? fun f => t.runs f.1 f.2.id).elim t fun f => .start f.1 f.2

namespace Thread

variable {f : Nat × Script} {started : List (Nat × Script)} {t : Thread}

theorem runs_eq_true {target base : Nat} : t.runs target base = true ↔ t.target = target ∧ t.base = base := by
  simp [runs]

theorem renewed_cons_of_runs (h : t.runs f.1 f.2.id = true) : t.renewed (f :: started) = .start f.1 f.2 := by
  have hfind : ((f :: started).find? fun g => t.runs g.1 g.2.id) = some f := List.find?_cons_of_pos h
  rw [renewed,hfind]
  rfl

theorem renewed_cons_of_not_runs (h : ¬ t.runs f.1 f.2.id = true) : t.renewed (f :: started) = t.renewed started := by
  have hfind : ((f :: started).find? fun g => t.runs g.1 g.2.id) = started.find? fun g => t.runs g.1 g.2.id :=
    List.find?_cons_of_neg h
  rw [renewed,hfind]
  rfl

theorem renewed_start (h : (f.1,f.2.id) ∉ started.map fun g => (g.1,g.2.id)) :
    (start f.1 f.2).renewed started = .start f.1 f.2 := by
  have hnone : (started.find? fun g => (start f.1 f.2).runs g.1 g.2.id) = none := by
    rw [List.find?_eq_none]
    intro g hg hruns
    obtain ⟨htarget,hbase⟩ := runs_eq_true.1 hruns
    exact h (List.mem_map.2 ⟨g,hg,Prod.ext htarget.symm hbase.symm⟩)
  rw [renewed,hnone]
  rfl

end Thread

namespace Machine

/-- The scripts of a target that wait for events; there are none if it is gone. -/
def listenersOf (m : Machine) (id : Nat) : Listeners :=
  (m.targets.get? id).elim {} fun x => x.scripts.listeners

/-- The scripts that an event starts, with the targets on which it starts them. -/
def addressees (m : Machine) (e : Event) : List (Nat × Script) :=
  (m.children.reverse ++ [stageId]).flatMap fun id => ((m.listenersOf id).matching e).map (id,·)

/-- Whether no slot runs a script on a target. -/
def lacks (m : Machine) (f : Nat × Script) : Bool :=
  (m.slotOf? f.1 f.2.id).isNone

/-- Fresh threads for those that have no slot. -/
def newcomers (m : Machine) (started : List (Nat × Script)) : Array (Option Thread) :=
  ((started.filter m.lacks).map fun f => some (.start f.1 f.2)).toArray

/-- The machine after some starts: fresh threads are in the slots that are started over, if any are, and behind the
others. -/
def renew (m : Machine) (restart : Bool) (started : List (Nat × Script)) : Machine :=
  { m with
    queue := m.queue.map (Option.map fun t => if restart then t.renewed started else t) ++ m.newcomers started
    starts := m.starts + started.length }

variable {p : Program} {c : Settings} {m m' : Machine}

variable {f : Nat × Script} {started : List (Nat × Script)}

theorem lacks_iff : m.lacks f = true ↔
    ∀ (i : Nat) (t : Thread), m.queue[i]? = some (some t) → ¬ t.runs f.1 f.2.id = true := by
  unfold lacks
  cases hslot : m.slotOf? f.1 f.2.id with
  | none =>
    simp only [Option.isNone_none,true_iff,Thread.runs_eq_true]
    exact fun i t hi => slotOf?_eq_none hslot hi
  | some i =>
    obtain ⟨t,ht,hruns⟩ := slotOf?_eq_some hslot
    simp only [Option.isNone_some,Bool.false_eq_true,Thread.runs_eq_true,false_iff]
    exact fun h => h i t ht hruns

theorem renew_nil (m : Machine) (restart : Bool) : m.renew restart [] = m := by
  have hsame : (Option.map fun t : Thread => if restart then t.renewed [] else t) = id := by
    funext o
    cases o <;> cases restart <;> rfl
  simp [renew,hsame,newcomers]

theorem renew_skip (hlacks : ¬ m.lacks f = true) :
    renew { m with starts := m.starts + 1 } false started = m.renew false (f :: started) := by
  have hothers : (lacks { m with starts := m.starts + 1 }) = m.lacks := rfl
  simp only [renew,newcomers,hothers,List.filter_cons_of_neg hlacks,List.length_cons,Nat.add_assoc,Nat.add_comm 1,
    Bool.false_eq_true,if_false]

/-! One start before the others, which find the queue as it has left it -/

section First

variable {f : Nat × Script} {started : List (Nat × Script)} (hnew : (f.1,f.2.id) ∉ started.map fun g => (g.1,g.2.id))

include hnew

theorem not_runs_start {g : Nat × Script} (hg : g ∈ started) : ¬ (Thread.start f.1 f.2).runs g.1 g.2.id = true := by
  intro hruns
  obtain ⟨htarget,hbase⟩ := Thread.runs_eq_true.1 hruns
  exact hnew (List.mem_map.2 ⟨g,hg,Prod.ext htarget.symm hbase.symm⟩)

theorem renew_push (hlacks : m.lacks f = true) (restart : Bool) :
    renew { m with queue := m.queue.push (some (.start f.1 f.2)), starts := m.starts + 1 } restart started =
      m.renew restart (f :: started) := by
  have hqueue : (m.queue.map (Option.map fun t => if restart then t.renewed (f :: started) else t)) =
      m.queue.map (Option.map fun t => if restart then t.renewed started else t) := by
    refine Array.map_congr_left fun o ho => Option.map_congr fun t ht => ?_
    obtain ⟨i,hi⟩ := Array.getElem?_of_mem ho
    rw [Thread.renewed_cons_of_not_runs (lacks_iff.1 hlacks i t (ht ▸ hi))]
  have hothers : started.filter (lacks { m with
      queue := m.queue.push (some (.start f.1 f.2)), starts := m.starts + 1 }) = started.filter m.lacks := by
    refine List.filter_congr fun g hg => Bool.eq_iff_iff.2 ?_
    rw [lacks_iff,lacks_iff]
    constructor
    · intro h i t hi
      have hlt := (Array.getElem?_eq_some_iff.1 hi).1
      exact h i t (by rw [Array.getElem?_push,if_neg (by omega),hi])
    · intro h i t hi
      rw [Array.getElem?_push] at hi
      split at hi
      · cases hi
        exact not_runs_start hnew hg
      · exact h i t hi
  simp only [renew,newcomers,hothers,List.filter_cons_of_pos hlacks,hqueue,Array.map_push,Option.map_some,
    Thread.renewed_start hnew,ite_self,List.length_cons,List.map_cons,Nat.add_assoc,Nat.add_comm 1]
  simp

/-- A thread that is started over in its slot is not started again, and no other one is in its place. -/
theorem renew_setSlot (hm : m.Sound p c) {i : Nat} {t : Thread} (hi : m.queue[i]? = some (some t))
    (hruns : t.runs f.1 f.2.id = true) :
    renew { m with queue := m.queue.setIfInBounds i (some (.start f.1 f.2)), starts := m.starts + 1 } true started =
      m.renew true (f :: started) := by
  have hlt : i < m.queue.size := (Array.getElem?_eq_some_iff.1 hi).1
  have hsame : ∀ {j : Nat} {u : Thread}, j ≠ i → m.queue[j]? = some (some u) → ¬ u.runs f.1 f.2.id = true := by
    intro j u hne hj hu
    obtain ⟨htarget,hbase⟩ := Thread.runs_eq_true.1 hruns
    obtain ⟨htarget',hbase'⟩ := Thread.runs_eq_true.1 hu
    exact hne (hm.unique hj hi (htarget'.trans htarget.symm) (hbase'.trans hbase.symm))
  have hqueue : (m.queue.setIfInBounds i (some (.start f.1 f.2))).map (Option.map (Thread.renewed started)) =
      m.queue.map (Option.map (Thread.renewed (f :: started))) := by
    refine Array.ext_getElem? fun j => ?_
    rw [Array.getElem?_map,Array.getElem?_map,Array.getElem?_setIfInBounds]
    by_cases hj : i = j
    · subst hj
      rw [if_pos rfl,if_pos hlt,hi,Option.map_some,Option.map_some,Option.map_some,Option.map_some,
        Thread.renewed_start hnew,Thread.renewed_cons_of_runs hruns]
    · rw [if_neg hj]
      cases hslot : m.queue[j]? with
      | none => rfl
      | some o =>
        cases o with
        | none => rfl
        | some u => simp [Thread.renewed_cons_of_not_runs (hsame (Ne.symm hj) hslot)]
  have hothers : started.filter (lacks { m with
      queue := m.queue.setIfInBounds i (some (.start f.1 f.2)), starts := m.starts + 1 }) = started.filter m.lacks := by
    refine List.filter_congr fun g hg => Bool.eq_iff_iff.2 ?_
    -- the slot runs `f` before and after, which is none of the others
    have hnot : ¬ t.runs g.1 g.2.id = true := by
      rw [Thread.runs_eq_true] at hruns ⊢
      rw [hruns.1,hruns.2]
      exact fun hg' => not_runs_start hnew hg (Thread.runs_eq_true.2 hg')
    rw [lacks_iff,lacks_iff]
    refine forall_congr' fun j => ?_
    dsimp only
    rw [Array.getElem?_setIfInBounds]
    by_cases hj : i = j
    · subst hj
      rw [if_pos rfl,if_pos hlt,hi]
      simp [hnot,not_runs_start hnew hg]
    · rw [if_neg hj]
  have hlacks : ¬ m.lacks f = true := fun hlacks => lacks_iff.1 hlacks i t hi hruns
  simp only [renew,newcomers,hothers,List.filter_cons_of_neg hlacks,if_true,List.length_cons,Nat.add_assoc,
    Nat.add_comm 1,hqueue]

theorem renew_startThread (hm : m.Sound p c) (restart : Bool) :
    (m.startThread f.1 f.2 restart).renew restart started = m.renew restart (f :: started) := by
  unfold startThread
  dsimp only
  split
  next i hi =>
    obtain ⟨t,ht,hruns⟩ := slotOf?_eq_some (m := m) hi
    cases restart with
    | true => exact renew_setSlot hnew hm ht (Thread.runs_eq_true.2 hruns)
    | false => exact renew_skip fun hlacks => lacks_iff.1 hlacks i t ht (Thread.runs_eq_true.2 hruns)
  next hnone => exact renew_push hnew (by rw [lacks]; exact Option.isNone_iff_eq_none.2 hnone) restart

end First

theorem foldl_startThread (hm : m.Sound p c) (hp : p.Sound)
    (hstarted : ∀ f ∈ started, ∃ σ, m.shape? f.1 = some σ ∧ f.2 ∈ σ.scripts.all)
    (hnodup : (started.map fun f => (f.1,f.2.id)).Nodup) (restart : Bool) :
    started.foldl (fun m f => m.startThread f.1 f.2 restart) m = m.renew restart started := by
  induction started generalizing m with
  | nil => exact (m.renew_nil restart).symm
  | cons f started ih =>
    obtain ⟨hnew,hnodup⟩ := List.nodup_cons.1 hnodup
    obtain ⟨⟨σ,hσ,hs⟩,hstarted⟩ := List.forall_mem_cons.1 hstarted
    rw [List.foldl_cons,ih (hm.startThread hp hσ hs restart) ?_ hnodup,renew_startThread hnew hm]
    intro g hg
    rw [shape?,targets_startThread]
    exact hstarted g hg

/-! Those that an event starts -/

theorem triggerFor_eq_foldl (m : Machine) (id : Nat) (e : Event) :
    m.triggerFor id e = (((m.listenersOf id).matching e).map Script.id,
      (((m.listenersOf id).matching e).map (id,·)).foldl (fun m f => m.startThread f.1 f.2 e.restarts) m) := by
  have hnone : Listeners.matching {} e = [] := by
    unfold Listeners.matching
    split <;> rfl
  rw [triggerFor,listenersOf]
  cases m.targets.get? id with
  | none => rw [Option.elim_none,hnone]; rfl
  | some x => rw [Option.elim_some,List.foldl_map]

theorem foldl_triggerFor (m : Machine) (e : Event) (ids started : List Nat) :
    (ids.foldl (fun (x : List Nat × Machine) id => (x.1 ++ (x.2.triggerFor id e).1,(x.2.triggerFor id e).2))
      (started,m)) = (started ++ (ids.flatMap fun id => ((m.listenersOf id).matching e).map (id,·)).map (·.2.id),
        (ids.flatMap fun id => ((m.listenersOf id).matching e).map (id,·)).foldl
          (fun m f => m.startThread f.1 f.2 e.restarts) m) := by
  induction ids generalizing m started with
  | nil => simp
  | cons id ids ih =>
    have hlisteners : (m.triggerFor id e).2.listenersOf = m.listenersOf := by
      funext j
      rw [listenersOf,targets_triggerFor,listenersOf]
    rw [List.foldl_cons,ih,hlisteners,triggerFor_eq_foldl]
    simp [List.flatMap_cons,List.foldl_append]

theorem trigger_eq_addressees (m : Machine) (e : Event) :
    m.trigger e = ((m.addressees e).map (·.2.id),
      (m.addressees e).foldl (fun m f => m.startThread f.1 f.2 e.restarts) m) := by
  have h := foldl_triggerFor m e (m.children.reverse ++ [stageId]) []
  rw [List.nil_append] at h
  exact h

theorem mem_addressees {e : Event} (h : f ∈ m.addressees e) :
    ∃ x, m.targets.get? f.1 = some x ∧ f.2 ∈ x.scripts.listeners.matching e := by
  obtain ⟨id,-,hf⟩ := List.mem_flatMap.1 h
  obtain ⟨s,hs,rfl⟩ := List.mem_map.1 hf
  rw [listenersOf] at hs
  cases hx : m.targets.get? id with
  | none =>
    rw [hx,Option.elim_none] at hs
    obtain ⟨e',he⟩ := Listeners.mem_of_matching hs
    simp at he
  | some x =>
    rw [hx,Option.elim_some] at hs
    exact ⟨x,rfl,hs⟩

theorem nodup_addressees {n : Nat} (hlisted : m.Listed n) (hdistinct : ∀ id, (m.listenersOf id).Distinct) (e : Event) :
    ((m.addressees e).map fun f => (f.1,f.2.id)).Nodup := by
  have hids : (m.children.reverse ++ [stageId]).Nodup := by
    refine List.nodup_append.2 ⟨List.nodup_reverse.2 hlisted.nodup,by simp,?_⟩
    rintro id hid _ hstage rfl
    exact ((hlisted.mem id).1 (List.mem_reverse.1 hid)).1 (List.mem_singleton.1 hstage)
  rw [addressees,List.map_flatMap,List.nodup_flatMap]
  constructor
  · intro id _
    rw [List.map_map]
    have hpair : ((fun f : Nat × Script => (f.1,f.2.id)) ∘ fun s => (id,s)) = (id,·) ∘ Script.id := rfl
    rw [hpair,← List.map_map]
    exact ((hdistinct id).matching e).map fun a b h => congrArg Prod.snd h
  · refine hids.imp fun {a b} hne => ?_
    rw [Function.onFun,List.disjoint_left]
    intro f hf hf'
    obtain ⟨g,hg,rfl⟩ := List.mem_map.1 hf
    obtain ⟨g',hg',heq⟩ := List.mem_map.1 hf'
    obtain ⟨s,-,rfl⟩ := List.mem_map.1 hg
    obtain ⟨s',-,rfl⟩ := List.mem_map.1 hg'
    exact hne (congrArg Prod.fst heq).symm

end Machine

/-- In every state that a compiled project comes to, an event starts the scripts that wait for it, sprites from front to
back and the stage last, and gives their ids in this order. Unless it is a key, the slots of those that have one hold fresh
threads, the other slots are as they were, and fresh threads for those that had none follow in order. A key leaves all
slots as they were; on each target the scripts for the key come before those for any key. -/
theorem trigger_of_compile {project : Project} {program : Program} (hcompile : compile project = .ok program)
    (hsmall : program.Small) {settings : Settings} {clock : Clock} {σ : Phase}
    (hsteps : Phase.Steps (.idle (.ofProgram program settings clock)) σ) {m : Machine} (hm : σ.machine = m) (e : Event) :
    (m.trigger e).1 = (m.addressees e).map (·.2.id) ∧
    (e.restarts = true → (m.trigger e).2 = { m with
      queue := m.queue.map (Option.map (Thread.renewed (m.addressees e))) ++ m.newcomers (m.addressees e)
      starts := m.starts + (m.addressees e).length }) ∧
    (∀ k, e = .keyPressed k → (m.trigger e).2 = { m with
      queue := m.queue ++ m.newcomers (m.addressees e)
      starts := m.starts + (m.addressees e).length }) ∧
    ∀ n, e = .keyPressed (.code n) → m.addressees e = (m.children.reverse ++ [Machine.stageId]).flatMap fun id =>
      ((m.listenersOf id).exactly (.keyPressed (.code n)) ++ (m.listenersOf id).exactly (.keyPressed .any)).map (id,·) := by
  subst hm
  have hprogram := compile_sound hcompile hsmall
  have hlisted := hsteps.listed (Machine.listed_ofProgram hprogram.stage hprogram.sprites settings clock)
  have hsound := (hsteps.sound_ofProgram hprogram).machine
  have hdistinct : ∀ id, (σ.machine.listenersOf id).Distinct := by
    intro id
    rw [Machine.listenersOf]
    cases hx : σ.machine.targets.get? id with
    | none => simp [Listeners.Distinct]
    | some x =>
      have hshape : σ.machine.shape? id = some x.shape := by rw [Machine.shape?,hx]; rfl
      obtain ⟨y,hy,heq,-⟩ := (hsound.shapes hshape).1
      have hscripts : x.scripts = y.scripts := congrArg Shape.scripts heq
      rw [Option.elim_some,hscripts]
      exact compile_distinct hcompile y hy
  have hstarted : ∀ f ∈ σ.machine.addressees e, ∃ τ, σ.machine.shape? f.1 = some τ ∧ f.2 ∈ τ.scripts.all := by
    intro f hf
    obtain ⟨x,hx,hs⟩ := Machine.mem_addressees hf
    exact ⟨x.shape,by rw [Machine.shape?,hx]; rfl,Compile.mem_all.2 (.inl (Listeners.mem_of_matching hs))⟩
  have hrenew := Machine.foldl_startThread hsound hprogram hstarted (Machine.nodup_addressees hlisted hdistinct e) e.restarts
  rw [Machine.trigger_eq_addressees,hrenew]
  refine ⟨rfl,fun he => ?_,fun k hk => ?_,fun n hn => ?_⟩
  · rw [Machine.renew,he]
    rfl
  · subst hk
    have hsame : (Option.map fun t : Thread => t) = id := Option.map_id
    simp [Machine.renew,Event.restarts,hsame]
  · subst hn
    rfl

/-! A message for the stage and two sprites, one of which sings already. -/

def singing : Stack :=
  { hat := .message ⟨"sing","sing"⟩, blocks := [.mk "looks_hide" none [] []] }

def choirProject : Project where
  stage := { name := "Stage", isStage := true, scripts := [singing] }
  sprites := [
    { name := "Cat", isStage := false, scripts := [{ hat := .flag, blocks := [.mk "looks_show" none [] []] },singing] },
    { name := "Dog", isStage := false, scripts := [singing,singing] }]

def choir (p : Program) : Machine :=
  (HostAction.triggerFor 1 (.ofMessage "sing")).apply (HostAction.greenFlag.apply (.ofProgram p shallow {}))

/-- The dog is to sing twice, then the cat, then the stage, while only the cat sings. -/
theorem choirProject_sings : ∃ p ∈ (compile choirProject).toOption, p.isSmall ∧
    (choir p).threads.map Thread.post = [(1,1),(1,2)] ∧
    ((choir p).addressees (.ofMessage "sing")).map (fun f => (f.1,f.2.id)) = [(2,3),(2,4),(1,2),(0,0)] := by
  decide +kernel

theorem trigger_of_compile_choirProject : ∃ p, compile choirProject = .ok p ∧
    (choir p).threads.map Thread.post = [(1,1),(1,2)] ∧
    ((choir p).addressees (.ofMessage "sing")).map (fun f => (f.1,f.2.id)) = [(2,3),(2,4),(1,2),(0,0)] ∧
    ((choir p).trigger (.ofMessage "sing")).1 = ((choir p).addressees (.ofMessage "sing")).map (·.2.id) ∧
    ((choir p).trigger (.ofMessage "sing")).2.queue =
      (choir p).queue.map (Option.map (Thread.renewed ((choir p).addressees (.ofMessage "sing")))) ++
        (choir p).newcomers ((choir p).addressees (.ofMessage "sing")) := by
  obtain ⟨p,hp,hsmall,hposts,haddressees⟩ := choirProject_sings
  have hcompile := Except.mem_toOption.1 hp
  have hsteps : Phase.Steps (.idle (.ofProgram p shallow {})) (.idle (choir p)) :=
    (Relation.ReflTransGen.single (.host _ _)).tail (.host _ _)
  have hm : (Phase.idle (choir p)).machine = choir p := rfl
  obtain ⟨hids,hqueue,-⟩ :=
    trigger_of_compile hcompile (Program.small_of_isSmall hsmall) hsteps hm (.ofMessage "sing")
  exact ⟨p,hcompile,hposts,haddressees,hids,by rw [hqueue rfl]⟩

end SpriteMachine
