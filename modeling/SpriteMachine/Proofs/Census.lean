import SpriteMachine.Proofs.SpriteList
import SpriteMachine.Proofs.Arrivals

/-!
How many threads there can be. Every thread of a queue runs a script of the program, and no two run the same script on the
same target. So a queue has no more threads than there are scripts, for every target there ever was; all its other slots
are empty.
-/

namespace SpriteMachine

/-- The ids of the scripts of a program. -/
def Program.scriptIds (p : Program) : List Nat :=
  (p.stage :: p.sprites).flatMap fun t => t.scripts.all.map Script.id

namespace Machine

variable {p : Program} {c : Settings} {m m' m'' : Machine}

theorem Sound.mem_scriptIds (h : m.Sound p c) {id : Nat} {σ : Shape} (hσ : m.shape? id = some σ) {s : Script}
    (hs : s ∈ σ.scripts.all) : s.id ∈ p.scriptIds := by
  obtain ⟨t,ht,heq,-⟩ := (h.shapes hσ).1
  have hscripts : σ.scripts = t.scripts := congrArg Shape.scripts heq
  rw [hscripts] at hs
  exact List.mem_flatMap.2 ⟨t,ht,List.mem_map_of_mem hs⟩

def Runs (p : Program) (m : Machine) : Prop :=
  ∀ (i : Nat) (t : Thread), m.queue[i]? = some (some t) → t.base ∈ p.scriptIds

namespace Runs

theorem of_slots (h : m.Runs p) (hslots : ∀ (i : Nat) (t : Thread), m'.queue[i]? = some (some t) →
    (∃ (j : Nat) (u : Thread), m.queue[j]? = some (some u) ∧ u.base = t.base) ∨ t.base ∈ p.scriptIds) : m'.Runs p := by
  intro i t hi
  rcases hslots i t hi with ⟨j,u,hj,hbase⟩ | hbase
  · rw [← hbase]
    exact h j u hj
  · exact hbase

theorem of_queue (h : m.Runs p) (hqueue : m'.queue = m.queue) : m'.Runs p :=
  h.of_slots fun i t hi => .inl ⟨i,t,hqueue ▸ hi,rfl⟩

theorem setSlot (h : m.Runs p) (i : Nat) {t : Thread} (ht : t.base ∈ p.scriptIds) : (m.setSlot i (some t)).Runs p := by
  refine h.of_slots fun j u hj => ?_
  simp only [Machine.setSlot,Array.getElem?_setIfInBounds] at hj
  split at hj
  · split at hj
    · cases hj
      exact .inr ht
    · cases hj
  · exact .inl ⟨j,u,hj,rfl⟩

theorem startThread (h : m.Runs p) (id : Nat) {s : Script} (hs : s.id ∈ p.scriptIds) (restart : Bool) :
    (m.startThread id s restart).Runs p := by
  obtain ⟨n,⟨i,t,-,-,-,heq⟩ | heq | ⟨-,heq⟩⟩ := m.startThread_cases id s restart
  · rw [heq]
    exact (h.setSlot i (t := .start id s) hs).of_queue rfl
  · rw [heq]
    exact h.of_queue rfl
  · rw [heq]
    refine h.of_slots fun j u hj => ?_
    simp only [Array.getElem?_push] at hj
    split at hj
    · cases hj
      exact .inr hs
    · exact .inl ⟨j,u,hj,rfl⟩

theorem dropThreads (h : m.Runs p) (q : Nat → Thread → Bool) : (m.dropThreads q).Runs p := by
  refine h.of_slots fun i t hi => ?_
  simp only [Machine.dropThreads,Array.getElem?_mapIdx,Option.map_eq_some_iff,Option.filter_eq_some_iff] at hi
  obtain ⟨_,hslot,rfl,-⟩ := hi
  exact .inl ⟨i,t,hslot,rfl⟩

theorem deleteClone (h : m.Runs p) (id : Nat) : (m.deleteClone id).Runs p := by
  unfold Machine.deleteClone
  split
  · exact dropThreads (h.of_queue rfl) _
  · exact h

theorem stopAll (h : m.Runs p) : m.stopAll.Runs p := by
  refine h.of_slots fun i t hi => ?_
  simp only [queue_stopAll,Array.getElem?_map,Option.map_eq_some_iff] at hi
  obtain ⟨_,hslot,u,rfl,rfl⟩ := hi
  exact .inl ⟨i,u,hslot,rfl⟩

theorem sweep (h : m.Runs p) : m.sweep.Runs p := by
  refine h.of_slots fun i t hi => ?_
  obtain ⟨j,hj⟩ := (mem_queue_of_sweep hi).2
  exact .inl ⟨j,t,hj,rfl⟩

end Runs

/-! Starts of scripts on targets that are there -/

section Starts

variable (hp : p.Sound)

include hp

theorem keeps_startThread {m : Machine} {id : Nat} {σ : Shape} {s : Script} (hσ : m.shape? id = some σ)
    (hs : s ∈ σ.scripts.all) (restart : Bool) (h : m.Sound p c ∧ m.Runs p) :
    (m.startThread id s restart).Sound p c ∧ (m.startThread id s restart).Runs p :=
  ⟨h.1.startThread hp hσ hs restart,h.2.startThread id (h.1.mem_scriptIds hσ hs) restart⟩

variable (hm : m.Sound p c) (h : m.Runs p)

include hm h

theorem runs_trigger (e : Event) : (m.trigger e).2.Runs p :=
  (trigger_keeps (P := fun m => m.Sound p c ∧ m.Runs p) (keeps_startThread hp) e ⟨hm,h⟩).2

theorem runs_createClone (parent : Nat) : (m.createClone parent).2.Runs p :=
  (createClone_keeps (P := fun m => m.Sound p c ∧ m.Runs p) (fun ha h => ⟨h.1.alike ha.toAlike,h.2.of_queue ha.queue⟩)
    (keeps_startThread hp) parent (fun _ hx hstage => ⟨hm.insertClone hx hstage _,h⟩) ⟨hm,h⟩).2

theorem runs_host (a : HostAction) : (a.apply m).Runs p :=
  (host_keeps (P := fun m => m.Sound p c ∧ m.Runs p) (fun ha h => ⟨h.1.alike ha.toAlike,h.2.of_queue ha.queue⟩)
    (keeps_startThread hp) (fun parent h => ⟨h.1.createClone hp parent,runs_createClone hp h.1 h.2 parent⟩)
    (fun id h => ⟨h.1.deleteClone hp id,h.2.deleteClone id⟩) a (fun _ h => ⟨h.1.stopAll hp,h.2.stopAll⟩) ⟨hm,h⟩).2

theorem runs_evolves (he : m.Evolves m') : m'.Runs p := by
  induction he with
  | refl => exact h
  | alike _ ha ih => exact ih.of_queue ha.queue
  | clone he parent ih => exact runs_createClone hp (hm.evolves hp he) ih parent

end Starts

end Machine

variable {p : Program} {c : Settings} {t : Turn} {i : Instr} {m : Machine}

theorem Turn.Effect.runs (h : t.Effect i m) (hm : t.machine.Sound p c) (hp : p.Sound) (ht : t.machine.Runs p) :
    m.Runs p := by
  cases h with
  | edits h => exact Machine.runs_evolves hp hm ht h.evolves
  | raises _ => exact Machine.runs_trigger hp hm ht _
  | stopsAll _ => exact ht.stopAll
  | stopsOthers _ => exact ht.dropThreads _
  | deletes _ _ => exact ht.deleteClone _

namespace Phase

variable {p : Program} {c : Settings} {σ τ : Phase}

/-- All threads run scripts of the program, also the one whose turn it is. -/
def Runs (p : Program) : Phase → Prop
  | .idle m | .frame m => m.Runs p
  | .turn t _ _ => t.machine.Runs p ∧ t.active.base ∈ p.scriptIds

theorem Step.runs (h : Step σ τ) (hσ : σ.Sound p c) (hp : p.Sound) (hr : σ.Runs p) : τ.Runs p := by
  have hmachine := hσ.machine
  have hhalted : ∀ {t : Turn} {s : Script} {pc : Nat} {halt : Halt} {m : Machine}, t.machine.Sound p c →
      t.machine.Runs p → Machine.advance t s pc = .halted halt → halt.machine? = some m → m.Runs p := by
    intro t s pc halt m ht hr hadvance hm
    rcases Machine.effect_or_eq_of_halted hadvance hm with rfl | ⟨i,next,-,h⟩
    · exact hr
    · exact h.runs ht hp hr
  cases h with
  | host m a => exact Machine.runs_host hp hmachine hr a
  | @start m id x s hx hs restart =>
    have hown : m.shape? id = some x.shape := by rw [Machine.shape?,hx]; rfl
    exact Machine.Runs.startThread hr id (hmachine.mem_scriptIds hown hs) restart
  | @detach m id x s hx hs =>
    have hown : m.shape? id = some x.shape := by rw [Machine.shape?,hx]; rfl
    exact ⟨hr,hmachine.mem_scriptIds hown hs⟩
  | begin m => exact Machine.Runs.of_queue hr (Machine.Alike.beginFrame m).queue
  | @take m i t a k hi hlive hload hk =>
    have hbase : a.base = t.base := by
      rw [Activation.ofThread] at hload
      split at hload
      · cases hload
      · split at hload
        · cases hload
        · cases hload
          rfl
    refine ⟨Machine.Runs.setSlot hr i (t := t.shell) (hr i t hi),?_⟩
    change a.base ∈ _
    rw [hbase]
    exact hr i t hi
  | @gone m i t hi hgone => exact Machine.Runs.setSlot hr i (t := t.stop) (hr i t hi)
  | advance h =>
    obtain ⟨i,next,hfetch⟩ := Machine.fetch_of_going h
    obtain ⟨heffect,hsame⟩ := Machine.effect_of_going hfetch h
    refine ⟨heffect.runs hmachine hp hr.1,?_⟩
    rw [hsame.base]
    exact hr.2
  | @layDown t s pc i m a h hslot =>
    have hm := hhalted hmachine hr.1 h rfl
    change (m.putBack i a).Runs p
    unfold Machine.putBack
    split
    · refine hm.setSlot i ?_
      cases hfetch : s.fetch pc with
      | error f =>
        simp only [Machine.advance,hfetch] at h
        cases h
      | ok found =>
        obtain ⟨-,hsame⟩ := Turn.effect_of_exec (Machine.advance_done hfetch h).1
        change a.base ∈ _
        rw [hsame.base]
        exact hr.2
    · exact hm
  | finish h hslot | fault h => exact hhalted hmachine hr.1 h rfl
  | sweep m => exact Machine.Runs.sweep hr
  | clock m => exact Machine.Runs.of_queue hr rfl
  | draw m => exact Machine.Runs.of_queue hr (Machine.Alike.draw m).queue

theorem Steps.runs (h : Steps σ τ) (hσ : σ.Sound p c) (hp : p.Sound) (hr : σ.Runs p) : τ.Runs p := by
  induction h with
  | refl => exact hr
  | tail hsteps hstep ih => exact hstep.runs (Steps.sound hsteps hσ hp) hp ih

end Phase

/-! Counting -/

/-- Where a thread runs, and what. -/
def Thread.post (t : Thread) : Nat × Nat :=
  (t.target,t.base)

namespace Machine

variable {p : Program} {c : Settings} {m m' m'' : Machine}

/-- How many slots of the queue are empty. -/
def gaps (m : Machine) : Nat :=
  m.queue.countP Option.isNone

theorem size_queue (m : Machine) : m.queue.size = m.threads.length + m.gaps := by
  have hcount := List.length_eq_countP_add_countP (l := m.queue.toList) Option.isSome
  rw [threads,List.length_filterMap_eq_countP,gaps,← Array.countP_toList,← Array.length_toList,hcount]
  congr 1
  refine List.countP_congr fun o _ => ?_
  cases o <;> simp

theorem Sound.nodup_posts (h : m.Sound p c) : (m.threads.map Thread.post).Nodup := by
  rw [Machine.threads,List.Nodup,List.pairwise_map,List.pairwise_filterMap,List.pairwise_iff_getElem]
  intro i j hi hj hij t ht u hu hpost
  have hslot : ∀ {k : Nat} (hk : k < m.queue.toList.length) {x : Thread}, id m.queue.toList[k] = some x →
      m.queue[k]? = some (some x) := by
    intro k hk x hx
    rw [← Array.getElem?_toList,List.getElem?_eq_getElem hk]
    exact congrArg some hx
  obtain ⟨htarget,hbase⟩ := Prod.mk.inj hpost
  exact Nat.ne_of_lt hij (h.unique (hslot hi ht) (hslot hj hu) htarget hbase)

theorem Sound.length_threads_le (h : m.Sound p c) (hr : m.Runs p) :
    m.threads.length ≤ m.targets.nextId * p.scriptIds.length := by
  have hsub : m.threads.map Thread.post ⊆ List.range m.targets.nextId ×ˢ p.scriptIds := by
    intro post hpost
    obtain ⟨t,ht,rfl⟩ := List.mem_map.1 hpost
    obtain ⟨i,hi⟩ := mem_threads.1 ht
    exact List.mem_product.2 ⟨List.mem_range.2 (h.targets hi),hr i t hi⟩
  have hle := (h.nodup_posts.subperm hsub).length_le
  rwa [List.length_map,List.length_product,List.length_range] at hle

/-- The queue has room for every script on every target there ever was, beside the slots that are empty. -/
theorem Sound.size_queue_le (h : m.Sound p c) (hr : m.Runs p) :
    m.queue.size ≤ m.targets.nextId * p.scriptIds.length + m.gaps := by
  rw [size_queue]
  exact Nat.add_le_add_right (h.length_threads_le hr) _

theorem Sound.length_threads_of_target_le (h : m.Sound p c) (hr : m.Runs p) (id : Nat) :
    (m.threads.filter fun t => t.target == id).length ≤ p.scriptIds.length := by
  have hnodup : ((m.threads.filter fun t => t.target == id).map Thread.base).Nodup := by
    have hposts : ((m.threads.filter fun t => t.target == id).map Thread.post).Nodup :=
      h.nodup_posts.sublist (List.filter_sublist.map _)
    rw [List.Nodup,List.pairwise_map] at hposts ⊢
    refine hposts.imp_of_mem fun {t u} ht hu hne hbase => hne ?_
    have htarget : t.target = u.target :=
      (eq_of_beq (List.mem_filter.1 ht).2).trans (eq_of_beq (List.mem_filter.1 hu).2).symm
    exact Prod.ext htarget hbase
  have hsub : (m.threads.filter fun t => t.target == id).map Thread.base ⊆ p.scriptIds := by
    intro base hbase
    obtain ⟨t,ht,rfl⟩ := List.mem_map.1 hbase
    obtain ⟨i,hi⟩ := mem_threads.1 (List.mem_filter.1 ht).1
    exact hr i t hi
  have hle := (hnodup.subperm hsub).length_le
  rwa [List.length_map] at hle

/-! Slots are emptied at the cost of targets -/

def alive (m : Machine) : Finset Nat :=
  (Finset.range m.targets.nextId).filter fun id => (m.shape? id).isSome = true

theorem mem_alive {id : Nat} : id ∈ m.alive ↔ (m.shape? id).isSome = true := by
  rw [alive,Finset.mem_filter,Finset.mem_range,and_iff_right_iff_imp]
  intro hsome
  obtain ⟨σ,hσ⟩ := Option.isSome_iff_exists.1 hsome
  exact shape?_lt hσ

/-- No target is new, and where slots are empty now that were not, enough targets are gone: each pays for a number of
slots. -/
structure Settles (n : Nat) (m m' : Machine) : Prop where
  nextId : m'.targets.nextId = m.targets.nextId
  gaps : m'.gaps + n * m'.alive.card ≤ m.gaps + n * m.alive.card

namespace Settles

variable {n : Nat}

theorem refl (m : Machine) : m.Settles n m := ⟨rfl,Nat.le_refl _⟩

theorem trans (h : m.Settles n m') (h' : m'.Settles n m'') : m.Settles n m'' :=
  ⟨h'.nextId.trans h.nextId,h'.gaps.trans h.gaps⟩

theorem of_le (hids : m'.targets.nextId = m.targets.nextId)
    (halive : ∀ id, (m'.shape? id).isSome = true → (m.shape? id).isSome = true) (hgaps : m'.gaps ≤ m.gaps) :
    m.Settles n m' := by
  have hcard : m'.alive.card ≤ m.alive.card :=
    Finset.card_le_card fun id hid => mem_alive.2 (halive id (mem_alive.1 hid))
  exact ⟨hids,Nat.add_le_add hgaps (Nat.mul_le_mul_left n hcard)⟩

theorem of_targets (ht : m'.targets = m.targets) (hgaps : m'.gaps ≤ m.gaps) : m.Settles n m' :=
  of_le (by rw [ht]) (fun id => by simp [shape?,ht]) hgaps

theorem alike (h : m.Alike m') : m.Settles n m' :=
  of_le h.size (fun id => by simp [h.shapes]) (by rw [Machine.gaps,Machine.gaps,h.queue])

theorem setSlot (m : Machine) (i : Nat) (t : Thread) : m.Settles n (m.setSlot i (some t)) := by
  refine of_targets rfl ?_
  unfold Machine.gaps Machine.setSlot
  by_cases hi : i < m.queue.size
  · simp only [Array.setIfInBounds,hi,dif_pos,Array.countP_set,Option.isNone_some,Bool.false_eq_true,if_false]
    omega
  · simp [Array.setIfInBounds,hi]

theorem putBack (m : Machine) (i : Nat) (a : Activation) : m.Settles n (m.putBack i a) := by
  unfold Machine.putBack
  split
  · exact setSlot m i _
  · exact refl m

theorem startThread (m : Machine) (id : Nat) (s : Script) (restart : Bool) : m.Settles n (m.startThread id s restart) := by
  obtain ⟨k,⟨i,t,-,-,-,heq⟩ | heq | ⟨-,heq⟩⟩ := m.startThread_cases id s restart
  · rw [heq]
    exact (setSlot m i _).trans (of_targets rfl (Nat.le_refl _))
  · rw [heq]
    exact of_targets rfl (Nat.le_refl _)
  · rw [heq]
    refine of_targets rfl ?_
    simp [Machine.gaps]

theorem trigger (m : Machine) (e : Event) : m.Settles n (m.trigger e).2 :=
  trigger_keeps (P := m.Settles n) (fun _ _ restart h => h.trans (startThread _ _ _ restart)) e (refl m)

theorem removeTarget (m : Machine) (id : Nat) : m.Settles n (m.removeTarget id) := by
  refine of_le ?_ (fun j hj => ?_) (Nat.le_refl _)
  · exact Array.size_setIfInBounds
  · rw [shape?_removeTarget] at hj
    split at hj
    · cases hj
    · exact hj

theorem foldl {α : Type} {f : Machine → α → Machine} (hf : ∀ (m : Machine) x, m.Settles n (f m x)) (l : List α)
    (m : Machine) : m.Settles n (l.foldl f m) := by
  induction l generalizing m with
  | nil => exact refl m
  | cons x l ih => exact (hf m x).trans (ih _)

theorem stopAll (m : Machine) : m.Settles n m.stopAll := by
  unfold Machine.stopAll
  dsimp only
  generalize hm : Machine.call _ HostCall.stopSounds = m₁
  have h₁ : m.Settles n m₁ := by
    rw [← hm]
    refine trans ?_ (alike ((Alike.modifyTarget _ stageId (f := fun t => { t with effects := {} }) fun _ => rfl).trans
      (.call _ _)))
    refine of_targets rfl (Nat.le_of_eq ?_)
    rw [Machine.gaps,Array.countP_map]
    refine congrArg (Array.countP · m.queue) ?_
    funext o
    cases o <;> rfl
  refine (h₁.trans (foldl removeTarget (m₁.children.filter m₁.isCloneId) m₁)).trans ?_
  exact foldl (fun m id => alike (.modifyTarget m id (f := fun t => { t with effects := {}, bubble := none }) fun _ => rfl))
    _ _

end Settles

theorem threads_dropThreads (m : Machine) (q : Thread → Bool) :
    (m.dropThreads fun _ => q).threads = m.threads.filter fun t => !q t := by
  have hqueue : (m.dropThreads fun _ => q).queue = m.queue.map (Option.filter fun t => !q t) := by
    ext i
    · simp [dropThreads]
    · simp [dropThreads]
  rw [threads,threads,hqueue,Array.toList_map]
  induction m.queue.toList with
  | nil => rfl
  | cons o l ih =>
    cases o with
    | none => exact ih
    | some t =>
      have hfilter : Option.filter (fun t => !q t) (some t) = if q t then none else some t := by
        cases hq : q t <;> simp [hq]
      rw [List.map_cons,hfilter]
      cases hq : q t with
      | true | false => simpa [hq] using ih

theorem Sound.settles_deleteClone (h : m.Sound p c) (hr : m.Runs p) (id : Nat) :
    m.Settles p.scriptIds.length (m.deleteClone id) := by
  unfold Machine.deleteClone
  split
  next hclone =>
    generalize hm : (m.removeTarget id).dropThreads (fun _ t => t.target == id) = m'
    have hthreads : m'.threads = m.threads.filter fun t => !(t.target == id) := by
      rw [← hm]
      exact threads_dropThreads _ fun t => t.target == id
    have hsize : m'.queue.size = m.queue.size := by
      rw [← hm]
      exact Array.size_mapIdx
    have hgaps : m'.gaps ≤ m.gaps + p.scriptIds.length := by
      have hall := List.length_eq_length_filter_add (l := m.threads) fun t => t.target == id
      have htarget := h.length_threads_of_target_le hr id
      rw [size_queue,size_queue,hthreads] at hsize
      omega
    have halive : m'.alive = m.alive.erase id := by
      ext j
      have hshape : m'.shape? j = if j = id then none else m.shape? j := by
        rw [← hm]
        exact shape?_removeTarget m id j
      rw [Finset.mem_erase,mem_alive,mem_alive,hshape]
      by_cases hj : j = id
      · simp [hj]
      · simp [hj]
    have hmem : id ∈ m.alive := by
      rw [isCloneId_eq] at hclone
      exact mem_alive.2 (Option.isSome_of_any hclone)
    have hcard : m.alive.card = m'.alive.card + 1 := by
      rw [halive,Finset.card_erase_add_one hmem]
    refine ⟨?_,?_⟩
    · rw [← hm]
      exact Array.size_setIfInBounds
    · rw [hcard]
      ring_nf
      omega
  · exact .refl m

theorem Edits.alike {i : Instr} {own : Nat} (h : m.Edits i own m') (hi : i.builtin? ≠ some (.control .createClone)) :
    m.Alike m' := by
  induction h with
  | refl => exact .refl m
  | target _ _ hf ih => exact ih.trans (.modifyTarget _ _ fun t => (hf t).shape)
  | layer _ hlist ih => exact ih.trans ⟨rfl,rfl,fun _ => rfl,rfl,hlist⟩
  | clone _ hclone _ _ => exact absurd hclone hi
  | watcher _ _ _ ih | panel _ _ ih | prompt _ _ _ ih | ticket _ _ ih | visual _ _ ih => exact ih.trans (.of_eq rfl rfl rfl rfl)
  | aside _ hm _ ih =>
    rw [hm]
    exact ih.trans (.of_eq rfl rfl rfl rfl)

end Machine

/-- Whether an instruction neither makes clones nor stops the other threads of its target. -/
def Instr.sparesOthers (i : Instr) : Bool :=
  i.builtin? != some (.control .createClone) && !i.stopsOthers

theorem Turn.Effect.settles (h : t.Effect i m) (hi : i.sparesOthers = true) (hm : t.machine.Sound p c)
    (hr : t.machine.Runs p) : t.machine.Settles p.scriptIds.length m := by
  obtain ⟨hclone,hothers⟩ := Bool.and_eq_true_iff.1 hi
  cases h with
  | edits h => exact .alike (h.alike (by simpa using hclone))
  | raises _ => exact .trigger _ _
  | stopsAll _ => exact .stopAll _
  | stopsOthers h =>
    rw [h] at hothers
    cases hothers
  | deletes _ _ => exact hm.settles_deleteClone hr _

end SpriteMachine
