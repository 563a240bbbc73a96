import SpriteMachine.Proofs.Persistence
import SpriteMachine.Proofs.SpriteList
import SpriteMachine.Proofs.Arrivals

/-!
Keys. A key starts its scripts without starting over what runs: a script that has a thread in the queue is left alone.
That goes for threads that are stopped as well, which stay in the queue until the end of a pass. So a key reaches all
its scripts if nothing was stopped since the last frame, and fails to reach those that were.
-/

namespace SpriteMachine

theorem Listeners.mem_exactly {l : Listeners} {e : Event} {s : Script} : s ∈ l.exactly e ↔ (e,s) ∈ l.entries := by
  refine ⟨mem_of_exactly,fun h => ?_⟩
  exact List.mem_filterMap.2 ⟨(e,s),Array.mem_toList_iff.2 h,if_pos rfl⟩

theorem Listeners.mem_matching_key {l : Listeners} {k e : Key} {s : Script} (h : (.keyPressed e,s) ∈ l.entries)
    (he : e = k ∨ e = .any) : s ∈ l.matching (.keyPressed k) := by
  have hexactly := mem_exactly.2 h
  cases k with
  | any =>
    obtain rfl : e = .any := he.elim id id
    exact hexactly
  | code n =>
    rcases he with rfl | rfl
    · exact List.mem_append_left _ hexactly
    · exact List.mem_append_right _ hexactly

namespace Machine

/-- The queue has a thread for a script on a target, stopped or not. -/
def Queues (m : Machine) (id base : Nat) : Prop :=
  ∃ (i : Nat) (t : Thread), m.queue[i]? = some (some t) ∧ t.target = id ∧ t.base = base

/-- The queue has a thread for a script on a target that is not stopped. -/
def Handles (m : Machine) (id base : Nat) : Prop :=
  ∃ t, m.Live t ∧ t.target = id ∧ t.base = base

variable {m m' m'' : Machine} {id base : Nat}

theorem Queues.retained (h : m.Queues id base) (hm : m.Retains m') : m'.Queues id base := by
  obtain ⟨i,t,hi,htarget,hbase⟩ := h
  obtain ⟨u,hu,hut,hub⟩ := hm i t hi
  exact ⟨i,u,hu,hut.trans htarget,hub.trans hbase⟩

/-! Every script that an event is for gets a thread. -/

theorem queues_startThread (m : Machine) (id : Nat) (s : Script) (restart : Bool) :
    (m.startThread id s restart).Queues id s.id := by
  unfold startThread
  dsimp only
  split
  next i hi =>
    obtain ⟨t,ht,htarget,hbase⟩ := slotOf?_eq_some hi
    have hqueues : m.Queues id s.id := ⟨i,t,ht,htarget,hbase⟩
    split
    · exact hqueues.retained (.setSlot (t := .start id s) ht htarget.symm hbase.symm)
    · exact hqueues
  · exact ⟨m.queue.size,.start id s,by simp,rfl,rfl⟩

theorem queues_triggerFor {e : Event} (h : base ∈ m.listening e id) : (m.triggerFor id e).2.Queues id base := by
  unfold listening at h
  unfold triggerFor
  split
  next hnone =>
    rw [hnone] at h
    cases h
  next x hx =>
    rw [hx] at h
    dsimp only at h ⊢
    generalize x.scripts.listeners.matching e = scripts at h
    clear hx
    induction scripts generalizing m with
    | nil => cases h
    | cons s scripts ih =>
      rw [List.foldl_cons]
      rcases List.mem_cons.1 h with rfl | h
      · have hkeeps : ∀ (scripts : List Script) (m : Machine),
            m.Retains (scripts.foldl (fun m s => m.startThread id s e.restarts) m) := by
          intro scripts
          induction scripts with
          | nil => exact .refl
          | cons s scripts ih => exact fun m => (Retains.startThread m id s _).trans (ih _)
        exact (queues_startThread m id s _).retained (hkeeps scripts _)
      · exact ih h

theorem queues_trigger {e : Event} (h : m.Starts e id base) : (m.trigger e).2.Queues id base := by
  obtain ⟨hid,hbase⟩ := h
  rw [trigger_eq_foldl]
  dsimp only
  have hkeeps : ∀ (ids : List Nat) (m : Machine), m.Retains (ids.foldl (fun m id => (m.triggerFor id e).2) m) := by
    intro ids
    induction ids with
    | nil => exact .refl
    | cons j ids ih => exact fun m => (Retains.triggerFor m j e).trans (ih _)
  generalize m.children.reverse ++ [stageId] = ids at hid
  induction ids generalizing m with
  | nil => cases hid
  | cons j ids ih =>
    rw [List.foldl_cons]
    rcases List.mem_cons.1 hid with rfl | hid
    · exact (queues_triggerFor hbase).retained (hkeeps ids _)
    · exact ih (by rw [listening_congr (targets_triggerFor m j e)]; exact hbase) hid

/-! What does not start scripts over only appends to the queue. -/

/-- The threads keep their slots, and new ones are for scripts that had none. -/
structure Admits (m m' : Machine) : Prop where
  slots : ∀ {i : Nat} {t : Thread}, m.queue[i]? = some (some t) → m'.queue[i]? = some (some t)
  fresh : ∀ {i : Nat} {t : Thread}, m'.queue[i]? = some (some t) →
    m.queue[i]? = some (some t) ∨ t.stopped = false ∧ ¬ m.Queues t.target t.base

namespace Admits

theorem of_queue (h : m'.queue = m.queue) : m.Admits m' :=
  ⟨fun hi => h ▸ hi,fun hi => .inl (h ▸ hi)⟩

theorem trans (h : m.Admits m') (h' : m'.Admits m'') : m.Admits m'' where
  slots hi := h'.slots (h.slots hi)
  fresh hi := by
    rcases h'.fresh hi with hi | ⟨hlive,hnone⟩
    · exact h.fresh hi
    · exact .inr ⟨hlive,fun ⟨j,u,hj,hu⟩ => hnone ⟨j,u,h.slots hj,hu⟩⟩

theorem startThread (m : Machine) (id : Nat) (s : Script) : m.Admits (m.startThread id s false) := by
  unfold Machine.startThread
  dsimp only
  split
  · exact of_queue rfl
  next hnone =>
    have hnew : ¬ m.Queues id s.id := fun ⟨i,t,hi,hruns⟩ => slotOf?_eq_none hnone hi hruns
    constructor
    · intro i t hi
      have hlt : i < m.queue.size := (Array.getElem?_eq_some_iff.1 hi).1
      rw [Array.getElem?_push,if_neg (Nat.ne_of_lt hlt),hi]
    · intro i t hi
      rw [Array.getElem?_push] at hi
      split at hi
      · cases hi
        exact .inr ⟨rfl,hnew⟩
      · exact .inl hi

theorem foldl {α : Type} {f : Machine → α → Machine} (hf : ∀ (m : Machine) x, m.Admits (f m x)) (l : List α) (m : Machine) :
    m.Admits (l.foldl f m) := by
  induction l generalizing m with
  | nil => exact of_queue rfl
  | cons x l ih => exact (hf m x).trans (ih _)

theorem trigger {e : Event} (he : e.restarts = false) (m : Machine) : m.Admits (m.trigger e).2 := by
  rw [trigger_eq_foldl]
  refine foldl (fun m id => ?_) _ m
  unfold triggerFor
  split
  · exact of_queue rfl
  · rw [he]
    exact foldl (fun m s => startThread m id s) _ m

theorem keyDown (m : Machine) (k : Key) : m.Admits (m.keyDown k) := by
  unfold Machine.keyDown
  exact (of_queue rfl : m.Admits (m.modifyPanel _)).trans (trigger rfl _)

/-- A script whose thread was asked for is handled if it was before, or had no thread. -/
theorem handles_iff (h : m.Admits m') (hqueues : m'.Queues id base) :
    m'.Handles id base ↔ m.Handles id base ∨ ¬ m.Queues id base := by
  constructor
  · rintro ⟨t,⟨⟨i,hi⟩,hlive⟩,rfl,rfl⟩
    exact (h.fresh hi).imp (fun hi => ⟨t,⟨⟨i,hi⟩,hlive⟩,rfl,rfl⟩) And.right
  · rintro (⟨t,⟨⟨i,hi⟩,hlive⟩,hruns⟩ | hnone)
    · exact ⟨t,⟨⟨i,h.slots hi⟩,hlive⟩,hruns⟩
    · obtain ⟨i,t,hi,hruns⟩ := hqueues
      rcases h.fresh hi with hold | ⟨hlive,-⟩
      · exact absurd ⟨i,t,hold,hruns⟩ hnone
      · exact ⟨t,⟨⟨i,hi⟩,hlive⟩,hruns⟩

end Admits

/-! Machines in which nothing is stopped -/

/-- Nothing was stopped since the start or since the last frame that ended well, and no script was run by hand. -/
inductive Unstopped (first : Machine) : Machine → Prop
  | first : Unstopped first first
  | frame {m m' : Machine} {fuel : Nat} (h : first.Reachable m) (hstep : m.step fuel = .done m') : Unstopped first m'
  | host {m : Machine} (h : Unstopped first m) {a : HostAction} (ha : a ≠ .stopAll) : Unstopped first (a.apply m)
  | startThread {m : Machine} {id : Nat} {t : Target} {s : Script} (h : Unstopped first m)
      (ht : m.targets.get? id = some t) (hs : s ∈ t.scripts.all) (restart : Bool) :
      Unstopped first (m.startThread id s restart)

def AllLive (m : Machine) : Prop :=
  ∀ (i : Nat) (t : Thread), m.queue[i]? = some (some t) → t.stopped = false

theorem AllLive.of_queue (h : m.AllLive) (hqueue : m'.queue = m.queue) : m'.AllLive := by
  intro i t hi
  rw [hqueue] at hi
  exact h i t hi

theorem AllLive.startThread (h : m.AllLive) (id : Nat) (s : Script) (restart : Bool) :
    (m.startThread id s restart).AllLive := by
  obtain ⟨n,⟨i,t,-,-,-,heq⟩ | heq | ⟨-,heq⟩⟩ := m.startThread_cases id s restart
  · intro j u hj
    rw [heq] at hj
    simp only [setSlot,Array.getElem?_setIfInBounds] at hj
    split at hj
    · split at hj
      · cases hj
        rfl
      · cases hj
    · exact h j u hj
  · exact h.of_queue (by rw [heq])
  · intro j u hj
    rw [heq] at hj
    simp only [Array.getElem?_push] at hj
    split at hj
    · cases hj
      rfl
    · exact h j u hj

theorem AllLive.createClone (h : m.AllLive) (parent : Nat) : (m.createClone parent).2.AllLive :=
  createClone_keeps (P := AllLive) (fun halike h => h.of_queue halike.queue) (fun _ _ restart h => h.startThread _ _ restart)
    parent (fun _ _ _ => h) h

theorem AllLive.deleteClone (h : m.AllLive) (id : Nat) : (m.deleteClone id).AllLive := by
  unfold Machine.deleteClone
  split
  · intro i t hi
    simp only [dropThreads,Array.getElem?_mapIdx,Option.map_eq_some_iff,Option.filter_eq_some_iff] at hi
    obtain ⟨_,hslot,rfl,-⟩ := hi
    exact h i t hslot
  · exact h

theorem AllLive.host (h : m.AllLive) {a : HostAction} (ha : a ≠ .stopAll) : (a.apply m).AllLive :=
  host_keeps (P := AllLive) (fun halike h => h.of_queue halike.queue) (fun _ _ restart h => h.startThread _ _ restart)
    (fun parent h => h.createClone parent) (fun id h => h.deleteClone id) a (fun heq => absurd heq ha) h

theorem Swept.allLive (h : m.Swept) : m.AllLive := by
  intro i t hi
  obtain ⟨u,hu,hlive⟩ := h _ (Array.mem_of_getElem? hi)
  cases hu
  exact hlive

theorem Unstopped.allLive {first : Machine} (h : first.Unstopped m) (hfirst : first.queue = #[]) : m.AllLive := by
  induction h with
  | first =>
    intro i t hi
    rw [hfirst] at hi
    cases hi
  | frame _ hstep => exact (swept_step hstep).allLive
  | host _ ha ih => exact ih.host ha
  | startThread _ _ _ restart ih => exact ih.startThread _ _ restart

theorem AllLive.handles_iff (h : m.AllLive) : m.Handles id base ↔ m.Queues id base :=
  ⟨fun ⟨t,⟨⟨i,hi⟩,_⟩,hruns⟩ => ⟨i,t,hi,hruns⟩,fun ⟨i,t,hi,hruns⟩ => ⟨t,⟨⟨i,hi⟩,h i t hi⟩,hruns⟩⟩

end Machine

/-! Keys reach all live targets. -/

namespace Machine

variable {m : Machine} {n : Nat}

theorem persistent_listed (n : Nat) : Persistent (Listed n) where
  effect h hm := h.listed hm
  slot _ _ hm := hm.of_eq rfl rfl
  sweep hm := hm.of_eq rfl rfl
  clock hm := hm.of_eq rfl rfl
  begins hm := hm.alike (.beginFrame _)
  draw hm := hm.alike (.draw _)

theorem Reachable.listed {first : Machine} (h : first.Reachable m) (hfirst : first.Listed n) : m.Listed n :=
  (persistent_listed n).reachable h (fun a hm => hm.host a) (fun id s restart hm => hm.startThread id s restart) hfirst

theorem Listed.starts (h : m.Listed n) {id : Nat} {x : Target} (hlive : m.targets.get? id = some x) {e : Event} {s : Script}
    (hs : s ∈ x.scripts.listeners.matching e) : m.Starts e id s.id := by
  constructor
  · by_cases hid : id = stageId
    · exact List.mem_append_right _ (List.mem_singleton.2 hid)
    · have hshape : (m.shape? id).isSome = true := by
        rw [shape?,hlive]
        rfl
      exact List.mem_append_left _ (List.mem_reverse.2 ((h.mem id).2 ⟨hid,hshape⟩))
  · rw [listening,hlive]
    exact List.mem_map_of_mem hs

end Machine

/-- A key leaves all threads alone. A script that waits for it, or for any key, on a target that is alive has a live
thread afterwards exactly if it had one before or no thread at all, live or stopped. If nothing was stopped since the
last frame it has one. -/
theorem keys_of_compile {project : Project} {program : Program} (hcompile : compile project = .ok program)
    {settings : Settings} {clock : Clock} {m : Machine}
    (hreach : (Machine.ofProgram program settings clock).Reachable m) (k : Key) :
    (∀ (i : Nat) (t : Thread), m.queue[i]? = some (some t) → (m.keyDown k).queue[i]? = some (some t)) ∧
    ∀ (id : Nat) (x : Target) (e : Key) (s : Script), m.targets.get? id = some x →
      (.keyPressed e,s) ∈ x.scripts.listeners.entries → (e = k ∨ e = .any) →
      (m.keyDown k).Queues id s.id ∧
      ((m.keyDown k).Handles id s.id ↔ m.Handles id s.id ∨ ¬ m.Queues id s.id) ∧
      ((Machine.ofProgram program settings clock).Unstopped m → (m.keyDown k).Handles id s.id) := by
  obtain ⟨hstage,hsprites,-⟩ := compile_supplied hcompile
  have hlisted := hreach.listed (Machine.listed_ofProgram hstage hsprites settings clock)
  have hadmits := Machine.Admits.keyDown m k
  refine ⟨fun i t => hadmits.slots,fun id x e s hlive hs he => ?_⟩
  have hqueues : (m.keyDown k).Queues id s.id := by
    have hpanel : (m.modifyPanel fun p => { p with keys := if p.keys.contains k then p.keys else p.keys ++ [k] }).Listed
        program.sprites.length := hlisted.of_eq rfl rfl
    exact Machine.queues_trigger (hpanel.starts hlive (Listeners.mem_matching_key hs he))
  have hiff := hadmits.handles_iff hqueues
  refine ⟨hqueues,hiff,fun hunstopped => hiff.2 ?_⟩
  rw [(hunstopped.allLive rfl).handles_iff]
  exact em _

/-! A script that a key starts and that never ends -/

/-- The space bar starts a script that clears the picture again and again. -/
def keyProject : Project where
  stage := {
    name := "Stage"
    isStage := true
    scripts := [
      { hat := .key "space"
        blocks := [.mk "control_forever" none [.mk "SUBSTACK" [.mk "pen_clear" none [] []] none] []] }] }

def spaceBar : Key :=
  .code 32

/-- Which script a thread of the queue runs where, and whether it is stopped. -/
def Thread.standing (t : Thread) : Nat × Nat × Bool :=
  (t.target,t.base,t.stopped)

/-- The space bar starts the script, which runs on after a frame, and does not start it anew after it was stopped. -/
theorem keyProject_runs : ∃ p ∈ (compile keyProject).toOption,
    ∃ y ∈ (((Machine.ofProgram p shallow {}).keyDown spaceBar).step 40).ended?, y.2 = none ∧
    y.1.threads.map Thread.standing = [(0,0,false)] ∧
    (y.1.stopAll.keyDown spaceBar).threads.map Thread.standing = [(0,0,true)] ∧
    (∃ x ∈ y.1.targets.get? Machine.stageId, ∃ e ∈ x.scripts.listeners.entries, e.1 = .keyPressed spaceBar) ∧
    ∃ x ∈ y.1.stopAll.targets.get? Machine.stageId, ∃ e ∈ x.scripts.listeners.entries, e.1 = .keyPressed spaceBar := by
  decide +kernel

theorem reachable_keyDown (p : Program) :
    (Machine.ofProgram p shallow {}).Reachable ((Machine.ofProgram p shallow {}).keyDown spaceBar) :=
  .host .first (.keyDown spaceBar)

/-- A script that runs is left alone. -/
theorem keys_of_compile_keyProject : ∃ p m x s, compile keyProject = .ok p ∧
    (Machine.ofProgram p shallow {}).Reachable m ∧ (Machine.ofProgram p shallow {}).Unstopped m ∧
    m.targets.get? Machine.stageId = some x ∧ (.keyPressed spaceBar,s) ∈ x.scripts.listeners.entries ∧
    m.threads.map Thread.standing = [(0,0,false)] ∧ (m.keyDown spaceBar).Handles Machine.stageId s.id := by
  obtain ⟨p,hp,⟨m,_⟩,hm,rfl,hthreads,-,⟨x,hx,⟨_,s⟩,hs,rfl⟩,-⟩ := keyProject_runs
  have hcompile := Except.mem_toOption.1 hp
  have hreach := (reachable_keyDown p).frame (Outcome.eq_done hm)
  have hunstopped : (Machine.ofProgram p shallow {}).Unstopped m := .frame (reachable_keyDown p) (Outcome.eq_done hm)
  have hkeys := (keys_of_compile hcompile hreach spaceBar).2 Machine.stageId x spaceBar s hx hs (.inl rfl)
  exact ⟨p,m,x,s,hcompile,hreach,hunstopped,hx,hs,hthreads,hkeys.2.2 hunstopped⟩

/-- A script that was stopped since the last frame is not started. -/
theorem stopped_script_misses_key : ∃ p m x s, compile keyProject = .ok p ∧
    (Machine.ofProgram p shallow {}).Reachable m ∧ m.targets.get? Machine.stageId = some x ∧
    (.keyPressed spaceBar,s) ∈ x.scripts.listeners.entries ∧ ¬ (m.keyDown spaceBar).Handles Machine.stageId s.id := by
  obtain ⟨p,hp,⟨m,_⟩,hm,rfl,-,hthreads,-,x,hx,⟨_,s⟩,hs,rfl⟩ := keyProject_runs
  have hreach := (reachable_keyDown p).frame (Outcome.eq_done hm)
  refine ⟨p,m.stopAll,x,s,Except.mem_toOption.1 hp,hreach.host .stopAll,hx,hs,?_⟩
  rintro ⟨t,⟨hmem,hlive⟩,-⟩
  have hstanding : t.standing ∈ (m.stopAll.keyDown spaceBar).threads.map Thread.standing :=
    List.mem_map_of_mem (Machine.mem_threads.2 hmem)
  rw [hthreads,List.mem_singleton] at hstanding
  have hstopped : t.stopped = true := congrArg (fun x => x.2.2) hstanding
  rw [hstopped] at hlive
  cases hlive

end SpriteMachine
