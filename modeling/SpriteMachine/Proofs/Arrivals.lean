import SpriteMachine.Proofs.Phases

/-!
Where the threads of a queue come from. Whatever happens to a machine, a thread in its queue that is not stopped was
there before, or is at the start of a script; only the thread that runs is laid down elsewhere.
-/

namespace SpriteMachine

namespace Machine

/-- A thread is in the queue, and not stopped. -/
def Live (m : Machine) (t : Thread) : Prop :=
  (∃ i : Nat, m.queue[i]? = some (some t)) ∧ t.stopped = false

def Brings (m m' : Machine) : Prop :=
  ∀ t : Thread, m'.Live t → m.Live t ∨ ∃ id s, t = .start id s

def Renews (m m' : Machine) : Prop :=
  ∀ (i : Nat) (t : Thread), m'.queue[i]? = some (some t) → t.stopped = false →
    m.queue[i]? = some (some t) ∨ ∃ id s, t = .start id s

variable {m m' m'' : Machine}

theorem Renews.brings (h : m.Renews m') : m.Brings m' :=
  fun _ ⟨⟨i,hi⟩,hlive⟩ => (h i _ hi hlive).imp_left fun hold => ⟨⟨i,hold⟩,hlive⟩

theorem Brings.sweep (m : Machine) : m.Brings m.sweep :=
  fun _ ⟨⟨_,hi⟩,hlive⟩ => .inl ⟨(mem_queue_of_sweep hi).2,hlive⟩

namespace Renews

theorem trans (h : m.Renews m') (h' : m'.Renews m'') : m.Renews m'' :=
  fun i t hi hlive => (h' i t hi hlive).elim (fun hi => h i t hi hlive) .inr

theorem of_slots (h : ∀ {i : Nat} {t : Thread}, m'.queue[i]? = some (some t) → t.stopped = false →
    m.queue[i]? = some (some t)) : m.Renews m' :=
  fun _ _ hi hlive => .inl (h hi hlive)

theorem of_queue (h : m'.queue = m.queue) : m.Renews m' :=
  of_slots fun hi _ => h ▸ hi

theorem refl (m : Machine) : m.Renews m := of_queue rfl

theorem setSlot (i : Nat) {u : Thread} (hu : u.stopped = true) : m.Renews (m.setSlot i (some u)) := by
  refine of_slots fun {j t} hj hlive => ?_
  simp only [Machine.setSlot,Array.getElem?_setIfInBounds] at hj
  split at hj
  · split at hj
    · cases hj
      rw [hu] at hlive
      cases hlive
    · cases hj
  · exact hj

theorem startThread (m : Machine) (id : Nat) (s : Script) (restart : Bool) : m.Renews (m.startThread id s restart) := by
  intro j t hj hlive
  obtain ⟨n,⟨i,u,-,-,-,heq⟩ | heq | ⟨-,heq⟩⟩ := m.startThread_cases id s restart
  · rw [heq] at hj
    simp only [Machine.setSlot,Array.getElem?_setIfInBounds] at hj
    split at hj
    · split at hj
      · cases hj
        exact .inr ⟨id,s,rfl⟩
      · cases hj
    · exact .inl hj
  · rw [heq] at hj
    exact .inl hj
  · rw [heq] at hj
    simp only [Array.getElem?_push] at hj
    split at hj
    · cases hj
      exact .inr ⟨id,s,rfl⟩
    · exact .inl hj

theorem trigger (m : Machine) (e : Event) : m.Renews (m.trigger e).2 :=
  trigger_keeps (P := m.Renews) (fun _ _ restart h => h.trans (startThread _ _ _ restart)) e (refl m)

theorem createClone (m : Machine) (parent : Nat) : m.Renews (m.createClone parent).2 :=
  createClone_keeps (P := m.Renews) (fun ha h => h.trans (of_queue ha.queue))
    (fun _ _ restart h => h.trans (startThread _ _ _ restart)) parent (fun _ _ _ => of_queue rfl) (refl m)

theorem dropThreads (m : Machine) (p : Nat → Thread → Bool) : m.Renews (m.dropThreads p) := by
  refine of_slots fun {i t} hi _ => ?_
  simp only [Machine.dropThreads,Array.getElem?_mapIdx,Option.map_eq_some_iff,Option.filter_eq_some_iff] at hi
  obtain ⟨_,hslot,rfl,-⟩ := hi
  exact hslot

theorem deleteClone (m : Machine) (id : Nat) : m.Renews (m.deleteClone id) := by
  unfold Machine.deleteClone
  split
  · exact trans (of_queue rfl) (dropThreads _ _)
  · exact refl m

theorem evolves (h : m.Evolves m') : m.Renews m' := by
  induction h with
  | refl => exact refl m
  | alike _ h' ih => exact ih.trans (of_queue h'.queue)
  | clone _ parent ih => exact ih.trans (createClone _ parent)

end Renews

theorem queue_stopAll (m : Machine) : m.stopAll.queue = m.queue.map (Option.map Thread.stop) := by
  obtain ⟨_,_,_,heq⟩ := m.stopAll_frame
  rw [heq]

theorem not_live_stopAll (m : Machine) (t : Thread) : ¬ m.stopAll.Live t := by
  rintro ⟨⟨i,hi⟩,hlive⟩
  simp only [queue_stopAll,Array.getElem?_map,Option.map_eq_some_iff] at hi
  obtain ⟨_,-,u,-,rfl⟩ := hi
  cases hlive

namespace Renews

theorem stopAll (m : Machine) : m.Renews m.stopAll :=
  fun _ _ hi hlive => absurd ⟨⟨_,hi⟩,hlive⟩ (not_live_stopAll m _)

theorem host (m : Machine) (a : HostAction) : m.Renews (a.apply m) :=
  host_keeps (P := m.Renews) (fun ha h => h.trans (of_queue ha.queue))
    (fun _ _ restart h => h.trans (startThread _ _ _ restart)) (fun parent h => h.trans (createClone _ parent))
    (fun id h => h.trans (deleteClone _ id)) a (fun _ h => h.trans (stopAll _)) (refl m)

end Renews

variable {i : Nat} {a : Activation} {t : Thread}

theorem slot_putBack {j : Nat} (h : (m.putBack i a).queue[j]? = some (some t)) :
    m.queue[j]? = some (some t) ∨ ∃ k, a.requeue = some k ∧ t = a.toThread k := by
  unfold putBack at h
  split at h
  next k hk =>
    simp only [setSlot,Array.getElem?_setIfInBounds] at h
    split at h
    · split at h
      · cases h
        exact .inr ⟨k,hk,rfl⟩
      · cases h
    · exact .inl h
  next => exact .inl h

theorem live_putBack (h : (m.putBack i a).Live t) : m.Live t ∨ ∃ k, a.requeue = some k ∧ t = a.toThread k := by
  obtain ⟨⟨j,hj⟩,hlive⟩ := h
  exact (slot_putBack hj).imp_left fun hold => ⟨⟨j,hold⟩,hlive⟩

theorem Sound.not_live_taken {p : Program} {c : Settings} (h : m.Sound p c) {u : Thread} (hi : m.queue[i]? = some (some t))
    (hu : (m.setSlot i (some t.shell)).Live u) : ¬ (u.target = t.target ∧ u.base = t.base) := by
  rintro ⟨htarget,hbase⟩
  obtain ⟨⟨j,hj⟩,hlive⟩ := hu
  simp only [setSlot,Array.getElem?_setIfInBounds] at hj
  split at hj
  · split at hj
    · cases hj
      cases hlive
    · cases hj
  next hne => exact hne (h.unique hi hj htarget.symm hbase.symm)

end Machine

theorem Turn.Effect.renews {t : Turn} {i : Instr} {m : Machine} (h : t.Effect i m) : t.machine.Renews m := by
  cases h with
  | edits h => exact .evolves h.evolves
  | raises _ => exact .trigger _ _
  | stopsAll _ => exact .stopAll _
  | stopsOthers => exact .dropThreads _ _
  | deletes _ _ => exact .deleteClone _ _

theorem Turn.Sound.machine_of_error {p : Program} {c : Settings} {o : Option Nat} {t u : Turn} {s : Script} {pc next : Nat}
    {i : Instr} {f : Fault} (h : t.Sound p c o s pc) (hfetch : s.fetch pc = .ok (i,next))
    (hexec : Turn.exec s next i t = .error f u) : u.machine = t.machine := by
  have ho := h.outcome hfetch
  rw [hexec] at ho
  cases ho with
  | tooDeep => rfl

end SpriteMachine
