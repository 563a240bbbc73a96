import SpriteMachine.Proofs.Shapes

/-!
The ids of an arena in the course of its history. Each value has the id it was given for good: a new one gets a greater id
than all before it, and an id that was taken back stands for nothing from then on.
-/

namespace SpriteMachine.Arena

variable {α : Type}

inductive Move (α : Type) where
  | insert (v : α)
  | remove (id : Nat)

/-- An arena, the values that were put into it with the ids they were given, and the ids that were taken back after that. -/
structure History (α : Type) where
  arena : Arena α := .empty
  given : List (Nat × α) := []
  taken : List Nat := []

namespace History

variable {h : History α}

def next (h : History α) : Move α → History α
  | .insert v => { h with arena := h.arena.insert v, given := h.given ++ [(h.arena.nextId,v)] }
  | .remove id => { h with arena := h.arena.remove id, taken := if id ∈ h.given.map Prod.fst then id :: h.taken else h.taken }

/-- What is in the slot that a value was given. -/
def entry (h : History α) (p : Nat × α) : Option α :=
  if p.1 ∈ h.taken then none else some p.2

structure Sound (h : History α) : Prop where
  ids : h.given.map Prod.fst = List.range h.given.length
  slots : h.arena.slots.toList = h.given.map h.entry
  taken : ∀ id ∈ h.taken, id < h.given.length

theorem Sound.size (hs : h.Sound) : h.arena.slots.size = h.given.length := by
  rw [← Array.length_toList,hs.slots,List.length_map]

theorem Sound.given (hs : h.Sound) {i id : Nat} {v : α} : h.given[i]? = some (id,v) → i = id := by
  intro hi
  have hid : (h.given.map Prod.fst)[i]? = (List.range h.given.length)[i]? := congrArg (·[i]?) hs.ids
  rw [List.getElem?_map,hi,List.getElem?_range (List.getElem?_eq_some_iff.1 hi).1] at hid
  exact (Option.some.inj hid).symm

theorem Sound.next (hs : h.Sound) (move : Move α) : (h.next move).Sound := by
  cases move with
  | insert v =>
    have hid : h.arena.nextId = h.given.length := hs.size
    refine ⟨by simp [History.next,hs.ids,List.range_succ,hid],?_,fun id hmem => ?_⟩
    · have hfresh : h.given.length ∉ h.taken := fun hmem => Nat.lt_irrefl _ (hs.taken _ hmem)
      simp only [History.next,Arena.insert,Array.toList_push,hs.slots,List.map_append,List.map_singleton,entry,hid,
        if_neg hfresh]
      rfl
    · have hlt := hs.taken id hmem
      simp only [History.next,List.length_append,List.length_singleton]
      omega
  | remove id =>
    have hmem : id ∈ h.given.map Prod.fst ↔ id < h.given.length := by rw [hs.ids,List.mem_range]
    refine ⟨hs.ids,List.ext_getElem? fun i => ?_,fun id' hid' => ?_⟩
    · simp only [History.next,Arena.remove,Array.toList_setIfInBounds,hs.slots,List.getElem?_set,List.length_map,
        List.getElem?_map,hmem]
      cases hi : h.given[i]? with
      | none =>
        have hle := List.getElem?_eq_none_iff.1 hi
        simp only [Option.map_none,ite_eq_right_iff,reduceCtorEq,imp_false]
        omega
      | some p =>
        obtain rfl := hs.given hi
        have hlt := (List.getElem?_eq_some_iff.1 hi).1
        by_cases heq : id = p.1
        · simp [entry,heq,hlt]
        · by_cases hlt' : id < h.given.length <;> simp [entry,heq,hlt',Ne.symm heq]
    · simp only [History.next,hmem] at hid'
      split at hid'
      next hlt =>
        rcases List.mem_cons.1 hid' with rfl | hid'
        · exact hlt
        · exact hs.taken _ hid'
      · exact hs.taken _ hid'

theorem sound_foldl (moves : List (Move α)) (hs : h.Sound) : (moves.foldl History.next h).Sound := by
  induction moves generalizing h with
  | nil => exact hs
  | cons move moves ih => exact ih (hs.next move)

theorem filterMap_zipIdx (taken : List Nat) (given : List (Nat × α)) {k : Nat}
    (hids : given.map Prod.fst = List.range' k given.length) :
    ((given.map fun p => if p.1 ∈ taken then none else some p.2).zipIdx k).filterMap (fun (v,id) => v.map (id,·)) =
      given.filter (·.1 ∉ taken) := by
  induction given generalizing k with
  | nil => rfl
  | cons p given ih =>
    obtain ⟨hp,hrest⟩ : p.1 = k ∧ given.map Prod.fst = List.range' (k + 1) given.length := by
      simpa [List.range'_succ] using hids
    rw [List.map_cons,List.zipIdx_cons,List.filterMap_cons,ih hrest]
    by_cases htaken : p.1 ∈ taken
    · simp [htaken]
    · simp [htaken,← hp]

theorem Sound.toList (hs : h.Sound) : h.arena.toList = h.given.filter (·.1 ∉ h.taken) := by
  rw [Arena.toList,hs.slots]
  exact filterMap_zipIdx h.taken h.given (by rw [hs.ids,List.range_eq_range'])

end History

/-- Whatever is put in and taken out: the ids that are given grow, an id stands for the value it was given to until it is
taken back and for nothing from then on, and the entries of the arena are those in the order of their ids. -/
theorem ids_of_history (moves : List (Move α)) :
    let h := moves.foldl History.next {}
    (h.given.map Prod.fst).Pairwise (· < ·) ∧
    (∀ id v, (id,v) ∈ h.given → h.arena.get? id = if id ∈ h.taken then none else some v) ∧
    (∀ id, h.arena.contains id = true ↔ id ∈ h.given.map Prod.fst ∧ id ∉ h.taken) ∧
    h.arena.toList = h.given.filter (·.1 ∉ h.taken) ∧ (h.arena.toList.map Prod.fst).Pairwise (· < ·) ∧
    h.arena.size = (h.given.filter (·.1 ∉ h.taken)).length := by
  intro h
  have hs : h.Sound := History.sound_foldl moves ⟨rfl,rfl,nofun⟩
  have hids : (h.given.map Prod.fst).Pairwise (· < ·) := hs.ids ▸ List.pairwise_lt_range
  have hget : ∀ i, h.arena.get? i = (h.given[i]?).bind h.entry := fun i => by
    rw [Arena.get?,← Array.getElem?_toList,hs.slots,List.getElem?_map]
    cases h.given[i]? <;> rfl
  refine ⟨hids,fun id v hmem => ?_,fun id => ?_,hs.toList,?_,congrArg List.length hs.toList⟩
  · obtain ⟨i,hi⟩ := List.mem_iff_getElem?.1 hmem
    obtain rfl := hs.given hi
    rw [hget,hi]
    rfl
  · rw [Arena.contains,hget,hs.ids,List.mem_range]
    cases hi : h.given[id]? with
    | none =>
      have hle := List.getElem?_eq_none_iff.1 hi
      simp only [Option.bind_none,Option.isSome_none,Bool.false_eq_true,false_iff,not_and]
      omega
    | some p =>
      obtain rfl := hs.given hi
      have hlt := (List.getElem?_eq_some_iff.1 hi).1
      by_cases htaken : p.1 ∈ h.taken <;> simp [History.entry,hlt,htaken]
  · rw [hs.toList]
    exact hids.sublist (List.filter_sublist.map Prod.fst)

end SpriteMachine.Arena
