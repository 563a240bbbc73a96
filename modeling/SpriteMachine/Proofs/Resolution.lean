import SpriteMachine.Proofs.Discipline

/-!
Resolving references: the handle that a reference leads to is one of the tables, which only grow.
-/

namespace SpriteMachine

namespace Handle

theorem toNat_make {i : Nat} (h : i < 2 ^ 31) (stage : Bool) :
    (make i stage).word.toNat = if stage then 2 ^ 31 + i else i := by
  have hi : (UInt32.ofNat i).toNat = i := UInt32.toNat_ofNat_of_lt' (Nat.lt_trans h (by decide))
  cases stage with
  | false => simp [make,hi]
  | true =>
    have hor : i ||| 2 ^ 31 = 2 ^ 31 + i := by
      have hor := Nat.two_pow_add_eq_or_of_lt h 1
      rw [Nat.mul_one] at hor
      rw [Nat.or_comm,hor]
    simpa [make,stageBit,hi] using hor

theorem and_two_pow_of_testBit {x n : Nat} {b : Bool} (h : x.testBit n = b) :
    x &&& 2 ^ n = if b then 2 ^ n else 0 := by
  apply Nat.eq_of_testBit_eq
  intro j
  rw [Nat.testBit_and,Nat.testBit_two_pow]
  by_cases hj : n = j
  · subst hj
    cases b <;> simp [h]
  · cases b <;> simp [hj]

theorem isStage_make {i : Nat} (h : i < 2 ^ 31) (stage : Bool) : (make i stage).isStage = stage := by
  have hbit : (make i stage).word.toNat.testBit 31 = stage := by
    rw [toNat_make h]
    cases stage with
    | false => exact Nat.testBit_lt_two_pow h
    | true => rw [if_pos rfl,Nat.testBit_two_pow_add_eq,Nat.testBit_lt_two_pow h]; rfl
  have hword : (make i stage).word &&& stageBit = if stage then stageBit else 0 := by
    apply UInt32.toNat_inj.1
    rw [UInt32.toNat_and]
    exact (and_two_pow_of_testBit hbit).trans (by cases stage <;> rfl)
  rw [isStage,hword]
  cases stage <;> rfl

theorem index_make {i : Nat} (h : i < 2 ^ 31) (stage : Bool) : (make i stage).index = i := by
  have hand : (make i stage).word.toNat &&& (2 ^ 31 - 1) = i := by
    rw [toNat_make h,Nat.and_two_pow_sub_one_eq_mod]
    cases stage <;> simp <;> omega
  rw [index,UInt32.toNat_and]
  exact hand

end Handle

namespace Table

variable {α : Type} {t : Table α} {id : String} {i : Nat}

theorem indexOf?_lt (h : t.indexOf? id = some i) : i < t.size :=
  (Array.findIdx?_eq_some_iff_getElem.1 h).1

theorem findIdx?_lt {p : α → Bool} (h : t.findIdx? p = some i) : i < t.size :=
  (Array.findIdx?_eq_some_iff_getElem.1 h).1

theorem resolve?_lt [Named α] {r : Reference} (h : t.resolve? r = some i) : i < t.size := by
  unfold resolve? at h
  cases hid : t.indexOf? r.id with
  | none => exact findIdx?_lt (by simpa [hid] using h)
  | some j =>
    obtain rfl : j = i := by simpa [hid] using h
    exact indexOf?_lt hid

theorem size_le_insert (t : Table α) (id : String) (v : α) : t.size ≤ (t.insert id v).size := by
  unfold insert
  split <;> simp [size]

theorem indexFor_lt_insert (t : Table α) (id : String) (v : α) : t.indexFor id < (t.insert id v).size := by
  unfold insert indexFor
  cases h : t.indexOf? id with
  | none => simp [size]
  | some i => simpa [size] using indexOf?_lt h

end Table

namespace Symbols

/-- How many variables or lists the stage or the target has. -/
def count (s : Symbols) (kind : DataKind) (stage : Bool) : Nat :=
  (if stage then s.stage else s.own).count kind

/-- A handle of the tables. The scripts of the stage only use the stage's. -/
def Has (s : Symbols) (kind : DataKind) (h : Handle) : Prop :=
  ∃ i stage, h = .make i stage ∧ i < s.count kind stage ∧ (s.isStage = true → stage = true)

structure Grows (s s' : Symbols) : Prop where
  isStage : s'.isStage = s.isStage
  count : ∀ kind stage, s.count kind stage ≤ s'.count kind stage

theorem Grows.refl (s : Symbols) : s.Grows s := ⟨rfl,fun _ _ => Nat.le_refl _⟩

theorem Grows.trans {s s' s'' : Symbols} (h : s.Grows s') (h' : s'.Grows s'') : s.Grows s'' :=
  ⟨h'.isStage.trans h.isStage,fun kind stage => Nat.le_trans (h.count kind stage) (h'.count kind stage)⟩

theorem Grows.warn (s : Symbols) (message : String) : s.Grows (s.warn message) := ⟨rfl,fun _ _ => Nat.le_refl _⟩

theorem Has.mono {s s' : Symbols} {kind : DataKind} {h : Handle} (hh : s.Has kind h) (hg : s.Grows s') :
    s'.Has kind h := by
  obtain ⟨i,stage,rfl,hlt,hstage⟩ := hh
  exact ⟨i,stage,rfl,Nat.lt_of_lt_of_le hlt (hg.count kind stage),fun h => hstage (hg.isStage ▸ h)⟩

theorem lookup?_eq_some {α : Type} [Named α] {isStage : Bool} {own stage : Table α} {r : Reference} {h : Handle}
    (hl : lookup? isStage own stage r = some h) :
    ∃ i onStage, h = .make i onStage ∧ i < (if onStage then stage else own).size ∧
      (isStage = true → onStage = true) := by
  unfold lookup? at hl
  split at hl
  next i hi =>
    cases hl
    exact ⟨i,true,rfl,Table.indexOf?_lt hi,fun _ => rfl⟩
  next =>
    split at hl
    next i hi =>
      cases hl
      cases isStage with
      | true => cases hi
      | false => exact ⟨i,false,rfl,Table.resolve?_lt hi,fun h => nomatch h⟩
    next =>
      obtain ⟨i,hi,rfl⟩ := Option.map_eq_some_iff.1 hl
      exact ⟨i,true,rfl,Table.resolve?_lt hi,fun _ => rfl⟩

theorem grows_addVariable (s : Symbols) (r : Reference) (v : Variable) : s.Grows (s.addVariable r v).2 := by
  unfold addVariable
  split
  · refine ⟨rfl,fun kind stage => ?_⟩
    cases kind <;> cases stage <;> simp [count,DataTables.count,Table.size_le_insert]
  · refine ⟨rfl,fun kind stage => ?_⟩
    cases kind <;> cases stage <;> simp [count,DataTables.count,Table.size_le_insert]

theorem grows_addList (s : Symbols) (r : Reference) (l : ListVariable) : s.Grows (s.addList r l).2 := by
  unfold addList
  split
  · refine ⟨rfl,fun kind stage => ?_⟩
    cases kind <;> cases stage <;> simp [count,DataTables.count,Table.size_le_insert]
  · refine ⟨rfl,fun kind stage => ?_⟩
    cases kind <;> cases stage <;> simp [count,DataTables.count,Table.size_le_insert]

theorem has_addVariable (s : Symbols) (r : Reference) (v : Variable) :
    (s.addVariable r v).2.Has .variable (s.addVariable r v).1 := by
  unfold addVariable
  split
  · exact ⟨_,true,rfl,Table.indexFor_lt_insert _ _ _,fun _ => rfl⟩
  next h => exact ⟨_,false,rfl,Table.indexFor_lt_insert _ _ _,fun hs => absurd hs h⟩

theorem has_addList (s : Symbols) (r : Reference) (l : ListVariable) :
    (s.addList r l).2.Has .list (s.addList r l).1 := by
  unfold addList
  split
  · exact ⟨_,true,rfl,Table.indexFor_lt_insert _ _ _,fun _ => rfl⟩
  next h => exact ⟨_,false,rfl,Table.indexFor_lt_insert _ _ _,fun hs => absurd hs h⟩

theorem variableHandle_spec (s : Symbols) (r : Reference) :
    s.Grows (s.variableHandle r).2 ∧ (s.variableHandle r).2.Has .variable (s.variableHandle r).1 := by
  unfold variableHandle
  split
  next h hl =>
    obtain ⟨i,stage,rfl,hlt,hstage⟩ := lookup?_eq_some hl
    exact ⟨.refl s,i,stage,rfl,by cases stage <;> exact hlt,hstage⟩
  · exact ⟨(Grows.warn s _).trans (grows_addVariable _ r _),has_addVariable _ r _⟩

theorem listHandle_spec (s : Symbols) (r : Reference) :
    s.Grows (s.listHandle r).2 ∧ (s.listHandle r).2.Has .list (s.listHandle r).1 := by
  unfold listHandle
  split
  next h hl =>
    obtain ⟨i,stage,rfl,hlt,hstage⟩ := lookup?_eq_some hl
    exact ⟨.refl s,i,stage,rfl,by cases stage <;> exact hlt,hstage⟩
  · exact ⟨(Grows.warn s _).trans (grows_addList _ r _),has_addList _ r _⟩

end Symbols

end SpriteMachine
