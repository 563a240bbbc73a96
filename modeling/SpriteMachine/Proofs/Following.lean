import Mathlib
import SpriteMachine.Project.Flat

/-!
Following the ids of a block map. From an id one goes on to the ids in the slots of its block and to the one that comes
next. That ends if, and only if, no id on the way leads back to itself; then a path has at most every id of the map and
one that is missing, so the budget is enough and does not count.
-/

namespace SpriteMachine.Flat

open Relation

def partId? : Option Json → Option String
  | some (.string id) => some id
  | _ => none

/-- The ids that a slot names. -/
def slotIds (j : Json) : List String :=
  match j.array? with
  | none => []
  | some parts =>
    match (parts.head?).bind (Json.natural? 8) with
    | some 1 | some 2 => (partId? parts[1]?).toList
    | some 3 => (partId? parts[1]?).toList ++ (partId? parts[2]?).toList
    | _ => []

/-- The ids in the slots of a block, then that of the next block. -/
def FlatBlock.ids (b : FlatBlock) : List String :=
  b.inputs.flatMap (fun e => slotIds e.2) ++ b.next.toList

/-- The ids to which an id leads. -/
def idsAt (blocks : BlockMap) (id : String) : List String :=
  match blocks.lookup id with
  | some (.block b) => b.ids
  | _ => []

def Leads (blocks : BlockMap) (id id' : String) : Prop :=
  id' ∈ idsAt blocks id

/-- Following an id takes a number of calls: one for the id, and those for every id to which it leads. -/
inductive Calls (blocks : BlockMap) : String → Nat → Prop
  | follow {id : String} (f : String → Nat) (h : ∀ id' ∈ idsAt blocks id, Calls blocks id' (f id')) :
      Calls blocks id (1 + ((idsAt blocks id).map f).sum)

/-- On the way from an id there is one that leads back to itself. -/
def Loops (blocks : BlockMap) (id : String) : Prop :=
  ∃ id', ReflTransGen (Leads blocks) id id' ∧ TransGen (Leads blocks) id' id'

/-! One step of the walk -/

section Step

variable {follow : String → Option (List Block)}

theorem part?_isSome (j : Option Json) : (part? follow j).isSome ↔ ∀ id ∈ partId? j, (follow id).isSome := by
  unfold part? partId?
  split
  · simp
  · simp
  · split
    next hstring _ => exact absurd rfl (hstring _)
    · simp

theorem slot?_isSome (name : String) (j : Json) :
    (slot? follow name j).isSome ↔ ∀ id ∈ slotIds j, (follow id).isSome := by
  unfold slot? slotIds
  cases j.array? with
  | none => simp
  | some parts =>
    have hfirst : (∀ id ∈ (partId? parts[1]?).toList, (follow id).isSome) ↔ (part? follow parts[1]?).isSome := by
      simp only [part?_isSome,Option.mem_toList,Option.mem_def]
    have hsecond : (∀ id ∈ (partId? parts[2]?).toList, (follow id).isSome) ↔ (part? follow parts[2]?).isSome := by
      simp only [part?_isSome,Option.mem_toList,Option.mem_def]
    dsimp only
    generalize (parts.head?).bind (Json.natural? 8) = kind
    split
    · refine Iff.trans ?_ hfirst.symm
      cases part? follow parts[1]? <;> simp
    · refine Iff.trans ?_ hfirst.symm
      cases part? follow parts[1]? <;> simp
    · refine Iff.trans ?_ List.forall_mem_append.symm
      rw [hfirst,hsecond]
      cases part? follow parts[1]? <;> cases part? follow parts[2]? <;> simp
    · simp

theorem mapM_isSome {α β : Type} (f : α → Option β) (l : List α) : (l.mapM f).isSome ↔ ∀ x ∈ l, (f x).isSome := by
  induction l with
  | nil => simp
  | cons x l ih =>
    rw [List.mapM_cons,List.forall_mem_cons,← ih]
    cases f x <;> cases l.mapM f <;> simp

theorem blockOf_isSome (b : FlatBlock) :
    (blockOf follow b).isSome ↔ ∀ id ∈ b.inputs.flatMap (fun e => slotIds e.2), (follow id).isSome := by
  have hslots : (b.inputs.mapM fun (e : String × Json) => slot? follow e.1 e.2).isSome ↔
      ∀ id ∈ b.inputs.flatMap (fun e => slotIds e.2), (follow id).isSome := by
    simp only [mapM_isSome,slot?_isSome,List.forall_mem_flatMap]
  rw [← hslots]
  unfold blockOf
  cases b.inputs.mapM fun (e : String × Json) => slot? follow e.1 e.2 <;> simp

end Step

variable {blocks : BlockMap} {id : String}

theorem chain_succ_isSome (n : Nat) : (chain blocks (n + 1) id).isSome ↔
    ∀ id', Leads blocks id id' → (chain blocks n id').isSome := by
  unfold Leads idsAt
  rw [chain]
  cases blocks.lookup id with
  | none => simp
  | some entry =>
    cases entry with
    | primitive parts => simp
    | block b =>
      have hnext : (∀ id' ∈ b.next.toList, (chain blocks n id').isSome) ↔
          (b.next.elim (some []) (chain blocks n)).isSome := by
        cases b.next <;> simp
      dsimp only
      rw [FlatBlock.ids,List.forall_mem_append,← blockOf_isSome,hnext]
      cases blockOf (chain blocks n) b <;> cases b.next <;> simp [Option.isSome_bind]

/-! Walks that end -/

variable {n : Nat} {id' : String}

theorem Calls.acc (h : Calls blocks id n) : Acc (Function.swap (Leads blocks)) id := by
  induction h with
  | follow f _ ih => exact .intro _ ih

theorem calls_of_acc (h : Acc (Function.swap (Leads blocks)) id) : ∃ n, Calls blocks id n := by
  induction h with
  | intro id _ ih =>
    choose! f hf using ih
    exact ⟨_,.follow f hf⟩

theorem acc_of_chain (h : (chain blocks n id).isSome) : Acc (Function.swap (Leads blocks)) id := by
  induction n generalizing id with
  | zero => cases h
  | succ n ih => exact .intro id fun id' hleads => ih ((chain_succ_isSome n).1 h id' hleads)

theorem not_loops_of_acc (h : Acc (Function.swap (Leads blocks)) id) : ¬ Loops blocks id := by
  rintro ⟨id',hreach,hloop⟩
  induction h generalizing id' with
  | intro id _ ih =>
    rcases hreach.cases_head with rfl | ⟨next,hleads,hrest⟩
    · obtain ⟨next,hleads,hrest⟩ := TransGen.head'_iff.1 hloop
      exact ih next hleads next .refl (.tail' hrest hleads)
    · exact ih next hleads id' hrest hloop

/-! The budget is enough. -/

theorem mem_keys_of_leads (h : Leads blocks id id') : id ∈ blocks.map Prod.fst := by
  unfold Leads idsAt at h
  cases hlookup : blocks.lookup id with
  | none => simp [hlookup] at h
  | some entry =>
    obtain ⟨l₁,l₂,hblocks,-⟩ := List.lookup_eq_some_iff.1 hlookup
    simp [hblocks]

/-- The ids of the map to which an id leads, by any number of steps. -/
noncomputable def reached (blocks : BlockMap) (id : String) : Finset String :=
  open Classical in (blocks.map Prod.fst).toFinset.filter (ReflTransGen (Leads blocks) id)

theorem mem_reached : id' ∈ reached blocks id ↔ id' ∈ blocks.map Prod.fst ∧ ReflTransGen (Leads blocks) id id' := by
  simp [reached]

theorem card_reached_le (blocks : BlockMap) (id : String) : (reached blocks id).card ≤ blocks.length := by
  have hsub : reached blocks id ⊆ (blocks.map Prod.fst).toFinset := fun x hx => List.mem_toFinset.2 (mem_reached.1 hx).1
  calc (reached blocks id).card ≤ (blocks.map Prod.fst).toFinset.card := Finset.card_le_card hsub
    _ ≤ (blocks.map Prod.fst).length := List.toFinset_card_le _
    _ = blocks.length := List.length_map _

theorem card_reached_lt (hleads : Leads blocks id id') (hloops : ¬ Loops blocks id) :
    (reached blocks id').card < (reached blocks id).card := by
  apply Finset.card_lt_card
  refine ⟨fun x hx => ?_,fun hsub => hloops ⟨id,.refl,?_⟩⟩
  · obtain ⟨hkey,hreach⟩ := mem_reached.1 hx
    exact mem_reached.2 ⟨hkey,hreach.head hleads⟩
  · obtain ⟨-,hback⟩ := mem_reached.1 (hsub (mem_reached.2 ⟨mem_keys_of_leads hleads,.refl⟩))
    exact TransGen.head' hleads hback

theorem chain_isSome_of_not_loops (h : ¬ Loops blocks id) (hn : (reached blocks id).card < n) :
    (chain blocks n id).isSome := by
  induction n generalizing id with
  | zero => omega
  | succ n ih =>
    refine (chain_succ_isSome n).2 fun id' hleads => ?_
    refine ih (fun ⟨x,hreach,hloop⟩ => h ⟨x,hreach.head hleads,hloop⟩) ?_
    have hless := card_reached_lt hleads h
    omega

theorem chain_isSome_iff (hn : blocks.length < n) : (chain blocks n id).isSome ↔ ¬ Loops blocks id :=
  ⟨fun h => not_loops_of_acc (acc_of_chain h),
    fun h => chain_isSome_of_not_loops h (Nat.lt_of_le_of_lt (card_reached_le blocks id) hn)⟩

theorem calls_iff : (∃ n, Calls blocks id n) ↔ ¬ Loops blocks id := by
  constructor
  · rintro ⟨n,h⟩
    exact not_loops_of_acc h.acc
  · intro h
    exact calls_of_acc (acc_of_chain ((chain_isSome_iff (Nat.lt_succ_self _)).2 h))

/-! A larger budget gives the same blocks. -/

section Budget

variable {f g : String → Option (List Block)} (hfg : ∀ id bs, f id = some bs → g id = some bs)

include hfg

theorem part?_mono {j : Option Json} {bs : List Block} (h : part? f j = some bs) : part? g j = some bs := by
  unfold part? at h ⊢
  split at h
  · exact hfg _ _ h
  · exact h
  · exact h

theorem slot?_mono {name : String} {j : Json} {slot : Option Slot} (h : slot? f name j = some slot) :
    slot? g name j = some slot := by
  unfold slot? at h ⊢
  cases hparts : j.array? with
  | none =>
    rw [hparts] at h
    exact h
  | some parts =>
    rw [hparts] at h
    dsimp only at h ⊢
    generalize (parts.head?).bind (Json.natural? 8) = kind at h
    split at h
    · obtain ⟨shadow,hshadow,h⟩ := Option.bind_eq_some_iff.1 h
      exact Option.bind_eq_some_iff.2 ⟨shadow,part?_mono hfg hshadow,h⟩
    · obtain ⟨blocks,hblocks,h⟩ := Option.bind_eq_some_iff.1 h
      exact Option.bind_eq_some_iff.2 ⟨blocks,part?_mono hfg hblocks,h⟩
    · obtain ⟨blocks,hblocks,h⟩ := Option.bind_eq_some_iff.1 h
      obtain ⟨shadow,hshadow,h⟩ := Option.bind_eq_some_iff.1 h
      exact Option.bind_eq_some_iff.2 ⟨blocks,part?_mono hfg hblocks,
        Option.bind_eq_some_iff.2 ⟨shadow,part?_mono hfg hshadow,h⟩⟩
    · exact h

theorem blockOf_mono {b : FlatBlock} {block : Block} (h : blockOf f b = some block) : blockOf g b = some block := by
  unfold blockOf at h ⊢
  obtain ⟨slots,hslots,h⟩ := Option.bind_eq_some_iff.1 h
  refine Option.bind_eq_some_iff.2 ⟨slots,?_,h⟩
  clear h
  generalize b.inputs = inputs at hslots
  induction inputs generalizing slots with
  | nil => exact hslots
  | cons e inputs ih =>
    rw [List.mapM_cons] at hslots ⊢
    obtain ⟨slot,hslot,hslots⟩ := Option.bind_eq_some_iff.1 hslots
    obtain ⟨rest,hrest,hslots⟩ := Option.bind_eq_some_iff.1 hslots
    exact Option.bind_eq_some_iff.2 ⟨slot,slot?_mono hfg hslot,
      Option.bind_eq_some_iff.2 ⟨rest,ih rest hrest,hslots⟩⟩

end Budget

theorem chain_succ {bs : List Block} (h : chain blocks n id = some bs) : chain blocks (n + 1) id = some bs := by
  induction n generalizing id bs with
  | zero => cases h
  | succ n ih =>
    rw [chain] at h ⊢
    split at h
    · exact h
    · exact h
    next b hlookup =>
      obtain ⟨head,hhead,h⟩ := Option.bind_eq_some_iff.1 h
      refine Option.bind_eq_some_iff.2 ⟨head,blockOf_mono (fun _ _ => ih) hhead,?_⟩
      cases hnext : b.next with
      | none =>
        rw [hnext] at h
        exact h
      | some next =>
        rw [hnext] at h
        obtain ⟨rest,hrest,h⟩ := Option.bind_eq_some_iff.1 h
        exact Option.bind_eq_some_iff.2 ⟨rest,ih hrest,h⟩

theorem chain_eq_follow (hn : blocks.length < n) : chain blocks n id = follow blocks id := by
  by_cases hloops : Loops blocks id
  · have hnone : ∀ {n : Nat}, blocks.length < n → chain blocks n id = none := fun hn =>
      Option.not_isSome_iff_eq_none.1 fun h => (chain_isSome_iff hn).1 h hloops
    rw [follow,hnone hn,hnone (Nat.lt_succ_self _)]
  · obtain ⟨bs,hbs⟩ := Option.isSome_iff_exists.1 ((chain_isSome_iff (Nat.lt_succ_self _)).2 hloops)
    have hlarger : ∀ k, chain blocks (blocks.length + 1 + k) id = some bs := by
      intro k
      induction k with
      | zero => exact hbs
      | succ k ih => exact chain_succ ih
    obtain ⟨k,rfl⟩ := Nat.exists_eq_add_of_lt hn
    rw [follow,hbs,← hlarger k]
    congr 1
    omega

/-! Scripts and targets -/

/-- The ids from which the script under a block is followed. -/
def hatIds (blocks : BlockMap) (id : String) (b : FlatBlock) : List String :=
  if (hat? blocks b).isSome then b.next.toList else [id]

/-- The ids from which the scripts of a map are followed. -/
def startIds (blocks : BlockMap) : List String :=
  blocks.flatMap fun e =>
    match e.2 with
    | .block b => if b.topLevel then hatIds blocks e.1 b else []
    | .primitive _ => []

theorem stack?_isSome (id : String) (b : FlatBlock) :
    (stack? blocks id b).isSome ↔ ∀ id' ∈ hatIds blocks id b, (follow blocks id').isSome := by
  unfold stack? hatIds
  cases hat? blocks b with
  | none =>
    refine Iff.trans ?_ List.forall_mem_singleton.symm
    cases follow blocks id <;> simp
  | some hat =>
    cases b.next with
    | none => simp
    | some next =>
      refine Iff.trans ?_ List.forall_mem_singleton.symm
      cases hfollow : follow blocks next <;> simp [hfollow]

theorem scripts?_isSome : (scripts? blocks).isSome ↔ ∀ id ∈ startIds blocks, ¬ Loops blocks id := by
  have hfollow : ∀ id, (follow blocks id).isSome ↔ ¬ Loops blocks id := fun _ => chain_isSome_iff (Nat.lt_succ_self _)
  simp only [← hfollow]
  unfold scripts? startIds
  rw [mapM_isSome,List.forall_mem_filterMap,List.forall_mem_flatMap]
  refine forall₂_congr fun e _ => ?_
  obtain ⟨id,entry⟩ := e
  cases entry with
  | primitive parts => simp
  | block b =>
    dsimp only
    split
    · simp [stack?_isSome]
    · simp

/-- The targets of a document that are read: the sprites, and the first stage by layer. -/
def used (targets : List FlatTarget) : List FlatTarget :=
  let sorted := targets.mergeSort fun a b => a.layer ≤ b.layer
  sorted.filter (fun t => !t.isStage) ++ (sorted.find? FlatTarget.isStage).toList

theorem FlatTarget.declare_eq (t : FlatTarget) :
    t.declare = .error .cyclic ∧ (scripts? t.blocks).isSome = false ∨ (∃ d, t.declare = .ok d) ∧ (scripts? t.blocks).isSome := by
  unfold declare
  cases scripts? t.blocks with
  | none => exact .inl ⟨rfl,rfl⟩
  | some scripts => exact .inr ⟨⟨_,rfl⟩,rfl⟩

theorem mapM_declare (l : List FlatTarget) :
    l.mapM FlatTarget.declare = .error .cyclic ∧ ¬ (∀ t ∈ l, (scripts? t.blocks).isSome) ∨
      (∃ ds, l.mapM FlatTarget.declare = .ok ds) ∧ ∀ t ∈ l, (scripts? t.blocks).isSome := by
  induction l with
  | nil => exact .inr ⟨⟨[],rfl⟩,by simp⟩
  | cons t l ih =>
    rw [List.mapM_cons,List.forall_mem_cons]
    rcases t.declare_eq with ⟨herror,hnone⟩ | ⟨⟨d,hd⟩,hsome⟩
    · rw [herror]
      exact .inl ⟨rfl,by simp [hnone]⟩
    · rw [hd]
      rcases ih with ⟨herror,hnone⟩ | ⟨⟨ds,hds⟩,hall⟩
      · rw [herror]
        exact .inl ⟨rfl,fun h => hnone h.2⟩
      · rw [hds]
        exact .inr ⟨⟨d :: ds,rfl⟩,hsome,hall⟩

theorem ofTargets_cases (targets : List FlatTarget) :
    ofTargets targets = .error .cyclic ∧ ¬ (∀ t ∈ used targets, (scripts? t.blocks).isSome) ∨
      (∃ p, ofTargets targets = .ok p) ∧ ∀ t ∈ used targets, (scripts? t.blocks).isSome := by
  unfold ofTargets used
  dsimp only
  generalize targets.mergeSort (fun a b => a.layer ≤ b.layer) = sorted
  rw [List.forall_mem_append]
  rcases mapM_declare (sorted.filter fun t => !t.isStage) with ⟨herror,hnone⟩ | ⟨⟨ds,hds⟩,hall⟩
  · rw [herror]
    exact .inl ⟨rfl,fun h => hnone h.1⟩
  · rw [hds]
    cases sorted.find? FlatTarget.isStage with
    | none => exact .inr ⟨⟨_,rfl⟩,hall,by simp⟩
    | some stage =>
      simp only [Option.toList_some,List.forall_mem_singleton]
      rcases stage.declare_eq with ⟨herror,hnone⟩ | ⟨⟨d,hd⟩,hsome⟩
      · refine .inl ⟨?_,by simp [hnone]⟩
        simp only [bind,Except.bind,herror]
      · refine .inr ⟨?_,hall,hsome⟩
        simp only [bind,Except.bind,hd]
        exact ⟨_,rfl⟩

/-- A document is read if, and only if, it takes only so many calls to follow the ids from which its scripts are
followed, and that is if none of them comes upon an id that leads back to itself; otherwise the document is refused. How
many ids a path may have does not count, as long as it may have every id of the map and one more. -/
theorem ofTargets_reads (targets : List FlatTarget) :
    ((∃ p, ofTargets targets = .ok p) ↔ ∀ t ∈ used targets, ∀ id ∈ startIds t.blocks, ∃ n, Calls t.blocks id n) ∧
    (ofTargets targets = .error .cyclic ↔ ∃ t ∈ used targets, ∃ id ∈ startIds t.blocks, Loops t.blocks id) ∧
    ∀ (blocks : BlockMap) (id : String) (n : Nat), blocks.length < n → chain blocks n id = follow blocks id := by
  have hall : (∀ t ∈ used targets, (scripts? t.blocks).isSome) ↔
      ∀ t ∈ used targets, ∀ id ∈ startIds t.blocks, ¬ Loops t.blocks id := by
    simp only [scripts?_isSome]
  refine ⟨?_,?_,fun blocks id n hn => chain_eq_follow hn⟩
  · simp only [calls_iff,← hall]
    rcases ofTargets_cases targets with ⟨herror,hnone⟩ | ⟨hok,hsome⟩
    · simp only [herror,reduceCtorEq,exists_false,false_iff]
      exact hnone
    · exact iff_of_true hok hsome
  · have hloop : (∃ t ∈ used targets, ∃ id ∈ startIds t.blocks, Loops t.blocks id) ↔
        ¬ ∀ t ∈ used targets, (scripts? t.blocks).isSome := by
      rw [hall]
      push Not
      rfl
    rw [hloop]
    rcases ofTargets_cases targets with ⟨herror,hnone⟩ | ⟨⟨p,hp⟩,hsome⟩
    · exact iff_of_true herror hnone
    · simp only [hp,reduceCtorEq,false_iff,not_not]
      exact hsome

/-- A condition whose body is the condition itself. -/
def loopingTarget : FlatTarget where
  declaration := { name := "Stage", isStage := true }
  blocks := [("a",.block {
    opcode := "control_if"
    next := none
    inputs := [("SUBSTACK",.array [.number (.integer 2),.string "a"])]
    fields := []
    topLevel := true
    mutation := none })]
  layer := 0
  tempo := none

theorem loops_loopingTarget : Loops loopingTarget.blocks "a" := by
  have hleads : Leads loopingTarget.blocks "a" "a" := by
    have hids : idsAt loopingTarget.blocks "a" = ["a"] := by rfl
    rw [Leads,hids]
    exact List.mem_singleton_self _
  exact ⟨"a",.refl,.single hleads⟩

/-- To follow that condition takes no number of calls. -/
theorem calls_without_end : "a" ∈ startIds loopingTarget.blocks ∧ (¬ ∃ n, Calls loopingTarget.blocks "a" n) ∧
    ofTargets [loopingTarget] = .error .cyclic := by
  have hstart : "a" ∈ startIds loopingTarget.blocks := by decide +kernel
  refine ⟨hstart,?_,?_⟩
  · rw [calls_iff,not_not]
    exact loops_loopingTarget
  · rcases ofTargets_cases [loopingTarget] with ⟨herror,-⟩ | ⟨-,hall⟩
    · exact herror
    · have hused : loopingTarget ∈ used [loopingTarget] := by simp [used,FlatTarget.isStage,loopingTarget]
      exact absurd loops_loopingTarget (scripts?_isSome.1 (hall _ hused) "a" hstart)

end SpriteMachine.Flat
