import Mathlib.Data.List.Nodup
import SpriteMachine.Proofs.Names

/-!
References that are resolved one after the other. A reference leads to the same handle whenever it is resolved, and a
variable or list that is not known is declared once. In which order variables and lists were declared is of no account.
-/

namespace SpriteMachine

/-! Ids and names -/

namespace Reference

def index? (r : Reference) (keys : List Reference) : Option Nat :=
  keys.findIdx? (fun k => k.id == r.id) <|> keys.findIdx? (fun k => k.name == r.name)

/-- Where a reference leads among the keys of a target and those of the stage, and whether that is on the stage. -/
def place? (r : Reference) (isStage : Bool) (own stage : List Reference) : Option (Nat × Bool) :=
  match stage.findIdx? (fun k => k.id == r.id) with
  | some i => some (i,true)
  | none =>
    match (if isStage then none else r.index? own) with
    | some i => some (i,false)
    | none => (r.index? stage).map (·,true)

variable {r k : Reference} {keys own stage : List Reference} {i : Nat}

theorem index?_of_id (h : keys.findIdx? (fun k => k.id == r.id) = some i) : r.index? keys = some i := by
  rw [index?,h]
  rfl

theorem index?_of_name (h : keys.findIdx? (fun k => k.id == r.id) = none) :
    r.index? keys = keys.findIdx? fun k => k.name == r.name := by
  rw [index?,h]
  rfl

theorem index?_eq_none : r.index? keys = none ↔ ∀ k ∈ keys, k.id ≠ r.id ∧ k.name ≠ r.name := by
  simp [index?,forall_and]

theorem id_ne_of_index? (h : r.index? keys = none) : ∀ k ∈ keys, k.id ≠ r.id :=
  fun k hk => (index?_eq_none.1 h k hk).1

theorem getElem?_index? (h : r.index? keys = some i) : ∃ k, keys[i]? = some k ∧ (k.id = r.id ∨ k.name = r.name) := by
  cases hid : keys.findIdx? fun k => k.id == r.id with
  | some j =>
    rw [index?_of_id hid] at h
    cases h
    obtain ⟨hi,hk,-⟩ := List.findIdx?_eq_some_iff_getElem.1 hid
    exact ⟨keys[i],List.getElem?_eq_getElem hi,.inl (eq_of_beq hk)⟩
  | none =>
    rw [index?_of_name hid] at h
    obtain ⟨hi,hk,-⟩ := List.findIdx?_eq_some_iff_getElem.1 h
    exact ⟨keys[i],List.getElem?_eq_getElem hi,.inr (eq_of_beq hk)⟩

theorem index?_append_of_some (h : r.index? keys = some i) (hk : k.index? keys = none)
    (hpaired : k.id = r.id → k.name = r.name) : r.index? (keys ++ [k]) = some i := by
  cases hid : keys.findIdx? fun k => k.id == r.id with
  | some j =>
    rw [index?_of_id hid] at h
    cases h
    exact index?_of_id (by rw [List.findIdx?_append,hid]; rfl)
  | none =>
    rw [index?_of_name hid] at h
    obtain ⟨hi,hname,-⟩ := List.findIdx?_eq_some_iff_getElem.1 h
    have hne : k.id ≠ r.id := fun heq =>
      (index?_eq_none.1 hk _ (List.getElem_mem hi)).2 ((eq_of_beq hname).trans (hpaired heq).symm)
    rw [index?_of_name (by simp [List.findIdx?_append,hid,hne]),List.findIdx?_append,h]
    rfl

theorem index?_append_of_none (h : r.index? keys = none) :
    r.index? (keys ++ [k]) = if k.id = r.id ∨ k.name = r.name then some keys.length else none := by
  have hout := index?_eq_none.1 h
  have hid : keys.findIdx? (fun k => k.id == r.id) = none := by simpa using fun k hk => (hout k hk).1
  have hname : keys.findIdx? (fun k => k.name == r.name) = none := by simpa using fun k hk => (hout k hk).2
  by_cases hi : k.id = r.id <;> by_cases hn : k.name = r.name <;> simp [index?,List.findIdx?_append,hid,hname,hi,hn]

theorem place?_stage (r : Reference) (own stage : List Reference) :
    r.place? true own stage = (r.index? stage).map (·,true) := by
  unfold place?
  split
  next i hi => rw [index?_of_id hi]; rfl
  · rfl

theorem place?_eq_none {isStage : Bool} : r.place? isStage own stage = none ↔
    r.index? stage = none ∧ (isStage = false → r.index? own = none) := by
  unfold place?
  split
  next i hi => simp [index?_of_id hi]
  · cases isStage with
    | true => simp
    | false => cases r.index? own <;> simp

theorem getElem?_place? {isStage onStage : Bool} (h : r.place? isStage own stage = some (i,onStage)) :
    (isStage = true → onStage = true) ∧
      ∃ k, (if onStage then stage else own)[i]? = some k ∧ (k.id = r.id ∨ k.name = r.name) := by
  unfold place? at h
  split at h
  next j hj =>
    cases h
    exact ⟨fun _ => rfl,getElem?_index? (index?_of_id hj)⟩
  next =>
    split at h
    next j hj =>
      cases h
      cases isStage with
      | true => cases hj
      | false => exact ⟨nofun,getElem?_index? hj⟩
    next =>
      obtain ⟨j,hj,heq⟩ := Option.map_eq_some_iff.1 h
      cases heq
      exact ⟨fun _ => rfl,getElem?_index? hj⟩

end Reference

/-- The ids of the entries with their names, in the order of the table. -/
def Table.keys {α : Type} [Named α] (t : Table α) : List Reference :=
  t.entries.toList.map fun e => ⟨e.1,Named.name e.2⟩

namespace Table

variable {α : Type} [Named α]

theorem length_keys (t : Table α) : t.keys.length = t.size := by
  simp [keys,size]

theorem indexOf?_eq_keys (t : Table α) (id : String) : t.indexOf? id = t.keys.findIdx? fun k => k.id == id := by
  obtain ⟨⟨entries⟩⟩ := t
  simp [indexOf?,keys,List.findIdx?_map,Function.comp_def]

theorem resolve?_eq_keys (t : Table α) (r : Reference) : t.resolve? r = r.index? t.keys := by
  rw [resolve?,indexOf?_eq_keys,Reference.index?]
  obtain ⟨⟨entries⟩⟩ := t
  simp [findIdx?,keys,List.findIdx?_map,Function.comp_def]

theorem keys_insert {t : Table α} {r : Reference} (h : ∀ k ∈ t.keys, k.id ≠ r.id) {v : α} (hv : Named.name v = r.name) :
    (t.insert r.id v).keys = t.keys ++ [r] ∧ t.indexFor r.id = t.keys.length := by
  have hid : t.indexOf? r.id = none := by
    rw [indexOf?_eq_keys]
    simpa using h
  constructor
  · simp [insert,keys,hid,hv]
  · rw [indexFor,hid,length_keys]
    rfl

end Table

/-! One reference after the other -/

/-- A variable or a list that a script refers to. -/
structure Mention where
  kind : DataKind
  ref : Reference
  deriving DecidableEq, Repr

/-- The warning for what is not known. -/
def Mention.message : Mention → String
  | ⟨.variable,r⟩ => s!"unknown variable {r.name}"
  | ⟨.list,r⟩ => s!"unknown list {r.name}"

theorem Mention.message_inj {m m' : Mention} : m.message = m'.message ↔ m.kind = m'.kind ∧ m.ref.name = m'.ref.name := by
  obtain ⟨kind,r⟩ := m
  obtain ⟨kind',r'⟩ := m'
  cases kind <;> cases kind' <;> simp [message,toString,← String.toList_inj]

theorem Warnings.count_add (w : Warnings) (message message' : String) :
    (w.add message).count message' = w.count message' + if message' = message then 1 else 0 := by
  obtain ⟨counts⟩ := w
  unfold add count
  induction counts with
  | nil =>
    by_cases h : message = message'
    · simp [bump,h]
    · simp [bump,h,Ne.symm h]
  | cons e es ih =>
    obtain ⟨first,n⟩ := e
    by_cases he : first = message
    · subst he
      by_cases h : first = message'
      · simp [bump,h]
      · simp [bump,h,Ne.symm h]
    · by_cases h : first = message'
      · subst h
        simp [bump,he]
      · simpa [bump,he,h] using ih

namespace Symbols

/-- The keys of the variables or lists of the stage or of the target. -/
def keys (s : Symbols) (kind : DataKind) (onStage : Bool) : List Reference :=
  match kind with
  | .variable => (if onStage then s.stage else s.own).vars.keys
  | .list => (if onStage then s.stage else s.own).lists.keys

/-- Where something leads, if it is known. -/
def known? (s : Symbols) : Mention → Option Handle
  | ⟨.variable,r⟩ => lookup? s.isStage s.own.vars s.stage.vars r
  | ⟨.list,r⟩ => lookup? s.isStage s.own.lists s.stage.lists r

def handle (s : Symbols) : Mention → Handle × Symbols
  | ⟨.variable,r⟩ => s.variableHandle r
  | ⟨.list,r⟩ => s.listHandle r

/-- What is known after some references were resolved. -/
def after (s : Symbols) (ms : List Mention) : Symbols :=
  ms.foldl (fun s m => (s.handle m).2) s

def place? (s : Symbols) (m : Mention) : Option (Nat × Bool) :=
  m.ref.place? s.isStage (s.keys m.kind false) (s.keys m.kind true)

theorem length_keys (s : Symbols) (kind : DataKind) (onStage : Bool) :
    (s.keys kind onStage).length = s.count kind onStage := by
  cases kind <;> exact Table.length_keys _

theorem lookup?_eq_place? {α : Type} [Named α] (isStage : Bool) (own stage : Table α) (r : Reference) :
    lookup? isStage own stage r = (r.place? isStage own.keys stage.keys).map fun x => .make x.1 x.2 := by
  rw [lookup?,Reference.place?,Table.indexOf?_eq_keys,Table.resolve?_eq_keys,Table.resolve?_eq_keys]
  cases stage.keys.findIdx? fun k => k.id == r.id with
  | some i => rfl
  | none =>
    cases (if isStage then none else r.index? own.keys) with
    | some i => rfl
    | none => cases r.index? stage.keys <;> rfl

theorem known?_eq (s : Symbols) (m : Mention) : s.known? m = (s.place? m).map fun x => .make x.1 x.2 := by
  obtain ⟨kind,r⟩ := m
  cases kind <;> exact lookup?_eq_place? _ _ _ _

/-- Something is declared that was not known: on the stage by its scripts, else on the target. -/
structure Adds (s : Symbols) (m : Mention) (s' : Symbols) : Prop where
  isStage : s'.isStage = s.isStage
  keys : ∀ kind onStage, s'.keys kind onStage =
    s.keys kind onStage ++ if kind = m.kind ∧ onStage = s.isStage then [m.ref] else []
  warnings : s'.warnings = s.warnings.add m.message

theorem adds_addVariable {s : Symbols} {r : Reference} (h : s.place? ⟨.variable,r⟩ = none) (v : Value) :
    s.Adds ⟨.variable,r⟩ ((s.warn (Mention.message ⟨.variable,r⟩)).addVariable r ⟨r.name,v⟩).2 ∧
      ((s.warn (Mention.message ⟨.variable,r⟩)).addVariable r ⟨r.name,v⟩).1 =
        .make (s.keys .variable s.isStage).length s.isStage := by
  obtain ⟨hstage,hown⟩ := Reference.place?_eq_none.1 h
  obtain ⟨isStage,own,stage,warnings⟩ := s
  cases isStage with
  | true =>
    obtain ⟨hkeys,hindex⟩ := Table.keys_insert (t := stage.vars) (Reference.id_ne_of_index? hstage) (v := ⟨r.name,v⟩) rfl
    refine ⟨⟨rfl,fun kind onStage => ?_,rfl⟩,congrArg (Handle.make · true) hindex⟩
    cases kind <;> cases onStage <;> simp [keys,addVariable,warn,hkeys]
  | false =>
    obtain ⟨hkeys,hindex⟩ := Table.keys_insert (t := own.vars) (Reference.id_ne_of_index? (hown rfl)) (v := ⟨r.name,v⟩) rfl
    refine ⟨⟨rfl,fun kind onStage => ?_,rfl⟩,congrArg (Handle.make · false) hindex⟩
    cases kind <;> cases onStage <;> simp [keys,addVariable,warn,hkeys]

theorem adds_addList {s : Symbols} {r : Reference} (h : s.place? ⟨.list,r⟩ = none) (items : Items) :
    s.Adds ⟨.list,r⟩ ((s.warn (Mention.message ⟨.list,r⟩)).addList r ⟨r.name,items⟩).2 ∧
      ((s.warn (Mention.message ⟨.list,r⟩)).addList r ⟨r.name,items⟩).1 =
        .make (s.keys .list s.isStage).length s.isStage := by
  obtain ⟨hstage,hown⟩ := Reference.place?_eq_none.1 h
  obtain ⟨isStage,own,stage,warnings⟩ := s
  cases isStage with
  | true =>
    obtain ⟨hkeys,hindex⟩ := Table.keys_insert (t := stage.lists) (Reference.id_ne_of_index? hstage) (v := ⟨r.name,items⟩) rfl
    refine ⟨⟨rfl,fun kind onStage => ?_,rfl⟩,congrArg (Handle.make · true) hindex⟩
    cases kind <;> cases onStage <;> simp [keys,addList,warn,hkeys]
  | false =>
    obtain ⟨hkeys,hindex⟩ := Table.keys_insert (t := own.lists) (Reference.id_ne_of_index? (hown rfl)) (v := ⟨r.name,items⟩) rfl
    refine ⟨⟨rfl,fun kind onStage => ?_,rfl⟩,congrArg (Handle.make · false) hindex⟩
    cases kind <;> cases onStage <;> simp [keys,addList,warn,hkeys]

theorem handle_cases (s : Symbols) (m : Mention) :
    (∃ x, s.place? m = some x ∧ s.handle m = (.make x.1 x.2,s)) ∨
      s.place? m = none ∧ s.Adds m (s.handle m).2 ∧ (s.handle m).1 = .make (s.keys m.kind s.isStage).length s.isStage := by
  have hknown := s.known?_eq m
  cases hx : s.place? m with
  | some x =>
    rw [hx] at hknown
    refine .inl ⟨x,rfl,?_⟩
    obtain ⟨_ | _,r⟩ := m
    · have hlookup : lookup? s.isStage s.own.vars s.stage.vars r = some (.make x.1 x.2) := hknown
      rw [handle,variableHandle,hlookup]
    · have hlookup : lookup? s.isStage s.own.lists s.stage.lists r = some (.make x.1 x.2) := hknown
      rw [handle,listHandle,hlookup]
  | none =>
    rw [hx] at hknown
    refine .inr ⟨rfl,?_⟩
    obtain ⟨_ | _,r⟩ := m
    · have hlookup : lookup? s.isStage s.own.vars s.stage.vars r = none := hknown
      rw [handle,variableHandle,hlookup]
      exact adds_addVariable hx _
    · have hlookup : lookup? s.isStage s.own.lists s.stage.lists r = none := hknown
      rw [handle,listHandle,hlookup]
      exact adds_addList hx _

variable {s s' : Symbols} {m m' : Mention}

theorem known?_eq_none : s.known? m = none ↔ s.place? m = none := by
  rw [known?_eq,Option.map_eq_none_iff]

theorem Adds.keys_self (h : s.Adds m s') : s'.keys m.kind s.isStage = s.keys m.kind s.isStage ++ [m.ref] := by
  rw [h.keys,if_pos ⟨rfl,rfl⟩]

theorem Adds.keys_of_ne (h : s.Adds m s') {kind : DataKind} {onStage : Bool}
    (hne : ¬ (kind = m.kind ∧ onStage = s.isStage)) : s'.keys kind onStage = s.keys kind onStage := by
  rw [h.keys,if_neg hne,List.append_nil]

theorem Adds.place?_of_kind (h : s.Adds m s') (hkind : m'.kind ≠ m.kind) : s'.place? m' = s.place? m' := by
  rw [place?,place?,h.isStage,h.keys_of_ne (hkind ·.1),h.keys_of_ne (hkind ·.1)]

theorem Adds.place?_of_some (h : s.Adds m s') (hm : s.place? m = none)
    (hpaired : m.kind = m'.kind → m.ref.id = m'.ref.id → m.ref.name = m'.ref.name) {x : Nat × Bool}
    (hx : s.place? m' = some x) : s'.place? m' = some x := by
  by_cases hkind : m'.kind = m.kind
  · have hpaired := hpaired hkind.symm
    obtain ⟨hstage,hown⟩ := Reference.place?_eq_none.1 hm
    have hself := h.keys_self
    rw [← hkind] at hstage hown hself
    unfold place? at hx ⊢
    rw [h.isStage]
    cases hs : s.isStage with
    | true =>
      rw [hs] at hx hself
      rw [Reference.place?_stage,hself]
      rw [Reference.place?_stage] at hx
      obtain ⟨i,hi,rfl⟩ := Option.map_eq_some_iff.1 hx
      rw [Reference.index?_append_of_some hi hstage hpaired]
      rfl
    | false =>
      rw [hs] at hx hself
      have hkept : s'.keys m'.kind true = s.keys m'.kind true :=
        h.keys_of_ne fun hne => by rw [hs] at hne; cases hne.2
      rw [hself,hkept]
      unfold Reference.place? at hx ⊢
      split at hx
      next hi => exact hx
      next hid =>
        cases hi : m'.ref.index? (s.keys m'.kind false) with
        | some i =>
          rw [hi] at hx
          rw [Reference.index?_append_of_some hi (hown hs) hpaired]
          exact hx
        | none =>
          -- It led to the stage by its name, and what is declared now has another name.
          rw [hi] at hx
          obtain ⟨j,hj,rfl⟩ := Option.map_eq_some_iff.1 hx
          rw [Reference.index?_of_name hid] at hj
          obtain ⟨hlt,hname,-⟩ := List.findIdx?_eq_some_iff_getElem.1 hj
          have hne : m.ref.name ≠ m'.ref.name := fun heq =>
            (Reference.index?_eq_none.1 hstage _ (List.getElem_mem hlt)).2 ((eq_of_beq hname).trans heq.symm)
          rw [Reference.index?_append_of_none hi,if_neg (not_or.2 ⟨fun heq => hne (hpaired heq),hne⟩)]
          exact hx
  · rw [h.place?_of_kind hkind]
    exact hx

/-- What was not known is known now if it has the id or the name of what was declared. -/
theorem Adds.place?_of_none (h : s.Adds m s') (hkind : m'.kind = m.kind) (hx : s.place? m' = none) :
    s'.place? m' = if m.ref.id = m'.ref.id ∨ m.ref.name = m'.ref.name then
      some ((s.keys m.kind s.isStage).length,s.isStage) else none := by
  obtain ⟨hstage,hown⟩ := Reference.place?_eq_none.1 hx
  have hself := h.keys_self
  rw [← hkind] at hself ⊢
  rw [place?,h.isStage]
  cases hs : s.isStage with
  | true =>
    rw [hs] at hself
    rw [Reference.place?_stage,hself,Reference.index?_append_of_none hstage]
    split <;> rfl
  | false =>
    rw [hs] at hself
    have hid : (s.keys m'.kind true).findIdx? (fun k => k.id == m'.ref.id) = none := by
      simpa using fun k hk => (Reference.index?_eq_none.1 hstage k hk).1
    have hkept : s'.keys m'.kind true = s.keys m'.kind true :=
      h.keys_of_ne fun hne => by rw [hs] at hne; cases hne.2
    rw [hself,hkept,Reference.place?,hid,Reference.index?_append_of_none (hown hs),hstage]
    by_cases hsame : m.ref.id = m'.ref.id ∨ m.ref.name = m'.ref.name
    · rw [if_pos hsame,if_pos hsame]
      rfl
    · rw [if_neg hsame,if_neg hsame]
      rfl

theorem handle_known (s : Symbols) (m : Mention) :
    ∃ x, (s.handle m).2.place? m = some x ∧ (s.handle m).1 = .make x.1 x.2 := by
  rcases s.handle_cases m with ⟨x,hx,heq⟩ | ⟨hx,hadds,hhandle⟩
  · rw [heq]
    exact ⟨x,hx,rfl⟩
  · have hplace := hadds.place?_of_none rfl hx
    rw [if_pos (.inl rfl)] at hplace
    exact ⟨_,hplace,hhandle⟩

theorem handle_keys (s : Symbols) (m : Mention) (kind : DataKind) (onStage : Bool) :
    ∃ more, (s.handle m).2.keys kind onStage = s.keys kind onStage ++ more := by
  rcases s.handle_cases m with ⟨x,-,heq⟩ | ⟨-,hadds,-⟩
  · rw [heq]
    exact ⟨[],(List.append_nil _).symm⟩
  · exact ⟨_,hadds.keys kind onStage⟩

theorem handle_isStage (s : Symbols) (m : Mention) : (s.handle m).2.isStage = s.isStage := by
  rcases s.handle_cases m with ⟨x,-,heq⟩ | ⟨-,hadds,-⟩
  · rw [heq]
  · exact hadds.isStage

theorem after_cons (s : Symbols) (m : Mention) (ms : List Mention) : s.after (m :: ms) = (s.handle m).2.after ms := rfl

theorem after_append (s : Symbols) (ms ms' : List Mention) : s.after (ms ++ ms') = (s.after ms).after ms' :=
  List.foldl_append

theorem after_keys (s : Symbols) (ms : List Mention) (kind : DataKind) (onStage : Bool) :
    ∃ more, (s.after ms).keys kind onStage = s.keys kind onStage ++ more := by
  induction ms generalizing s with
  | nil => exact ⟨[],(List.append_nil _).symm⟩
  | cons m ms ih =>
    obtain ⟨more,hmore⟩ := s.handle_keys m kind onStage
    obtain ⟨rest,hrest⟩ := ih (s.handle m).2
    exact ⟨more ++ rest,by rw [after_cons,hrest,hmore,List.append_assoc]⟩

theorem after_isStage (s : Symbols) (ms : List Mention) : (s.after ms).isStage = s.isStage := by
  induction ms generalizing s with
  | nil => rfl
  | cons m ms ih => exact (ih _).trans (s.handle_isStage m)

end Symbols

/-- An id always goes with the same name. -/
def Paired (ms : List Mention) : Prop :=
  ∀ m ∈ ms, ∀ m' ∈ ms, m.kind = m'.kind → m.ref.id = m'.ref.id → m.ref.name = m'.ref.name

namespace Symbols

variable {s s' : Symbols} {m m' : Mention} {ms : List Mention}

variable {x : Nat × Bool} {i j : Nat} {h : Handle}

theorem handle_place? (hpaired : m.kind = m'.kind → m.ref.id = m'.ref.id → m.ref.name = m'.ref.name)
    (hx : s.place? m' = some x) : (s.handle m).2.place? m' = some x := by
  rcases s.handle_cases m with ⟨y,-,heq⟩ | ⟨hm,hadds,-⟩
  · rw [heq]
    exact hx
  · exact hadds.place?_of_some hm hpaired hx

theorem after_place? (hpaired : ∀ m ∈ ms, m.kind = m'.kind → m.ref.id = m'.ref.id → m.ref.name = m'.ref.name)
    (hx : s.place? m' = some x) : (s.after ms).place? m' = some x := by
  induction ms generalizing s with
  | nil => exact hx
  | cons m ms ih =>
    obtain ⟨hm,hms⟩ := List.forall_mem_cons.1 hpaired
    exact ih hms (handle_place? hm hx)

/-- The symbols when the reference at a position has been resolved, and those after all of them. -/
theorem after_take_succ (hi : ms[i]? = some m) :
    s.after (ms.take (i + 1)) = ((s.after (ms.take i)).handle m).2 ∧
      s.after ms = (s.after (ms.take (i + 1))).after (ms.drop (i + 1)) := by
  constructor
  · rw [List.take_add_one,hi,after_append]
    rfl
  · rw [← after_append,List.take_append_drop]

theorem handle_at (hpaired : Paired ms) (hi : ms[i]? = some m) :
    ∃ x, ((s.after (ms.take i)).handle m).1 = .make x.1 x.2 ∧ ∀ j, i < j → (s.after (ms.take j)).place? m = some x := by
  obtain ⟨x,hx,hhandle⟩ := (s.after (ms.take i)).handle_known m
  refine ⟨x,hhandle,fun j hj => ?_⟩
  obtain ⟨k,rfl⟩ := Nat.exists_eq_add_of_lt hj
  have hsplit : ms.take (i + k + 1) = ms.take (i + 1) ++ (ms.drop (i + 1)).take k := by
    rw [← List.take_add,Nat.add_right_comm]
  rw [hsplit,after_append,(after_take_succ hi).1]
  refine after_place? (fun m' hm' => hpaired m' ?_ m (List.mem_of_getElem? hi)) hx
  exact List.mem_of_mem_drop (List.mem_of_mem_take hm')

theorem count_lt_of_made (hi : ms[i]? = some m) (hij : i < j) (h : (s.after (ms.take i)).known? m = none) :
    (s.after (ms.take i)).count m.kind s.isStage < (s.after (ms.take j)).count m.kind s.isStage := by
  rcases (s.after (ms.take i)).handle_cases m with ⟨x,hx,-⟩ | ⟨-,hadds,-⟩
  · rw [known?_eq_none,hx] at h
    cases h
  · have hself := hadds.keys_self
    obtain ⟨k,rfl⟩ := Nat.exists_eq_add_of_lt hij
    obtain ⟨more,hmore⟩ := (s.after (ms.take (i + 1))).after_keys ((ms.drop (i + 1)).take k) m.kind s.isStage
    rw [← after_append,← List.take_add,Nat.add_right_comm,(after_take_succ hi).1] at hmore
    rw [after_isStage] at hself
    rw [← length_keys,← length_keys,hmore,hself]
    simp

theorem made_at (hsmall : ∀ kind onStage, (s.after ms).count kind onStage < 2 ^ 31) (hi : ms[i]? = some m)
    (h : (s.after (ms.take i)).known? m = none) :
    (s.after (ms.take i)).count m.kind s.isStage < 2 ^ 31 ∧
      ((s.after (ms.take i)).handle m).1 = .make ((s.after (ms.take i)).count m.kind s.isStage) s.isStage := by
  have hlt := count_lt_of_made hi (List.getElem?_eq_some_iff.1 hi).1 h
  rw [List.take_length] at hlt
  refine ⟨Nat.lt_trans hlt (hsmall _ _),?_⟩
  rcases (s.after (ms.take i)).handle_cases m with ⟨x,hx,-⟩ | ⟨-,-,hhandle⟩
  · rw [known?_eq_none,hx] at h
    cases h
  · rw [hhandle,length_keys,after_isStage]

theorem handle_again (hpaired : Paired ms) (hij : i < j) (hi : ms[i]? = some m) :
    ((s.after (ms.take i)).handle m).1 = ((s.after (ms.take j)).handle m).1 := by
  obtain ⟨x,hx,hplace⟩ := handle_at (s := s) hpaired hi
  rcases (s.after (ms.take j)).handle_cases m with ⟨y,hy,heq⟩ | ⟨hnone,-⟩
  · rw [hplace j hij] at hy
    cases hy
    rw [hx,heq]
  · rw [hplace j hij] at hnone
    cases hnone

/-- A handle is that of a slot with the id or the name of the reference, which stays there. -/
theorem slot_at (hpaired : Paired ms) (hsmall : ∀ kind onStage, (s.after ms).count kind onStage < 2 ^ 31)
    (hi : ms[i]? = some m) (hh : ((s.after (ms.take i)).handle m).1 = h) :
    (s.isStage = true → h.isStage = true) ∧ ∃ k : Reference, (k.id = m.ref.id ∨ k.name = m.ref.name) ∧
      ((s.after (ms.take (i + 1))).keys m.kind h.isStage)[h.index]? = some k ∧
      ((s.after ms).keys m.kind h.isStage)[h.index]? = some k := by
  obtain ⟨⟨index,onStage⟩,hx,hplace⟩ := handle_at (s := s) hpaired hi
  obtain ⟨hstage,k,hk,hnames⟩ := Reference.getElem?_place? (hplace (i + 1) (Nat.lt_succ_self i))
  have hkey : ((s.after (ms.take (i + 1))).keys m.kind onStage)[index]? = some k := by
    cases onStage <;> exact hk
  obtain ⟨more,hmore⟩ := (s.after (ms.take (i + 1))).after_keys (ms.drop (i + 1)) m.kind onStage
  rw [← (after_take_succ hi).2] at hmore
  have hkey' : ((s.after ms).keys m.kind onStage)[index]? = some k := by
    rw [hmore,List.getElem?_append_left (List.getElem?_eq_some_iff.1 hkey).1,hkey]
  have hindex : index < 2 ^ 31 := by
    have hsize := hsmall m.kind onStage
    rw [← length_keys] at hsize
    exact Nat.lt_trans (List.getElem?_eq_some_iff.1 hkey').1 hsize
  rw [hh] at hx
  subst hx
  rw [Handle.isStage_make hindex,Handle.index_make hindex]
  exact ⟨fun hs => hstage ((s.after_isStage _).trans hs),k,hnames,hkey,hkey'⟩

theorem made_apart (hpaired : Paired ms) (hsmall : ∀ kind onStage, (s.after ms).count kind onStage < 2 ^ 31) {h' : Handle}
    (hij : i < j) (hi : ms[i]? = some m) (hj : ms[j]? = some m') (hkind : m.kind = m'.kind)
    (hknown : (s.after (ms.take i)).known? m = none) (hknown' : (s.after (ms.take j)).known? m' = none)
    (hh : ((s.after (ms.take i)).handle m).1 = h) (hh' : ((s.after (ms.take j)).handle m').1 = h') :
    m.ref ≠ m'.ref ∧ h.isStage = h'.isStage ∧ h.index ≠ h'.index := by
  obtain ⟨hlt,hmade⟩ := made_at hsmall hi hknown
  obtain ⟨hlt',hmade'⟩ := made_at hsmall hj hknown'
  rw [hh] at hmade
  rw [hh'] at hmade'
  subst hmade hmade'
  obtain ⟨kind,r⟩ := m
  cases hkind
  refine ⟨?_,?_,?_⟩
  · rintro rfl
    obtain ⟨x,-,hplace⟩ := handle_at (s := s) hpaired hi
    rw [known?_eq_none,hplace j hij] at hknown'
    cases hknown'
  · rw [Handle.isStage_make hlt,Handle.isStage_make hlt']
  · rw [Handle.index_make hlt,Handle.index_make hlt']
    exact Nat.ne_of_lt (count_lt_of_made hi hij hknown)

theorem Adds.place?_eq_none_iff (h : s.Adds m s') (hm : s.place? m = none)
    (hpaired : m.kind = m'.kind → m.ref.id = m'.ref.id → m.ref.name = m'.ref.name) :
    s'.place? m' = none ↔ s.place? m' = none ∧ m'.message ≠ m.message := by
  cases hx : s.place? m' with
  | some x => simp [h.place?_of_some hm hpaired hx]
  | none =>
    rw [ne_eq,Mention.message_inj]
    by_cases hkind : m'.kind = m.kind
    · rw [h.place?_of_none hkind hx]
      have hname : m.ref.id = m'.ref.id ∨ m.ref.name = m'.ref.name ↔ m'.ref.name = m.ref.name :=
        ⟨fun h => (h.elim (hpaired hkind.symm) id).symm,fun h => .inr h.symm⟩
      simp [hkind,hname]
    · simp [h.place?_of_kind hkind,hx,hkind]

theorem after_count (hpaired : Paired ms) (message : String) :
    (s.after ms).warnings.count message =
      s.warnings.count message + if ∃ m ∈ ms, s.known? m = none ∧ m.message = message then 1 else 0 := by
  induction ms generalizing s with
  | nil => simp [after]
  | cons m ms ih =>
    have hrest : Paired ms := fun k hk k' hk' => hpaired k (List.mem_cons_of_mem _ hk) k' (List.mem_cons_of_mem _ hk')
    rw [after_cons,ih hrest]
    simp only [known?_eq_none,List.exists_mem_cons_iff]
    rcases s.handle_cases m with ⟨x,hx,heq⟩ | ⟨hm,hadds,-⟩
    · rw [heq,hx]
      simp
    · have hiff : ∀ m' ∈ ms, ((s.handle m).2.place? m' = none ↔ s.place? m' = none ∧ m'.message ≠ m.message) :=
        fun m' hm' => hadds.place?_eq_none_iff hm (hpaired m List.mem_cons_self m' (List.mem_cons_of_mem _ hm'))
      rw [hadds.warnings,Warnings.count_add]
      by_cases hmessage : message = m.message
      · -- Nothing else with this message is unknown now.
        have hnone : ¬ ∃ m' ∈ ms, (s.handle m).2.place? m' = none ∧ m'.message = message := by
          rintro ⟨m',hm',hx,rfl⟩
          exact ((hiff m' hm').1 hx).2 hmessage
        rw [if_pos hmessage,if_neg hnone,if_pos (.inl ⟨hm,hmessage.symm⟩)]
      · have hsame : (∃ m' ∈ ms, (s.handle m).2.place? m' = none ∧ m'.message = message) ↔
            (s.place? m = none ∧ m.message = message) ∨ ∃ m' ∈ ms, s.place? m' = none ∧ m'.message = message := by
          constructor
          · rintro ⟨m',hm',hx,heq⟩
            exact .inr ⟨m',hm',((hiff m' hm').1 hx).1,heq⟩
          · rintro (⟨-,heq⟩ | ⟨m',hm',hx,heq⟩)
            · exact absurd heq.symm hmessage
            · exact ⟨m',hm',(hiff m' hm').2 ⟨hx,fun h => hmessage (heq.symm.trans h)⟩,heq⟩
        simp only [if_neg hmessage,hsame,Nat.add_zero]

end Symbols

/-- When ids always go with the same names, a reference leads to the same handle whenever it is resolved. The handle is
that of a slot, there when it is resolved and in the end, of a variable or list with its id or its name. References for
which slots were made have different ones, and each warning about what is not known is given once. -/
theorem handles_of_paired {s : Symbols} {ms : List Mention} (hpaired : Paired ms)
    (hsmall : ∀ kind onStage, (s.after ms).count kind onStage < 2 ^ 31) :
    (∀ {i j : Nat} {m : Mention}, ms[i]? = some m → ms[j]? = some m →
      ((s.after (ms.take i)).handle m).1 = ((s.after (ms.take j)).handle m).1) ∧
    (∀ {i : Nat} {m : Mention} {h : Handle}, ms[i]? = some m → ((s.after (ms.take i)).handle m).1 = h →
      (s.isStage = true → h.isStage = true) ∧ ∃ k : Reference, (k.id = m.ref.id ∨ k.name = m.ref.name) ∧
        ((s.after (ms.take (i + 1))).keys m.kind h.isStage)[h.index]? = some k ∧
        ((s.after ms).keys m.kind h.isStage)[h.index]? = some k) ∧
    (∀ {i j : Nat} {m m' : Mention} {h h' : Handle}, ms[i]? = some m → ms[j]? = some m' → i ≠ j → m.kind = m'.kind →
      (s.after (ms.take i)).known? m = none → (s.after (ms.take j)).known? m' = none →
      ((s.after (ms.take i)).handle m).1 = h → ((s.after (ms.take j)).handle m').1 = h' →
      m.ref ≠ m'.ref ∧ h.isStage = h'.isStage ∧ h.index ≠ h'.index) ∧
    ∀ message, (s.after ms).warnings.count message =
      s.warnings.count message + if ∃ m ∈ ms, s.known? m = none ∧ m.message = message then 1 else 0 := by
  refine ⟨fun {i j m} hi hj => ?_,fun {i m h} hi hh => Symbols.slot_at hpaired hsmall hi hh,
    fun {i j m m' h h'} hi hj hij hkind hk hk' hh hh' => ?_,Symbols.after_count hpaired⟩
  · rcases Nat.lt_trichotomy i j with hij | rfl | hji
    · exact Symbols.handle_again hpaired hij hi
    · rfl
    · exact (Symbols.handle_again hpaired hji hj).symm
  · rcases Nat.lt_or_gt_of_ne hij with hij | hji
    · exact Symbols.made_apart hpaired hsmall hij hi hj hkind hk hk' hh hh'
    · obtain ⟨hne,hstage,hindex⟩ := Symbols.made_apart hpaired hsmall hji hj hi hkind.symm hk' hk hh' hh
      exact ⟨hne.symm,hstage.symm,hindex.symm⟩

def sampleSymbols : Symbols where
  isStage := false
  own := { vars := Table.empty.insert "own" ⟨"x",.number 1.0⟩ }
  stage := { vars := Table.empty.insert "global" ⟨"y",.number 2.0⟩ }

/-- One variable is known by its name only, and one is not known but mentioned twice. -/
def sampleMentions : List Mention :=
  [⟨.variable,⟨"other","y"⟩⟩,⟨.variable,⟨"new","z"⟩⟩,⟨.list,⟨"new","z"⟩⟩,⟨.variable,⟨"third","z"⟩⟩,
    ⟨.variable,⟨"own","x"⟩⟩,⟨.variable,⟨"new","z"⟩⟩]

theorem handles_of_paired_sampleMentions : Paired sampleMentions ∧
    ((sampleSymbols.after (sampleMentions.take 1)).handle ⟨.variable,⟨"new","z"⟩⟩).1 =
      ((sampleSymbols.after (sampleMentions.take 5)).handle ⟨.variable,⟨"new","z"⟩⟩).1 ∧
    (sampleSymbols.after sampleMentions).warnings.count "unknown variable z" = 1 := by
  have hpaired : Paired sampleMentions := by
    unfold Paired
    decide +kernel
  have hsmall : ∀ kind onStage, (sampleSymbols.after sampleMentions).count kind onStage < 2 ^ 31 := by
    intro kind onStage
    cases kind <;> cases onStage <;> decide +kernel
  obtain ⟨hstable,-,-,hwarnings⟩ := handles_of_paired hpaired hsmall
  refine ⟨hpaired,hstable (i := 1) (j := 5) rfl rfl,(hwarnings _).trans ?_⟩
  decide +kernel

/-! The order of declarations -/

/-- Lists of keys that differ in their order, and in which ids and names are distinct. -/
structure Reorders (keys keys' : List Reference) : Prop where
  perm : keys.Perm keys'
  ids : (keys.map Reference.id).Nodup
  names : (keys.map Reference.name).Nodup

/-- Indices of the same key in two lists, or none in both. -/
inductive SameKey (keys keys' : List Reference) : Option Nat → Option Nat → Prop
  | none : SameKey keys keys' none none
  | some {i i' : Nat} {k : Reference} (h : keys[i]? = some k) (h' : keys'[i']? = some k) :
      SameKey keys keys' (some i) (some i')

theorem SameKey.findIdx? {keys keys' : List Reference} (hperm : keys.Perm keys') {p : Reference → Bool}
    (hone : ∀ k ∈ keys, ∀ k' ∈ keys, p k = true → p k' = true → k = k') :
    SameKey keys keys' (keys.findIdx? p) (keys'.findIdx? p) := by
  cases hi : keys.findIdx? p with
  | none =>
    have hnone : keys'.findIdx? p = Option.none := by
      rw [List.findIdx?_eq_none_iff] at hi ⊢
      exact fun k hk => hi k (hperm.mem_iff.2 hk)
    rw [hnone]
    exact .none
  | some i =>
    obtain ⟨hlt,hk,-⟩ := List.findIdx?_eq_some_iff_getElem.1 hi
    cases hi' : keys'.findIdx? p with
    | none =>
      rw [List.findIdx?_eq_none_iff.1 hi' _ (hperm.mem_iff.1 (List.getElem_mem hlt))] at hk
      cases hk
    | some i' =>
      obtain ⟨hlt',hk',-⟩ := List.findIdx?_eq_some_iff_getElem.1 hi'
      have heq := hone _ (List.getElem_mem hlt) _ (hperm.mem_iff.2 (List.getElem_mem hlt')) hk hk'
      exact .some (List.getElem?_eq_getElem hlt) (by rw [heq]; exact List.getElem?_eq_getElem hlt')

namespace Reorders

variable {keys keys' : List Reference}

theorem findId (h : Reorders keys keys') (id : String) :
    SameKey keys keys' (keys.findIdx? fun k => k.id == id) (keys'.findIdx? fun k => k.id == id) :=
  .findIdx? h.perm fun _ hk _ hk' hid hid' =>
    List.inj_on_of_nodup_map h.ids hk hk' ((eq_of_beq hid).trans (eq_of_beq hid').symm)

theorem findName (h : Reorders keys keys') (name : String) :
    SameKey keys keys' (keys.findIdx? fun k => k.name == name) (keys'.findIdx? fun k => k.name == name) :=
  .findIdx? h.perm fun _ hk _ hk' hname hname' =>
    List.inj_on_of_nodup_map h.names hk hk' ((eq_of_beq hname).trans (eq_of_beq hname').symm)

theorem index? (h : Reorders keys keys') (r : Reference) : SameKey keys keys' (r.index? keys) (r.index? keys') := by
  have hid := h.findId r.id
  unfold Reference.index?
  generalize (keys.findIdx? fun k => k.id == r.id) = i at hid
  generalize (keys'.findIdx? fun k => k.id == r.id) = i' at hid
  cases hid with
  | none => exact h.findName r.name
  | some hk hk' => exact .some hk hk'

theorem append (h : Reorders keys keys') {r : Reference} (hr : r.index? keys = none) :
    Reorders (keys ++ [r]) (keys' ++ [r]) where
  perm := h.perm.append_right _
  ids := by
    rw [List.map_append]
    exact h.ids.append (List.nodup_singleton _) (by simpa using fun k hk => (Reference.index?_eq_none.1 hr k hk).1)
  names := by
    rw [List.map_append]
    exact h.names.append (List.nodup_singleton _) (by simpa using fun k hk => (Reference.index?_eq_none.1 hr k hk).2)

end Reorders

namespace Symbols

/-- Symbols that differ in the order of their tables only. -/
structure Reordered (s s' : Symbols) : Prop where
  isStage : s'.isStage = s.isStage
  keys : ∀ kind onStage, Reorders (s.keys kind onStage) (s'.keys kind onStage)
  warnings : s'.warnings = s.warnings

/-- A reference leads to the same entry with both symbols: it is known to both or to neither, and its handles are those
of slots with the same id and name, both on the target or both on the stage. -/
def Agree (s s' : Symbols) (m : Mention) : Prop :=
  (s.known? m = none ↔ s'.known? m = none) ∧ ∃ onStage i i' k, (s.handle m).1 = .make i onStage ∧
    (s'.handle m).1 = .make i' onStage ∧ ((s.handle m).2.keys m.kind onStage)[i]? = some k ∧
    ((s'.handle m).2.keys m.kind onStage)[i']? = some k

variable {s s' : Symbols}

theorem Reordered.place? (h : s.Reordered s') (m : Mention) :
    (s.place? m = none ∧ s'.place? m = none) ∨ ∃ onStage i i' k, s.place? m = some (i,onStage) ∧
      s'.place? m = some (i',onStage) ∧ (s.keys m.kind onStage)[i]? = some k ∧ (s'.keys m.kind onStage)[i']? = some k := by
  have hid := (h.keys m.kind true).findId m.ref.id
  have hown := (h.keys m.kind false).index? m.ref
  have hstage := (h.keys m.kind true).index? m.ref
  unfold Symbols.place? Reference.place?
  rw [h.isStage]
  generalize ((s.keys m.kind true).findIdx? fun k => k.id == m.ref.id) = i at hid
  generalize ((s'.keys m.kind true).findIdx? fun k => k.id == m.ref.id) = i' at hid
  generalize m.ref.index? (s.keys m.kind false) = j at hown
  generalize m.ref.index? (s'.keys m.kind false) = j' at hown
  generalize m.ref.index? (s.keys m.kind true) = l at hstage
  generalize m.ref.index? (s'.keys m.kind true) = l' at hstage
  have hlast : (Option.map (·,true) l = none ∧ Option.map (·,true) l' = none) ∨ ∃ onStage i i' k,
      Option.map (·,true) l = some (i,onStage) ∧ Option.map (·,true) l' = some (i',onStage) ∧
        (s.keys m.kind onStage)[i]? = some k ∧ (s'.keys m.kind onStage)[i']? = some k := by
    cases hstage with
    | none => exact .inl ⟨rfl,rfl⟩
    | some hk hk' => exact .inr ⟨true,_,_,_,rfl,rfl,hk,hk'⟩
  cases hid with
  | some hk hk' => exact .inr ⟨true,_,_,_,rfl,rfl,hk,hk'⟩
  | none =>
    cases s.isStage with
    | true => exact hlast
    | false =>
      cases hown with
      | none => exact hlast
      | some hk hk' => exact .inr ⟨false,_,_,_,rfl,rfl,hk,hk'⟩

theorem Reordered.handle (h : s.Reordered s') (m : Mention) :
    s.Agree s' m ∧ (s.handle m).2.Reordered (s'.handle m).2 := by
  unfold Agree
  simp only [known?_eq_none]
  rcases h.place? m with ⟨hnone,hnone'⟩ | ⟨onStage,i,i',k,hx,hx',hk,hk'⟩
  · rcases s.handle_cases m with ⟨x,hx,-⟩ | ⟨-,hadds,hhandle⟩
    · rw [hnone] at hx
      cases hx
    rcases s'.handle_cases m with ⟨x,hx,-⟩ | ⟨-,hadds',hhandle'⟩
    · rw [hnone'] at hx
      cases hx
    have hself := hadds.keys_self
    have hself' := hadds'.keys_self
    rw [h.isStage] at hself' hhandle'
    refine ⟨⟨by simp [hnone,hnone'],s.isStage,_,_,m.ref,hhandle,hhandle',?_,?_⟩,?_,fun kind onStage => ?_,?_⟩
    · rw [hself,List.getElem?_append_right (Nat.le_refl _),Nat.sub_self]
      rfl
    · rw [hself',List.getElem?_append_right (Nat.le_refl _),Nat.sub_self]
      rfl
    · rw [hadds'.isStage,hadds.isStage,h.isStage]
    · rw [hadds.keys,hadds'.keys,h.isStage]
      split
      next heq =>
        obtain ⟨rfl,rfl⟩ := heq
        obtain ⟨hstage,hown⟩ := Reference.place?_eq_none.1 hnone
        refine (h.keys _ _).append ?_
        cases hs : s.isStage with
        | true => exact hstage
        | false => exact hown hs
      · rw [List.append_nil,List.append_nil]
        exact h.keys kind onStage
    · rw [hadds'.warnings,hadds.warnings,h.warnings]
  · rcases s.handle_cases m with ⟨x,hx₁,heq⟩ | ⟨hnone,-⟩
    rcases s'.handle_cases m with ⟨x',hx₂,heq'⟩ | ⟨hnone',-⟩
    · rw [hx] at hx₁
      rw [hx'] at hx₂
      cases hx₁
      cases hx₂
      rw [heq,heq',hx,hx']
      exact ⟨⟨by simp,onStage,i,i',k,rfl,rfl,hk,hk'⟩,h⟩
    · rw [hx'] at hnone'
      cases hnone'
    · rw [hx] at hnone
      cases hnone

theorem Reordered.after (h : s.Reordered s') (ms : List Mention) :
    (s.after ms).Reordered (s'.after ms) ∧
      ∀ {i : Nat} {m : Mention}, ms[i]? = some m → (s.after (ms.take i)).Agree (s'.after (ms.take i)) m := by
  induction ms generalizing s s' with
  | nil => exact ⟨h,nofun⟩
  | cons m ms ih =>
    obtain ⟨hagree,hnext⟩ := h.handle m
    obtain ⟨hrest,hagrees⟩ := ih hnext
    refine ⟨hrest,fun {i m'} hi => ?_⟩
    cases i with
    | zero =>
      cases hi
      exact hagree
    | succ i => exact hagrees hi

end Symbols

/-- Declarations with the same variables and lists in other orders. Ids are distinct, and names are. -/
structure Declaration.Reorders (d d' : Declaration) : Prop where
  vars : d.vars.Perm d'.vars
  lists : d.lists.Perm d'.lists
  varIds : (d.vars.map VariableDecl.id).Nodup
  varNames : (d.vars.map VariableDecl.name).Nodup
  listIds : (d.lists.map ListDecl.id).Nodup
  listNames : (d.lists.map ListDecl.name).Nodup

theorem Table.keys_foldl_insert {α β : Type} [Named α] (id : β → String) (value : β → α) (xs : List β) (t : Table α)
    (h : (t.keys.map Reference.id ++ xs.map id).Nodup) :
    (xs.foldl (fun t x => t.insert (id x) (value x)) t).keys = t.keys ++ xs.map fun x => ⟨id x,Named.name (value x)⟩ := by
  induction xs generalizing t with
  | nil => simp
  | cons x xs ih =>
    have hnew : ∀ k ∈ t.keys, k.id ≠ id x := fun k hk heq =>
      (List.nodup_append.1 h).2.2 _ (List.mem_map_of_mem hk) _ List.mem_cons_self heq
    obtain ⟨hkeys,-⟩ := Table.keys_insert (r := ⟨id x,Named.name (value x)⟩) hnew rfl
    rw [List.foldl_cons,ih _ (by rw [hkeys]; simpa using h),hkeys]
    simp

namespace Compile

variable {d d' : Declaration}

theorem keys_declareData_vars (h : (d.vars.map VariableDecl.id).Nodup) :
    (declareData d).vars.keys = d.vars.map fun v => ⟨v.id,v.name⟩ :=
  Table.keys_foldl_insert VariableDecl.id (fun v => (⟨v.name,v.value⟩ : Variable)) d.vars .empty h

theorem keys_declareData_lists (h : (d.lists.map ListDecl.id).Nodup) :
    (declareData d).lists.keys = d.lists.map fun l => ⟨l.id,l.name⟩ :=
  Table.keys_foldl_insert ListDecl.id (fun l => (⟨l.name,.ofList l.items⟩ : ListVariable)) d.lists .empty h

theorem reorders_declareData (h : d.Reorders d') :
    SpriteMachine.Reorders (declareData d).vars.keys (declareData d').vars.keys ∧
      SpriteMachine.Reorders (declareData d).lists.keys (declareData d').lists.keys := by
  have hvars : (d'.vars.map VariableDecl.id).Nodup := (h.vars.map _).nodup_iff.1 h.varIds
  have hlists : (d'.lists.map ListDecl.id).Nodup := (h.lists.map _).nodup_iff.1 h.listIds
  rw [keys_declareData_vars h.varIds,keys_declareData_vars hvars,keys_declareData_lists h.listIds,
    keys_declareData_lists hlists]
  exact ⟨⟨h.vars.map _,by rw [List.map_map]; exact h.varIds,by rw [List.map_map]; exact h.varNames⟩,
    ⟨h.lists.map _,by rw [List.map_map]; exact h.listIds,by rw [List.map_map]; exact h.listNames⟩⟩

theorem reordered_stageSymbols (h : d.Reorders d') : (stageSymbols d).Reordered (stageSymbols d') := by
  obtain ⟨hvars,hlists⟩ := reorders_declareData h
  refine ⟨rfl,fun kind onStage => ?_,rfl⟩
  cases kind <;> cases onStage
  · exact ⟨.refl _,List.nodup_nil,List.nodup_nil⟩
  · exact hvars
  · exact ⟨.refl _,List.nodup_nil,List.nodup_nil⟩
  · exact hlists

theorem reordered_spriteSymbols (h : d.Reorders d') {s s' : Symbols} (hs : s.Reordered s') :
    (spriteSymbols d s.stage).Reordered (spriteSymbols d' s'.stage) := by
  obtain ⟨hvars,hlists⟩ := reorders_declareData h
  refine ⟨rfl,fun kind onStage => ?_,rfl⟩
  cases kind <;> cases onStage
  · exact hvars
  · exact hs.keys .variable true
  · exact hlists
  · exact hs.keys .list true

end Compile

/-- References that are resolved one after the other agree, and so do the warnings. -/
def Symbols.Alike (s s' : Symbols) (ms : List Mention) : Prop :=
  (∀ {i : Nat} {m : Mention}, ms[i]? = some m → (s.after (ms.take i)).Agree (s'.after (ms.take i)) m) ∧
    (s'.after ms).warnings = (s.after ms).warnings

theorem Symbols.Reordered.alike {s s' : Symbols} (h : s.Reordered s') (ms : List Mention) : s.Alike s' ms :=
  ⟨(h.after ms).2,(h.after ms).1.warnings⟩

/-- The order of declarations is of no account, neither for the references in scripts of the stage nor, after them, for
those of a sprite. -/
theorem alike_of_reorders {stage stage' sprite sprite' : Declaration} (hstage : stage.Reorders stage')
    (hsprite : sprite.Reorders sprite') (ms ms' : List Mention) :
    (Compile.stageSymbols stage).Alike (Compile.stageSymbols stage') ms ∧
      (Compile.spriteSymbols sprite ((Compile.stageSymbols stage).after ms).stage).Alike
        (Compile.spriteSymbols sprite' ((Compile.stageSymbols stage').after ms).stage) ms' := by
  have hreordered := Compile.reordered_stageSymbols hstage
  exact ⟨hreordered.alike ms,(Compile.reordered_spriteSymbols hsprite (hreordered.after ms).1).alike ms'⟩

def twoVariables (swapped : Bool) : Declaration where
  name := "Stage"
  isStage := true
  vars := if swapped then [⟨"b","y",.number 2.0⟩,⟨"a","x",.number 1.0⟩] else
    [⟨"a","x",.number 1.0⟩,⟨"b","y",.number 2.0⟩]

def twoLists (swapped : Bool) : Declaration where
  name := "Sprite"
  isStage := false
  lists := if swapped then [⟨"d","q",[]⟩,⟨"c","p",[]⟩] else [⟨"c","p",[]⟩,⟨"d","q",[]⟩]

theorem alike_of_reorders_twoLists : (twoVariables false).Reorders (twoVariables true) ∧
    (twoLists false).Reorders (twoLists true) ∧
    (Compile.spriteSymbols (twoLists false) (Compile.declareData (twoVariables false))).Alike
      (Compile.spriteSymbols (twoLists true) (Compile.declareData (twoVariables true)))
      [⟨.list,⟨"other","q"⟩⟩,⟨.variable,⟨"b","y"⟩⟩,⟨.variable,⟨"new","z"⟩⟩] := by
  have hstage : (twoVariables false).Reorders (twoVariables true) :=
    ⟨.swap _ _ _,.nil,by decide,by decide,.nil,.nil⟩
  have hsprite : (twoLists false).Reorders (twoLists true) :=
    ⟨.nil,.swap _ _ _,.nil,.nil,by decide,by decide⟩
  exact ⟨hstage,hsprite,(alike_of_reorders hstage hsprite [] _).2⟩

end SpriteMachine
