import SpriteMachine.Proofs.Queries

/-!
The code of a block by the recipe of its entry. The labels that a recipe makes are those of its own scope, since the
code of the blocks in its slots leaves the scopes as they were; so its jumps lead to where it places them.
-/

namespace SpriteMachine

/-! Scopes -/

def KeepsScopes (ds : List Directive) : Prop :=
  ∀ e : Emitter, (e.run ds).scope = e.scope ∧ (e.run ds).outer = e.outer

namespace KeepsScopes

theorem nil : KeepsScopes [] := fun _ => ⟨rfl,rfl⟩

theorem append {ds ds' : List Directive} (h : KeepsScopes ds) (h' : KeepsScopes ds') : KeepsScopes (ds ++ ds') := by
  intro e
  rw [Emitter.run_append]
  exact ⟨(h' _).1.trans (h e).1,(h' _).2.trans (h e).2⟩

theorem flatMap {α : Type} {f : α → List Directive} {xs : List α} (h : ∀ x ∈ xs, KeepsScopes (f x)) :
    KeepsScopes (xs.flatMap f) := by
  induction xs with
  | nil => exact nil
  | cons x xs ih =>
    exact (h x List.mem_cons_self).append (ih fun y hy => h y (List.mem_cons_of_mem _ hy))

theorem single {d : Directive} (h : d.keepsScope = true) : KeepsScopes [d] :=
  fun e => ⟨(e.step_keepsScope h).1,(e.step_keepsScope h).2.1⟩

theorem block {body : List Directive} {u : Tally} (h : Tally.run {} body = some u) (houter : u.outer = []) :
    KeepsScopes (.enter :: (body ++ [.leave])) := by
  intro e
  have hstart : (e.step .enter).Fresh (e.scope :: e.outer) 0 (Tally.outer {}).length := ⟨[{}],rfl,rfl,by simp⟩
  obtain ⟨inner,heq,hlength,-⟩ := hstart.run (Nat.zero_le _) h
  rw [houter] at hlength
  obtain ⟨sc,rfl⟩ := List.length_eq_one_iff.1 hlength
  have hscopes : ((e.step .enter).run body).outer = e.scope :: e.outer := (List.cons.inj heq).2
  rw [Emitter.run_cons,Emitter.run_append]
  change ((e.step .enter).run body).outer.headD {} = _ ∧ ((e.step .enter).run body).outer.tail = _
  rw [hscopes]
  exact ⟨rfl,rfl⟩

end KeepsScopes

variable {slots : List SlotCode} {e : Entry} {id : Nat} {params : List String} {d : Directive} {b : Block}

theorem entryCode_passes (site : Site) (hslots : ∀ c ∈ slots, c.Sound) {opcode : String}
    (h : Palette.find? opcode = some (e,id)) : ∃ body, entryCode site slots e id = .enter :: (body ++ [.leave]) ∧
      body = (e.steps site).flatMap (stepCode site.params slots e id) ∧
      ∃ u, Tally.run {} body = some u ∧ u.level.isDone = true ∧ u.outer = [] := by
  obtain ⟨he,-,hb⟩ := Palette.find?_eq_some h
  obtain ⟨u,hu,hdone,houter,-⟩ := Palette.entries_check he site 0 []
  obtain ⟨k,hk,-⟩ := @Tally.reaches_steps _ _ site.params _ hslots _ _ hb _ hu
  exact ⟨_,rfl,rfl,_,hk,hdone,houter⟩

/-- The directives of a block that is run are those of its entry, in a scope of their own; unknown blocks have none
that write anything. -/
theorem statement_cases (params : List String) (b : Block) :
    (∃ message, (expand params b).statement = [.warn message]) ∨
    ∃ body, (expand params b).statement = .enter :: (body ++ [.leave]) ∧
      ∃ u, Tally.run {} body = some u ∧ u.level.isDone = true ∧ u.outer = [] := by
  obtain ⟨opcode,mutation,slots,fields⟩ := b
  change (∃ message, statementCode _ _ = _) ∨ ∃ body, statementCode ⟨.mk opcode mutation slots fields,params⟩
    (expandSlots params slots) = _ ∧ _
  have hslots := Tally.sound_expandSlots params slots
  unfold statementCode
  split
  next e id hfind =>
    split
    · exact .inl ⟨_,rfl⟩
    · obtain ⟨body,hcode,-,hpasses⟩ := entryCode_passes _ hslots hfind
      exact .inr ⟨body,hcode,hpasses⟩
  · exact .inl ⟨_,rfl⟩

theorem keepsScopes_statement (params : List String) (b : Block) : KeepsScopes (expand params b).statement := by
  rcases statement_cases params b with ⟨message,h⟩ | ⟨body,h,u,hu,-,houter⟩
  · rw [h]
    exact .single rfl
  · rw [h]
    exact .block hu houter

theorem keepsScopes_reporter (params : List String) (b : Block) : KeepsScopes (expand params b).reporter := by
  obtain ⟨opcode,mutation,slots,fields⟩ := b
  change KeepsScopes (reporterCode ⟨.mk opcode mutation slots fields,params⟩ (expandSlots params slots))
  have hunknown : ∀ message, KeepsScopes [.warn message,.pushText ""] := fun message =>
    KeepsScopes.append (.single rfl : KeepsScopes [.warn message]) (.single rfl : KeepsScopes [.pushText ""])
  unfold reporterCode
  split
  next p _ =>
    cases p with
    | text s | variableOf r | listOf r | messageOf r => exact .single rfl
    | number written =>
      simp only [primitiveCode]
      split <;> exact .single rfl
    | colour written =>
      simp only [primitiveCode]
      split
      · exact .single rfl
      · exact KeepsScopes.append (.single rfl : KeepsScopes [.warn _]) (.single rfl : KeepsScopes [.pushNumber 0.0])
  · split
    next e id hfind =>
      split
      · obtain ⟨body,hcode,-,u,hu,-,houter⟩ := entryCode_passes _ (Tally.sound_expandSlots params slots) hfind
        rw [hcode]
        exact .block hu houter
      · exact hunknown _
    · exact hunknown _

structure SlotCode.KeepsScopes (c : SlotCode) : Prop where
  reporter : SpriteMachine.KeepsScopes c.reporter
  statements : SpriteMachine.KeepsScopes c.statements

theorem keepsScopes_expandSlot (params : List String) (s : Slot) : (expandSlot params s).KeepsScopes := by
  obtain ⟨name,blocks,shadow⟩ := s
  refine ⟨?_,?_⟩
  · match blocks, shadow with
    | b :: _, _ | [], some b => exact keepsScopes_reporter params b
    | [], none => exact .nil
  · change KeepsScopes ((expandBlocks params blocks).flatMap BlockCode.statement)
    rw [expandBlocks_eq_map,List.flatMap_map]
    exact .flatMap fun b _ => keepsScopes_statement params b

theorem keepsScopes_expandSlots {slots : List Slot} {c : SlotCode} (hc : c ∈ expandSlots params slots) : c.KeepsScopes := by
  induction slots with
  | nil => cases hc
  | cons s rest ih =>
    rcases List.mem_cons.1 hc with rfl | hc
    · exact keepsScopes_expandSlot params s
    · exact ih hc

theorem keepsScopes_stepCode (hslots : ∀ c ∈ slots, c.KeepsScopes) {s : Step} (hs : ∀ d, s ≠ .emit d) :
    KeepsScopes (stepCode params slots e id s) := by
  have hfind : ∀ name c, stepCode.find slots name = some c → c.KeepsScopes := fun name c hc =>
    hslots c (List.mem_of_find?_eq_some hc)
  have hinput : ∀ name, KeepsScopes (SlotCode.inputCode (stepCode.find slots name)) := by
    intro name
    unfold SlotCode.inputCode
    split
    next hc => exact (hfind name _ hc).reporter
    · exact .single rfl
  cases s with
  | input name => exact hinput name
  | number name =>
    simp only [stepCode,SlotCode.numberCode]
    split
    next hc =>
      split
      · exact .single rfl
      · exact .single rfl
      · exact (hfind name _ hc).reporter.append (.single rfl)
    · exact .single rfl
  | text name =>
    simp only [stepCode,SlotCode.textCode]
    split
    · exact .single rfl
    · exact (hinput name).append (.single rfl)
  | condition name =>
    simp only [stepCode,SlotCode.conditionCode]
    split
    next hc =>
      split
      · exact .single rfl
      · exact (hfind name _ hc).reporter
    · exact .single rfl
  | substack name =>
    simp only [stepCode,SlotCode.substackCode]
    split
    next hc => exact (hfind name _ hc).statements
    · exact .nil
  | inputs => exact .flatMap fun name _ => hinput name
  | callSelf => exact .single rfl
  | callEntry opcode =>
    simp only [stepCode,callEntryCode]
    split <;> exact .single rfl
  | emit d => exact absurd rfl (hs d)

/-- What is known about changes of the picture is written out, and nothing new becomes known. -/
theorem Emitter.pending_step {e : Emitter} (hd : ∀ tier, d ≠ .visual tier) (h : d.flushes = true ∨ e.pending = .none) :
    (e.step d).pending = .none := by
  have hop : ∀ {e' : Emitter} (o : Opcode) (ws : List UInt32), o.flushes = true ∨ e'.pending = .none →
      (e'.op o ws).pending = .none := by
    intro e' o ws ho
    unfold op
    split
    · simp [assemble]
    next hflush => exact ho.resolve_left hflush
  cases d with
  | op o ws | bound o ws => exact hop _ _ h
  | pushVariable r | pushList r => exact hop _ _ (.inr (h.resolve_left Bool.false_ne_true))
  | place i | here | jump o i | resume o i | call procedure argc | flush => simp [step,place,label,assemble]
  | visual tier => exact absurd rfl (hd tier)
  | _ => exact h.resolve_left Bool.false_ne_true

theorem Emitter.before_eq {e : Emitter} (h : d.flushes = false ∨ e.pending = .none) : e.before d = e := by
  rcases h with h | h
  · rw [before,h]
    rfl
  · rw [before,flush_of_none h,ite_self]

/-! Recipes -/

namespace Step

/-- How many labels a step makes. -/
def makes : Step → Nat
  | .emit .label | .emit .here => 1
  | _ => 0

def isFlat : Step → Bool
  | .emit .enter | .emit .leave => false
  | _ => true

def isInput : Step → Bool
  | .input _ | .number _ | .text _ | .condition _ => true
  | _ => false

/-- Whether a step lets nothing become known about changes of the picture. -/
def isQuiet : Step → Bool
  | .substack _ | .inputs | .emit (.visual _) => false
  | _ => true

end Step

/-- What the code of a block follows, and what its steps become code with. -/
structure Ground where
  first : Emitter
  before : List Directive
  params : List String
  slots : List SlotCode
  entry : Entry
  id : Nat
  steps : List Step

namespace Ground

variable (g : Ground)

def code : Step → List Directive :=
  stepCode g.params g.slots g.entry g.id

/-- The emitter after a number of steps. -/
def upTo (n : Nat) : Emitter :=
  g.first.run (g.before ++ .enter :: (g.steps.take n).flatMap g.code)

/-- The offset after a number of steps. -/
def pc (n : Nat) : Nat :=
  (g.upTo n).pc

/-- The labels that a number of steps make. -/
def made (n : Nat) : Nat :=
  ((g.steps.take n).map Step.makes).sum

/-- The label that the steps made at a number. -/
def label (i : Nat) : Nat :=
  (g.upTo g.steps.length).labelAt i

variable {g} {n : Nat} {st : Step}

theorem take_succ (hn : g.steps[n]? = some st) : g.steps.take (n + 1) = g.steps.take n ++ [st] := by
  rw [List.take_add_one,hn]
  rfl

theorem made_succ (hn : g.steps[n]? = some st) : g.made (n + 1) = g.made n + st.makes := by
  rw [made,take_succ hn]
  simp [made]

theorem upTo_succ (hn : g.steps[n]? = some st) : g.upTo (n + 1) = (g.upTo n).run (g.code st) := by
  rw [upTo,take_succ hn,List.flatMap_append,← List.cons_append,← List.append_assoc,Emitter.run_append]
  simp [upTo]

theorem upTo_emit {d : Directive} (hn : g.steps[n]? = some (.emit d)) : g.upTo (n + 1) = (g.upTo n).step d :=
  upTo_succ hn

end Ground

/-- The code of a block by the recipe of its entry, in a script. -/
structure Laid (s : Script) (g : Ground) (after : List Directive) : Prop where
  portion : Portion s g.first g.before (g.steps.flatMap g.code) after
  keeps : ∀ c ∈ g.slots, c.KeepsScopes
  queries : ∀ c ∈ g.slots, IsQuery c.reporter
  builtin : Palette.builtin? (UInt32.ofNat g.id) = g.entry.builtin
  flat : g.steps.all Step.isFlat = true

namespace Laid

variable {s : Script} {g : Ground} {after : List Directive} {d : Directive} {st : Step} {i m n : Nat}

theorem emission (h : Laid s g after) :
    Emission s g.first (g.before ++ .enter :: (g.steps.flatMap g.code ++ .leave :: after)) :=
  h.portion.emission

/-! Labels -/

theorem labels_step (h : Laid s g after) (hn : g.steps[n]? = some st) :
    ∃ more, (g.upTo (n + 1)).scope.labels = (g.upTo n).scope.labels ++ more ∧ more.size = st.makes := by
  have hflat : st.isFlat = true := List.all_eq_true.1 h.flat st (List.mem_of_getElem? hn)
  rw [Ground.upTo_succ hn]
  generalize g.upTo n = e
  have hsame : ∀ {e' : Emitter}, e'.scope = e.scope → st.makes = 0 →
      ∃ more, e'.scope.labels = e.scope.labels ++ more ∧ more.size = st.makes := by
    intro e' hscope hmakes
    exact ⟨#[],by rw [hscope,Array.append_empty],hmakes.symm⟩
  have hother : (∀ d, st ≠ .emit d) → (e.run (g.code st)).scope = e.scope :=
    fun hne => (keepsScopes_stepCode h.keeps hne e).1
  cases st with
  | emit d =>
    change ∃ more, (e.step d).scope.labels = e.scope.labels ++ more ∧ more.size = _
    cases d with
    | enter | leave => cases hflat
    | label => exact ⟨#[e.code.nextLabel],by simp [Emitter.step,Emitter.label],rfl⟩
    | here => exact ⟨#[e.code.nextLabel],by simp [Emitter.step,Emitter.label,Emitter.assemble,Assembler.nextLabel],rfl⟩
    | place i => exact hsame (by simp [Emitter.step,Emitter.place,Emitter.assemble]) rfl
    | call procedure argc => exact hsame (by simp [Emitter.step,Emitter.assemble]) rfl
    | bindVariable r | bindList r => exact ⟨#[],by simp [Emitter.step,Emitter.bind],rfl⟩
    | _ => exact hsame (e.step_keepsScope rfl).1 rfl
  | _ => exact hsame (hother (by rintro _ ⟨⟩)) rfl

theorem size_labels (h : Laid s g after) (hn : n ≤ g.steps.length) : (g.upTo n).scope.labels.size = g.made n := by
  induction n with
  | zero =>
    rw [Ground.upTo,Emitter.run_append]
    rfl
  | succ n ih =>
    have hget : g.steps[n]? = some g.steps[n] := List.getElem?_eq_getElem hn
    obtain ⟨more,hmore,hsize⟩ := h.labels_step hget
    rw [hmore,Array.size_append,ih (Nat.le_of_succ_le hn),hsize,Ground.made_succ hget]

theorem labels_keep (h : Laid s g after) (hm : n ≤ m) (hlen : m ≤ g.steps.length) (hi : i < g.made n) :
    i < g.made m ∧ (g.upTo m).scope.labels[i]? = (g.upTo n).scope.labels[i]? := by
  induction m with
  | zero =>
    obtain rfl : n = 0 := Nat.le_zero.1 hm
    exact ⟨hi,rfl⟩
  | succ m ih =>
    rcases Nat.lt_or_eq_of_le hm with hlt | rfl
    · have hget : g.steps[m]? = some g.steps[m] := List.getElem?_eq_getElem hlen
      obtain ⟨more,hmore,-⟩ := h.labels_step hget
      obtain ⟨hmade,hold⟩ := ih (Nat.le_of_lt_succ hlt) (Nat.le_of_succ_le hlen)
      have hsize := h.size_labels (Nat.le_of_succ_le hlen)
      refine ⟨?_,?_⟩
      · rw [Ground.made_succ hget]
        omega
      · rw [hmore,Array.getElem?_append_left (by omega),hold]
    · exact ⟨hi,rfl⟩

theorem label_eq (h : Laid s g after) (hn : n ≤ g.steps.length) (hi : i < g.made n) :
    (g.upTo n).scope.labels[i]? = some (g.label i) ∧ (g.upTo n).labelAt i = g.label i := by
  have hold := (h.labels_keep hn (Nat.le_refl _) hi).2
  have heq : (g.upTo n).labelAt i = g.label i := by rw [Emitter.labelAt,Ground.label,Emitter.labelAt,hold]
  have hlt : i < (g.upTo n).scope.labels.size := by
    rw [h.size_labels hn]
    exact hi
  have hget : (g.upTo n).scope.labels[i]? = some (g.upTo n).scope.labels[i] := Array.getElem?_eq_getElem hlt
  refine ⟨?_,heq⟩
  rw [← heq,Emitter.labelAt,hget,Option.getD_some]

theorem emission_at (h : Laid s g after) (n : Nat) : Emission s g.first
    ((g.before ++ .enter :: (g.steps.take n).flatMap g.code) ++ ((g.steps.drop n).flatMap g.code ++ .leave :: after)) := by
  have hsplit : g.steps.flatMap g.code = (g.steps.take n).flatMap g.code ++ (g.steps.drop n).flatMap g.code := by
    rw [← List.flatMap_append,List.take_append_drop]
  have hemission := h.emission
  rw [hsplit] at hemission
  simpa using hemission

theorem label_lt (h : Laid s g after) (hn : n ≤ g.steps.length) (hi : i < g.made n) :
    g.label i < (g.upTo n).code.labels.size := by
  obtain ⟨t,saves,hc⟩ := (h.emission_at n).course
  refine (hc.fits h.emission.fits).lt_of_mem ?_
  exact List.mem_flatMap.2 ⟨_,List.mem_cons_self,Array.mem_toList_iff.2 (Array.mem_of_getElem? (h.label_eq hn hi).1)⟩

theorem lt_length {st : Step} (hn : g.steps[n]? = some st) : n < g.steps.length :=
  (List.getElem?_eq_some_iff.1 hn).1

theorem drop_eq (hn : g.steps[n]? = some st) : g.steps.drop n = st :: g.steps.drop (n + 1) := by
  rw [List.drop_eq_getElem_cons (lt_length hn),(List.getElem?_eq_some_iff.1 hn).2]

theorem labels_place (h : Laid s g after) (hn : g.steps[n]? = some (.emit (.place i))) (hi : i < g.made n) :
    s.labels[g.label i]? = some (g.pc (n + 1)) := by
  have hlen := Nat.le_of_lt (lt_length hn)
  have hlt := h.label_lt hlen hi
  refine (h.emission_at (n + 1)).label_at ?_
  change (g.upTo (n + 1)).code.labels[_]? = _
  rw [Ground.pc,Ground.upTo_emit hn]
  simp only [Emitter.step,Emitter.place,Emitter.assemble,Assembler.place,(h.label_eq hlen hi).2,Emitter.pc,
    Emitter.flush_labels]
  rw [Array.getElem?_setIfInBounds,if_pos rfl,if_pos hlt]

theorem labels_here (h : Laid s g after) (hn : g.steps[n]? = some (.emit .here)) :
    s.labels[g.label (g.made n)]? = some (g.pc (n + 1)) := by
  have hlen := lt_length hn
  have hmade : g.made n < g.made (n + 1) := by
    rw [Ground.made_succ hn]
    exact Nat.lt_succ_self _
  refine (h.emission_at (n + 1)).label_at ?_
  change (g.upTo (n + 1)).code.labels[_]? = _
  rw [← (h.label_eq hlen hmade).2,← h.size_labels (Nat.le_of_lt hlen),Ground.pc,Ground.upTo_emit hn]
  simp [Emitter.step,Emitter.label,Emitter.assemble,Emitter.labelAt,Assembler.place,Assembler.newLabel,
    Assembler.nextLabel,Emitter.pc]

/-! Instructions -/

variable {ds : List Directive} {x : Instr} {o : Opcode} {target : Nat}

theorem emission_step (h : Laid s g after) (hn : g.steps[n]? = some st) (hcode : g.code st = d :: ds) :
    Emission s g.first ((g.before ++ .enter :: (g.steps.take n).flatMap g.code) ++
      d :: (ds ++ ((g.steps.drop (n + 1)).flatMap g.code ++ .leave :: after))) := by
  have hemission := h.emission_at n
  rw [drop_eq hn,List.flatMap_cons,hcode] at hemission
  simpa using hemission

/-- The instruction of a directive stands where the step begins, after what is known about changes of the picture. -/
theorem fetch_before (h : Laid s g after) (hn : g.steps[n]? = some st) (hcode : g.code st = d :: ds)
    (hi : (g.upTo n).written s d = some x) : s.fetch ((g.upTo n).before d).pc = .ok (x,((g.upTo n).step d).pc) := by
  have hrun : g.first.run ((g.before ++ .enter :: (g.steps.take n).flatMap g.code) ++ [d]) = (g.upTo n).step d :=
    Emitter.run_append _ _ _
  have hfetch := (h.emission_step hn hcode).fetch_at hi
  rw [hrun] at hfetch
  exact hfetch

theorem fetch_pending (h : Laid s g after) (hn : g.steps[n]? = some (.emit d))
    (hbefore : g.pc n ≠ ((g.upTo n).before d).pc) :
    s.fetch (g.pc n) = .ok (.visual (g.upTo n).pending.word,((g.upTo n).before d).pc) := by
  have hemission := h.emission_step hn rfl
  obtain ⟨t,saves,hc⟩ := hemission.course
  exact hemission.fetch_pending hc hbefore

theorem fetch (h : Laid s g after) (hn : g.steps[n]? = some (.emit d))
    (hpending : d.flushes = false ∨ (g.upTo n).pending = .none) (hi : (g.upTo n).written s d = some x) :
    s.fetch (g.pc n) = .ok (x,g.pc (n + 1)) := by
  have hfetch := h.fetch_before hn rfl hi
  rw [Emitter.before_eq hpending,← Ground.upTo_emit hn] at hfetch
  exact hfetch

theorem pc_unwritten (hn : g.steps[n]? = some (.emit d)) (hpending : d.flushes = false ∨ (g.upTo n).pending = .none)
    (hi : (g.upTo n).written s d = none) : g.pc (n + 1) = g.pc n := by
  have hpc := Script.Holds.pc_step hi
  rw [Emitter.before_eq hpending,← Ground.upTo_emit hn] at hpc
  exact hpc

/-- What is known about changes of the picture is written out before a directive, if there is anything. -/
theorem settles (h : Laid s g after) (hn : g.steps[n]? = some (.emit d)) :
    g.pc n = ((g.upTo n).before d).pc ∨ ∃ v, s.fetch (g.pc n) = .ok (.visual v,((g.upTo n).before d).pc) := by
  by_cases hbefore : g.pc n = ((g.upTo n).before d).pc
  · exact .inl hbefore
  · exact .inr ⟨_,h.fetch_pending hn hbefore⟩

theorem fetch_jump_before (h : Laid s g after) (hn : g.steps[n]? = some (.emit (.jump o i))) (hi : i < g.made n)
    (hl : s.labels[g.label i]? = some target) :
    s.fetch ((g.upTo n).before (.jump o i)).pc = .ok (.ofOperands o [UInt32.ofNat target],g.pc (n + 1)) := by
  rw [Ground.pc,Ground.upTo_emit hn]
  refine h.fetch_before hn rfl ?_
  rw [Emitter.written,(h.label_eq (Nat.le_of_lt (lt_length hn)) hi).2,hl,Option.getD_some]

theorem fetch_jump (h : Laid s g after) (hn : g.steps[n]? = some (.emit (.jump o i))) (hpending : (g.upTo n).pending = .none)
    (hi : i < g.made n) (hl : s.labels[g.label i]? = some target) :
    s.fetch (g.pc n) = .ok (.ofOperands o [UInt32.ofNat target],g.pc (n + 1)) := by
  have hfetch := h.fetch_jump_before hn hi hl
  rw [Emitter.before_eq (.inr hpending)] at hfetch
  exact hfetch

theorem fetch_resume_before (h : Laid s g after) (hn : g.steps[n]? = some (.emit (.resume o i))) (hi : i < g.made n)
    (hl : s.labels[g.label i]? = some target) :
    ∃ label, s.fetch ((g.upTo n).before (.resume o i)).pc = .ok (.ofOperands o [label],g.pc (n + 1)) ∧
      Continuation.pc ⟨s,label⟩ = target := by
  have hlen := Nat.le_of_lt (lt_length hn)
  refine ⟨UInt32.ofNat (g.label i),?_,?_⟩
  · rw [Ground.pc,Ground.upTo_emit hn]
    refine h.fetch_before hn rfl ?_
    rw [Emitter.written,(h.label_eq hlen hi).2]
  · have hemission := h.emission_at n
    have hsize := hemission.labels_size
    rw [Emitter.run_append] at hsize
    have hlt : g.label i < 2 ^ 32 :=
      Nat.lt_of_lt_of_le (h.label_lt hlen hi) (Nat.le_trans (Emitter.labels_size_le_run _ _) hsize)
    rw [Continuation.pc,UInt32.toNat_ofNat_of_lt' hlt,hl,Option.getD_some]

theorem fetch_resume (h : Laid s g after) (hn : g.steps[n]? = some (.emit (.resume o i)))
    (hpending : (g.upTo n).pending = .none) (hi : i < g.made n) (hl : s.labels[g.label i]? = some target) :
    ∃ label, s.fetch (g.pc n) = .ok (.ofOperands o [label],g.pc (n + 1)) ∧ Continuation.pc ⟨s,label⟩ = target := by
  obtain ⟨label,hfetch,hpc⟩ := h.fetch_resume_before hn hi hl
  rw [Emitter.before_eq (.inr hpending)] at hfetch
  exact ⟨label,hfetch,hpc⟩

theorem fetch_self (h : Laid s g after) (hn : g.steps[n]? = some .callSelf) :
    s.fetch (g.pc n) = .ok (.builtin (UInt32.ofNat g.id),g.pc (n + 1)) := by
  have hfetch := h.fetch_before hn rfl rfl
  rw [Ground.pc,Ground.pc,Ground.upTo_succ hn]
  exact hfetch

theorem fetch_entry (h : Laid s g after) {opcode : String} (hn : g.steps[n]? = some (.callEntry opcode)) {b : Builtin}
    (hb : Palette.helper? opcode = some b) :
    ∃ id, s.fetch (g.pc n) = .ok (.builtin id,g.pc (n + 1)) ∧ Palette.builtin? id = some b := by
  obtain ⟨id,hindex,hbuiltin⟩ := Palette.indexOf?_of_helper hb
  have hcode : g.code (.callEntry opcode) = [.op .callBuiltin [UInt32.ofNat id]] := by
    simp only [Ground.code,stepCode,callEntryCode,hindex]
  have hfetch := h.fetch_before hn hcode rfl
  refine ⟨_,?_,hbuiltin⟩
  rw [Ground.pc,Ground.pc,Ground.upTo_succ hn,hcode]
  exact hfetch

theorem pc_lt (h : Laid s g after) (n : Nat) : g.pc n < 2 ^ 32 := by
  have hemission := h.emission_at n
  refine Nat.lt_of_le_of_lt ?_ hemission.size
  rw [Emitter.run_append]
  exact (Emitter.run_grows _ _).size

theorem isQuery_code (h : Laid s g after) (hst : st.isInput = true) : IsQuery (g.code st) := by
  have hfind : ∀ name c, stepCode.find g.slots name = some c → IsQuery c.reporter := fun name c hc =>
    h.queries c (List.mem_of_find?_eq_some hc)
  cases st with
  | input name => exact forall_inputCode isQuery_of_isSupport (hfind name)
  | number name => exact forall_numberCode isQuery_of_isSupport (hfind name)
  | text name => exact forall_textCode isQuery_of_isSupport (hfind name)
  | condition name => exact forall_conditionCode isQuery_of_isSupport (hfind name)
  | _ => cases hst

def Computing (g : Ground) (n : Nat) (pc : Nat) : Prop :=
  Amid g.first (g.before ++ .enter :: (g.steps.take n).flatMap g.code) (((g.steps[n]?).map g.code).getD []) pc

theorem computing_start (g : Ground) (n : Nat) : Computing g n (g.pc n) :=
  ⟨[],_,rfl,by rw [List.append_nil]; rfl⟩

theorem computing (h : Laid s g after) (hn : g.steps[n]? = some st) (hst : st.isInput = true) {pc : Nat}
    (hpc : Computing g n pc) : pc = g.pc (n + 1) ∨
      ∃ x next, s.fetch pc = .ok (x,next) ∧ x.isQuery = true ∧ Computing g n next := by
  have hemission := h.emission_at n
  rw [drop_eq hn,List.flatMap_cons,List.append_assoc (g.code st)] at hemission
  have hcode : ((g.steps[n]?).map g.code).getD [] = g.code st := by rw [hn]; rfl
  unfold Computing at hpc ⊢
  rw [hcode] at hpc ⊢
  have hend : (g.first.run ((g.before ++ .enter :: (g.steps.take n).flatMap g.code) ++ g.code st)).pc = g.pc (n + 1) := by
    rw [Ground.pc,Ground.upTo_succ hn,Emitter.run_append]
    rfl
  rw [← hend]
  exact hemission.steps_query (h.isQuery_code hst) hpc

theorem pending_succ (h : Laid s g after) (hn : g.steps[n]? = some st) (hst : st.isQuiet = true)
    (hpending : (g.upTo n).pending = .none) : (g.upTo (n + 1)).pending = .none := by
  have hquery : ∀ {ds : List Directive} {e : Emitter}, IsQuery ds → e.pending = .none → (e.run ds).pending = .none := by
    intro ds
    induction ds with
    | nil => exact fun _ he => he
    | cons d ds ih =>
      intro e hds he
      refine ih (fun d hd => hds d (List.mem_cons_of_mem _ hd)) (Emitter.pending_step ?_ (.inr he))
      rintro tier rfl
      cases hds _ List.mem_cons_self
  rw [Ground.upTo_succ hn]
  cases st with
  | input _ | number _ | text _ | condition _ => exact hquery (h.isQuery_code rfl) hpending
  | callSelf => exact Emitter.pending_step (d := .op .callBuiltin _) (by rintro _ ⟨⟩) (.inr hpending)
  | callEntry opcode =>
    simp only [Ground.code,stepCode,callEntryCode]
    split
    · exact Emitter.pending_step (d := .op .callBuiltin _) (by rintro _ ⟨⟩) (.inr hpending)
    · exact Emitter.pending_step (d := .warn _) (by rintro _ ⟨⟩) (.inr hpending)
  | emit d =>
    refine Emitter.pending_step ?_ (.inr hpending)
    rintro tier rfl
    cases hst
  | _ => cases hst

theorem pending_flush (hn : g.steps[n]? = some (.emit d)) (hd : ∀ tier, d ≠ .visual tier) (hflushes : d.flushes = true) :
    (g.upTo (n + 1)).pending = .none := by
  rw [Ground.upTo_emit hn]
  exact Emitter.pending_step hd (.inl hflushes)

end Laid

/-! Blocks of a script -/

/-- The code of a block that is run stands between two offsets of a script. -/
def Script.Contains (s : Script) (params : List String) (b : Block) (start stop : Nat) : Prop :=
  ∃ symbols name blocks o id after pre post, Compile.Ends o ∧
    Compile.script symbols name params blocks o id = .ok (s,after) ∧
    expandStack params blocks = pre ++ ((expand params b).statement ++ post) ∧
    start = ((Emitter.start symbols name).run pre).pc ∧
    stop = ((Emitter.start symbols name).run (pre ++ (expand params b).statement)).pc

theorem Script.Contains.portion {s : Script} {start stop : Nat} (h : s.Contains params b start stop)
    (hsmall : s.code.size < 2 ^ 32) :
    start = stop ∨ ∃ first before body after, Portion s first before body after ∧
      start = (first.run before).pc ∧ stop = Portion.finish first before body := by
  obtain ⟨symbols,name,blocks,o,id,after,pre,post,ho,hs,hblocks,rfl,rfl⟩ := h
  have hemission := (Compile.emission hs ho hsmall).1
  rcases statement_cases params b with ⟨message,hstatement⟩ | ⟨body,hstatement,hpasses⟩
  · refine .inl ?_
    rw [hstatement,Emitter.run_append]
    rfl
  · refine .inr ⟨_,pre,body,post ++ [.op o []],⟨?_,hpasses⟩,rfl,?_⟩
    · rw [hblocks,hstatement] at hemission
      simpa using hemission
    · have happend : pre ++ .enter :: (body ++ [.leave]) = (pre ++ .enter :: body) ++ [.leave] := by simp
      rw [hstatement,happend,Emitter.run_append]
      rfl

def Ground.following (first : Emitter) (before : List Directive) (params : List String) (b : Block) (e : Entry) (id : Nat) :
    Ground where
  first := first
  before := before
  params := params
  slots := expandSlots params b.slots
  entry := e
  id := id
  steps := e.steps ⟨b,params⟩

theorem Emission.laid {s : Script} {first : Emitter} {before after : List Directive}
    (h : Emission s first (before ++ ((expand params b).statement ++ after))) (he : e ∈ Palette.entries.toList)
    (hopcode : b.opcode = e.opcode) (hreporter : e.reporter = false) (hflat : (e.steps ⟨b,params⟩).all Step.isFlat = true) :
    ∃ id, Palette.find? e.opcode = some (e,id) ∧ Laid s (.following first before params b e id) after ∧
      (expand params b).statement = .enter :: ((e.steps ⟨b,params⟩).flatMap
        (Ground.following first before params b e id).code ++ [.leave]) ∧
      (first.run before).pc = (Ground.following first before params b e id).pc 0 ∧
      (first.run (before ++ (expand params b).statement)).pc =
        (Ground.following first before params b e id).pc (e.steps ⟨b,params⟩).length := by
  obtain ⟨id,hfind,-,hbuiltin⟩ := Palette.find?_of_mem he
  have hstatement : (expand params b).statement =
      .enter :: ((e.steps ⟨b,params⟩).flatMap (stepCode params (expandSlots params b.slots) e id) ++ [.leave]) :=
    expand_statement (hopcode ▸ hfind) hreporter params
  refine ⟨id,hfind,⟨⟨?_,?_⟩,fun c hc => keepsScopes_expandSlots hc,isQuery_expandSlots params b.slots,hbuiltin,
    hflat⟩,hstatement,?_,?_⟩
  · rw [hstatement] at h
    change Emission s first (before ++ .enter :: ((e.steps ⟨b,params⟩).flatMap
      (stepCode params (expandSlots params b.slots) e id) ++ .leave :: after))
    simpa using h
  · obtain ⟨body,-,rfl,hpasses⟩ := entryCode_passes ⟨b,params⟩ (Tally.sound_expandSlots params b.slots) hfind
    exact hpasses
  · rw [Ground.pc,Ground.upTo,Emitter.run_append]
    rfl
  · have happend : before ++ .enter :: ((e.steps ⟨b,params⟩).flatMap (stepCode params (expandSlots params b.slots) e id) ++
        [.leave]) = (before ++ .enter :: (e.steps ⟨b,params⟩).flatMap (stepCode params (expandSlots params b.slots) e id)) ++
          [.leave] := by simp
    have hwhole : (Ground.following first before params b e id).steps.take (e.steps ⟨b,params⟩).length =
        e.steps ⟨b,params⟩ := List.take_length
    rw [hstatement,happend,Emitter.run_append,Ground.pc,Ground.upTo,hwhole]
    rfl

/-- What the code of a block stands on in the script of some blocks. -/
def Ground.ofBlock (symbols : Symbols) (name : String) (params : List String) (pre : List Directive) (b : Block) (e : Entry)
    (id : Nat) : Ground where
  first := .start symbols name
  before := pre
  params := params
  slots := expandSlots params b.slots
  entry := e
  id := id
  steps := e.steps ⟨b,params⟩

theorem Compile.laid {symbols after : Symbols} {name : String} {params : List String} {blocks : List Block} {o : Opcode}
    {endId : Nat} {s : Script} (ho : Compile.Ends o) (hs : Compile.script symbols name params blocks o endId = .ok (s,after))
    (hsmall : s.code.size < 2 ^ 32) {pre post : List Directive} {b : Block}
    (hblocks : expandStack params blocks = pre ++ ((expand params b).statement ++ post)) {e : Entry}
    (he : e ∈ Palette.entries.toList) (hopcode : b.opcode = e.opcode) (hreporter : e.reporter = false)
    (hflat : (e.steps ⟨b,params⟩).all Step.isFlat = true) :
    ∃ id, Laid s (.ofBlock symbols name params pre b e id) (post ++ [.op o []]) ∧
      (expand params b).statement = .enter :: ((e.steps ⟨b,params⟩).flatMap
        (Ground.ofBlock symbols name params pre b e id).code ++ [.leave]) ∧
      ((Emitter.start symbols name).run pre).pc = (Ground.ofBlock symbols name params pre b e id).pc 0 ∧
      ((Emitter.start symbols name).run (pre ++ (expand params b).statement)).pc =
        (Ground.ofBlock symbols name params pre b e id).pc (e.steps ⟨b,params⟩).length := by
  have hemission := (Compile.emission hs ho hsmall).1
  rw [hblocks,List.append_assoc,List.append_assoc] at hemission
  obtain ⟨id,-,hlaid⟩ := hemission.laid he hopcode hreporter hflat
  exact ⟨id,hlaid⟩

theorem Script.Contains.laid {s : Script} {params : List String} {b : Block} {start stop : Nat}
    (h : s.Contains params b start stop) (hsmall : s.code.size < 2 ^ 32) {e : Entry} (he : e ∈ Palette.entries.toList)
    (hopcode : b.opcode = e.opcode) (hreporter : e.reporter = false)
    (hflat : (e.steps ⟨b,params⟩).all Step.isFlat = true) :
    ∃ g after, Laid s g after ∧ g.entry = e ∧ g.steps = e.steps ⟨b,params⟩ ∧ start = g.pc 0 ∧
      stop = g.pc g.steps.length := by
  obtain ⟨symbols,name,blocks,o,endId,symbols',pre,post,ho,hs,hblocks,rfl,rfl⟩ := h
  obtain ⟨id,hlaid,-,hstart,hstop⟩ := Compile.laid ho hs hsmall hblocks he hopcode hreporter hflat
  exact ⟨_,_,hlaid,rfl,rfl,hstart,hstop⟩

end SpriteMachine
