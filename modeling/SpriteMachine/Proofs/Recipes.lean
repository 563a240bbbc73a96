import SpriteMachine.Proofs.Lookup
import SpriteMachine.Proofs.Tally

/-!
Every recipe of the palette keeps the tally: a statement leaves saved locals and labels as it found them, and a
reporter leaves one operand more. So does the code of every block tree.
-/

namespace SpriteMachine

/-- The builtins that recipes of other entries call. -/
def Palette.helper? : String → Option Builtin
  | "motion_glide.step" => some (.motion .glideStep)
  | "looks_sayforsecs.clear" => some (.looks .endSay)
  | "sensing_askandwait.ticket" => some (.sensing .takeTicket)
  | "sensing_askandwait.turn" => some (.sensing .currentTicket)
  | "sensing_askandwait.done" => some (.sensing .endAsk)
  | _ => none

namespace Tally

/-- Passes the call of a builtin. -/
def invoke (t : Tally) (b : Builtin) : Option Tally :=
  if !b.setsLocals || decide (0 < t.level.saves) then (t.take b.arity.1).map (·.push b.arity.2) else none

/-- Passes a step of the recipe of an entry. -/
def follow (e : Entry) (t : Tally) : Step → Option Tally
  | .input _ | .number _ | .text _ | .condition _ => some (t.push 1)
  | .substack _ => some { t with depth := 0 }
  | .inputs => some (t.push e.inputs.length)
  | .callSelf => e.builtin.bind t.invoke
  | .callEntry opcode => (Palette.helper? opcode).bind t.invoke
  | .emit d => t.step d

end Tally

def Entry.steps (e : Entry) (site : Site) : List Step :=
  match e.recipe with
  | some recipe => recipe site
  | none => [.inputs,.callSelf]

/-- Whether a step leaves the operands that it finds. -/
def Step.isExact : Step → Bool
  | .substack _ => false
  | _ => true

/-- The steps of an entry pass in a block of their own, and those of a reporter leave one value more. -/
def Entry.Checks (e : Entry) : Prop :=
  ∀ site d outer, ∃ u, (e.steps site).foldlM (Tally.follow e) ⟨d,{},outer⟩ = some u ∧
    u.level.isDone = true ∧ u.outer = outer ∧
    (e.reporter = true → u.depth = d + 1 ∧ (e.steps site).all Step.isExact = true)

namespace Palette

open Entry Step

variable {b : Builtin}

theorem checks_callProcedure (opcode : String) : (statement opcode callProcedure).Checks := by
  intro site d outer
  simp only [steps,statement,callProcedure]
  split
  · exact ⟨_,rfl,rfl,rfl,nofun⟩
  next m hm =>
    have hargs : ∀ (args : List String) (t : Tally), (args.map input).foldlM (Tally.follow
        (statement opcode callProcedure)) t = some (t.push args.length) := by
      intro args
      induction args with
      | nil => exact fun _ => rfl
      | cons a args ih =>
        intro t
        change (args.map input).foldlM _ (t.push 1) = _
        rw [ih,Tally.push_push,List.length_cons,Nat.add_comm]
    have htake : (Tally.push ⟨d,{},outer⟩ m.argumentIds.length).take m.argumentIds.length =
        some ⟨d,{},outer⟩ := Tally.take_eq_some.2 ⟨Nat.le_add_left _ _,by simp [Tally.push]⟩
    refine ⟨⟨0,{},outer⟩,?_,rfl,rfl,nofun⟩
    rw [List.foldlM_append]
    refine (congrArg (Option.bind · _) (hargs m.argumentIds ⟨d,{},outer⟩)).trans ?_
    change ((Tally.take _ _).map _).bind some = _
    rw [htake]
    rfl

set_option maxRecDepth 2000 in
theorem entries_check : ∀ {e : Entry}, e ∈ entries.toList → e.Checks := by
  simp only [entries,motion,looks,sound,events,control,sensing,operators,data,procedures,pen,music,List.cons_append,
    List.nil_append,List.forall_mem_cons,List.not_mem_nil,false_imp_iff,implies_true,and_true]
  and_intros
  all_goals
    intro site d outer
    first
    | refine ⟨_,rfl,rfl,rfl,?_⟩
    -- The recipes that look at a field of their block have two forms.
    | simp only [steps,statement,value,setRotation,shiftLayer,pitch,stop,comparison,mathFunction,withVariable,withList,
        parameter]
      split <;> refine ⟨_,rfl,rfl,rfl,?_⟩
    | exact checks_callProcedure _ site d outer
  all_goals first
    | exact fun _ => ⟨rfl,rfl⟩
    | exact fun h => absurd h Bool.false_ne_true

theorem indexOf?_of_helper {opcode : String} (h : helper? opcode = some b) :
    ∃ id, indexOf? opcode = some id ∧ builtin? (UInt32.ofNat id) = some b := by
  have hentry : ∀ {e : Entry}, e ∈ entries.toList → e.opcode = opcode → e.builtin = some b →
      ∃ id, indexOf? opcode = some id ∧ builtin? (UInt32.ofNat id) = some b := by
    intro e he hopcode hb
    obtain ⟨id,-,hindex,hbuiltin⟩ := find?_of_mem he
    exact ⟨id,hopcode ▸ hindex,hbuiltin.trans hb⟩
  unfold helper? at h
  split at h
  · exact hentry (mem_of_group (g := motion) (i := 7) (by simp) rfl) rfl h
  · exact hentry (mem_of_group (g := looks) (i := 4) (by simp) rfl) rfl h
  · exact hentry (mem_of_group (g := sensing) (i := 1) (by simp) rfl) rfl h
  · exact hentry (mem_of_group (g := sensing) (i := 2) (by simp) rfl) rfl h
  · exact hentry (mem_of_group (g := sensing) (i := 3) (by simp) rfl) rfl h
  · cases h

end Palette

/-! Block trees -/

/-- What holds of a block if it holds of what is in its slots holds of all blocks. -/
theorem Block.induction {P : Block → Prop} {S : Slot → Prop} (block : ∀ b : Block, (∀ s ∈ b.slots, S s) → P b)
    (slot : ∀ name blocks shadow, (∀ b ∈ blocks, P b) → (∀ b, shadow = some b → P b) → S (.mk name blocks shadow)) :
    ∀ b, P b :=
  @Block.rec P S (fun slots => ∀ s ∈ slots, S s) (fun blocks => ∀ b ∈ blocks, P b) (fun shadow => ∀ b, shadow = some b → P b)
    (fun opcode mutation slots fields hslots => block (.mk opcode mutation slots fields) hslots)
    (fun name blocks shadow => slot name blocks shadow) (by simp) (fun _ _ hs hrest => List.forall_mem_cons.2 ⟨hs,hrest⟩)
    (by simp) (fun _ _ hb hrest => List.forall_mem_cons.2 ⟨hb,hrest⟩) nofun (fun _ hb _ h => Option.some.inj h ▸ hb)

theorem expandSlots_eq_map (params : List String) (slots : List Slot) :
    expandSlots params slots = slots.map (expandSlot params) := by
  induction slots with
  | nil => rw [expandSlots,List.map_nil]
  | cons s rest ih => rw [expandSlots,ih,List.map_cons]

theorem expandBlocks_eq_map (params : List String) (blocks : List Block) :
    expandBlocks params blocks = blocks.map (expand params) := by
  induction blocks with
  | nil => rw [expandBlocks,List.map_nil]
  | cons b blocks ih => rw [expandBlocks,ih,List.map_cons]

theorem expandStack_cons (params : List String) (b : Block) (blocks : List Block) :
    expandStack params (b :: blocks) = (expand params b).statement ++ expandStack params blocks := by
  simp only [expandStack,expandBlocks,List.flatMap_cons]

theorem expandSlot_name (params : List String) : ∀ s : Slot, (expandSlot params s).name = s.name
  | .mk .. => rfl

theorem find_expandSlots (params : List String) (slots : List Slot) (name : String) :
    stepCode.find (expandSlots params slots) name = (slots.find? fun s => s.name == name).map (expandSlot params) := by
  rw [stepCode.find,expandSlots_eq_map,List.find?_map]
  simp only [Function.comp_def,expandSlot_name]

theorem expand_statement {b : Block} {e : Entry} {id : Nat} (hfind : Palette.find? b.opcode = some (e,id))
    (hreporter : e.reporter = false) (params : List String) :
    (expand params b).statement = entryCode ⟨b,params⟩ (expandSlots params b.slots) e id := by
  obtain ⟨opcode,mutation,slots,fields⟩ := b
  change statementCode ⟨.mk opcode mutation slots fields,params⟩ (expandSlots params slots) = _
  simp only [statementCode,hfind,hreporter]
  rfl

namespace Tally

/-- Code that adds one operand. -/
def Adds (ds : List Directive) : Prop :=
  ∀ t : Tally, t.run ds = some (t.push 1)

end Tally

structure SlotCode.Sound (c : SlotCode) : Prop where
  reporter : c.value.isSome = true → Tally.Adds c.reporter
  statements : ∀ t : Tally, t.Reaches c.statements { t with depth := 0 }

namespace Tally

variable {t u : Tally}

theorem run_singleton (t : Tally) (d : Directive) : t.run [d] = t.step d := by
  rw [run_cons]
  cases t.step d <;> rfl

variable {d : Directive} {params : List String} {blocks : List Block}

theorem Adds.of_step (h : ∀ t : Tally, t.step d = some (t.push 1)) : Adds [d] := fun t => by
  rw [run_singleton,h]

theorem Adds.convert {ds : List Directive} (h : Adds ds) (hd : ∀ t : Tally, (t.push 1).step d = some (t.push 1)) :
    Adds (ds ++ [d]) := fun t => by
  rw [run_append,h t,Option.bind_some,run_singleton,hd]

section Slots

variable {params : List String} {c : Option SlotCode} (hc : ∀ s, c = some s → s.Sound)
include hc

theorem adds_inputCode : Adds (SlotCode.inputCode c) := by
  unfold SlotCode.inputCode
  split
  · exact (hc _ rfl).reporter rfl
  · exact .of_step fun _ => rfl

theorem adds_numberCode : Adds (SlotCode.numberCode params c) := by
  unfold SlotCode.numberCode
  split
  · split
    · exact .of_step fun _ => rfl
    · exact .of_step fun _ => rfl
    · exact ((hc _ rfl).reporter rfl).convert fun _ => rfl
  · exact .of_step fun _ => rfl

theorem adds_textCode : Adds (SlotCode.textCode c) := by
  unfold SlotCode.textCode
  split
  · exact .of_step fun _ => rfl
  · exact (adds_inputCode hc).convert fun _ => rfl

theorem adds_conditionCode : Adds (SlotCode.conditionCode params c) := by
  unfold SlotCode.conditionCode
  split
  · split
    · exact .of_step fun _ => rfl
    · exact (hc _ rfl).reporter rfl
  · exact .of_step fun _ => rfl

theorem reaches_substackCode (t : Tally) : t.Reaches (SlotCode.substackCode c) { t with depth := 0 } := by
  unfold SlotCode.substackCode
  split
  · exact (hc _ rfl).statements t
  · exact ⟨t.depth,by simp [run,push]⟩

end Slots

theorem step_builtin {id : UInt32} {b : Builtin} (hb : Palette.builtin? id = some b) (t : Tally) :
    t.step (.op .callBuiltin [id]) = t.invoke b := by
  have harity : (Instr.builtin id).arity? = some b.arity := by
    rw [Instr.arity?,hb]
    rfl
  have hsets : (Instr.builtin id).setsLocals = b.setsLocals := by
    rw [Instr.setsLocals,hb]
    rfl
  have hperform : t.perform (.builtin id) =
      if !b.setsLocals || decide (0 < t.level.saves) then t.operate (.builtin id) else none := by
    simp only [perform,Instr.handle?,Option.isNone_none,Bool.true_and,guards,hsets]
  have hinstr : Instr.ofOperands .callBuiltin [id] = .builtin id := rfl
  have hlen : [id].length = Opcode.callBuiltin.operandWords := rfl
  rw [step,if_pos hlen,hinstr,hperform,operate,harity,invoke]

section Steps

variable {params : List String} {slots : List SlotCode} (hslots : ∀ c ∈ slots, c.Sound) {e : Entry} {id : Nat}
  (hb : Palette.builtin? (UInt32.ofNat id) = e.builtin)
include hslots hb

theorem run_stepCode {s : Step} (hs : s.isExact = true) (h : t.follow e s = some u) :
    t.run (stepCode params slots e id s) = some u := by
  have hfind : ∀ name c, stepCode.find slots name = some c → c.Sound := fun name c hc =>
    hslots c (List.mem_of_find?_eq_some hc)
  have hcall : ∀ {id : Nat} {b : Builtin}, Palette.builtin? (UInt32.ofNat id) = some b → t.invoke b = some u →
      t.run [.op .callBuiltin [UInt32.ofNat id]] = some u := fun hid hu => by rw [run_singleton,step_builtin hid,hu]
  cases s with
  | input name =>
    cases h
    exact adds_inputCode (hfind name) t
  | number name =>
    cases h
    exact adds_numberCode (hfind name) t
  | text name =>
    cases h
    exact adds_textCode (hfind name) t
  | condition name =>
    cases h
    exact adds_conditionCode (hfind name) t
  | inputs =>
    cases h
    clear hcall
    unfold stepCode
    generalize e.inputs = names
    induction names generalizing t with
    | nil => rfl
    | cons name names ih =>
      rw [List.flatMap_cons,List.length_cons,Nat.add_comm,← push_push,run_append,adds_inputCode (hfind name) t]
      exact ih
  | callSelf =>
    obtain ⟨b,hbuiltin,hu⟩ := Option.bind_eq_some_iff.1 h
    exact hcall (hb.trans hbuiltin) hu
  | callEntry opcode =>
    obtain ⟨b,hhelper,hu⟩ := Option.bind_eq_some_iff.1 h
    obtain ⟨id',hindex,hbuiltin⟩ := Palette.indexOf?_of_helper hhelper
    have hcode : stepCode params slots e id (.callEntry opcode) = [.op .callBuiltin [UInt32.ofNat id']] := by
      simp only [stepCode,callEntryCode,hindex]
    rw [hcode]
    exact hcall hbuiltin hu
  | emit d => exact (run_singleton t d).trans h
  | substack name => cases hs

theorem reaches_stepCode {s : Step} (h : t.follow e s = some u) : t.Reaches (stepCode params slots e id s) u := by
  cases s with
  | substack name =>
    cases h
    exact reaches_substackCode (fun c hc => hslots c (List.mem_of_find?_eq_some hc)) t
  | _ => exact ⟨0,run_stepCode hslots hb rfl h⟩

theorem reaches_steps {steps : List Step} (h : steps.foldlM (follow e) t = some u) :
    ∃ k, t.run (steps.flatMap (stepCode params slots e id)) = some (u.push k) ∧ (steps.all Step.isExact = true → k = 0) := by
  induction steps generalizing t with
  | nil =>
    cases h
    exact ⟨0,rfl,fun _ => rfl⟩
  | cons s steps ih =>
    obtain ⟨v,hv,h⟩ := Option.bind_eq_some_iff.1 h
    obtain ⟨k,hrun,hexact⟩ := ih h
    rw [List.flatMap_cons,List.all_cons]
    by_cases hs : s.isExact = true
    · rw [run_append,run_stepCode hslots hb hs hv]
      exact ⟨k,hrun,fun hall => hexact (Bool.and_eq_true_iff.1 hall).2⟩
    · obtain ⟨k',hrest⟩ := (reaches_stepCode hslots hb hv).append ⟨k,hrun⟩
      exact ⟨k',hrest,fun hall => absurd (Bool.and_eq_true_iff.1 hall).1 hs⟩

/-- A block leaves the tally as it found it, apart from operands; a reporter has added one. -/
theorem reaches_entryCode (he : e.Checks) (site : Site) (t : Tally) :
    ∃ k, t.run (entryCode site slots e id) = some { t with depth := k } ∧ (e.reporter = true → k = t.depth + 1) := by
  obtain ⟨u,hu,hdone,houter,hreporter⟩ := he site t.depth (t.level :: t.outer)
  obtain ⟨k,hrun,hexact⟩ : ∃ k, Tally.run _ ((e.steps site).flatMap (stepCode site.params slots e id)) = some (u.push k) ∧ _ :=
    reaches_steps hslots hb hu
  have hleave : (u.push k).step .leave = some { t with depth := u.depth + k } := by
    refine step_leave.2 ⟨t.level,t.outer,houter,hdone,rfl⟩
  refine ⟨u.depth + k,?_,fun hr => by rw [hexact (hreporter hr).2,(hreporter hr).1]⟩
  change (Tally.run ⟨t.depth,{},t.level :: t.outer⟩ (_ ++ [.leave])) = _
  rw [run_append]
  refine (congrArg (Option.bind · _) hrun).trans ?_
  change ((u.push k).step .leave).bind some = _
  rw [hleave]
  rfl

end Steps

/-- The code of a block keeps the tally, as a statement and as a reporter. -/
structure Keeps (c : BlockCode) : Prop where
  statement : ∀ t : Tally, t.Reaches c.statement { t with depth := 0 }
  reporter : Adds c.reporter

theorem adds_primitiveCode (p : Primitive) : Adds (primitiveCode p) := by
  cases p with
  | text s | variableOf r | listOf r | messageOf r => exact .of_step fun _ => rfl
  | number written =>
    simp only [primitiveCode]
    split <;> exact .of_step fun _ => rfl
  | colour written =>
    simp only [primitiveCode]
    split
    · exact .of_step fun _ => rfl
    · exact fun _ => rfl

section Blocks

variable {site : Site} {slots : List SlotCode} (hslots : ∀ c ∈ slots, c.Sound)
include hslots

theorem reaches_statementCode (t : Tally) : t.Reaches (statementCode site slots) { t with depth := 0 } := by
  have hnothing : ∀ message, t.Reaches [.warn message] { t with depth := 0 } := fun _ => ⟨t.depth,by simp [run,push]⟩
  unfold statementCode
  split
  next e id hfind =>
    split
    · exact hnothing _
    · obtain ⟨he,-,hb⟩ := Palette.find?_eq_some hfind
      obtain ⟨k,hrun,-⟩ := reaches_entryCode hslots hb (Palette.entries_check he) site t
      exact ⟨k,by simpa [push] using hrun⟩
  · exact hnothing _

theorem adds_reporterCode : Adds (reporterCode site slots) := by
  have hunknown : Adds [.warn s!"unknown expression {site.block.opcode}",.pushText ""] := fun _ => rfl
  unfold reporterCode
  split
  · exact adds_primitiveCode _
  · split
    next e id hfind =>
      split
      next hr =>
        intro t
        obtain ⟨he,-,hb⟩ := Palette.find?_eq_some hfind
        obtain ⟨k,hrun,hk⟩ := reaches_entryCode hslots hb (Palette.entries_check he) site t
        rw [hrun,hk hr]
        rfl
      · exact hunknown
    · exact hunknown

end Blocks

theorem reaches_statements {codes : List BlockCode} (h : ∀ c ∈ codes, Keeps c) (t : Tally) :
    t.Reaches (codes.flatMap BlockCode.statement) { t with depth := 0 } := by
  induction codes generalizing t with
  | nil => exact ⟨t.depth,by simp [run,push]⟩
  | cons c codes ih =>
    exact ((h c List.mem_cons_self).statement t).append (ih (fun c hc => h c (List.mem_cons_of_mem _ hc)) _)

theorem keeps_expandBlocks (h : ∀ b ∈ blocks, Keeps (expand params b)) : ∀ c ∈ expandBlocks params blocks, Keeps c := by
  simpa [expandBlocks_eq_map] using h

theorem sound_slotCode {name : String} {shadow : Option Block} (hblocks : ∀ b ∈ blocks, Keeps (expand params b))
    (hshadow : ∀ b, shadow = some b → Keeps (expand params b)) : (expandSlot params (.mk name blocks shadow)).Sound := by
  refine ⟨fun hv => ?_,fun t => reaches_statements (keeps_expandBlocks hblocks) t⟩
  cases blocks with
  | cons b rest => exact (hblocks b List.mem_cons_self).reporter
  | nil =>
    cases shadow with
    | none => cases hv
    | some b => exact (hshadow b rfl).reporter

theorem sound_slots {slots : List Slot} (h : ∀ s ∈ slots, (expandSlot params s).Sound) :
    ∀ c ∈ expandSlots params slots, c.Sound := by
  simpa [expandSlots_eq_map] using h

theorem keeps_expand (params : List String) : ∀ b : Block, Keeps (expand params b) := by
  refine Block.induction (S := fun s => (expandSlot params s).Sound) ?_ fun _ _ _ => sound_slotCode
  rintro ⟨opcode,mutation,slots,fields⟩ hslots
  exact ⟨reaches_statementCode (sound_slots hslots),adds_reporterCode (sound_slots hslots)⟩

theorem sound_expandSlots (params : List String) (slots : List Slot) : ∀ c ∈ expandSlots params slots, c.Sound :=
  sound_slots fun ⟨_,_,_⟩ _ => sound_slotCode (fun b _ => keeps_expand params b) fun b _ => keeps_expand params b

theorem reaches_expandStack (params : List String) (blocks : List Block) (t : Tally) :
    t.Reaches (expandStack params blocks) { t with depth := 0 } :=
  reaches_statements (keeps_expandBlocks fun b _ => keeps_expand params b) t

end Tally

end SpriteMachine
