import SpriteMachine.Proofs.Merging

/-!
Scripts without the blocks that are not known as statements. Leaving these out, at any depth of the scripts inside blocks,
changes nothing about the code, its constants and labels and the tables; only the warnings about them are missing.
-/

namespace SpriteMachine

/-! Scripts inside blocks -/

def Palette.isStatement (opcode : String) : Bool :=
  (find? opcode).any fun e => !e.1.reporter

/-- The slot whose script a step runs. -/
def Step.body? : Step → Option String
  | .substack slot => some slot
  | _ => none

/-- The slots of a block that hold the scripts inside it. -/
def Block.bodies (b : Block) : List String :=
  match Palette.find? b.opcode with
  | some (e,_) => (e.steps ⟨b,[]⟩).filterMap Step.body?
  | none => []

mutual

/-- A statement without the unknown statements in the scripts inside it. -/
def Block.prune : Block → Block
  | .mk opcode mutation slots fields =>
    .mk opcode mutation (pruneSlots (Block.mk opcode mutation slots fields).bodies slots) fields

/-- Of slots with one name, the first one holds the script. -/
def pruneSlots : List String → List Slot → List Slot
  | _, [] => []
  | names, s :: rest =>
    if s.name ∈ names then pruneSlot s :: pruneSlots (names.filter (· != s.name)) rest else s :: pruneSlots names rest

def pruneSlot : Slot → Slot
  | .mk name blocks shadow => .mk name (pruneStack blocks) shadow

def pruneStack : List Block → List Block
  | [] => []
  | b :: rest => if Palette.isStatement b.opcode then b.prune :: pruneStack rest else pruneStack rest

end

mutual

/-- The blocks that are left out, without those inside them. -/
def Block.unknowns : Block → List Block
  | .mk opcode mutation slots fields => unknownsInSlots (Block.mk opcode mutation slots fields).bodies slots

def unknownsInSlots : List String → List Slot → List Block
  | _, [] => []
  | names, s :: rest =>
    if s.name ∈ names then unknownsInSlot s ++ unknownsInSlots (names.filter (· != s.name)) rest
    else unknownsInSlots names rest

def unknownsInSlot : Slot → List Block
  | .mk _ blocks _ => unknownsInStack blocks

def unknownsInStack : List Block → List Block
  | [] => []
  | b :: rest => (if Palette.isStatement b.opcode then b.unknowns else [b]) ++ unknownsInStack rest

end

/-! Recipes with scripts -/

namespace Step

/-- Whether a step reads none of these slots as a value. -/
def isClear (names : List String) : Step → Bool
  | .input slot | .number slot | .text slot | .condition slot => !names.contains slot
  | .inputs => names.isEmpty
  | _ => true

/-- Whether every script is run in one place, and its slot is read nowhere else. -/
def areClear (steps : List Step) : Bool :=
  decide (steps.filterMap body?).Nodup && steps.all (isClear (steps.filterMap body?))

end Step

/-- The recipe runs no script, or it is that of a statement and the same for all blocks. -/
def Entry.Shelters (e : Entry) : Prop :=
  (∀ site, (e.steps site).all Step.isExact = true) ∨
    e.reporter = false ∧ ∃ steps, (∀ site, e.steps site = steps) ∧ Step.areClear steps = true

namespace Palette

open Entry Step

set_option maxRecDepth 2000 in
theorem entries_shelter : ∀ {e : Entry}, e ∈ entries.toList → e.Shelters := by
  simp only [entries,motion,looks,sound,events,control,sensing,operators,data,procedures,pen,music,List.cons_append,
    List.nil_append,List.forall_mem_cons,List.not_mem_nil,false_imp_iff,implies_true,and_true]
  and_intros
  all_goals first
    | exact .inl fun _ => rfl
    | exact .inr ⟨rfl,_,fun _ => rfl,rfl⟩
    -- The recipes that look at a field of their block run no script.
    | refine .inl fun site => ?_
      simp only [steps,statement,value,setRotation,shiftLayer,pitch,stop,comparison,mathFunction,withVariable,withList,
        parameter,callProcedure]
      split
      all_goals first
        | rfl
        | simp [isExact]

end Palette

/-! Warnings that are missing -/

namespace Symbols

def withWarnings (s : Symbols) (w : Warnings) : Symbols :=
  { s with warnings := w }

theorem handle_withWarnings (s : Symbols) (m : Mention) : ∃ messages : List String, ∀ w,
    (s.withWarnings w).handle m = ((s.handle m).1,(s.handle m).2.withWarnings (w.addAll messages)) := by
  obtain ⟨isStage,own,stage,warnings⟩ := s
  obtain ⟨_ | _,r⟩ := m
  all_goals
    simp only [handle,variableHandle,listHandle,withWarnings]
    split
    · exact ⟨[],fun w => rfl⟩
    · exact ⟨[_],fun w => by cases isStage <;> rfl⟩

end Symbols

namespace Emitter

def withWarnings (e : Emitter) (w : Warnings) : Emitter :=
  { e with symbols := e.symbols.withWarnings w }

theorem flush_withWarnings (e : Emitter) (w : Warnings) : (e.withWarnings w).flush = e.flush.withWarnings w := by
  rw [flush,flush,apply_ite (withWarnings · w)]
  rfl

theorem op_withWarnings (e : Emitter) (w : Warnings) (o : Opcode) (operands : List UInt32) :
    (e.withWarnings w).op o operands = (e.op o operands).withWarnings w := by
  unfold op
  rw [flush_withWarnings]
  split <;> rfl

/-- A step does not depend on the warnings so far, and adds the same ones to all. -/
theorem step_withWarnings (e : Emitter) (d : Directive) :
    ∃ messages : List String, ∀ w, (e.withWarnings w).step d = (e.step d).withWarnings (w.addAll messages) := by
  have hflush := e.flush_withWarnings
  cases d with
  | op o operands => exact ⟨[],fun w => e.op_withWarnings w o operands⟩
  | bound o operands => exact ⟨[],fun w => e.op_withWarnings w o (e.scope.handle.word :: operands)⟩
  | pushVariable r =>
    obtain ⟨messages,h⟩ := e.symbols.handle_withWarnings ⟨.variable,r⟩
    refine ⟨messages,fun w => ?_⟩
    refine Eq.trans ?_ (op_withWarnings { e with symbols := (e.symbols.handle ⟨.variable,r⟩).2 } _ _ _)
    exact congrArg (fun x => op { e with symbols := x.2 } .pushVar [x.1.word]) (h w)
  | pushList r =>
    obtain ⟨messages,h⟩ := e.symbols.handle_withWarnings ⟨.list,r⟩
    refine ⟨messages,fun w => ?_⟩
    refine Eq.trans ?_ (op_withWarnings { e with symbols := (e.symbols.handle ⟨.list,r⟩).2 } _ _ _)
    exact congrArg (fun x => op { e with symbols := x.2 } .pushList [x.1.word]) (h w)
  | bindVariable r =>
    obtain ⟨messages,h⟩ := e.symbols.handle_withWarnings ⟨.variable,r⟩
    exact ⟨messages,fun w => congrArg (e.bind ·) (h w)⟩
  | bindList r =>
    obtain ⟨messages,h⟩ := e.symbols.handle_withWarnings ⟨.list,r⟩
    exact ⟨messages,fun w => congrArg (e.bind ·) (h w)⟩
  | flush => exact ⟨[],hflush⟩
  | place i => exact ⟨[],fun w => by simp only [step,place,hflush]; rfl⟩
  | here => exact ⟨[],fun w => by simp only [step,hflush]; rfl⟩
  | jump o i => exact ⟨[],fun w => by simp only [step,hflush]; rfl⟩
  | resume o i => exact ⟨[],fun w => by simp only [step,hflush]; rfl⟩
  | call procedure argc => exact ⟨[],fun w => by simp only [step,hflush]; rfl⟩
  | warn message => exact ⟨[message],fun w => rfl⟩
  | _ => exact ⟨[],fun w => rfl⟩

/-- The same but for these warnings, which the second one lacks. -/
def Lacks (messages : List String) (e e' : Emitter) : Prop :=
  ∃ w, e = e'.withWarnings w ∧ ∀ message, w.count message = e'.symbols.warnings.count message + messages.count message

variable {messages : List String} {e e' : Emitter}

theorem Lacks.step (h : Lacks messages e e') (d : Directive) : Lacks messages (e.step d) (e'.step d) := by
  obtain ⟨w,rfl,hw⟩ := h
  obtain ⟨added,hstep⟩ := e'.step_withWarnings d
  have hwarnings : (e'.step d).symbols.warnings = e'.symbols.warnings.addAll added :=
    congrArg (fun e => e.symbols.warnings) (hstep e'.symbols.warnings)
  refine ⟨w.addAll added,hstep w,fun message => ?_⟩
  rw [hwarnings,Warnings.count_addAll,Warnings.count_addAll,hw]
  omega

theorem Lacks.warn (h : Lacks messages e e') (message : String) :
    Lacks (messages ++ [message]) (e.step (.warn message)) e' := by
  obtain ⟨w,rfl,hw⟩ := h
  refine ⟨w.add message,rfl,fun message' => ?_⟩
  rw [Warnings.count_add,hw,List.count_append,List.count_singleton]
  simp only [beq_iff_eq,eq_comm (a := message'),Nat.add_assoc]

end Emitter

/-- Directives and the same ones without some warnings. -/
def Omits (messages : List String) (ds ds' : List Directive) : Prop :=
  ∀ removed e e', Emitter.Lacks removed e e' → (e.run ds).Lacks (removed ++ messages) (e'.run ds')

namespace Omits

variable {messages messages' : List String} {ds ds' es es' : List Directive}

theorem refl (ds : List Directive) : Omits [] ds ds := by
  intro removed e e' h
  rw [List.append_nil]
  induction ds generalizing e e' with
  | nil => exact h
  | cons d ds ih => exact ih _ _ (h.step d)

theorem append (h : Omits messages ds ds') (h' : Omits messages' es es') :
    Omits (messages ++ messages') (ds ++ es) (ds' ++ es') := by
  intro removed e e' hlacks
  rw [Emitter.run_append,Emitter.run_append,← List.append_assoc]
  exact h' _ _ _ (h _ _ _ hlacks)

theorem warn (message : String) : Omits [message] [.warn message] [] :=
  fun _ _ _ h => h.warn message

theorem reorder (h : Omits messages ds ds') (hperm : messages.Perm messages') : Omits messages' ds ds' := by
  intro removed e e' hlacks
  obtain ⟨w,heq,hw⟩ := h _ _ _ hlacks
  exact ⟨w,heq,fun message => by rw [hw,(hperm.append_left _).count_eq]⟩

theorem flatMap {α : Type} {f g : α → List Directive} {missing : α → List String} {xs : List α}
    (h : ∀ x ∈ xs, Omits (missing x) (f x) (g x)) : Omits (xs.flatMap missing) (xs.flatMap f) (xs.flatMap g) := by
  induction xs with
  | nil => exact .refl []
  | cons x xs ih =>
    exact (h x List.mem_cons_self).append (ih fun y hy => h y (List.mem_cons_of_mem _ hy))

end Omits

/-! Slots -/

theorem name_pruneSlot (s : Slot) : (pruneSlot s).name = s.name := by
  obtain ⟨name,blocks,shadow⟩ := s
  rw [pruneSlot]
  rfl

theorem find?_pruneSlots (names : List String) (slots : List Slot) (name : String) :
    (pruneSlots names slots).find? (fun s => s.name == name) =
      (slots.find? fun s => s.name == name).map fun s => if name ∈ names then pruneSlot s else s := by
  induction slots generalizing names with
  | nil =>
    rw [pruneSlots]
    rfl
  | cons s rest ih =>
    rw [pruneSlots]
    by_cases hname : s.name = name
    · subst hname
      split
      next => simp [name_pruneSlot, *]
      next => simp [*]
    · split
      next => simp [name_pruneSlot,hname,ih,Ne.symm hname]
      next => simp [hname,ih]

/-- The blocks that are left out in the slot of a name. -/
def unknownsAt (slots : List Slot) (name : String) : List Block :=
  ((slots.find? fun s => s.name == name).map unknownsInSlot).getD []

theorem unknownsInSlots_perm {names : List String} (hnodup : names.Nodup) (slots : List Slot) :
    (unknownsInSlots names slots).Perm (names.flatMap (unknownsAt slots)) := by
  induction slots generalizing names with
  | nil =>
    rw [unknownsInSlots]
    simp [unknownsAt]
  | cons s rest ih =>
    have hother : ∀ {name}, name ≠ s.name → unknownsAt (s :: rest) name = unknownsAt rest name := by
      intro name hname
      simp [unknownsAt,Ne.symm hname]
    rw [unknownsInSlots]
    split
    next hmem =>
      have hhead : unknownsAt (s :: rest) s.name = unknownsInSlot s := by simp [unknownsAt]
      have htail : (names.filter (· != s.name)).flatMap (unknownsAt (s :: rest)) =
          (names.filter (· != s.name)).flatMap (unknownsAt rest) :=
        List.flatMap_congr fun name hname => hother (by simpa using (List.mem_filter.1 hname).2)
      have hnames : names.Perm (s.name :: names.filter (· != s.name)) := by
        have h := List.perm_cons_erase hmem
        rwa [hnodup.erase_eq_filter] at h
      refine .trans ?_ (hnames.flatMap_right _).symm
      rw [List.flatMap_cons,hhead,htail]
      exact (ih (hnodup.filter _)).append_left _
    next hmem =>
      rw [List.flatMap_congr fun name hname => hother fun h => hmem (h ▸ hname)]
      exact ih hnodup

/-! Blocks -/

def Block.complaint (b : Block) : String :=
  s!"unknown statement {b.opcode}"

theorem pruneSlots_nil (slots : List Slot) : pruneSlots [] slots = slots := by
  induction slots with
  | nil => rw [pruneSlots]
  | cons s rest ih => rw [pruneSlots,if_neg List.not_mem_nil,ih]

theorem unknownsInSlots_nil (slots : List Slot) : unknownsInSlots [] slots = [] := by
  induction slots with
  | nil => rw [unknownsInSlots]
  | cons s rest ih => rw [unknownsInSlots,if_neg List.not_mem_nil,ih]

theorem Block.prune_eq (b : Block) : b.prune = .mk b.opcode b.mutation (pruneSlots b.bodies b.slots) b.fields := by
  obtain ⟨opcode,mutation,slots,fields⟩ := b
  rw [prune]
  rfl

theorem Block.unknowns_eq (b : Block) : b.unknowns = unknownsInSlots b.bodies b.slots := by
  obtain ⟨opcode,mutation,slots,fields⟩ := b
  rw [unknowns]
  rfl

/-- What is missing after the unknown statements have been left out of a block or of a script. -/
def Block.Prunes (params : List String) (b : Block) : Prop :=
  Omits (b.unknowns.map complaint) (expand params b).statement (expand params b.prune).statement

def Slot.Prunes (params : List String) (s : Slot) : Prop :=
  Omits ((unknownsInSlot s).map Block.complaint) (expandSlot params s).statements (expandSlot params (pruneSlot s)).statements

theorem stack_prunes {params : List String} {blocks : List Block} (h : ∀ b ∈ blocks, b.Prunes params) :
    Omits ((unknownsInStack blocks).map Block.complaint) (expandStack params blocks)
      (expandStack params (pruneStack blocks)) := by
  induction blocks with
  | nil =>
    rw [unknownsInStack,pruneStack]
    exact .refl _
  | cons b rest ih =>
    obtain ⟨hb,hrest⟩ := List.forall_mem_cons.1 h
    rw [unknownsInStack,pruneStack,expandStack_cons,List.map_append]
    split
    next =>
      rw [expandStack_cons]
      exact hb.append (ih hrest)
    next hstatement =>
      have hcode : (expand params b).statement = [.warn b.complaint] := by
        obtain ⟨opcode,mutation,slots,fields⟩ := b
        change statementCode ⟨.mk opcode mutation slots fields,params⟩ (expandSlots params slots) = _
        rw [Palette.isStatement] at hstatement
        unfold statementCode
        split
        next e id hfind =>
          have hreporter : e.reporter = true := by simpa [hfind] using hstatement
          exact if_pos hreporter
        · rfl
      rw [hcode]
      exact (Omits.warn _).append (ih hrest)

/-- Steps that run no script see the same slots as before. -/
theorem stepCode_pruneSlots {names : List String} {s : Step} (hclear : s.isClear names = true) (hs : s.body? = none)
    (params : List String) (slots : List Slot) (e : Entry) (id : Nat) :
    stepCode params (expandSlots params (pruneSlots names slots)) e id s = stepCode params (expandSlots params slots) e id s := by
  have hfind : ∀ {name : String}, name ∉ names →
      stepCode.find (expandSlots params (pruneSlots names slots)) name = stepCode.find (expandSlots params slots) name := by
    intro name hname
    simp [find_expandSlots,find?_pruneSlots,hname]
  have hname : ∀ {name : String}, (!names.contains name) = true → name ∉ names := by simp
  cases s with
  | input slot | number slot | text slot | condition slot => simp only [stepCode,hfind (hname hclear)]
  | inputs =>
    have hnil : names = [] := List.isEmpty_iff.1 hclear
    rw [hnil,pruneSlots_nil]
  | substack slot => cases hs
  | callSelf | callEntry | emit => rfl

theorem substackCode_pruneSlots {params names : List String} {slots : List Slot} {slot : String} (hslot : slot ∈ names)
    (h : ∀ s ∈ slots, s.Prunes params) :
    Omits ((unknownsAt slots slot).map Block.complaint)
      (SlotCode.substackCode (stepCode.find (expandSlots params slots) slot))
      (SlotCode.substackCode (stepCode.find (expandSlots params (pruneSlots names slots)) slot)) := by
  rw [find_expandSlots,find_expandSlots,find?_pruneSlots,unknownsAt]
  cases hfind : slots.find? fun s => s.name == slot with
  | none => exact .refl _
  | some s =>
    rw [Option.map_some,Option.map_some,Option.map_some,if_pos hslot]
    exact h s (List.mem_of_find?_eq_some hfind)

theorem Block.bodies_eq {b : Block} {e : Entry} {id : Nat} (h : Palette.find? b.opcode = some (e,id)) :
    b.bodies = (e.steps ⟨b,[]⟩).filterMap Step.body? := by
  rw [bodies,h]

/-- A block with no scripts inside stays as it is. -/
theorem Block.prunes_of_bodies {b : Block} (h : b.bodies = []) (params : List String) : b.Prunes params := by
  have hprune : b.prune = b := by
    rw [prune_eq,h,pruneSlots_nil]
    obtain ⟨opcode,mutation,slots,fields⟩ := b
    rfl
  rw [Prunes,hprune,unknowns_eq,h,unknownsInSlots_nil]
  exact .refl _

theorem Block.bodies_of_exact {b : Block} {e : Entry} {id : Nat} (hfind : Palette.find? b.opcode = some (e,id))
    (h : ∀ site, (e.steps site).all Step.isExact = true) : b.bodies = [] := by
  rw [bodies_eq hfind,List.filterMap_eq_nil_iff]
  intro s hs
  have hexact := List.all_eq_true.1 (h _) s hs
  cases s with
  | substack => cases hexact
  | _ => rfl

theorem Block.prunes_of_steps {params : List String} {b : Block} {e : Entry} {id : Nat} {steps : List Step}
    (hfind : Palette.find? b.opcode = some (e,id)) (hreporter : e.reporter = false) (hsteps : ∀ site, e.steps site = steps)
    (hclear : Step.areClear steps = true) (hslots : ∀ s ∈ b.slots, s.Prunes params) : b.Prunes params := by
  have hbodies : b.bodies = steps.filterMap Step.body? := by rw [bodies_eq hfind,hsteps]
  rw [Step.areClear,← hbodies,Bool.and_eq_true,decide_eq_true_eq,List.all_eq_true] at hclear
  obtain ⟨hnodup,hclear⟩ := hclear
  let missing (s : Step) : List String :=
    (s.body?.toList.flatMap (unknownsAt b.slots)).map complaint
  have hmissing : (steps.flatMap missing).Perm (b.unknowns.map complaint) := by
    have heq : steps.flatMap missing = (b.bodies.flatMap (unknownsAt b.slots)).map complaint := by
      rw [hbodies,List.filterMap_eq_flatMap_toList,List.flatMap_assoc,List.map_flatMap]
    rw [heq,unknowns_eq]
    exact ((unknownsInSlots_perm hnodup b.slots).map complaint).symm
  have hpruned : Palette.find? b.prune.opcode = some (e,id) := by rwa [prune_eq]
  have hslots' : b.prune.slots = pruneSlots b.bodies b.slots := by rw [prune_eq]; rfl
  have hcode : ∀ {b : Block}, Palette.find? b.opcode = some (e,id) → (expand params b).statement =
      .enter :: (steps.flatMap (stepCode params (expandSlots params b.slots) e id) ++ [.leave]) := by
    intro b hb
    rw [expand_statement hb hreporter,← hsteps ⟨b,params⟩]
    rfl
  rw [Prunes,hcode hfind,hcode hpruned,hslots']
  refine .reorder ?_ hmissing
  rw [← List.nil_append (steps.flatMap missing),← List.append_nil (steps.flatMap missing)]
  refine .append (.refl [.enter]) (.append (.flatMap fun s hs => ?_) (.refl [.leave]))
  cases hbody : s.body? with
  | none =>
    rw [stepCode_pruneSlots (hclear s hs) hbody]
    simp only [missing,hbody,Option.toList_none,List.flatMap_nil,List.map_nil]
    exact .refl _
  | some slot =>
    have hsubstack : s = .substack slot := by
      cases s with
      | substack => exact congrArg Step.substack (Option.some.inj hbody)
      | _ => cases hbody
    have hmem : slot ∈ b.bodies := hbodies ▸ List.mem_filterMap.2 ⟨s,hs,hbody⟩
    subst hsubstack
    simp only [missing,Step.body?,Option.toList_some,List.flatMap_singleton,stepCode]
    exact substackCode_pruneSlots hmem hslots

theorem Block.prunes (params : List String) : ∀ b : Block, b.Prunes params := by
  refine Block.induction (S := Slot.Prunes params) (fun b hslots => ?_) fun name blocks shadow hblocks _ => ?_
  · cases hfind : Palette.find? b.opcode with
    | none => exact prunes_of_bodies (by rw [bodies,hfind]) params
    | some found =>
      obtain ⟨e,id⟩ := found
      obtain hexact | ⟨hreporter,steps,hsteps,hclear⟩ := Palette.entries_shelter (Palette.find?_eq_some hfind).1
      · exact prunes_of_bodies (bodies_of_exact hfind hexact) params
      · exact prunes_of_steps hfind hreporter hsteps hclear hslots
  · rw [Slot.Prunes,unknownsInSlot,pruneSlot,expandSlot,expandSlot]
    exact stack_prunes hblocks

/-! What is left out -/

theorem Block.bodies_prune (b : Block) : b.prune.bodies = b.bodies := by
  have hopcode : b.prune.opcode = b.opcode := by rw [prune_eq]; rfl
  cases hfind : Palette.find? b.opcode with
  | none => rw [bodies,bodies,hopcode,hfind]
  | some found =>
    obtain ⟨e,id⟩ := found
    have hpruned : Palette.find? b.prune.opcode = some (e,id) := by rwa [hopcode]
    obtain hexact | ⟨-,steps,hsteps,-⟩ := Palette.entries_shelter (Palette.find?_eq_some hfind).1
    · rw [bodies_of_exact hfind hexact,bodies_of_exact hpruned hexact]
    · rw [bodies_eq hfind,bodies_eq hpruned,hsteps,hsteps]

theorem unknownsInSlots_pruneSlots (names : List String) {slots : List Slot}
    (h : ∀ s ∈ slots, unknownsInSlot (pruneSlot s) = []) : unknownsInSlots names (pruneSlots names slots) = [] := by
  induction slots generalizing names with
  | nil => rw [pruneSlots,unknownsInSlots]
  | cons s rest ih =>
    obtain ⟨hs,hrest⟩ := List.forall_mem_cons.1 h
    rw [pruneSlots]
    split
    next hmem => rw [unknownsInSlots,name_pruneSlot,if_pos hmem,hs,ih _ hrest,List.append_nil]
    next hmem => rw [unknownsInSlots,if_neg hmem,ih _ hrest]

theorem unknownsInStack_pruneStack {blocks : List Block} (h : ∀ b ∈ blocks, b.prune.unknowns = []) :
    unknownsInStack (pruneStack blocks) = [] := by
  induction blocks with
  | nil => rw [pruneStack,unknownsInStack]
  | cons b rest ih =>
    obtain ⟨hb,hrest⟩ := List.forall_mem_cons.1 h
    have hopcode : b.prune.opcode = b.opcode := by rw [Block.prune_eq]; rfl
    rw [pruneStack]
    split
    next hstatement => rw [unknownsInStack,hopcode,if_pos hstatement,hb,ih hrest,List.append_nil]
    next => exact ih hrest

theorem Block.unknowns_prune : ∀ b : Block, b.prune.unknowns = [] := by
  refine Block.induction (S := fun s => unknownsInSlot (pruneSlot s) = []) (fun b hslots => ?_) fun _ blocks _ hblocks _ => ?_
  · rw [unknowns_eq,bodies_prune,prune_eq]
    exact unknownsInSlots_pruneSlots b.bodies hslots
  · rw [pruneSlot,unknownsInSlot]
    exact unknownsInStack_pruneStack hblocks

namespace Compile

/-- Unknown statements do nothing. Without them a script has the same code, constants and labels and leaves the same tables,
or it has the same fault; the warnings lack one for each of them that is not inside another one. -/
theorem script_pruneStack (symbols : Symbols) (name : String) (params : List String) (blocks : List Block)
    (terminator : Opcode) (id : Nat) : unknownsInStack (pruneStack blocks) = [] ∧
      ((∃ fault, script symbols name params blocks terminator id = .error fault ∧
        script symbols name params (pruneStack blocks) terminator id = .error fault) ∨
      ∃ s t t', script symbols name params blocks terminator id = .ok (s,t) ∧
        script symbols name params (pruneStack blocks) terminator id = .ok (s,t') ∧
        t'.isStage = t.isStage ∧ t'.own = t.own ∧ t'.stage = t.stage ∧
        ∀ message, t.warnings.count message = t'.warnings.count message +
          (unknownsInStack blocks).countP fun b => s!"unknown statement {b.opcode}" = message) := by
  refine ⟨unknownsInStack_pruneStack fun b _ => b.unknowns_prune,?_⟩
  have hcount : ∀ message, ((unknownsInStack blocks).map Block.complaint).count message =
      (unknownsInStack blocks).countP fun b => s!"unknown statement {b.opcode}" = message := by
    intro message
    rw [List.count_eq_countP,List.countP_map]
    rfl
  let start : Emitter := { symbols,code := { name } }
  let last (blocks : List Block) : Emitter := (start.run (expandStack params blocks)).step (.op terminator [])
  have hscript : ∀ blocks, script symbols name params blocks terminator id =
      ((last blocks).code.build id).map fun s => (s,(last blocks).symbols) := by
    intro blocks
    cases h : (last blocks).code.build id <;> exact congrArg (· >>= fun s => pure (s,(last blocks).symbols)) h
  have hstart : start.Lacks [] start := ⟨symbols.warnings,rfl,fun _ => rfl⟩
  have hstack : Omits ((unknownsInStack blocks).map Block.complaint) (expandStack params blocks)
      (expandStack params (pruneStack blocks)) := stack_prunes fun b _ => b.prunes params
  obtain ⟨w,heq,hw⟩ : Emitter.Lacks _ (last blocks) (last (pruneStack blocks)) := (hstack _ _ _ hstart).step (.op terminator [])
  rw [hscript,hscript,heq]
  cases hbuild : (last (pruneStack blocks)).code.build id with
  | error fault => exact .inl ⟨fault,congrArg _ hbuild,rfl⟩
  | ok s => exact .inr ⟨s,_,_,congrArg _ hbuild,rfl,rfl,rfl,rfl,fun message => hcount message ▸ hw message⟩

end Compile

end SpriteMachine
