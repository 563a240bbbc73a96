import SpriteMachine.Proofs.Orderly
import SpriteMachine.Proofs.Recipes
import SpriteMachine.Proofs.Validation

/-!
Compiling succeeds. Code of block trees is in order, so that a script can be built from it; the only project
that is refused is one whose stage is none.
-/

namespace SpriteMachine

/-- The code is made of instructions, and control does not leave it: it ends in an instruction that does not go
on, labels and jumps lead to instructions, and the labels and constants that are named exist. -/
def Script.WellFormed (s : Script) : Prop :=
  ∃ instrs, Assembler.Walk s.code 0 instrs ∧
    (∃ e, instrs.getLast? = some e ∧ e.2.isTerminator = true) ∧
    (∀ l ∈ s.labels.toList, l ∈ instrs.map Prod.fst) ∧
    ∀ pc ∈ instrs.map Prod.fst, ∃ i next, s.fetch pc = .ok (i,next) ∧ i.refersInto s = true ∧
      ∀ q ∈ i.targets, q ∈ instrs.map Prod.fst

theorem Assembler.Orderly.wellFormed {a : Assembler} {instrs : List (Nat × Opcode)} (h : a.Orderly instrs) {id : Nat}
    {s : Script} (hb : a.build id = .ok s) : s.WellFormed := by
  obtain ⟨instrs',hbuilt⟩ := built_of_build hb
  obtain rfl := h.walk.unique hbuilt.walk
  have hclean : ∀ pc ∈ instrs.map Prod.fst, pc ∉ a.fixups.toList := by
    intro pc hpc hf
    obtain ⟨⟨pc,o⟩,hmem,rfl⟩ := List.mem_map.1 hpc
    have hword := h.patched_word (i := 0) hmem (Nat.zero_le _) (Array.mem_toList_iff.1 hf)
    exact absurd hword.1 (by decide)
  obtain ⟨hsize,hword⟩ := patched_elsewhere hbuilt.patched
  refine ⟨instrs,h.walk.patched hsize hword fun f hf hin => hclean f hin hf,hbuilt.ends,hbuilt.aligned,?_⟩
  intro pc hpc
  obtain ⟨i,next,hfetch,hrefers,htargets,-⟩ := hbuilt.start hpc (hclean pc hpc)
  exact ⟨i,next,hfetch,hrefers,htargets⟩

/-! Scripts -/

namespace Emitter

/-- An emitter that has worked nothing off. -/
def start (symbols : Symbols) (name : String) : Emitter :=
  { symbols, code := { name } }

theorem fits_start (symbols : Symbols) (name : String) : Tally.Fits {} (start symbols name) where
  levels := .cons ⟨rfl,fun hm => by simp at hm,fun hb => nomatch hb⟩ .nil
  distinct := .nil
  budget := Nat.le_refl _
  neat := ⟨fun f hf => by simp [start] at hf,.nil⟩

theorem orderly_start (symbols : Symbols) (name : String) : (start symbols name).Orderly := by
  refine ⟨[],.stop (Nat.le_refl _),?_,fun f hf => by simp [start] at hf,nofun⟩
  intro label pc hl
  cases label with
  | zero =>
    cases hl
    exact .inr rfl
  | succ label => simp [start] at hl

theorem tidy_start (symbols : Symbols) (name : String) : (start symbols name).Tidy := by
  intro label hl
  cases label with
  | zero => cases hl
  | succ label => simp [start] at hl

theorem symbols_grows_step (e : Emitter) (d : Directive) : e.symbols.Grows (e.step d).symbols := by
  cases d with
  | enter | leave | label => exact .refl _
  | place i => simp [step,place,assemble,Symbols.Grows.refl]
  | here => simp [step,label,assemble,Symbols.Grows.refl]
  | bindVariable r => exact (e.symbols.variableHandle_spec r).1
  | bindList r => exact (e.symbols.listHandle_spec r).1
  | call procedure argc => simp [step,assemble,Symbols.Grows.refl]
  | _ => exact (e.step_keepsScope rfl).2.2.2

theorem symbols_grows_run (e : Emitter) (ds : List Directive) : e.symbols.Grows (e.run ds).symbols := by
  induction ds generalizing e with
  | nil => exact .refl _
  | cons d ds ih => exact (e.symbols_grows_step d).trans (ih _)

variable {e f : Emitter}

theorem flush_pc_congr (hpc : e.pc = f.pc) (hp : e.pending = f.pending) : e.flush.pc = f.flush.pc := by
  unfold flush
  rw [hp]
  split
  · exact hpc
  · simp only [pc,Assembler.op_size] at hpc ⊢
    rw [hpc]

theorem op_pc_congr (hpc : e.pc = f.pc) (hp : e.pending = f.pending) (o : Opcode) {ws ws' : List UInt32}
    (hlen : ws.length = ws'.length) : (e.op o ws).pc = (f.op o ws').pc ∧ (e.op o ws).pending = (f.op o ws').pending := by
  have hflush := flush_pc_congr hpc hp
  unfold op
  split
  · simp only [pc,assemble,Assembler.op_size,flush_pending,hlen,and_true] at hflush ⊢
    rw [hflush]
  · simp only [pc,assemble,Assembler.op_size,hlen] at hpc ⊢
    exact ⟨by rw [hpc],hp⟩

theorem step_pc_congr (hpc : e.pc = f.pc) (hp : e.pending = f.pending) (d : Directive) :
    (e.step d).pc = (f.step d).pc ∧ (e.step d).pending = (f.step d).pending := by
  have hflush := flush_pc_congr hpc hp
  cases d with
  | op o ws | bound o ws => exact op_pc_congr hpc hp o rfl
  | pushVariable r =>
    exact op_pc_congr (e := { e with symbols := (e.symbols.variableHandle r).2 })
      (f := { f with symbols := (f.symbols.variableHandle r).2 }) hpc hp .pushVar rfl
  | pushList r =>
    exact op_pc_congr (e := { e with symbols := (e.symbols.listHandle r).2 })
      (f := { f with symbols := (f.symbols.listHandle r).2 }) hpc hp .pushList rfl
  | pushText s =>
    simp only [pc,step,assemble,Assembler.pushText,Assembler.op_size,Assembler.constant_code] at hpc ⊢
    rw [hpc]
    exact ⟨rfl,hp⟩
  | pushNumber x | pushBool b =>
    simp only [pc,step,assemble,Assembler.pushNumber,Assembler.pushBool,Assembler.op_size] at hpc ⊢
    rw [hpc]
    exact ⟨rfl,hp⟩
  | enter | leave | label | bindVariable r | bindList r | warn message => exact ⟨hpc,hp⟩
  | visual tier => exact ⟨hpc,by simp [step,hp]⟩
  | place i => exact ⟨hflush,by simp [step,place,assemble]⟩
  | here => exact ⟨hflush,by simp [step,label,assemble]⟩
  | flush => exact ⟨hflush,by simp [step]⟩
  | jump o i =>
    simp only [pc,step,assemble,Assembler.jump,Assembler.word,Array.size_push,flush_pending,
      and_true] at hflush ⊢
    rw [hflush]
  | resume o i =>
    simp only [pc,step,assemble,Assembler.resumeAt,Assembler.op_size,flush_pending,and_true] at hflush ⊢
    rw [hflush]
    rfl
  | call procedure argc =>
    rw [step_call_pc,step_call_pc,hflush]
    exact ⟨rfl,by simp [step,assemble]⟩

theorem run_pc_congr (hpc : e.pc = f.pc) (hp : e.pending = f.pending) (ds : List Directive) :
    (e.run ds).pc = (f.run ds).pc ∧ (e.run ds).pending = (f.run ds).pending := by
  induction ds generalizing e f with
  | nil => exact ⟨hpc,hp⟩
  | cons d ds ih =>
    obtain ⟨hpc,hp⟩ := step_pc_congr hpc hp d
    exact ih hpc hp

end Emitter

namespace Compile

/-- How many words the code of some blocks takes, with the instruction that ends it. -/
def words (params : List String) (blocks : List Block) : Nat :=
  ((Emitter.start { isStage := false, stage := {} } "").run (expandStack params blocks)).flush.pc + 1

/-- Whether the instruction can end a script. -/
def Ends (o : Opcode) : Prop :=
  o = .finish ∨ o = .endCall

theorem pc_op_run (symbols : Symbols) (name : String) (params : List String) (blocks : List Block) {o : Opcode}
    (h : Ends o) : (((Emitter.start symbols name).run (expandStack params blocks)).op o []).pc = words params blocks := by
  obtain ⟨hpc,hp⟩ := Emitter.run_pc_congr (e := .start symbols name)
    (f := .start { isStage := false, stage := {} } "") rfl rfl (expandStack params blocks)
  have hop : ∀ e : Emitter, (e.op o []).pc = e.flush.pc + 1 := by
    intro e
    rcases h with rfl | rfl <;> simp [Emitter.op,Opcode.flushes,Opcode.isTerminator,Emitter.assemble,Emitter.pc,
      Assembler.op_size]
  rw [hop,Emitter.flush_pc_congr hpc hp]
  rfl

theorem script_ok (symbols : Symbols) (name : String) {params : List String} {blocks : List Block} {o : Opcode}
    (h : Ends o) (hwords : words params blocks < 2 ^ 32) (id : Nat) :
    ∃ s after, script symbols name params blocks o id = .ok (s,after) ∧ s.WellFormed := by
  have hplain : o.isPlain = true := by rcases h with rfl | rfl <;> rfl
  have hterm : o.isTerminator = true := by rcases h with rfl | rfl <;> rfl
  have hnone : ([] : List UInt32).length = o.operandWords := by rcases h with rfl | rfl <;> rfl
  obtain ⟨k,hrun⟩ := Tally.reaches_expandStack params blocks {}
  have hpc := pc_op_run symbols name params blocks h
  have hstart := Emitter.fits_start symbols name
  have hfits := (hstart.run hrun).1
  have htidy := hstart.tidy_run (Emitter.tidy_start symbols name) hrun
  have hconstants := Emitter.constants_size_le_run (e := .start symbols name) (Nat.le_refl 0) (expandStack params blocks)
  have horderly := hstart.orderly_run (Emitter.orderly_start symbols name) hrun
  have hscript : script symbols name params blocks o id = (do
      let e := ((Emitter.start symbols name).run (expandStack params blocks)).op o []
      return (← e.code.build id,e.symbols)) := rfl
  rw [hscript]
  generalize (Emitter.start symbols name).run (expandStack params blocks) = e at *
  have hgrows := e.op_grows o []
  have hsize : e.pc ≤ words params blocks := by
    rw [← hpc]
    exact hgrows.size
  have hlabels : e.code.labels.size ≤ 1 + e.pc := hfits.budget
  obtain ⟨instrs,hop,⟨pc,hlast⟩,hplaced⟩ := (horderly (by omega) (by omega)).op_last hnone hplain
  -- No block is open any more, so every label is placed.
  have hall : ∀ x ∈ (e.op o []).code.labels.toList, ∃ pc ∈ instrs.map Prod.fst, x = some pc := by
    intro x hx
    obtain ⟨label,hlabel⟩ := List.getElem?_of_mem hx
    rw [Array.getElem?_toList] at hlabel
    cases x with
    | some pc => exact ⟨pc,hplaced hlabel,rfl⟩
    | none =>
      rw [Emitter.op_code_labels] at hlabel
      have hmem := htidy label hlabel
      have houter : e.outer = [] := List.forall₂_nil_left_iff.1 hfits.outer
      have hscope : e.scope.labels.size = 0 := hfits.level.size
      rw [houter,List.flatMap_cons,List.flatMap_nil,List.append_nil,Array.mem_toList_iff,
        Array.size_eq_zero_iff.1 hscope] at hmem
      exact absurd hmem (Array.not_mem_empty _)
  rw [Emitter.pc] at hpc
  obtain ⟨s,hs⟩ := hop.build (hgrows.neat hfits.neat) (by omega) ⟨_,hlast,hterm⟩ hall id
  exact ⟨s,(e.op o []).symbols,by simp only [hs]; rfl,hop.wellFormed hs⟩

/-! Projects -/

end Compile

/-- The parameters that the blocks of a script can read. -/
def Stack.params (s : Stack) : List String :=
  match s.hat with
  | .procedure proto => proto.parameters.map Parameter.name
  | _ => []

/-- How many words the code of a script takes. -/
def Stack.words (s : Stack) : Nat :=
  Compile.words s.params s.blocks

variable {ε α β : Type} {project : Project} {p : Program}

theorem Except.foldlM_ok {f : β → α → Except ε β} {p : β → Prop} {xs : List α}
    (h : ∀ b x, x ∈ xs → p b → ∃ c, f b x = .ok c ∧ p c) {b : β} (hb : p b) : ∃ c, xs.foldlM f b = .ok c ∧ p c := by
  induction xs generalizing b with
  | nil => exact ⟨b,rfl,hb⟩
  | cons x xs ih =>
    obtain ⟨c,hc,hp⟩ := h b x List.mem_cons_self hb
    rw [List.foldlM_cons,hc]
    exact ih (fun b y hy => h b y (List.mem_cons_of_mem _ hy)) hp

namespace Compile

theorem mem_all {scripts : Scripts} {s : Script} :
    s ∈ scripts.all ↔ (∃ e, (e,s) ∈ scripts.listeners.entries) ∨ ∃ n q, (n,q) ∈ scripts.procedures ∧ q.script = s := by
  simp [Scripts.all]

variable {p : Progress} {blocks : List Block} {d : Declaration}

theorem procedure_ok (hp : ∀ s ∈ p.scripts.all, s.WellFormed) {proto : Prototype}
    (hwords : words (proto.parameters.map Parameter.name) blocks < 2 ^ 32) :
    ∃ q, procedure p proto blocks = .ok q ∧ ∀ s ∈ q.scripts.all, s.WellFormed := by
  obtain ⟨s,after,hs,hwell⟩ := script_ok p.symbols proto.procedure (.inr rfl) hwords p.next
  simp only [procedure,hs]
  refine ⟨_,rfl,?_⟩
  intro s' hs'
  simp only [mem_all] at hp hs'
  rcases hs' with hs' | ⟨n,q,hq,rfl⟩
  · exact hp _ (.inl hs')
  · simp only [Scripts.define,List.mem_append,List.mem_filter,List.mem_singleton,Prod.mk.injEq] at hq
    rcases hq with hq | ⟨rfl,rfl⟩
    · exact hp _ (.inr ⟨n,q,hq.1,rfl⟩)
    · exact hwell

theorem listener_ok (hp : ∀ s ∈ p.scripts.all, s.WellFormed) (hwords : words [] blocks < 2 ^ 32) (target : String)
    (event : Event) : ∃ q, listener target p event blocks = .ok q ∧ ∀ s ∈ q.scripts.all, s.WellFormed := by
  obtain ⟨s,after,hs,hwell⟩ := script_ok p.symbols (toString target ++ " #" ++ toString p.next) (.inl rfl) hwords p.next
  have hs' : script p.symbols s!"{target} #{p.next}" [] blocks .finish p.next = .ok (s,after) := hs
  simp only [listener,hs']
  refine ⟨_,rfl,?_⟩
  intro s' hs'
  simp only [mem_all] at hp hs'
  rcases hs' with ⟨e,he⟩ | hs'
  · simp only [Listeners.add,Array.mem_push,Prod.mk.injEq] at he
    rcases he with he | ⟨rfl,rfl⟩
    · exact hp _ (.inl ⟨e,he⟩)
    · exact hwell
  · exact hp _ (.inr hs')

theorem stack_ok (hp : ∀ s ∈ p.scripts.all, s.WellFormed) {x : Stack} (hwords : x.words < 2 ^ 32) (target : String) :
    ∃ q, stack target p x = .ok q ∧ ∀ s ∈ q.scripts.all, s.WellFormed := by
  obtain ⟨hat,blocks⟩ := x
  unfold stack
  dsimp only
  split
  · split <;> exact ⟨_,rfl,hp⟩
  next hother =>
    split
    · exact ⟨p,rfl,hp⟩
    · split
      next proto => exact procedure_ok hp hwords
      next name =>
        split
        next e _ => exact listener_ok hp hwords target e
        next => exact ⟨_,rfl,hp⟩
      next hproc hkey =>
        have hparams : Stack.params ⟨hat,blocks⟩ = [] := by
          unfold Stack.params
          split
          next heq => exact absurd heq (hproc _)
          next => rfl
        rw [Stack.words,hparams] at hwords
        split
        next e _ => exact listener_ok hp hwords target e
        next => exact ⟨p,rfl,hp⟩

theorem scripts_ok (hwords : ∀ x ∈ d.scripts, x.words < 2 ^ 32) (symbols : Symbols) (next : Nat) :
    ∃ p, scripts d symbols next = .ok p ∧ ∀ s ∈ p.scripts.all, s.WellFormed :=
  Except.foldlM_ok (fun p x hx hp => stack_ok hp (hwords x hx) d.name) (by simp [mem_all])

theorem scripts_buildTarget (d : Declaration) (kind : TargetKind) (data : DataTables) (scripts : Scripts) :
    (buildTarget d kind data scripts).scripts = scripts := by
  unfold buildTarget Target.setVolume
  dsimp only
  split <;> rfl

theorem sprite_ok {x : Sprites} (hx : ∀ t ∈ x.targets, ∀ s ∈ t.scripts.all, s.WellFormed)
    (hwords : ∀ x ∈ d.scripts, x.words < 2 ^ 32) :
    ∃ y, sprite x d = .ok y ∧ ∀ t ∈ y.targets, ∀ s ∈ t.scripts.all, s.WellFormed := by
  obtain ⟨p,hp,hwell⟩ :=
    scripts_ok hwords { isStage := false, own := declareData d, stage := x.stage } x.next
  simp only [sprite,hp]
  refine ⟨_,rfl,?_⟩
  intro t ht
  rcases Array.mem_push.1 ht with ht | rfl
  · exact hx t ht
  · rw [scripts_buildTarget]
    exact hwell

end Compile

/-- A project with a stage can be compiled, whatever blocks it has: every script ends in an instruction that does
not go on, its labels stand before instructions, and its jumps and constants are in range. -/
theorem compile_ok {project : Project} (hstage : project.stage.isStage = true)
    (hwords : ∀ d ∈ project.stage :: project.sprites, ∀ x ∈ d.scripts, x.words < 2 ^ 32) :
    ∃ p, compile project = .ok p ∧ ∀ t ∈ p.stage :: p.sprites, ∀ s ∈ t.scripts.all, s.WellFormed := by
  obtain ⟨p,hp,hwell⟩ := Compile.scripts_ok (hwords _ List.mem_cons_self)
    { isStage := true, stage := Compile.declareData project.stage } 0
  have hsprites : ∀ x d, d ∈ project.sprites → (∀ t ∈ x.targets, ∀ s ∈ t.scripts.all, s.WellFormed) →
      ∃ y, Compile.sprite x d = .ok y ∧ ∀ t ∈ y.targets, ∀ s ∈ t.scripts.all, s.WellFormed :=
    fun x d hd hx => Compile.sprite_ok hx (hwords d (List.mem_cons_of_mem _ hd))
  obtain ⟨y,hy,hy'⟩ := Except.foldlM_ok hsprites
    (b := ⟨#[],p.symbols.stage,p.next,Warnings.extend {} p.symbols.warnings⟩) (by simp)
  simp only [compile,hstage,hp,Bool.not_true,Bool.false_eq_true,if_false]
  refine ⟨_,by simp only [bind,Except.bind,hy]; rfl,?_⟩
  intro t ht
  rcases List.mem_cons.1 ht with rfl | ht
  · rw [Compile.scripts_buildTarget]
    exact hwell
  · exact hy' t (Array.mem_toList_iff.1 ht)

def loneLoop : Stack where
  hat := .flag
  blocks := [.mk "control_forever" none [
    .mk "SUBSTACK" [.mk "procedures_call" (some { procedure := "vanish" }) [] []] none] []]

theorem expandStack_loneLoop : expandStack [] loneLoop.blocks =
    [.enter,.here,.enter,.call "vanish" 0,.leave,.resume .forceQueue 0,.leave] := by
  obtain ⟨i,hforever,-⟩ := Palette.find?_of_mem (Palette.mem_of_group (g := Palette.control) (i := 2) (by simp) rfl)
  obtain ⟨j,hcall,-⟩ := Palette.find?_of_mem (Palette.mem_of_group (g := Palette.procedures) (i := 0) (by simp) rfl)
  change Palette.find? "control_forever" = _ at hforever
  change Palette.find? "procedures_call" = _ at hcall
  simp [loneLoop,expandStack,expandBlocks,expand,statementCode,Block.opcode,hforever,hcall,Entry.statement,
    entryCode,Palette.forever,Palette.callProcedure,Block.mutation,stepCode,stepCode.find,expandSlots,expandSlot,
    Step.here,Step.resume,SlotCode.substackCode]

theorem words_loneLoop : loneLoop.words = 7 := by
  rw [Stack.words,show loneLoop.params = [] from rfl,Compile.words,expandStack_loneLoop]
  decide +kernel

def loneProject : Project where
  stage := { name := "Stage", isStage := true, scripts := [loneLoop] }

theorem compile_ok_loneProject : loneLoop.words = 7 ∧
    ∃ p, compile loneProject = .ok p ∧ ∀ t ∈ p.stage :: p.sprites, ∀ s ∈ t.scripts.all, s.WellFormed := by
  refine ⟨words_loneLoop,compile_ok rfl ?_⟩
  intro d hd x hx
  obtain rfl := List.mem_singleton.1 hd
  obtain rfl := List.mem_singleton.1 hx
  rw [words_loneLoop]
  decide

/-! Where scripts come from -/

theorem Except.foldlM_keeps {f : β → α → Except ε β} {p : β → Prop} {xs : List α}
    (h : ∀ {b x c}, x ∈ xs → f b x = .ok c → p b → p c) {b c : β} (hf : xs.foldlM f b = .ok c) (hb : p b) : p c := by
  induction xs generalizing b with
  | nil =>
    cases hf
    exact hb
  | cons x xs ih =>
    rw [List.foldlM_cons] at hf
    obtain ⟨b',hb',hf⟩ := Except.bind_eq_ok.1 hf
    exact ih (fun hx => h (List.mem_cons_of_mem _ hx)) hf (h List.mem_cons_self hb' hb)

namespace Compile

def Compiled (symbols : Symbols) (o : Opcode) (s : Script) : Prop :=
  ∃ before name params blocks after id, script before name params blocks o id = .ok (s,after) ∧ after.Grows symbols

/-- Scripts that were compiled with some symbols, and that differ if they are not the same. -/
structure Sourced (symbols : Symbols) (scripts : Scripts) : Prop where
  listeners : ∀ {e : Event} {s : Script}, (e,s) ∈ scripts.listeners.entries → Compiled symbols .finish s
  procedures : ∀ {n : String} {q : Procedure}, (n,q) ∈ scripts.procedures → Compiled symbols .endCall q.script
  distinct : ∀ {s s' : Script}, s ∈ scripts.all → s' ∈ scripts.all → s.id = s'.id → s = s'

variable {o : Opcode} {s : Script} {after : Symbols} {name : String} {blocks : List Block}

theorem Compiled.mono {symbols symbols' : Symbols} (h : Compiled symbols o s) (hg : symbols.Grows symbols') :
    Compiled symbols' o s := by
  obtain ⟨before,name,params,blocks,after,id,hs,hafter⟩ := h
  exact ⟨before,name,params,blocks,after,id,hs,hafter.trans hg⟩

theorem Sourced.mono {symbols symbols' : Symbols} {scripts : Scripts} (h : Sourced symbols scripts)
    (hg : symbols.Grows symbols') : Sourced symbols' scripts :=
  ⟨fun he => (h.listeners he).mono hg,fun hq => (h.procedures hq).mono hg,h.distinct⟩

/-- What is so while the scripts of a target are compiled. -/
structure Progress.Sound (symbols : Symbols) (p : Progress) : Prop where
  sourced : Sourced p.symbols p.scripts
  fresh : ∀ s ∈ p.scripts.all, s.id < p.next
  grows : symbols.Grows p.symbols

theorem script_spec {symbols : Symbols} {params : List String} {id : Nat}
    (h : script symbols name params blocks o id = .ok (s,after)) : s.id = id ∧ symbols.Grows after := by
  obtain ⟨s',hs,h⟩ := Except.bind_eq_ok.1 h
  cases h
  refine ⟨?_,?_⟩
  · unfold Assembler.build at hs
    obtain ⟨instrs,-,hs⟩ := Except.bind_eq_ok.1 hs
    obtain ⟨-,hs⟩ := Except.throw_or_eq_ok.1 hs
    obtain ⟨labels,-,hs⟩ := Except.bind_eq_ok.1 hs
    obtain ⟨code,-,hs⟩ := Except.bind_eq_ok.1 hs
    obtain ⟨u,-,hs⟩ := Except.bind_eq_ok.1 hs
    cases hs
    rfl
  · rw [Emitter.op_symbols]
    exact Emitter.symbols_grows_run (.start symbols name) _

variable {symbols : Symbols} {p q : Progress}

theorem Progress.Sound.extend (h : p.Sound symbols) {scripts : Scripts} {params : List String}
    (hs : script p.symbols name params blocks o p.next = .ok (s,after))
    (hall : ∀ s' ∈ scripts.all, s' ∈ p.scripts.all ∨ s' = s)
    (hlisteners : ∀ {e s'}, (e,s') ∈ scripts.listeners.entries → (e,s') ∈ p.scripts.listeners.entries ∨ s' = s ∧ o = .finish)
    (hprocedures : ∀ {n r}, (n,r) ∈ scripts.procedures → (n,r) ∈ p.scripts.procedures ∨ r.script = s ∧ o = .endCall) :
    Progress.Sound symbols ⟨after,scripts,p.next + 1⟩ := by
  obtain ⟨hid,hgrows⟩ := script_spec hs
  have hnew : Compiled after o s := ⟨_,_,_,_,_,_,hs,.refl _⟩
  have hsourced := h.sourced.mono hgrows
  refine ⟨⟨fun he => ?_,fun hr => ?_,fun {s₁ s₂} h₁ h₂ heq => ?_⟩,fun s' hs' => ?_,h.grows.trans hgrows⟩
  · rcases hlisteners he with he | ⟨rfl,rfl⟩
    · exact hsourced.listeners he
    · exact hnew
  · rcases hprocedures hr with hr | ⟨rfl,rfl⟩
    · exact hsourced.procedures hr
    · exact hnew
  · rcases hall _ h₁ with h₁ | rfl <;> rcases hall _ h₂ with h₂ | rfl
    · exact h.sourced.distinct h₁ h₂ heq
    · have := h.fresh _ h₁
      omega
    · have := h.fresh _ h₂
      omega
    · rfl
  · rcases hall _ hs' with hs' | rfl
    · exact Nat.lt_succ_of_lt (h.fresh _ hs')
    · rw [hid]
      exact Nat.lt_succ_self _

theorem Progress.Sound.warn (h : p.Sound symbols) (message : String) :
    Progress.Sound symbols { p with symbols := p.symbols.warn message } :=
  ⟨h.sourced.mono (.warn _ _),h.fresh,h.grows.trans (.warn _ _)⟩

theorem Progress.Sound.procedure {proto : Prototype} {blocks : List Block} (h : p.Sound symbols)
    (hq : Compile.procedure p proto blocks = .ok q) : q.Sound symbols := by
  obtain ⟨⟨s,after⟩,hs,hq⟩ := Except.bind_eq_ok.1 hq
  cases hq
  have hmem : ∀ {n : String} {r : Procedure},
      (n,r) ∈ (p.scripts.define proto.procedure
        { script := s, warp := proto.warp, arguments := proto.parameters.map Parameter.name }).procedures →
      (n,r) ∈ p.scripts.procedures ∨ r.script = s := by
    intro n r hr
    simp only [Scripts.define,List.mem_append,List.mem_filter,List.mem_singleton,Prod.mk.injEq] at hr
    rcases hr with hr | ⟨-,rfl⟩
    · exact .inl hr.1
    · exact .inr rfl
  refine h.extend hs ?_ (fun he => .inl he) fun hr => (hmem hr).imp_right fun hr => ⟨hr,rfl⟩
  intro s' hs'
  rcases mem_all.1 hs' with he | ⟨n,r,hr,rfl⟩
  · exact .inl (mem_all.2 (.inl he))
  · rcases hmem hr with hr | rfl
    · exact .inl (mem_all.2 (.inr ⟨n,r,hr,rfl⟩))
    · exact .inr rfl

theorem Progress.Sound.listener {target : String} {event : Event} (h : p.Sound symbols)
    (hq : Compile.listener target p event blocks = .ok q) : q.Sound symbols := by
  obtain ⟨⟨s,after⟩,hs,hq⟩ := Except.bind_eq_ok.1 hq
  cases hq
  have hmem : ∀ {e : Event} {s' : Script}, (e,s') ∈ (p.scripts.listeners.add event s).entries →
      (e,s') ∈ p.scripts.listeners.entries ∨ s' = s := by
    intro e s' he
    rcases Array.mem_push.1 he with he | he
    · exact .inl he
    · cases he
      exact .inr rfl
  refine h.extend hs ?_ (fun he => (hmem he).imp_right fun he => ⟨he,rfl⟩) fun hr => .inl hr
  intro s' hs'
  rcases mem_all.1 hs' with ⟨e,he⟩ | hr
  · rcases hmem he with he | rfl
    · exact .inl (mem_all.2 (.inl ⟨e,he⟩))
    · exact .inr rfl
  · exact .inl (mem_all.2 (.inr hr))

theorem Progress.Sound.stack {target : String} {x : Stack} (h : p.Sound symbols)
    (hq : Compile.stack target p x = .ok q) : q.Sound symbols := by
  unfold Compile.stack at hq
  split at hq
  · split at hq <;> cases hq
    · exact h
    · exact h.warn _
  · split at hq
    · cases hq
      exact h
    · split at hq
      · exact h.procedure hq
      · split at hq
        · exact h.listener hq
        · cases hq
          exact h.warn _
      · split at hq
        · exact h.listener hq
        · cases hq
          exact h

theorem scripts_sound {d : Declaration} {next : Nat} (h : scripts d symbols next = .ok p) : p.Sound symbols := by
  refine Except.foldlM_keeps (p := fun p : Progress => p.Sound symbols) (fun _ hq hp => hp.stack hq) h ?_
  exact ⟨⟨fun he => by simp at he,fun hr => by simp at hr,fun hs => by simp [mem_all] at hs⟩,
    fun s hs => by simp [mem_all] at hs,.refl _⟩

/-- The scripts of a target were compiled with symbols that its tables and those of the stage have. -/
def Supplied (stage : DataTables) (t : Target) : Prop :=
  ∃ symbols : Symbols, symbols.isStage = t.isStage ∧ Sourced symbols t.scripts ∧
    (∀ kind, symbols.count kind true ≤ stage.count kind) ∧
    (t.isStage = false → ∀ kind, symbols.count kind false ≤ t.data.count kind)

theorem Supplied.mono {stage stage' : DataTables} {t : Target} (h : Supplied stage t)
    (hg : ∀ kind, stage.count kind ≤ stage'.count kind) : Supplied stage' t := by
  obtain ⟨symbols,hstage,hsourced,hcount,hown⟩ := h
  exact ⟨symbols,hstage,hsourced,fun kind => Nat.le_trans (hcount kind) (hg kind),hown⟩

theorem kind_buildTarget (d : Declaration) (kind : TargetKind) (data : DataTables) (scripts : Scripts) :
    (buildTarget d kind data scripts).kind = kind := by
  unfold buildTarget Target.setVolume
  dsimp only
  split <;> rfl

theorem data_buildTarget (d : Declaration) (kind : TargetKind) (data : DataTables) (scripts : Scripts) :
    (buildTarget d kind data scripts).data = data := by
  unfold buildTarget Target.setVolume
  dsimp only
  split <;> rfl

/-- What is so while sprites are compiled, when the stage already had some tables. -/
structure Sprites.Sound (stage : DataTables) (x : Sprites) : Prop where
  targets : ∀ t ∈ x.targets, t.kind = .sprite ∧ Supplied x.stage t
  grows : ∀ kind, stage.count kind ≤ x.stage.count kind

theorem Sprites.Sound.sprite {stage : DataTables} {x y : Sprites} {d : Declaration} (h : x.Sound stage)
    (hy : Compile.sprite x d = .ok y) : y.Sound stage := by
  obtain ⟨p,hp,hy⟩ := Except.bind_eq_ok.1 hy
  cases hy
  have hsound := scripts_sound hp
  have hgrows : ∀ kind, x.stage.count kind ≤ p.symbols.stage.count kind := fun kind => hsound.grows.count kind true
  refine ⟨fun t ht => ?_,fun kind => Nat.le_trans (h.grows kind) (hgrows kind)⟩
  rcases Array.mem_push.1 ht with ht | rfl
  · exact ⟨(h.targets t ht).1,(h.targets t ht).2.mono hgrows⟩
  · have hkind := kind_buildTarget d .sprite p.symbols.own p.scripts
    refine ⟨hkind,p.symbols,?_,?_,fun kind => Nat.le_refl _,fun _ kind => ?_⟩
    · rw [Target.isStage,hkind]
      exact hsound.grows.isStage
    · rw [scripts_buildTarget]
      exact hsound.sourced
    · rw [data_buildTarget]
      exact Nat.le_refl _

end Compile

/-- Every target is built from a declaration of the project. -/
theorem compile_built (h : compile project = .ok p) :
    ∀ t ∈ p.stage :: p.sprites, ∃ d ∈ project.stage :: project.sprites, ∃ symbols next q kind data,
      Compile.scripts d symbols next = .ok q ∧ t = Compile.buildTarget d kind data q.scripts := by
  obtain ⟨-,h⟩ := Except.throw_or_eq_ok.1 h
  obtain ⟨q,hq,h⟩ := Except.bind_eq_ok.1 h
  obtain ⟨x,hx,h⟩ := Except.bind_eq_ok.1 h
  cases h
  intro t ht
  rcases List.mem_cons.1 ht with rfl | ht
  · exact ⟨_,List.mem_cons_self,_,_,q,_,_,hq,rfl⟩
  · refine Except.foldlM_keeps (p := fun x : Compile.Sprites => ∀ t ∈ x.targets, ∃ d ∈ project.stage :: project.sprites,
      ∃ symbols next q kind data, Compile.scripts d symbols next = .ok q ∧ t = Compile.buildTarget d kind data q.scripts)
      (fun hd hz hy t ht => ?_) hx (by simp) t (Array.mem_toList_iff.1 ht)
    obtain ⟨r,hr,hz⟩ := Except.bind_eq_ok.1 hz
    cases hz
    rcases Array.mem_push.1 ht with ht | rfl
    · exact hy t ht
    · exact ⟨_,List.mem_cons_of_mem _ hd,_,_,r,_,_,hr,rfl⟩

theorem compile_supplied (h : compile project = .ok p) :
    p.stage.kind = .stage ∧ (∀ t ∈ p.sprites, t.kind = .sprite) ∧
      ∀ t ∈ p.stage :: p.sprites, Compile.Supplied p.stage.data t := by
  obtain ⟨-,h⟩ := Except.throw_or_eq_ok.1 h
  obtain ⟨q,hq,h⟩ := Except.bind_eq_ok.1 h
  obtain ⟨x,hx,h⟩ := Except.bind_eq_ok.1 h
  cases h
  have hsound := Compile.scripts_sound hq
  have hsprites : x.Sound q.symbols.stage := by
    refine Except.foldlM_keeps (p := fun x : Compile.Sprites => x.Sound q.symbols.stage) (fun _ hy hx => hx.sprite hy) hx ?_
    exact ⟨fun t ht => by simp at ht,fun _ => Nat.le_refl _⟩
  have hkind := Compile.kind_buildTarget project.stage .stage x.stage q.scripts
  refine ⟨hkind,fun t ht => (hsprites.targets t (Array.mem_toList_iff.1 ht)).1,?_⟩
  rw [Compile.data_buildTarget]
  intro t ht
  rcases List.mem_cons.1 ht with rfl | ht
  · have hstage : (Compile.buildTarget project.stage .stage x.stage q.scripts).isStage = true := by
      rw [Target.isStage,hkind]
      rfl
    refine ⟨q.symbols,?_,?_,hsprites.grows,fun hs => ?_⟩
    · rw [hstage]
      exact hsound.grows.isStage
    · rw [Compile.scripts_buildTarget]
      exact hsound.sourced
    · rw [hstage] at hs
      cases hs
  · exact (hsprites.targets t (Array.mem_toList_iff.1 ht)).2

end SpriteMachine
