import SpriteMachine.Proofs.Boundaries

/-!
Where code comes from. The code of a script yields in every case only if one of its blocks waits, and calls only
procedures that its blocks name. Each procedure of a target is the script of the last definition that the declaration
of the target has for its name.
-/

namespace SpriteMachine

/-- The kinds of blocks that yield also where nothing else does. -/
def Palette.waiting : List String :=
  ["control_forever","control_wait","motion_glideto","motion_glidesecstoxy","sensing_askandwait",
    "event_broadcastandwait","looks_sayforsecs","looks_thinkforsecs","sound_playuntildone","music_playNoteForBeats",
    "music_playDrumForBeats","music_restForBeats"]

namespace Block

def waits (b : Block) : Bool :=
  Palette.waiting.contains b.opcode

/-- The procedure that a block calls. -/
def callee? (b : Block) : Option String :=
  if b.opcode = "procedures_call" then b.mutation.map Mutation.procedure else none

/-- The variable that a block names. -/
def named? (b : Block) : Option Reference :=
  (b.field? "VARIABLE").map Field.reference

theorem named?_of_primitive? {b : Block} {r : Reference} (h : b.primitive? = some (.variableOf r)) :
    b.named? = some r := by
  unfold primitive? at h
  unfold named?
  split at h <;> simp_all

end Block

/-! What the palette says -/

/-- A directive that yields in every case comes from a block that waits, a call or a variable from one that names it, no
block ends a thread. Builtins are called and checks are raised by steps of their own. -/
def Directive.isAdmissible (waits : Bool) (callee? : Option String) (named? : Option Reference) : Directive → Bool
  | .resume o _ => waits || o ≠ .forceQueue
  | .call name _ => callee? = some name
  | .pushVariable r | .bindVariable r => named? = some r
  | .op o _ => o ≠ .finish && o ≠ .callBuiltin && o ≠ .visual
  | _ => true

def Step.isAdmissible (waits : Bool) (callee? : Option String) (named? : Option Reference) : Step → Bool
  | .emit d => d.isAdmissible waits callee? named?
  | .callEntry opcode => (Palette.helper? opcode).isSome
  | _ => true

def Entry.Discloses (e : Entry) : Prop :=
  ∀ site : Site, site.block.opcode = e.opcode →
    (e.steps site).all (Step.isAdmissible (Palette.waiting.contains e.opcode) site.block.callee? site.block.named?) = true

namespace Palette

open Entry Step

theorem discloses_callProcedure : (statement "procedures_call" callProcedure).Discloses := by
  intro site hsite
  change (callProcedure site).all _ = true
  unfold callProcedure
  cases hm : site.block.mutation with
  | none => rfl
  | some m => simp [Step.isAdmissible,Directive.isAdmissible,Block.callee?,hsite,hm,statement]

set_option maxRecDepth 2000 in
theorem entries_disclose : ∀ {e : Entry}, e ∈ entries.toList → e.Discloses := by
  simp only [entries,motion,looks,sound,events,control,sensing,operators,data,procedures,pen,music,List.cons_append,
    List.nil_append,List.forall_mem_cons,List.not_mem_nil,false_imp_iff,implies_true,and_true]
  and_intros
  all_goals first
    | exact fun _ _ => rfl
    -- The recipes that look at a field of their block have two forms; one may name the variable that the field gives.
    | intro site _
      simp only [steps,statement,value,setRotation,shiftLayer,pitch,stop,comparison,mathFunction,withVariable,withList,
        parameter]
      split
      all_goals first
        | rfl
        | simp_all [Step.isAdmissible,Directive.isAdmissible,Block.named?]
    | exact discloses_callProcedure

end Palette

theorem Block.Writes.isAdmissible {params : List String} {b : Block} {d : Directive} (h : b.Writes params d) :
    d.isAdmissible b.waits b.callee? b.named? = true := by
  rcases h with ⟨p,hp,hd⟩ | ⟨e,he,hopcode,hd⟩
  · cases p with
    | variableOf r =>
      cases List.mem_singleton.1 hd
      simp [Directive.isAdmissible,b.named?_of_primitive? hp]
    | text s | listOf r | messageOf r =>
      cases List.mem_singleton.1 hd
      rfl
    | number written =>
      simp only [primitiveCode] at hd
      split at hd <;> cases List.mem_singleton.1 hd <;> rfl
    | colour written =>
      simp only [primitiveCode] at hd
      split at hd
      · cases List.mem_singleton.1 hd
        rfl
      · rcases List.mem_pair.1 hd with rfl | rfl <;> rfl
  · have hall := List.all_eq_true.1 (Palette.entries_disclose he ⟨b,params⟩ hopcode.symm) _ hd
    rw [hopcode] at hall
    exact hall

/-! Properties of code that is put together -/

/-- A property of code that goes from parts to the whole, and that code has which only reads and computes. -/
structure Composes (Q : List Directive → Prop) : Prop where
  append : ∀ {ds ds' : List Directive}, Q ds → Q ds' → Q (ds ++ ds')
  query : ∀ {ds : List Directive}, IsQuery ds → Q ds

namespace Composes

variable {Q : List Directive → Prop} {params : List String}

theorem nil (h : Composes Q) : Q [] :=
  h.query (by simp [IsQuery])

theorem flatMap (h : Composes Q) {α : Type} {f : α → List Directive} {xs : List α} (hf : ∀ x ∈ xs, Q (f x)) :
    Q (xs.flatMap f) := by
  induction xs with
  | nil => exact h.nil
  | cons x xs ih =>
    rw [List.flatMap_cons]
    exact h.append (hf x List.mem_cons_self) (ih fun y hy => hf y (List.mem_cons_of_mem _ hy))

theorem inputs (h : Composes Q) {slots : List SlotCode} (hqueries : ∀ c ∈ slots, IsQuery c.reporter) (e : Entry) (id : Nat) :
    Q (stepCode params slots e id .inputs) :=
  h.flatMap fun _ _ => h.query (forall_inputCode isQuery_of_isSupport fun c hc =>
    hqueries c (List.mem_of_find?_eq_some hc))

theorem stepCode (h : Composes Q) {slots : List SlotCode} {e : Entry} {id : Nat} {st : Step} {waits : Bool}
    {callee? : Option String} {named? : Option Reference} (hqueries : ∀ c ∈ slots, IsQuery c.reporter)
    (hslots : ∀ c ∈ slots, Q c.statements) (hself : st = .callSelf → Q [.op .callBuiltin [UInt32.ofNat id]])
    (hhelper : ∀ (opcode : String) (b : Builtin) (id : UInt32), Palette.helper? opcode = some b →
      Palette.builtin? id = some b → Q [.op .callBuiltin [id]])
    (hemit : ∀ d : Directive, d.isAdmissible waits callee? named? = true → Q [d])
    (hst : st.isAdmissible waits callee? named? = true) : Q (SpriteMachine.stepCode params slots e id st) := by
  have hfind : ∀ name c, stepCode.find slots name = some c → c ∈ slots := fun _ _ hc => List.mem_of_find?_eq_some hc
  have hinput : ∀ name c, stepCode.find slots name = some c → IsQuery c.reporter := fun name c hc =>
    hqueries c (hfind name c hc)
  cases st with
  | input name => exact h.query (forall_inputCode isQuery_of_isSupport (hinput name))
  | number name => exact h.query (forall_numberCode isQuery_of_isSupport (hinput name))
  | text name => exact h.query (forall_textCode isQuery_of_isSupport (hinput name))
  | condition name => exact h.query (forall_conditionCode isQuery_of_isSupport (hinput name))
  | substack name =>
    simp only [SpriteMachine.stepCode,SlotCode.substackCode]
    split
    next c hc => exact hslots c (hfind name c hc)
    · exact h.nil
  | inputs => exact h.inputs hqueries e id
  | callSelf => exact hself rfl
  | callEntry opcode =>
    obtain ⟨b,hb⟩ := Option.isSome_iff_exists.1 hst
    obtain ⟨id',hindex,hbuiltin⟩ := Palette.indexOf?_of_helper hb
    simp only [SpriteMachine.stepCode,callEntryCode,hindex]
    exact hhelper opcode b _ hb hbuiltin
  | emit d => exact hemit d hst

theorem bracket (h : Composes Q) {ds : List Directive} (hds : Q ds) : Q (.enter :: (ds ++ [.leave])) := by
  have hsupport : ∀ d : Directive, d.isSupport = true → Q [d] := fun d hd =>
    h.query (List.forall_mem_singleton.2 (isQuery_of_isSupport d hd))
  exact h.append (hsupport .enter rfl) (h.append hds (hsupport .leave rfl))

end Composes

/-- Moreover the code of a block has it if the code in its slots has. -/
structure BuildsUp (params : List String) (Q : List Directive → Prop) : Prop extends Composes Q where
  block : ∀ {b : Block} {e : Entry} {id : Nat}, Palette.find? b.opcode = some (e,id) →
    (expand params b).statement = entryCode ⟨b,params⟩ (expandSlots params b.slots) e id →
    (∀ c ∈ expandSlots params b.slots, Q c.statements) → Q (expand params b).statement

namespace BuildsUp

variable {Q : List Directive → Prop} {params : List String}

theorem stack (h : BuildsUp params Q) {blocks : List Block} (hblocks : ∀ b ∈ blocks, Q (SpriteMachine.expand params b).statement) :
    Q (SpriteMachine.expandStack params blocks) := by
  rw [SpriteMachine.expandStack,expandBlocks_eq_map,List.flatMap_map]
  exact h.flatMap hblocks

theorem expand (h : BuildsUp params Q) : ∀ b : Block, Q (SpriteMachine.expand params b).statement := by
  refine Block.induction (S := fun s => Q (expandSlot params s).statements) ?_ fun _ _ _ hblocks _ => h.stack hblocks
  rintro ⟨opcode,mutation,slots,fields⟩ hslots
  have hunknown : ∀ message, Q [.warn message] := fun message => h.query (List.forall_mem_singleton.2 rfl)
  have hcode : (SpriteMachine.expand params (.mk opcode mutation slots fields)).statement =
      statementCode ⟨.mk opcode mutation slots fields,params⟩ (expandSlots params slots) := rfl
  unfold statementCode at hcode
  split at hcode
  next e id hfind =>
    split at hcode
    · rw [hcode]
      exact hunknown _
    · refine h.block hfind hcode ?_
      rw [expandSlots_eq_map]
      exact List.forall_mem_map.2 hslots
  · rw [hcode]
    exact hunknown _

theorem expandStack (h : BuildsUp params Q) (blocks : List Block) : Q (SpriteMachine.expandStack params blocks) :=
  h.stack fun b _ => h.expand b

end BuildsUp

/-! What scripts say -/

/-- A directive neither yields in every case nor ends a thread, and what it calls is among some procedures. -/
def Directive.Steady (callees : String → Prop) : Directive → Prop
  | .resume o _ => o ≠ .forceQueue
  | .call name _ => callees name
  | .op o _ => o ≠ .finish
  | _ => True

theorem steady_expandStack {params : List String} {blocks : List Block} (hwaits : ∀ b ∈ Block.forest blocks, b.waits = false) :
    ∀ d ∈ expandStack params blocks, d.Steady fun name => ∃ b ∈ Block.forest blocks, b.callee? = some name := by
  refine forall_expandStack ⟨fun d hd => ?_,fun id => by simp [Directive.Steady]⟩ fun b hb d hd => ?_
  · cases d with
    | op o ws =>
      rintro rfl
      cases hd
    | resume o i | call name argc => cases hd
    | _ => trivial
  · have hadmissible := hd.isAdmissible
    rw [hwaits b hb] at hadmissible
    cases d with
    | op o ws =>
      simp only [Directive.isAdmissible,Bool.and_eq_true,decide_eq_true_eq] at hadmissible
      exact hadmissible.1.1
    | resume o i => simpa [Directive.isAdmissible,Directive.Steady] using hadmissible
    | call name argc => exact ⟨b,hb,by simpa [Directive.isAdmissible] using hadmissible⟩
    | _ => trivial

/-- An instruction neither yields in every case nor ends a thread, and what it calls is among some procedures. -/
structure Instr.Steady (s : Script) (callees : String → Prop) (i : Instr) : Prop where
  yields : ∀ label, i ≠ .forceQueue label
  ends : i ≠ .finish
  calls : ∀ procedure argc ret, i = .call procedure argc ret → ∃ name, s.constant? procedure = some name ∧ callees name

def Instr.isQuiet : Instr → Bool
  | .forceQueue _ | .finish | .call .. => false
  | _ => true

variable {s : Script} {project : Project} {p : Program} {x : Target}

theorem Instr.Steady.of_isQuiet {callees : String → Prop} {i : Instr} (h : i.isQuiet = true) : i.Steady s callees := by
  cases i with
  | forceQueue _ | finish | call _ _ _ => cases h
  | _ => exact ⟨by simp,by simp,by simp⟩

theorem Instr.ofOperands_finish {o : Opcode} {ws : List UInt32} (h : ofOperands o ws = .finish) : o = .finish := by
  cases o <;> first | rfl | cases h

namespace Emission

variable {s : Script} {first : Emitter} {whole done rest : List Directive} {d : Directive} {pc next : Nat} {i : Instr}
  {callees : String → Prop}

/-- The name of the procedure that a directive calls is where its instruction finds it. -/
theorem constant?_call {name : String} {argc : Nat} (h : Emission s first (done ++ .call name argc :: rest)) :
    s.constant? (UInt32.ofNat ((first.run done).code.constantIndex name)) = some name := by
  obtain ⟨t,saves,hc⟩ := h.course
  have hindex : (first.run done).flush.code.newLabel.constantIndex name = (first.run done).code.constantIndex name := by
    simp [Assembler.constantIndex,Assembler.newLabel]
  have hthere : ((first.run done).step (.call name argc)).code.constants[(first.run done).code.constantIndex name]? =
      some name := by
    rw [← hindex]
    exact Assembler.constants_constantIndex (first.run done).flush.code.newLabel name
  have hlt := (Array.getElem?_eq_some_iff.1 hthere).1
  have hgrows := (((first.run done).step (.call name argc)).run_grows rest).constants_size
  rw [← Emitter.run_cons,hc.run_eq] at hgrows
  have hsize := h.constants_size
  have hsmall : (first.run done).code.constantIndex name < 2 ^ 32 := by omega
  rw [Script.constant?,UInt32.toNat_ofNat_of_lt' hsmall,(h.holds hc).constants _ hlt,hthere]

theorem steady_written (h : Emission s first (done ++ d :: rest)) (hd : d.Steady callees)
    (hi : (first.run done).written s d = some i) : i.Steady s callees := by
  obtain ⟨t,saves,hc⟩ := h.course
  obtain ⟨u,hu⟩ := h.passes_next hc
  cases d with
  | op o ws =>
    have hperform := (Tally.step_op.1 hu).2
    rw [Option.some.inj hi] at hperform
    cases i with
    | forceQueue _ | call _ _ _ => cases hperform
    | finish => exact absurd (Instr.ofOperands_finish (Option.some.inj hi)) hd
    | _ => exact .of_isQuiet rfl
  | bound o ws =>
    obtain ⟨_,-,hall⟩ := Tally.handle?_of_bound s hu
    have hhandle := hall (first.run done).scope.handle
    rw [Option.some.inj hi] at hhandle
    cases i with
    | forceQueue _ | call _ _ _ | finish => cases hhandle
    | _ => exact .of_isQuiet rfl
  | jump o j =>
    obtain ⟨-,⟨rfl,-⟩ | ⟨rfl | rfl,-⟩⟩ := Tally.step_jump.1 hu
    all_goals
      cases hi
      exact .of_isQuiet rfl
  | resume o j =>
    obtain ⟨-,rfl | rfl,-⟩ := Tally.step_resume.1 hu
    · cases hi
      exact .of_isQuiet rfl
    · exact absurd rfl hd
  | call name n =>
    cases hi
    refine ⟨by simp,by simp,fun procedure argc ret heq => ?_⟩
    cases heq
    exact ⟨name,h.constant?_call,hd⟩
  | pushNumber _ | pushText _ | pushBool _ | pushVariable _ | pushList _ =>
    cases hi
    exact .of_isQuiet rfl
  | _ => cases hi

theorem steady (h : Emission s first whole) (hwhole : ∀ d ∈ whole, d.Steady callees) (hb : s.Aligned pc)
    (hfetch : s.fetch pc = .ok (i,next)) : i.Steady s callees := by
  obtain ⟨done,d,rest,rfl,⟨-,-,rfl⟩ | ⟨-,-,hi⟩⟩ := h.writes hb hfetch
  · exact .of_isQuiet rfl
  · exact h.steady_written (hwhole d (by simp)) hi

end Emission

/-! The definitions of procedures -/

/-- What a script of a declaration defines a procedure to be. Empty definitions do not count. -/
def Stack.defines? (name : String) (x : Stack) : Option (Prototype × List Block) :=
  match x.hat with
  | .procedure proto => if x.blocks.isEmpty || proto.procedure ≠ name then none else some (proto,x.blocks)
  | _ => none

/-- The last definition of a procedure counts. -/
def Declaration.procedure? (d : Declaration) (name : String) : Option (Prototype × List Block) :=
  (d.scripts.filterMap (Stack.defines? name)).getLast?

theorem Scripts.procedure?_define (scripts : Scripts) (name : String) (q : Procedure) (n : String) :
    (scripts.define name q).procedure? n = if n = name then some q else scripts.procedure? n := by
  simp only [define,procedure?,List.find?_append]
  by_cases hn : n = name
  · subst hn
    have hnone : (scripts.procedures.filter (·.1 != n)).find? (fun e => e.1 == n) = none := by simp
    simp [hnone]
  · have hsame : (scripts.procedures.filter (·.1 != name)).find? (fun e => e.1 == n) =
        scripts.procedures.find? fun e => e.1 == n := by
      rw [List.find?_filter]
      congr 1
      funext e
      by_cases he : e.1 = n
      · simp [he,hn]
      · simp [he]
    have hother : name ≠ n := fun h => hn h.symm
    simp [hsame,hn,hother]

namespace Compile

/-- A procedure was compiled from a definition. -/
def Defines (found : Option (Prototype × List Block)) (name : String) (q : Procedure) : Prop :=
  ∃ proto blocks before after id, found = some (proto,blocks) ∧ q.warp = proto.warp ∧
    script before name (proto.parameters.map Parameter.name) blocks .endCall id = .ok (q.script,after)

/-- The procedures so far are those that some scripts define. -/
structure Progress.Follows (p : Progress) (done : List Stack) : Prop where
  defines : ∀ name q, p.scripts.procedure? name = some q → Defines (done.filterMap (Stack.defines? name)).getLast? name q
  known : ∀ name, p.scripts.procedure? name = none → (done.filterMap (Stack.defines? name)).getLast? = none

namespace Progress.Follows

variable {p p' : Progress} {done : List Stack} {x : Stack}

theorem skip (h : p.Follows done) (hx : ∀ name, x.defines? name = none)
    (hp : p'.scripts.procedures = p.scripts.procedures) : p'.Follows (done ++ [x]) := by
  have hlast : ∀ name, (done ++ [x]).filterMap (Stack.defines? name) = done.filterMap (Stack.defines? name) := by
    intro name
    simp only [List.filterMap_append,List.filterMap_cons,hx,List.filterMap_nil,List.append_nil]
  have hfind : ∀ name, p'.scripts.procedure? name = p.scripts.procedure? name := by
    intro name
    rw [Scripts.procedure?,hp,Scripts.procedure?]
  refine ⟨fun name q hq => ?_,fun name hnone => ?_⟩
  · rw [hlast]
    exact h.defines name q (hfind name ▸ hq)
  · rw [hlast]
    exact h.known name (hfind name ▸ hnone)

theorem procedure {proto : Prototype} (h : p.Follows done) (hhat : x.hat = .procedure proto)
    (hblocks : x.blocks.isEmpty = false) (hp : Compile.procedure p proto x.blocks = .ok p') : p'.Follows (done ++ [x]) := by
  obtain ⟨⟨s,after⟩,hs,hp⟩ := Except.bind_eq_ok.1 hp
  cases hp
  have hother : ∀ {name}, name ≠ proto.procedure →
      (done ++ [x]).filterMap (Stack.defines? name) = done.filterMap (Stack.defines? name) := by
    intro name hname
    have hnone : x.defines? name = none := by simp [Stack.defines?,hhat,hname.symm]
    simp only [List.filterMap_append,List.filterMap_cons,hnone,List.filterMap_nil,List.append_nil]
  refine ⟨fun name q hq => ?_,fun name hnone => ?_⟩
  · rw [Scripts.procedure?_define] at hq
    by_cases hname : name = proto.procedure
    · subst hname
      rw [if_pos rfl] at hq
      cases hq
      refine ⟨proto,x.blocks,_,_,_,?_,rfl,hs⟩
      simp [List.filterMap_append,Stack.defines?,hhat,hblocks]
    · rw [if_neg hname] at hq
      rw [hother hname]
      exact h.defines name q hq
  · rw [Scripts.procedure?_define] at hnone
    by_cases hname : name = proto.procedure
    · rw [if_pos hname] at hnone
      cases hnone
    · rw [if_neg hname] at hnone
      rw [hother hname]
      exact h.known name hnone

theorem listener {target : String} {e : Event} {blocks : List Block} (h : p.Follows done)
    (hx : ∀ name, x.defines? name = none) (hp : Compile.listener target p e blocks = .ok p') : p'.Follows (done ++ [x]) := by
  obtain ⟨⟨s,after⟩,-,hp⟩ := Except.bind_eq_ok.1 hp
  cases hp
  exact h.skip hx rfl

theorem stack {target : String} (h : p.Follows done) (hp : Compile.stack target p x = .ok p') : p'.Follows (done ++ [x]) := by
  unfold Compile.stack at hp
  split at hp
  next opcode hhat =>
    have hx : ∀ name, x.defines? name = none := fun name => by simp [Stack.defines?,hhat]
    split at hp <;> cases hp <;> exact h.skip hx rfl
  next hhat =>
    by_cases hempty : x.blocks.isEmpty = true
    · simp only [hempty,if_true] at hp
      cases hp
      refine h.skip (fun name => ?_) rfl
      unfold Stack.defines?
      split
      · simp [hempty]
      · rfl
    · simp only [hempty,Bool.false_eq_true,if_false] at hp
      split at hp
      next proto hproc => exact h.procedure hproc (by simpa using hempty) hp
      next key hkey =>
        have hx : ∀ name, x.defines? name = none := fun name => by simp [Stack.defines?,hkey]
        split at hp
        · exact h.listener hx hp
        · cases hp
          exact h.skip hx rfl
      next hproc hkey =>
        have hx : ∀ name, x.defines? name = none := by
          intro name
          unfold Stack.defines?
          split
          next proto hhat => exact absurd hhat (hproc proto)
          · rfl
        split at hp
        · exact h.listener hx hp
        · cases hp
          exact h.skip hx rfl

end Progress.Follows

/-- The procedures of a target are compiled from the last definitions in its declaration. -/
theorem follows_of_scripts {d : Declaration} {symbols : Symbols} {next : Nat} {p : Progress}
    (h : scripts d symbols next = .ok p) : p.Follows d.scripts := by
  have hfold : ∀ (rest done : List Stack) {p₀ : Progress}, rest.foldlM (stack d.name) p₀ = .ok p → p₀.Follows done →
      p.Follows (done ++ rest) := by
    intro rest
    induction rest with
    | nil =>
      intro done p₀ hp h₀
      cases hp
      simpa using h₀
    | cons x rest ih =>
      intro done p₀ hp h₀
      rw [List.foldlM_cons] at hp
      obtain ⟨p₁,hx,hp⟩ := Except.bind_eq_ok.1 hp
      simpa using ih _ hp (h₀.stack hx)
  exact hfold d.scripts [] h ⟨fun name q hq => by simp [Scripts.procedure?] at hq,fun _ _ => rfl⟩

end Compile

/-- The scripts of a target are compiled from a declaration. -/
def Declaration.Gives (d : Declaration) (x : Target) : Prop :=
  ∃ symbols next p, Compile.scripts d symbols next = .ok p ∧ x.scripts = p.scripts

theorem Declaration.Gives.defines {d : Declaration} {x : Target} (h : d.Gives x) {name : String} {q : Procedure}
    (hq : x.scripts.procedure? name = some q) : Compile.Defines (d.procedure? name) name q := by
  obtain ⟨symbols,next,p,hp,heq⟩ := h
  rw [heq] at hq
  exact (Compile.follows_of_scripts hp).defines name q hq

theorem Declaration.Gives.known {d : Declaration} {x : Target} (h : d.Gives x) {name : String}
    {proto : Prototype} {blocks : List Block} (hname : d.procedure? name = some (proto,blocks)) :
    ∃ q, x.scripts.procedure? name = some q ∧ q.warp = proto.warp := by
  cases hq : x.scripts.procedure? name with
  | none =>
    obtain ⟨symbols,next,p,hp,heq⟩ := h
    rw [heq] at hq
    have hnone : d.procedure? name = none := (Compile.follows_of_scripts hp).known name hq
    rw [hnone] at hname
    cases hname
  | some q =>
    obtain ⟨proto',blocks',-,-,-,hfound,hwarp,-⟩ := h.defines hq
    rw [hname] at hfound
    cases hfound
    exact ⟨q,rfl,hwarp⟩

theorem Compile.gives_of_sprites {ds : List Declaration} {x y : Compile.Sprites} (h : ds.foldlM Compile.sprite x = .ok y) :
    ∀ t ∈ y.targets, t ∈ x.targets ∨ ∃ d ∈ ds, d.Gives t := by
  induction ds generalizing x with
  | nil =>
    cases h
    exact fun t ht => .inl ht
  | cons d ds ih =>
    rw [List.foldlM_cons] at h
    obtain ⟨z,hz,h⟩ := Except.bind_eq_ok.1 h
    obtain ⟨p,hp,hz⟩ := Except.bind_eq_ok.1 hz
    cases hz
    intro t ht
    rcases ih h t ht with ht | ⟨d',hd',hgives⟩
    · rcases Array.mem_push.1 ht with ht | rfl
      · exact .inl ht
      · exact .inr ⟨d,List.mem_cons_self,_,_,p,hp,scripts_buildTarget _ _ _ _⟩
    · exact .inr ⟨d',List.mem_cons_of_mem _ hd',hgives⟩

theorem compile_gives (h : compile project = .ok p) (hx : x ∈ p.stage :: p.sprites) :
    ∃ d ∈ project.stage :: project.sprites, d.Gives x := by
  obtain ⟨-,h⟩ := Except.throw_or_eq_ok.1 h
  obtain ⟨q,hq,h⟩ := Except.bind_eq_ok.1 h
  obtain ⟨y,hy,h⟩ := Except.bind_eq_ok.1 h
  cases h
  rcases List.mem_cons.1 hx with rfl | hx
  · exact ⟨_,List.mem_cons_self,_,_,q,hq,Compile.scripts_buildTarget _ _ _ _⟩
  · rcases Compile.gives_of_sprites hy x (Array.mem_toList_iff.1 hx) with hnone | ⟨d,hd,hgives⟩
    · simp at hnone
    · exact ⟨d,List.mem_cons_of_mem _ hd,hgives⟩

theorem compile_script (h : compile project = .ok p) (hx : x ∈ p.stage :: p.sprites) (hs : s ∈ x.scripts.all) :
    ∃ symbols o, Compile.Ends o ∧ Compile.Compiled symbols o s := by
  obtain ⟨-,-,hsupplied⟩ := compile_supplied h
  obtain ⟨symbols,-,hsourced,-⟩ := hsupplied x hx
  rcases Compile.mem_all.1 hs with ⟨e,he⟩ | ⟨n,q,hq,rfl⟩
  · exact ⟨symbols,.finish,.inl rfl,hsourced.listeners he⟩
  · exact ⟨symbols,.endCall,.inr rfl,hsourced.procedures hq⟩

end SpriteMachine
