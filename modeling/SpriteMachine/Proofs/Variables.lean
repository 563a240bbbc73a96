import SpriteMachine.Proofs.Names
import SpriteMachine.Proofs.Questions

/-!
Variables that scripts set and the host reads. Both go by names. A script looks at the stage first and the host at the
target; so the host sees what a script has set, unless the target has a variable of that name and the stage has one too.
-/

namespace SpriteMachine

/-! Tables and machines -/

namespace Table

variable {t : Table Variable} {n : String} {i : Nat}

theorem findIdx?_names_eq_none (hn : n ∉ t.names) : t.names.findIdx? (· == n) = none := by
  refine List.findIdx?_eq_none_iff.2 fun x hx => beq_eq_false_iff_ne.2 ?_
  rintro rfl
  exact hn hx

theorem findIdx?_names_of_mem (hn : n ∈ t.names) : ∃ i, t.names.findIdx? (· == n) = some i :=
  Option.isSome_iff_exists.1 (List.findIdx?_isSome.trans (List.any_eq_true.2 ⟨n,hn,beq_self_eq_true n⟩))

theorem lt_size_of_index (hi : t.names.findIdx? (· == n) = some i) : i < t.size ∧ n ∈ t.names := by
  obtain ⟨hlt,hn,-⟩ := List.findIdx?_eq_some_iff_getElem.1 hi
  rw [← length_names,← eq_of_beq hn]
  exact ⟨hlt,List.getElem_mem hlt⟩

theorem find?_eq (t : Table Variable) (n : String) :
    t.find? (fun v => v.name == n) = (t.names.findIdx? (· == n)).bind t.get? := by
  obtain ⟨⟨entries⟩⟩ := t
  rw [← findIdx?_eq]
  simp only [find?,findIdx?,List.find?_toArray,List.findIdx?_toArray,List.find?_eq_bind_findIdx?_getElem?]
  cases entries.findIdx? (fun e => e.2.name == n) with
  | none => rfl
  | some i => simp [get?]

theorem find?_of_index (hi : t.names.findIdx? (· == n) = some i) :
    ∃ x, t.get? i = some x ∧ t.find? (fun v => v.name == n) = some x := by
  obtain ⟨x,hx⟩ := get?_of_lt (lt_size_of_index hi).1
  exact ⟨x,hx,by rw [find?_eq,hi,Option.bind_some,hx]⟩

theorem find?_modify (hi : t.names.findIdx? (· == n) = some i) (v : Value) :
    ((t.modify i fun x => { x with value := v }).find? (fun x => x.name == n)).map Variable.value = some v := by
  obtain ⟨x,hx,-⟩ := find?_of_index hi
  rw [← t.names_modify i v] at hi
  obtain ⟨y,hy,hfind⟩ := find?_of_index hi
  obtain ⟨entry,hentry,rfl⟩ := Option.map_eq_some_iff.1 hx
  rw [hfind,← hy]
  simp [get?,modify,Array.getElem?_modify,hentry]

end Table

namespace Machine

variable {m : Machine} {id i : Nat} {n : String} {x : Target}

/-- The names of a target's own variables. -/
def namesOf (m : Machine) (id : Nat) : List String :=
  ((m.targets.get? id).map fun x => x.data.vars.names).getD []

theorem namesOf_eq (hx : m.targets.get? id = some x) : m.namesOf id = x.data.vars.names := by
  rw [namesOf,hx]
  rfl

/-- A target and the stage both have a variable with a name. -/
def Rivals (m : Machine) (id : Nat) (n : String) : Prop :=
  id ≠ stageId ∧ n ∈ m.namesOf id ∧ n ∈ m.namesOf stageId

theorem variableNamed?_eq (hx : m.targets.get? id = some x) : m.variableNamed? id n =
    ((x.data.vars.find? fun v => v.name == n).or (m.stage.data.vars.find? fun v => v.name == n)).map Variable.value := by
  unfold variableNamed?
  rw [hx,Option.map_eq_bind]
  rfl

theorem variableNamed?_own (hx : m.targets.get? id = some x) (hn : n ∈ x.data.vars.names) :
    m.variableNamed? id n = (x.data.vars.find? fun v => v.name == n).map Variable.value := by
  obtain ⟨i,hi⟩ := Table.findIdx?_names_of_mem hn
  obtain ⟨y,-,hy⟩ := Table.find?_of_index hi
  rw [variableNamed?_eq hx,hy]
  rfl

theorem variableNamed?_stage (hx : m.targets.get? id = some x) (hn : n ∉ x.data.vars.names) {y : Target}
    (hy : m.targets.get? stageId = some y) :
    m.variableNamed? id n = (y.data.vars.find? fun v => v.name == n).map Variable.value := by
  have hstage : m.stage = y := by rw [stage,hy,Option.getD_some]
  rw [variableNamed?_eq hx,Table.find?_eq x.data.vars,Table.findIdx?_names_eq_none hn,hstage]
  rfl

theorem variableNamed?_setVariableAt (hx : m.targets.get? id = some x) (hi : x.data.vars.names.findIdx? (· == n) = some i)
    (v : Value) : (m.setVariableAt id i v).variableNamed? id n = some v := by
  have hx' : (m.setVariableAt id i v).targets.get? id = some { x with data := { x.data with
      vars := x.data.vars.modify i fun y => { y with value := v } } } := by
    simp only [setVariableAt,modifyTarget,Arena.get?_modify,if_true,hx,Option.map_some]
  have hn : n ∈ (x.data.vars.modify i fun y => { y with value := v }).names := by
    rw [Table.names_modify]
    exact (Table.lt_size_of_index hi).2
  rw [variableNamed?_own hx' hn]
  exact Table.find?_modify hi v

/-- Another target sees it too if it has no such variable and the one that was set is that of the stage. -/
theorem variableNamed?_setVariableAt_stage {y : Target} (hy : m.targets.get? stageId = some y)
    (hi : y.data.vars.names.findIdx? (· == n) = some i) (hx : m.targets.get? id = some x) (hid : id ≠ stageId) (v : Value) :
    (m.setVariableAt stageId i v).variableNamed? id n =
      if n ∈ x.data.vars.names then m.variableNamed? id n else some v := by
  have hx' : (m.setVariableAt stageId i v).targets.get? id = some x := by
    simp only [setVariableAt,modifyTarget,Arena.get?_modify,if_neg hid.symm,hx]
  split
  next hn => rw [variableNamed?_own hx' hn,variableNamed?_own hx hn]
  next hn =>
    rw [variableNamed?_stage hx' hn (y := { y with data := { y.data with
      vars := y.data.vars.modify i fun z => { z with value := v } } })]
    · exact Table.find?_modify hi v
    · simp only [setVariableAt,modifyTarget,Arena.get?_modify,if_true,hy,Option.map_some]

end Machine

/-! The code that sets a variable -/

def setVariableEntry : Entry :=
  .statement "data_setvariableto" (Palette.withVariable [.input "VALUE"] .setVar)

namespace Laid

variable {s : Script} {g : Ground} {after : List Directive} {r : Reference} {pc : Nat}

section Setting

variable (h : Laid s g after) (hsteps : g.steps = [.emit (.bindVariable r),.input "VALUE",.emit (.bound .setVar [])])

include h hsteps

theorem fetch_setVar : s.fetch (g.pc 2) = .ok (.setVar ((g.upTo 0).symbols.variableHandle r).1,g.pc 3) := by
  have hbind : g.steps[0]? = some (.emit (.bindVariable r)) := by rw [hsteps]; rfl
  have hinput : g.steps[1]? = some (.input "VALUE") := by rw [hsteps]; rfl
  have hlast : g.steps[2]? = some (.emit (.bound .setVar [])) := by rw [hsteps]; rfl
  refine h.fetch hlast (.inl rfl) ?_
  have hscope : (g.upTo 2).scope = (g.upTo 1).scope := by
    rw [Ground.upTo_succ hinput]
    exact (keepsScopes_stepCode h.keeps (by rintro _ ⟨⟩) _).1
  rw [Emitter.written,hscope,Ground.upTo_emit hbind]
  rfl

theorem at_setVar (hpc : s.Aligned pc) (hstart : g.pc 0 ≤ pc) (hstop : pc < g.pc 3) : pc = g.pc 2 ∨
    ∃ x next, s.fetch pc = .ok (x,next) ∧ x.isQuery = true ∧ next ≤ g.pc 2 := by
  have hbind : g.steps[0]? = some (.emit (.bindVariable r)) := by rw [hsteps]; rfl
  have hinput : g.steps[1]? = some (.input "VALUE") := by rw [hsteps]; rfl
  have hfirst : g.pc 1 = g.pc 0 := pc_unwritten (s := s) hbind (.inl rfl) rfl
  have hwithin : ∀ {q : Nat}, Computing g 1 q → q ≤ g.pc 2 := by
    rintro q ⟨ds₁,ds₂,hsplit,rfl⟩
    rw [hinput,Option.map_some,Option.getD_some] at hsplit
    rw [Ground.pc,Ground.upTo_succ hinput,Ground.upTo,hsplit,← Emitter.run_append,← List.append_assoc,
      Emitter.run_append _ _ ds₂]
    exact (Emitter.run_grows _ _).size
  -- From the start of the value on, instruction by instruction.
  have hcomputing : Computing g 1 pc ∨ g.pc 3 ≤ pc := by
    have hleads := Script.Aligned.leads (h.emission_at 1).aligned hpc (hfirst.le.trans hstart)
    clear hpc hstart hstop
    induction hleads with
    | refl => exact .inl (computing_start g 1)
    | tail _ hnext ih =>
      obtain ⟨i,hi⟩ := hnext
      rcases ih with hcomputing | hover
      · rcases h.computing hinput rfl hcomputing with rfl | ⟨x,next,hfetch,-,hnext⟩
        · rw [h.fetch_setVar hsteps] at hi
          cases hi
          exact .inr (Nat.le_refl _)
        · rw [hfetch] at hi
          cases hi
          exact .inl hnext
      · exact .inr (hover.trans (Nat.le_of_lt (Script.lt_of_fetch hi)))
  rcases hcomputing with hcomputing | hover
  · rcases h.computing hinput rfl hcomputing with heq | ⟨x,next,hfetch,hx,hnext⟩
    · exact .inl heq
    · exact .inr ⟨x,next,hfetch,hx,hwithin hnext⟩
  · omega

end Setting

end Laid

/-! Scripts of a target -/

/-- The code of a block stands between two offsets of a script of the target with a number. -/
def Project.Places (project : Project) (k : Nat) (s : Script) (b : Block) (start stop : Nat) : Prop :=
  ∃ d x rest p q name o pre post, (project.stage :: project.sprites)[k]? = some d ∧
    Compile.Compiling project k (x :: rest) p ∧ Compile.stack d.name p x = .ok q ∧ Compile.Ends o ∧
    Compile.script p.symbols name x.params x.blocks o p.next = .ok (s,q.symbols) ∧
    expandStack x.params x.blocks = pre ++ ((expand x.params b).statement ++ post) ∧
    start = ((Emitter.start p.symbols name).run pre).pc ∧
    stop = ((Emitter.start p.symbols name).run (pre ++ (expand x.params b).statement)).pc

/-- A target of a machine is one of the program or a clone of it. -/
structure Target.CopyOf (x y : Target) : Prop where
  scripts : x.scripts = y.scripts
  names : x.data.vars.names = y.data.vars.names
  isStage : x.isStage = y.isStage

/-- A block that sets a variable computes a value and sets the variable that its name leads to. -/
theorem Project.Places.fetch_setVar {project : Project} {program : Program} (hcompile : compile project = .ok program)
    (hnames : project.IsByName) {k : Nat} {s : Script} {b : Block} {start stop : Nat}
    (h : project.Places k s b start stop) (hsmall : s.code.size < 2 ^ 32) {f : Field}
    (hopcode : b.opcode = "data_setvariableto") (hf : b.field? "VARIABLE" = some f) {y : Target}
    (hy : (program.stage :: program.sprites)[k]? = some y) :
    ∃ x last, resolveName y.isStage y.data.vars.names program.stage.data.vars.names f.value = some x ∧
      s.fetch last = .ok (.setVar (.make x.1 x.2),stop) ∧ ∀ pc, (s.IsEmitted → s.Aligned pc) → start ≤ pc → pc < stop →
        pc = last ∨ ∃ i next, s.fetch pc = .ok (i,next) ∧ i.isQuery = true ∧ next ≤ last := by
  obtain ⟨d,x,rest,p,q,name,o,pre,post,hd,hcompiling,hstack,ho,hs,hblocks,rfl,rfl⟩ := h
  have hsteps : setVariableEntry.steps ⟨b,x.params⟩ =
      [.emit (.bindVariable f.reference),.input "VALUE",.emit (.bound .setVar [])] := by
    change Palette.withVariable [.input "VALUE"] .setVar [] ⟨b,x.params⟩ = _
    simp only [Palette.withVariable,hf]
    rfl
  obtain ⟨id,hlaid,hstatement,hstart,hstop⟩ := Compile.laid ho hs hsmall hblocks (e := setVariableEntry)
    (Palette.mem_of_group (g := Palette.data) (i := 0) (by simp) rfl) hopcode rfl (by rw [hsteps]; rfl)
  rw [hsteps] at hstop
  obtain ⟨tail,htail⟩ : ∃ tail, expandStack x.params x.blocks =
      (pre ++ [.enter]) ++ .bindVariable f.reference :: tail := by
    rw [hblocks,hstatement,hsteps]
    exact ⟨_,(List.append_assoc pre [.enter] _).symm⟩
  obtain ⟨hsymbols,hbyName⟩ := hcompiling.byName hnames
  have hdirectives : ∀ d ∈ expandStack x.params x.blocks, d.IsByName := isByName_expandStack (hbyName x List.mem_cons_self)
  rw [htail] at hdirectives
  obtain ⟨hpre,hrest⟩ := List.forall_mem_append.1 hdirectives
  obtain ⟨hreference,-⟩ := List.forall_mem_cons.1 hrest
  have hat : ((Emitter.start p.symbols name).run (pre ++ [.enter])).symbols.ByName := Emitter.byName_run hsymbols hpre
  obtain ⟨-,place,hplace,hhandle⟩ := hat.variableHandle hreference
  have hdeclares : (((Emitter.start p.symbols name).run (pre ++ [.enter])).symbols.variableHandle f.reference).2.Declares
      q.symbols := by
    rw [Compile.script_symbols hs,htail,Emitter.run_append _ (pre ++ [Directive.enter])]
    exact Emitter.declares_run (((Emitter.start p.symbols name).run (pre ++ [.enter])).step (.bindVariable f.reference)) tail
  refine ⟨place,(Ground.ofBlock p.symbols name x.params pre b setVariableEntry id).pc 2,
    (Compile.Compiling.stack hd hcompiling hstack).resolveName hcompile hnames hy (hdeclares.find? hplace),?_,
    fun pc haligned hle hlt => ?_⟩
  · rw [hstop,← hhandle]
    exact hlaid.fetch_setVar hsteps
  · rw [hstart] at hle
    rw [hstop] at hlt
    exact hlaid.at_setVar hsteps (haligned ⟨_,_,hlaid.emission⟩) hle hlt

/-! What is seen of it -/

/-- A machine in which a target set a variable, and the one that it sees under the name. -/
def Turn.Sets (t : Turn) (n : String) (v : Value) (m : Machine) : Prop :=
  (¬ t.machine.Rivals t.active.target n → m.variableNamed? t.active.target n = some v) ∧
    (t.machine.Rivals t.active.target n → m.variableNamed? Machine.stageId n = some v ∧
      m.variableNamed? t.active.target n = t.machine.variableNamed? t.active.target n)

variable {t u : Turn} {s : Script} {x : Target} {shared : List VariableDecl}

theorem Turn.setVar_make {z : Target} {i : Nat} {b : Bool}
    (hz : t.machine.targets.get? (if b then Machine.stageId else t.active.target) = some z) (hi : i < z.data.vars.size)
    (hsize : z.data.vars.size < 2 ^ 31) (h : Turn.perform s (.setVar (.make i b)) t = .ok () u) :
    ∃ v below, t.active.stack = v :: below ∧
      u.machine = t.machine.setVariableAt (if b then Machine.stageId else t.active.target) i v := by
  have hisStage : (Handle.make i b).isStage = b := Handle.isStage_make (hi.trans hsize) b
  have hindex : (Handle.make i b).index = i := Handle.index_make (hi.trans hsize) b
  have hresolves : t.machine.Resolves t.active.target .variable (.make i b) := by
    refine ⟨z.shape,?_,?_⟩
    · rw [Handle.owner,hisStage,Machine.shape?,hz,Option.map_some]
    · rw [hindex,Target.count_shape]
      exact hi
  cases hstack : t.active.stack with
  | nil =>
    simp only [Turn.perform,bind,EStateM.bind,Turn.pop,Turn.onActive,Activation.pop,hstack] at h
    cases h
  | cons v below =>
    rw [Turn.perform_setVar hstack hresolves] at h
    cases h
    exact ⟨v,below,rfl,by rw [Handle.owner,hisStage,hindex]⟩

theorem Turn.sets_of_setVar {y : Target} {n : String} {place : Nat × Bool}
    (hx : t.machine.targets.get? t.active.target = some x) (hy : t.machine.targets.get? Machine.stageId = some y)
    (hxsize : x.data.vars.size < 2 ^ 31) (hysize : y.data.vars.size < 2 ^ 31)
    (hplace : resolveName x.isStage x.data.vars.names y.data.vars.names n = some place)
    (h : Turn.perform s (.setVar (.make place.1 place.2)) t = .ok () u) :
    ∃ v below, t.active.stack = v :: below ∧ t.Sets n v u.machine := by
  obtain ⟨i,onStage⟩ := place
  rcases resolveName_cases hplace with ⟨rfl,hi⟩ | ⟨rfl,hnone,hsprite,hi⟩
  · obtain ⟨v,below,hstack,hmachine⟩ := Turn.setVar_make (b := true) hy (Table.lt_size_of_index hi).1 hysize h
    refine ⟨v,below,hstack,?_⟩
    rw [if_pos rfl] at hmachine
    rw [hmachine]
    by_cases hown : t.active.target = Machine.stageId
    · refine ⟨fun _ => ?_,fun hrivals => absurd hown hrivals.1⟩
      rw [hown]
      exact Machine.variableNamed?_setVariableAt hy hi v
    · have hseen := Machine.variableNamed?_setVariableAt_stage hy hi hx hown v
      refine ⟨fun hrivals => ?_,fun hrivals => ⟨Machine.variableNamed?_setVariableAt hy hi v,?_⟩⟩
      · rw [hseen,if_neg fun hn => hrivals ⟨hown,?_,?_⟩]
        · rw [Machine.namesOf_eq hx]
          exact hn
        · rw [Machine.namesOf_eq hy]
          exact (Table.lt_size_of_index hi).2
      · rw [hseen,if_pos (Machine.namesOf_eq hx ▸ hrivals.2.1)]
  · obtain ⟨v,below,hstack,hmachine⟩ := Turn.setVar_make (b := false) hx (Table.lt_size_of_index hi).1 hxsize h
    refine ⟨v,below,hstack,fun _ => ?_,fun hrivals => ?_⟩
    · rw [hmachine]
      exact Machine.variableNamed?_setVariableAt hx hi v
    · have hn := hrivals.2.2
      rw [Machine.namesOf_eq hy] at hn
      obtain ⟨j,hj⟩ := Table.findIdx?_names_of_mem hn
      rw [hj] at hnone
      cases hnone

/-- The target of a turn is one of the program or a clone of it, and runs one of its scripts. -/
theorem Turn.Sound.copyOf {p : Program} {c : Settings} {o : Option Nat} {pc : Nat} (h : t.Sound p c o s pc)
    (hx : t.machine.targets.get? t.active.target = some x) :
    ∃ (k : Nat) (y : Target), (p.stage :: p.sprites)[k]? = some y ∧ x.CopyOf y ∧ s ∈ y.scripts.all := by
  obtain ⟨σ,hrunning,-⟩ := h
  have hσ := hrunning.placed.own
  have hs := hrunning.chain.mem_scripts
  obtain rfl : x.shape = σ := by
    rw [Machine.shape?,hx] at hσ
    exact Option.some.inj hσ
  have hcopy : ∀ y : Target, x.shape = { y.shape with kind := x.shape.kind } → x.isStage = y.isStage →
      x.CopyOf y ∧ s ∈ y.scripts.all := by
    intro y heq hstage
    have hscripts : x.scripts = y.scripts := congrArg Shape.scripts heq
    exact ⟨⟨hscripts,congrArg Shape.vars heq,hstage⟩,hscripts ▸ hs⟩
  obtain ⟨⟨y,hy,heq,hkind⟩,hstage⟩ := hrunning.placed.machine.shapes hσ
  by_cases hown : x.kind = .stage
  · have heq := hrunning.placed.machine.stage
    rw [← hstage hown,hσ] at heq
    have heq : x.shape = p.stage.shape := Option.some.inj heq
    have hkind : x.kind = p.stage.kind := congrArg Shape.kind heq
    refine ⟨0,p.stage,rfl,hcopy p.stage ?_ ?_⟩
    · rw [heq]
    · rw [Target.isStage,Target.isStage,hkind]
  · obtain ⟨k,hk⟩ := List.mem_iff_getElem?.1 hy
    refine ⟨k,y,hk,hcopy y heq ?_⟩
    rw [Target.isStage,Target.isStage,decide_eq_false hown,decide_eq_false fun h => hown (hkind h)]

/-- The host sees what a script has set, unless the target and the stage both have a variable of that name. Then the
script sets that of the stage, and the host sees the other one, which is as it was. -/
theorem sets_of_compile {project : Project} {program : Program} (hcompile : compile project = .ok program)
    (hsmall : program.Small) (hnames : project.IsByName) {settings : Settings} {clock : Clock} {t : Turn} {s : Script}
    {pc : Nat} (hreach : Phase.Steps (.idle (Machine.ofProgram program settings clock)) (.turn t s pc)) :
    ∃ x, t.machine.targets.get? t.active.target = some x ∧
      (∃ (k : Nat) (y : Target), (program.stage :: program.sprites)[k]? = some y ∧ x.CopyOf y ∧ s ∈ y.scripts.all) ∧
      ∀ (k : Nat) (y : Target), (program.stage :: program.sprites)[k]? = some y → x.CopyOf y →
        ∀ (b : Block) (f : Field) (start stop : Nat), project.Places k s b start stop → b.opcode = "data_setvariableto" →
          b.field? "VARIABLE" = some f → start ≤ pc → pc < stop → ∀ u, Machine.advance t s pc = .going u s stop →
            ∃ v below, t.active.stack = v :: below ∧ t.Sets f.value v u.machine := by
  have hprogram := compile_sound hcompile hsmall
  have hfirst := Machine.Sound.ofProgram hprogram settings clock
  have hsound : (Phase.turn t s pc).Sound program settings := hreach.sound hfirst hprogram
  obtain ⟨n,hrun⟩ := Phase.Run.of_steps hreach
  have hfair : t.Fair n s pc := hrun.fair (Machine.fair_ofProgram program settings clock) hfirst hprogram
  obtain ⟨σ,hrunning,-⟩ := id hsound
  obtain ⟨x,hx,rfl⟩ := Option.map_eq_some_iff.1 hrunning.placed.own
  obtain ⟨z,hz,hstage⟩ := Option.map_eq_some_iff.1 hrunning.placed.machine.stage
  refine ⟨x,hx,Turn.Sound.copyOf hsound hx,fun k y hy hcopy b f start stop hplaces hopcode hf hstart hstop u
    hadvance => ?_⟩
  obtain ⟨place,last,hplace,hfetch,hat⟩ :=
    hplaces.fetch_setVar hcompile hnames (Turn.Sound.small hsound hsmall) hopcode hf hy
  have hlast : pc = last := by
    rcases hat pc hfair.sited.aligned hstart hstop with hlast | ⟨i,next,hi,hquery,hnext⟩
    · exact hlast
    · -- A value is computed within the block.
      obtain ⟨-,rfl,-⟩ := Machine.advance_straight hi (Instr.isStraight_of_isQuery hquery) hadvance
      exact absurd (Script.lt_of_fetch hfetch) (Nat.not_lt.2 hnext)
  subst hlast
  obtain ⟨-,-,hperform⟩ := Machine.advance_straight hfetch rfl hadvance
  have hvars : z.data.vars.names = program.stage.data.vars.names := congrArg Shape.vars hstage
  refine Turn.sets_of_setVar hx hz ?_ ?_ ?_ hperform
  · rw [← Table.length_names,hcopy.names,Table.length_names]
    exact (hsmall y (List.mem_of_getElem? hy)).1
  · rw [← Table.length_names,hvars,Table.length_names]
    exact (hsmall program.stage List.mem_cons_self).1
  · rw [hcopy.isStage,hcopy.names,hvars]
    exact hplace

/-! A sprite sets a variable, and the stage has some variables too -/

def setBlock : Block :=
  .mk "data_setvariableto" none [.holding "VALUE" (.text "after")] [("VARIABLE",⟨"n",none⟩)]

def scoreSprite : Declaration where
  name := "Cat"
  isStage := false
  vars := [⟨"n","n",.text "before"⟩]
  scripts := [{ hat := .flag, blocks := [setBlock] }]

def scoreProject (shared : List VariableDecl) : Project where
  stage := { name := "Stage", isStage := true, vars := shared }
  sprites := [scoreSprite]

theorem isByName_scoreProject (h : ∀ v ∈ shared, v.id = v.name) : (scoreProject shared).IsByName := by
  refine List.forall_mem_cons.2 ⟨⟨h,by rintro _ ⟨⟩⟩,List.forall_mem_singleton.2 ⟨?_,?_⟩⟩
  · exact List.forall_mem_singleton.2 rfl
  · refine List.forall_mem_singleton.2 fun b hb => ?_
    have hforest : Block.forest [setBlock] = [setBlock,.text "after"] := rfl
    rw [hforest] at hb
    rcases List.mem_pair.1 hb with rfl | rfl
    · rintro _ ⟨⟩
      rfl
    · rintro _ ⟨⟩

/-- Where the script of the sprite begins to be compiled. -/
def scoreStart (shared : List VariableDecl) : Compile.Progress where
  symbols := Compile.spriteSymbols scoreSprite (Compile.declareData (scoreProject shared).stage)
  next := 0

def scoreName : String :=
  s!"{scoreSprite.name} #{0}"

/-- Where the code of the block ends. -/
def scoreEnd (shared : List VariableDecl) : Nat :=
  ((Emitter.start (scoreStart shared).symbols scoreName).run ([] ++ (expand [] setBlock).statement)).pc

theorem places_scoreProject {after : Symbols}
    (h : Compile.script (scoreStart shared).symbols scoreName [] [setBlock] .finish 0 = .ok (s,after)) :
    (scoreProject shared).Places 1 s setBlock 0 (scoreEnd shared) := by
  have hcompiling : Compile.Compiling (scoreProject shared) 1 scoreSprite.scripts (scoreStart shared) :=
    .sprite (k := 0) (d := scoreSprite) (p := { symbols := Compile.stageSymbols (scoreProject shared).stage, next := 0 }) rfl
      .stage rfl
  have hstack : Compile.stack scoreSprite.name (scoreStart shared) { hat := .flag, blocks := [setBlock] } = .ok
      { symbols := after, scripts := { listeners := .add {} .greenFlag s }, next := 1 } := by
    change (Compile.script (scoreStart shared).symbols scoreName [] [setBlock] .finish 0 >>= _) = _
    rw [h]
    rfl
  exact ⟨scoreSprite,_,[],scoreStart shared,_,scoreName,.finish,[],[],rfl,hcompiling,hstack,.inl rfl,h,
    by decide +kernel,rfl,rfl⟩

/-- The sprite is about to set its variable, and a text is seen under the name afterwards. -/
def Scores (shared : List VariableDecl) (seen : String) : Prop :=
  ∃ p ∈ (compile (scoreProject shared)).toOption, p.isSmall ∧ p.sprites.length = 1 ∧
  ∃ script ∈ (Compile.script (scoreStart shared).symbols scoreName [] [setBlock] .finish 0).toOption,
  ∃ x ∈ (flagFrame p).turnAfter? 0 1, x.2.1 = script.1 ∧ x.2.2 < scoreEnd shared ∧ x.1.active.target = 1 ∧
    (∀ y ∈ x.1.machine.targets.get? 1, y.isStage = false) ∧ x.1.active.stack = [.text "after"] ∧
    x.1.machine.namesOf Machine.stageId = shared.map VariableDecl.name ∧
  ∃ y ∈ (flagFrame p).turnAfter? 0 2, y.2 = (script.1,scoreEnd shared) ∧
    y.1.machine.variableNamed? 1 "n" = some (.text seen)

theorem exists_of_scores {seen : String} (h : Scores shared seen) :
    ∃ p t u s pc y, compile (scoreProject shared) = .ok p ∧ p.Small ∧ p.sprites = [y] ∧
      Phase.Steps (.idle (Machine.ofProgram p shallow {})) (.turn t s pc) ∧
      (scoreProject shared).Places 1 s setBlock 0 (scoreEnd shared) ∧ pc < scoreEnd shared ∧ t.active.target = 1 ∧
      (∀ x, t.machine.targets.get? 1 = some x → x.isStage = false) ∧ t.active.stack = [.text "after"] ∧
      t.machine.namesOf Machine.stageId = shared.map VariableDecl.name ∧
      Machine.advance t s pc = .going u s (scoreEnd shared) ∧ u.machine.variableNamed? 1 "n" = some (.text seen) := by
  obtain ⟨p,hp,hsmall,hone,⟨s,after⟩,hscript,⟨t,_,pc⟩,hturn,rfl,hpc,htarget,hsprite,hstack,hstage,⟨u,_⟩,hturn',
    rfl,hseen⟩ := h
  obtain ⟨y,hy⟩ := List.length_eq_one_iff.1 hone
  exact ⟨p,t,u,_,pc,y,Except.mem_toOption.1 hp,Program.small_of_isSmall hsmall,hy,
    (steps_flagFrame p).trans (Machine.resumption_of_turnAfter hturn).steps,
    places_scoreProject (Except.mem_toOption.1 hscript),hpc,htarget,hsprite,hstack,hstage,
    Machine.advance_of_turnAfter hturn hturn',hseen⟩

theorem scores_nil : Scores [] "after" := by
  unfold Scores
  decide +kernel

/-- Without a rival the host sees what the sprite has set. -/
theorem sets_of_compile_scoreProject : ∃ p t u s pc, compile (scoreProject []) = .ok p ∧
    Phase.Steps (.idle (Machine.ofProgram p shallow {})) (.turn t s pc) ∧
    (scoreProject []).Places 1 s setBlock 0 (scoreEnd []) ∧ t.active.target = 1 ∧ ¬ t.machine.Rivals 1 "n" ∧
    Machine.advance t s pc = .going u s (scoreEnd []) ∧ u.machine.variableNamed? 1 "n" = some (.text "after") := by
  obtain ⟨p,t,u,s,pc,y,hcompile,hsmall,hsprites,hreach,hplaces,hpc,htarget,hsprite,hstack,hstage,hadvance,
    -⟩ := exists_of_scores scores_nil
  have hnames : (scoreProject []).IsByName := isByName_scoreProject (by rintro _ ⟨⟩)
  obtain ⟨x,hx,⟨k,z,hz,hcopy,-⟩,hsets⟩ := sets_of_compile hcompile hsmall hnames hreach
  rw [htarget] at hx
  have hk : k = 1 := by
    rw [hsprites] at hz
    rcases k with _ | _ | k
    · cases hz
      have hkind := hcopy.isStage
      rw [hsprite x hx,Target.isStage,(compile_sound hcompile hsmall).stage] at hkind
      cases hkind
    · rfl
    · cases hz
  subst hk
  obtain ⟨v,below,heq,hseen,-⟩ := hsets 1 z hz hcopy setBlock ⟨"n",none⟩ 0 (scoreEnd []) hplaces rfl rfl
    (Nat.zero_le _) hpc u hadvance
  rw [hstack] at heq
  cases heq
  have hrivals : ¬ t.machine.Rivals 1 "n" := by
    rintro ⟨-,-,hn⟩
    rw [hstage] at hn
    cases hn
  rw [htarget] at hseen
  exact ⟨p,t,u,s,pc,hcompile,hreach,hplaces,htarget,hrivals,hadvance,hseen hrivals⟩

theorem scores_rival : Scores [⟨"n","n",.text "other"⟩] "before" := by
  unfold Scores
  decide +kernel

/-- If the stage has a variable of the name, the host sees the one that the sprite has not set. -/
theorem rival_hides_what_is_set : ∃ shared p t u s pc, (scoreProject shared).IsByName ∧
    compile (scoreProject shared) = .ok p ∧ Phase.Steps (.idle (Machine.ofProgram p shallow {})) (.turn t s pc) ∧
    (scoreProject shared).Places 1 s setBlock 0 (scoreEnd shared) ∧ pc < scoreEnd shared ∧ t.active.target = 1 ∧
    t.active.stack = [.text "after"] ∧ Machine.advance t s pc = .going u s (scoreEnd shared) ∧
    u.machine.variableNamed? 1 "n" ≠ some (.text "after") := by
  obtain ⟨p,t,u,s,pc,y,hcompile,-,-,hreach,hplaces,hpc,htarget,-,hstack,-,hadvance,hseen⟩ :=
    exists_of_scores scores_rival
  refine ⟨[⟨"n","n",.text "other"⟩],p,t,u,s,pc,isByName_scoreProject (List.forall_mem_singleton.2 rfl),hcompile,
    hreach,hplaces,hpc,htarget,hstack,hadvance,?_⟩
  rw [hseen]
  decide

end SpriteMachine
