import SpriteMachine.Proofs.Exits
import SpriteMachine.Proofs.Origins
import SpriteMachine.Proofs.Reporters

/-!
Arguments of procedures go by their positions. The value that an input of a call has when the call is performed is the one
that the body of the procedure reads under the name of the parameter, as long as the call lasts: yields, nested calls and
recursion do not matter.
-/

namespace SpriteMachine

/-! Frames keep their arguments -/

/-- The arguments of the frame in which a thread is, and of those of its callers. -/
def Activation.bindings (a : Activation) : List (Array Value) :=
  (a.frame :: a.calls).map Frame.args

theorem Activation.length_bindings (a : Activation) : a.bindings.length = a.calls.length + 1 := by
  simp [bindings]

variable {s : Script} {x z : Spot} {l : List Spot} {p : Program} {c : Settings} {after code : List Directive}
  {ids params : List String} {t : Turn} {name : String} {w : UInt32} {start stop i : Nat}

theorem Move.bindings_cases {r : Script} {next q : Nat} {i : Instr} {a b : Activation} (h : Move s next i a b r q) :
    b.bindings = a.bindings ∨ (∃ x, b.bindings = x :: a.bindings) ∨ ∃ x, a.bindings = x :: b.bindings := by
  cases h with
  | within hq hcalls hframe =>
    left
    rw [Activation.bindings,Activation.bindings,hcalls,hframe]
    rfl
  | label hi hcalls hframe =>
    left
    rw [Activation.bindings,Activation.bindings,hcalls,hframe]
  | enters hi hcalls =>
    right; left
    refine ⟨b.frame.args,?_⟩
    rw [Activation.bindings,Activation.bindings,hcalls]
    rfl
  | returns hi hcalls hret hframe =>
    right; right
    refine ⟨a.frame.args,?_⟩
    rw [Activation.bindings,Activation.bindings,hcalls,hframe]
    rfl

theorem Trail.bindings (h : Trail x l z) (hsound : x.phase.Sound p c) (hp : p.Sound) {bs : List (Array Value)}
    (hx : bs <:+ x.turn.active.bindings) (hdeep : ∀ y ∈ l ++ [z], bs.length ≤ y.depth + 1) :
    bs <:+ z.turn.active.bindings := by
  induction h with
  | here => exact hx
  | @step x y z l h rest ih =>
    obtain ⟨i,next,-,hmove⟩ := h.move hsound hp
    have hy : bs.length ≤ y.depth + 1 := by
      obtain ⟨k,hk⟩ := rest.cons_eq []
      exact hdeep y (by rw [List.cons_append,hk]; simp)
    refine ih (h.steps.sound hsound hp) ?_ fun y hy => hdeep y (List.mem_cons_of_mem _ hy)
    rcases hmove.bindings_cases with heq | ⟨args,heq⟩ | ⟨args,heq⟩
    · rwa [heq]
    · rw [heq]
      exact hx.trans (List.suffix_cons _ _)
    · rw [heq] at hx
      refine (List.suffix_cons_iff.1 hx).resolve_left fun hbs => ?_
      rw [hbs,List.length_cons,Activation.length_bindings] at hy
      change _ ≤ y.turn.active.calls.length + 1 at hy
      omega

theorem Trail.args_eq (h : Trail x l z) (hsound : x.phase.Sound p c) (hp : p.Sound) (hdeep : ∀ y ∈ l, x.depth ≤ y.depth)
    (hz : z.depth = x.depth) : z.turn.active.frame.args = x.turn.active.frame.args := by
  have hsuffix := h.bindings hsound hp List.suffix_rfl fun y hy => by
    rw [Activation.length_bindings]
    rcases List.mem_append.1 hy with hy | hy
    · exact Nat.succ_le_succ (hdeep y hy)
    · rw [List.mem_singleton.1 hy,hz]
      exact Nat.le_refl _
  have hlength : x.turn.active.bindings.length = z.turn.active.bindings.length := by
    rw [Activation.length_bindings,Activation.length_bindings]
    exact congrArg (· + 1) hz.symm
  have heq := hsuffix.eq_of_length hlength
  exact (List.cons.inj heq).1.symm

/-! The call -/

/-- A call that is performed goes on after it if there is no such procedure, and else enters it with its arguments. -/
theorem Spot.Next.call {t : Turn} {s : Script} {pc next : Nat} {procedure argc ret : UInt32} {name : String} {y : Spot}
    {p : Program} {c : Settings} (h : Next ⟨t,s,pc⟩ y) (hsound : (Phase.turn t s pc).Sound p c)
    (hfetch : s.fetch pc = .ok (.call procedure argc ret,next)) (hname : s.constant? procedure = some name) :
    ∃ x, t.machine.targets.get? t.active.target = some x ∧
      (y.depth = t.active.calls.length ∧ y.pc = Continuation.pc ⟨s,ret⟩ ∨
        ∃ q, x.scripts.procedure? name = some q ∧ y.script = q.script ∧ y.pc = q.script.entry.pc ∧
          y.depth = t.active.calls.length + 1 ∧
          y.turn.active.frame.args = bindArguments q.arguments.length (t.active.stack.take argc.toNat).reverse) := by
  obtain ⟨x,hx⟩ : ∃ x, t.machine.targets.get? t.active.target = some x := by
    obtain ⟨σ,hrunning,-⟩ := hsound
    obtain ⟨x,hx,-⟩ := hrunning.placed.target
    exact ⟨x,hx⟩
  refine ⟨x,hx,?_⟩
  have hcalls : ∀ {flow : Flow} {u : Turn} {k : Continuation}, Turn.exec s next (.call procedure argc ret) t = .ok flow u →
      u.active.immediate = some k ∨ u.active.requeue = some k →
      (u.active.calls.length = t.active.calls.length ∧ k = ⟨s,ret⟩ ∨
        ∃ q, x.scripts.procedure? name = some q ∧ k = q.script.entry ∧ u.active.calls.length = t.active.calls.length + 1 ∧
          u.active.frame.args = bindArguments q.arguments.length (t.active.stack.take argc.toNat).reverse) := by
    intro flow u k hexec hk
    obtain ⟨-,name',hname',hcalls⟩ := Turn.Sound.calls hsound hfetch hx hexec
    rw [hname] at hname'
    cases hname'
    cases hcalls with
    | unknown hq hcalls hframe himmediate hrequeue =>
      rw [himmediate,hrequeue] at hk
      refine .inl ⟨congrArg List.length hcalls,?_⟩
      simpa [eq_comm] using hk
    | enters hq hcalls hret hwarp hentry hargs =>
      refine .inr ⟨_,hq,?_,by rw [hcalls]; rfl,hargs⟩
      rcases hentry with ⟨himmediate,hrequeue⟩ | ⟨himmediate,hrequeue,-⟩
      all_goals
        rw [himmediate,hrequeue] at hk
        simpa [eq_comm] using hk
  cases h with
  | advance hadvance =>
    rcases Machine.advance_going hfetch hadvance with ⟨hexec,rfl⟩ | ⟨w,k,hexec,hk,rfl,rfl,rfl⟩
    · have hflow := (Turn.Sound.calls hsound hfetch hx hexec).1
      cases hflow
    · rcases hcalls hexec (.inl hk) with ⟨hdepth,rfl⟩ | ⟨q,hq,rfl,hdepth,hargs⟩
      · exact .inl ⟨hdepth,rfl⟩
      · exact .inr ⟨q,hq,rfl,rfl,hdepth,hargs⟩
  | resume hadvance hslot hk =>
    rcases hcalls (Machine.advance_done hfetch hadvance).1 (.inr hk) with ⟨hdepth,rfl⟩ | ⟨q,hq,rfl,hdepth,hargs⟩
    · exact .inl ⟨hdepth,rfl⟩
    · exact .inr ⟨q,hq,rfl,rfl,hdepth,hargs⟩

/-! The inputs of a call -/

/-- The values of inputs were computed one after the other, each where the code of its input ends. -/
def Ground.Computed (g : Ground) (k : Nat) (vs : List Value) (l : List Spot) : Prop :=
  ∀ {i : Nat} {v : Value}, vs[i]? = some v → ∃ y ∈ l, y.pc = g.pc (k + i + 1) ∧ y.turn.active.stack.head? = some v

theorem Laid.trail_inputs {g : Ground} (h : Laid s g after) (hadds : ∀ c ∈ g.slots, c.Sound) (hp : p.Sound) {k : Nat}
    (hsteps : ∀ {i : Nat} {id : String}, ids[i]? = some id → g.steps[k + i]? = some (.input id))
    (htrail : Trail ⟨t,s,g.pc k⟩ l z) (hsound : (Phase.turn t s (g.pc k)).Sound p c) (hz : z.depth ≠ t.active.calls.length) :
    ∃ l₁ u l₂ vs, l = l₁ ++ l₂ ∧ Trail ⟨t,s,g.pc k⟩ l₁ ⟨u,s,g.pc (k + ids.length)⟩ ∧
      Trail ⟨u,s,g.pc (k + ids.length)⟩ l₂ z ∧ t.active.Agrees u.active ∧ vs.length = ids.length ∧
      u.active.stack = vs.reverse ++ t.active.stack ∧ Spot.Rising (l₁ ++ [⟨u,s,g.pc (k + ids.length)⟩]) ∧
      g.pc k + ids.length ≤ g.pc (k + ids.length) ∧ g.Computed k vs (l₁ ++ [⟨u,s,g.pc (k + ids.length)⟩]) := by
  induction ids generalizing k t l with
  | nil =>
    exact ⟨[],t,l,[],rfl,.here _,htrail,⟨rfl,rfl,rfl⟩,rfl,rfl,List.pairwise_singleton _ _,Nat.le_refl _,by
      intro i v hv
      cases hv⟩
  | cons id ids ih =>
    have hslot : ∀ s, stepCode.find g.slots id = some s → s ∈ g.slots := fun s hs => List.mem_of_find?_eq_some hs
    have hquery : IsQuery (g.code (.input id)) :=
      forall_inputCode isQuery_of_isSupport fun s hs => h.queries s (hslot s hs)
    have hone : Tally.Adds (g.code (.input id)) := Tally.adds_inputCode fun s hs => hadds s (hslot s hs)
    obtain ⟨done,rest,hemission,hstart,hstop⟩ := h.emission_code (hsteps (i := 0) rfl)
    rw [Nat.add_zero] at hstart hstop
    rw [← hstart] at htrail hsound
    rcases hemission.trail_adds hquery hone hp htrail hsound with
      hall | ⟨l₁,u,l₂,v,rfl,hbefore,hrest,hagrees,hu,hrising,hl₁⟩
    · exact absurd (congrArg List.length (hall z (by simp)).1.calls) hz
    rw [hstart,hstop] at hbefore
    rw [hstop] at hrest hrising hl₁
    rw [hstart] at hsound
    have hlater : ∀ {i : Nat} {id : String}, ids[i]? = some id → g.steps[k + 1 + i]? = some (.input id) := by
      intro i id hi
      rw [Nat.add_assoc,Nat.add_comm 1 i]
      exact hsteps (i := i + 1) hi
    obtain ⟨l₃,w,l₄,vs,rfl,hthen,hafter,hagrees',hlength,hw,hrising',hgrows,hcomputed⟩ :=
      ih hlater hrest (hbefore.sound hsound hp) (by rw [hagrees.calls]; exact hz)
    have hend : k + 1 + ids.length = k + (id :: ids).length := by
      rw [List.length_cons]
      omega
    rw [hend] at hthen hafter hrising' hgrows hcomputed
    -- an input that wrote no code could not have added an operand
    have hstep : g.pc k < g.pc (k + 1) := by
      rcases hbefore.ends_or_leaves with ⟨-,heq⟩ | ⟨y,l',rfl,-⟩
      · rw [show u = t from congrArg Spot.turn heq] at hu
        exact absurd hu.symm (List.cons_ne_self _ _)
      · exact (hl₁ _ List.mem_cons_self).2.2
    obtain ⟨m,hm⟩ := hthen.cons_eq []
    refine ⟨l₁ ++ l₃,w,l₄,v :: vs,by simp,hbefore.append hthen,hafter,hagrees.trans hagrees',congrArg (· + 1) hlength,?_,
      ?_,by rw [List.length_cons] at hgrows ⊢; omega,?_⟩
    · rw [hw,hu]
      simp
    · rw [List.append_assoc]
      refine List.pairwise_append.2 ⟨(List.pairwise_append.1 hrising).1,hrising',fun x hx y hy => ?_⟩
      have hlt : x.pc < g.pc (k + 1) := (hl₁ x hx).2.2
      have hle : g.pc (k + 1) ≤ y.pc := by
        rw [Spot.Rising,hm] at hrising'
        rw [hm] at hy
        rcases List.mem_cons.1 hy with rfl | hy
        · exact Nat.le_refl _
        · exact Nat.le_of_lt ((List.pairwise_cons.1 hrising').1 y hy)
      omega
    · intro i x hx
      rw [List.append_assoc]
      cases i with
      | zero =>
        cases hx
        refine ⟨⟨u,s,g.pc (k + 1)⟩,List.mem_append_right _ (by rw [hm]; simp),rfl,?_⟩
        rw [hu]
        rfl
      | succ i =>
        obtain ⟨y,hy,hpc,hhead⟩ := hcomputed (i := i) hx
        refine ⟨y,List.mem_append_right _ hy,?_,hhead⟩
        rw [hpc]
        congr 1
        omega

/-! Code that reads an argument -/

/-- Code that reads the argument with a name: that of a reporter, or of a slot that wants a number or a truth value. -/
inductive ReadsArgument (params : List String) (name : String) : ArgumentForm → List Directive → Prop
  | plain {b : Block} (hopcode : b.opcode = "argument_reporter_string_number")
      (hname : (b.field? "VALUE").map Field.value = some name) : ReadsArgument params name .plain (expand params b).reporter
  | bool {b : Block} (hopcode : b.opcode = "argument_reporter_boolean")
      (hname : (b.field? "VALUE").map Field.value = some name) : ReadsArgument params name .bool (expand params b).reporter
  | number {c : SlotCode} {b : Block} (hvalue : c.value = some b) (hopcode : b.opcode = "argument_reporter_string_number")
      (hname : (b.field? "VALUE").map Field.value = some name) :
      ReadsArgument params name .number (SlotCode.numberCode params (some c))
  | condition {c : SlotCode} {b : Block} (hvalue : c.value = some b) (hopcode : b.opcode = "argument_reporter_boolean")
      (hname : (b.field? "VALUE").map Field.value = some name) :
      ReadsArgument params name .bool (SlotCode.conditionCode params (some c))

theorem expand_reporter {b : Block} {e : Entry} {id : Nat} (hprimitive : b.primitive? = none)
    (hfind : Palette.find? b.opcode = some (e,id)) (hr : e.reporter = true) :
    (expand params b).reporter = entryCode ⟨b,params⟩ (expandSlots params b.slots) e id := by
  obtain ⟨opcode,mutation,slots,fields⟩ := b
  change reporterCode ⟨.mk opcode mutation slots fields,params⟩ (expandSlots params slots) = _
  simp only [reporterCode,hprimitive,hfind,hr,if_true]
  rfl

theorem ReadsArgument.code_eq {form : ArgumentForm} (h : ReadsArgument params name form code)
    (hw : Palette.paramIndex? params name = some w) :
    ∃ o, Instr.ofOperands o [w] = .pushArg form w ∧ (Directive.op o [w]).flushes = false ∧
      (code = [.op o [w]] ∨ code = [.enter,.op o [w],.leave]) := by
  have hreporter : ∀ {b : Block} {o : Opcode} (otherwise : Step),
      Entry.value b.opcode (Palette.parameter o otherwise) ∈ Palette.entries.toList → b.primitive? = none →
      (b.field? "VALUE").map Field.value = some name → (expand params b).reporter = [.enter,.op o [w],.leave] := by
    intro b o otherwise he hprimitive hname
    obtain ⟨id,hfind,-⟩ := Palette.find?_of_mem he
    obtain ⟨f,hf,rfl⟩ := Option.map_eq_some_iff.1 hname
    have hsteps : Palette.parameter o otherwise ⟨b,params⟩ = [.op o [w]] := by
      simp only [Palette.parameter,Site.field,Block.fieldText,hf,hw]
    rw [expand_reporter hprimitive hfind rfl]
    simp only [entryCode,Entry.value,hsteps]
    rfl
  cases h with
  | @plain b hopcode hname =>
    refine ⟨.pushArg,rfl,rfl,.inr (hreporter (.pushNumber 0.0) ?_ (by simp [Block.primitive?,hopcode]) hname)⟩
    rw [hopcode]
    exact Palette.mem_of_group (g := Palette.procedures) (i := 1) (by simp) rfl
  | @bool b hopcode hname =>
    refine ⟨.pushArgBoolean,rfl,rfl,.inr (hreporter (.pushBool false) ?_ (by simp [Block.primitive?,hopcode]) hname)⟩
    rw [hopcode]
    exact Palette.mem_of_group (g := Palette.procedures) (i := 2) (by simp) rfl
  | @number c b hvalue hopcode hname =>
    obtain ⟨f,hf,rfl⟩ := Option.map_eq_some_iff.1 hname
    obtain ⟨slot,value,reporter,statements⟩ := c
    cases hvalue
    refine ⟨.pushArgNumber,rfl,rfl,.inl ?_⟩
    simp [SlotCode.numberCode,SlotCode.literal?,SlotCode.param?,Block.primitive?,hopcode,hf,hw]
  | @condition c b hvalue hopcode hname =>
    obtain ⟨f,hf,rfl⟩ := Option.map_eq_some_iff.1 hname
    obtain ⟨slot,value,reporter,statements⟩ := c
    cases hvalue
    refine ⟨.pushArgBoolean,rfl,rfl,.inl ?_⟩
    simp [SlotCode.conditionCode,SlotCode.param?,hopcode,hf,hw]

/-- Code stands between two offsets of a script. -/
def Script.HasCode (s : Script) (params : List String) (code : List Directive) (start stop : Nat) : Prop :=
  ∃ symbols name blocks o id after pre post, Compile.Ends o ∧
    Compile.script symbols name params blocks o id = .ok (s,after) ∧ expandStack params blocks = pre ++ (code ++ post) ∧
    start = ((Emitter.start symbols name).run pre).pc ∧ stop = ((Emitter.start symbols name).run (pre ++ code)).pc

theorem Script.HasCode.fetch_argument (h : s.HasCode params code start stop) (hsmall : s.code.size < 2 ^ 32)
    {form : ArgumentForm} (hreads : ReadsArgument params name form code) (hw : Palette.paramIndex? params name = some w) :
    s.fetch start = .ok (.pushArg form w,stop) := by
  obtain ⟨symbols,title,blocks,o,id,after,pre,post,ho,hs,hblocks,rfl,rfl⟩ := h
  have hemission := (Compile.emission hs ho hsmall).1
  rw [hblocks] at hemission
  obtain ⟨o',hinstr,hflushes,hcode⟩ := hreads.code_eq hw
  have hfetch : ∀ (done rest : List Directive), Emission s (.start symbols title) (done ++ .op o' [w] :: rest) →
      s.fetch ((Emitter.start symbols title).run done).pc =
        .ok (.pushArg form w,((Emitter.start symbols title).run (done ++ [.op o' [w]])).pc) := by
    intro done rest hemission
    have hfetch := hemission.fetch_at (i := .pushArg form w) (congrArg some hinstr)
    rwa [Emitter.before_eq (.inl hflushes)] at hfetch
  rcases hcode with rfl | rfl
  · exact hfetch pre (post ++ [.op o []]) (by simpa using hemission)
  · have hinner := hfetch (pre ++ [.enter]) (.leave :: (post ++ [.op o []])) (by simpa using hemission)
    rw [(Portion.run_enter _ _).1] at hinner
    rw [hinner]
    have hlist : pre ++ [.enter,.op o' [w],.leave] = (pre ++ [.enter] ++ [.op o' [w]]) ++ [.leave] := by simp
    rw [hlist,Emitter.run_append _ _ [.leave]]
    rfl

/-! What is read -/

/-- A value as code wants it. -/
def ArgumentForm.coerce : ArgumentForm → Value → Value
  | .plain, v => v
  | .number, v => .number v.toNumber
  | .bool, v => .bool v.toBool

/-- What is read where there is no argument. -/
def ArgumentForm.missing : ArgumentForm → Value
  | .plain => .text ""
  | .number => .number 0.0
  | .bool => .bool false

theorem ArgumentForm.read_bindArguments (form : ArgumentForm) {n : Nat} (hi : i < n) (vs : List Value) :
    form.read (bindArguments n vs)[i]? = (vs[i]?.map form.coerce).getD form.missing := by
  have hbound : (bindArguments n vs)[i]? = some (vs[i]?.getD (.text "")) := by
    rw [bindArguments,List.getElem?_toArray]
    by_cases hlt : i < vs.length
    · rw [List.getElem?_append_left (by simp [hi,hlt]),List.getElem?_take_of_lt hi,List.getElem?_eq_getElem hlt]
      rfl
    · rw [List.getElem?_append_right (by simp; omega),List.getElem?_replicate,List.getElem?_eq_none (Nat.le_of_not_lt hlt)]
      have hfill : i - (vs.take n).length < n - vs.length := by
        simp only [List.length_take]
        omega
      rw [if_pos hfill]
      rfl
  rw [hbound]
  cases hv : vs[i]? with
  | none =>
    cases form with
    | plain => rfl
    | number => exact congrArg Value.number Value.toNumber_empty
    | bool => exact congrArg Value.bool (by decide +kernel)
  | some v => cases form <;> rfl

theorem Script.HasCode.advance_argument (h : s.HasCode params code start stop) (hsmall : s.code.size < 2 ^ 32)
    {form : ArgumentForm} (hreads : ReadsArgument params name form code) (hi : params.findIdx? (· == name) = some i)
    (hword : i < 2 ^ 32) (t : Turn) :
    ∃ u, Machine.advance t s start = .going u s stop ∧
      u.active.stack = form.read t.active.frame.args[i]? :: t.active.stack := by
  have hfetch := h.fetch_argument hsmall hreads (w := UInt32.ofNat i) (by rw [Palette.paramIndex?,hi]; rfl)
  have hexec : Turn.exec s stop (.pushArg form (UInt32.ofNat i)) t = .ok (.next stop)
      (t.withStack (form.read t.active.frame.args[(UInt32.ofNat i).toNat]? :: t.active.stack)) := rfl
  rw [UInt32.toNat_ofNat_of_lt' hword] at hexec
  refine ⟨t.withStack (form.read t.active.frame.args[i]? :: t.active.stack),?_,rfl⟩
  rw [Machine.advance,hfetch]
  dsimp only
  rw [hexec]

theorem Laid.trail_call {g : Ground} (h : Laid s g after) (hadds : ∀ c ∈ g.slots, c.Sound) (hp : p.Sound)
    {procedure : String} (hsteps : g.steps = ids.map Step.input ++ [.emit (.call procedure ids.length)])
    (htrail : Trail ⟨t,s,g.start⟩ l z) (hsound : (Phase.turn t s g.start).Sound p c)
    (hl : ∀ y ∈ l, y.depth = t.active.calls.length ∧ y.pc < g.stop) (hz : z.depth = t.active.calls.length + 1) :
    ∃ y x q vs, l.getLast? = some y ∧ y.turn.machine.targets.get? y.turn.active.target = some x ∧
      x.scripts.procedure? procedure = some q ∧ z.script = q.script ∧ z.pc = q.script.entry.pc ∧ vs.length = ids.length ∧
      Spot.Rising l ∧ g.Computed 0 vs l ∧ z.turn.active.frame.args = bindArguments q.arguments.length vs := by
  have hinputs : ∀ {i : Nat} {id : String}, ids[i]? = some id → g.steps[0 + i]? = some (.input id) := by
    intro i id hi
    rw [hsteps,Nat.zero_add,List.getElem?_append_left (by simpa using (List.getElem?_eq_some_iff.1 hi).1),List.getElem?_map,hi]
    rfl
  have hcall : g.steps[ids.length]? = some (.emit (.call procedure ids.length)) := by
    rw [hsteps,List.getElem?_append_right (by simp)]
    simp
  have hstop : g.stop = g.pc (ids.length + 1) := by
    rw [Ground.stop,hsteps]
    simp
  obtain ⟨l₁,u,l₂,vs,rfl,hcompute,hrest,hagrees,hvs,hstack,hrising,hgrows,hcomputed⟩ :=
    h.trail_inputs hadds hp hinputs htrail hsound (by omega)
  rw [Nat.zero_add] at hcompute hrest hrising hgrows hcomputed
  have hu := hcompute.sound hsound hp
  have hdepth : ∀ {v : Turn} {pc : Nat}, t.active.Agrees v.active → (Spot.mk v s pc).depth = t.active.calls.length :=
    fun hv => congrArg List.length hv.calls
  rcases hrest.settle (h.settles hcall) hu hp with ⟨-,rfl,-⟩ | ⟨l₃,v,l₄,rfl,hsettle,hthen,hagrees',hstack',hl₃⟩
  · have heq := hz.symm.trans (hdepth hagrees)
    omega
  have hv := hsettle.sound hu hp
  rcases hthen.ends_or_leaves with ⟨-,rfl⟩ | ⟨y,l₅,rfl,hnext,hafter⟩
  · have heq := hz.symm.trans (hdepth (hagrees.trans hagrees'))
    omega
  have hfetch := h.fetch_before hcall rfl rfl
  have hemission := h.emission_step hcall rfl
  obtain ⟨x,hx,hcases⟩ := hnext.call hv hfetch hemission.constant?_call
  have hvdepth : v.active.calls.length = t.active.calls.length := congrArg List.length (hagrees.trans hagrees').calls
  rw [hvdepth] at hcases
  rcases hcases with ⟨hydepth,hypc⟩ | ⟨q,hq,hscript,hpc,hydepth,hargs⟩
  · -- a call of a procedure that is not there is over at once, and the trail goes into a procedure
    have hbehind : y.pc = g.stop := by
      rw [hypc,hstop,Ground.pc,Ground.upTo_emit hcall]
      exact hemission.pc_call.trans (congrArg Emitter.pc (Emitter.run_append _ _ _))
    rcases hafter.ends_or_leaves with ⟨-,rfl⟩ | ⟨y',l₆,rfl,-⟩
    · omega
    · have hlt := (hl y (by simp)).2
      omega
  rcases hafter.ends_or_leaves with ⟨rfl,rfl⟩ | ⟨y',l₆,rfl,-⟩
  swap
  · have heq := (hl y (by simp)).1
    omega
  have hargc : (UInt32.ofNat ids.length).toNat = ids.length :=
    UInt32.toNat_ofNat_of_lt' (Nat.lt_of_le_of_lt (Nat.le_trans (Nat.le_add_left _ _) hgrows) (h.pc_lt _))
  have htake : (v.active.stack.take ids.length).reverse = vs := by
    rw [hstack',hstack,List.take_append_of_le_length (by simp [hvs]),List.take_of_length_le (by simp [hvs]),
      List.reverse_reverse]
  rw [hargc,htake] at hargs
  have hspots : Spot.Rising (l₁ ++ (l₃ ++ [⟨v,s,((g.upTo ids.length).before (.call procedure ids.length)).pc⟩])) ∧
      ∀ y ∈ l₁ ++ [⟨u,s,g.pc ids.length⟩],
        y ∈ l₁ ++ (l₃ ++ [⟨v,s,((g.upTo ids.length).before (.call procedure ids.length)).pc⟩]) := by
    rcases hl₃ with ⟨rfl,rfl,hbefore⟩ | ⟨rfl,hbefore⟩
    · rw [← hbefore]
      exact ⟨hrising,fun y hy => hy⟩
    · rw [← List.append_assoc]
      refine ⟨List.pairwise_append.2 ⟨hrising,List.pairwise_singleton _ _,fun y hy y' hy' => ?_⟩,
        fun y hy => List.mem_append_left _ hy⟩
      have hle : y.pc ≤ g.pc ids.length := by
        rcases List.mem_append.1 hy with hy | hy
        · exact Nat.le_of_lt ((List.pairwise_append.1 hrising).2.2 y hy _ (List.mem_singleton_self _))
        · rw [List.mem_singleton.1 hy]
      rw [List.mem_singleton.1 hy']
      exact Nat.lt_of_le_of_lt hle hbefore
  refine ⟨⟨v,s,((g.upTo ids.length).before (.call procedure ids.length)).pc⟩,x,q,vs,?_,hx,hq,hscript,hpc,hvs,
    hspots.1,?_,hargs⟩
  · rw [← List.append_assoc,List.getLast?_concat]
  · intro i v hi
    obtain ⟨y,hy,hpc,hhead⟩ := hcomputed hi
    exact ⟨y,hspots.2 y hy,hpc,hhead⟩

/-- Arguments go by position, and stay for as long as the call lasts. A call that enters a procedure has computed its
inputs one after the other, each at the end of its code. Wherever the body comes to in the frame of the call, and
whatever has happened since, code that reads the argument with a name pushes the value of the input at the first position
of that name; where the call has no such input, it pushes the empty text, zero or false. -/
theorem arguments_of_compile {project : Project} {program : Program} (hcompile : compile project = .ok program)
    (hsmall : program.Small) {settings : Settings} {clock : Clock} {t : Turn} {s : Script} {params : List String} {b : Block}
    {g : Ground} (hblock : s.Lays params b g) (hopcode : b.opcode = "procedures_call") {m : Mutation}
    (hmutation : b.mutation = some m)
    (hreach : Phase.Steps (.idle (Machine.ofProgram program settings clock)) (.turn t s g.start)) {l : List Spot} {z : Spot}
    (hcall : Trail ⟨t,s,g.start⟩ l z) (hl : ∀ y ∈ l, y.depth = t.active.calls.length ∧ y.pc < g.stop)
    (hz : z.depth = t.active.calls.length + 1) :
    ∃ (y : Spot) (x : Target) (q : Procedure) (vs : List Value), l.getLast? = some y ∧
      y.turn.machine.targets.get? y.turn.active.target = some x ∧ x.scripts.procedure? m.procedure = some q ∧
      z.script = q.script ∧ z.pc = q.script.entry.pc ∧ vs.length = m.argumentIds.length ∧
      (∀ (i : Nat) (v : Value), vs[i]? = some v → (∃ y ∈ l, y.pc = g.pc (i + 1)) ∧
        ∀ y ∈ l, y.pc = g.pc (i + 1) → y.turn.active.stack.head? = some v) ∧
      ∀ (l' : List Spot) (u : Turn) (pc : Nat), Trail z l' ⟨u,q.script,pc⟩ → (∀ y ∈ l', z.depth ≤ y.depth) →
        u.active.calls.length = z.depth → ∀ (name : String) (form : ArgumentForm) (code : List Directive) (stop i : Nat),
        ReadsArgument q.arguments name form code → q.script.HasCode q.arguments code pc stop →
        q.arguments.findIdx? (· == name) = some i → i < 2 ^ 32 →
        ∃ u', Machine.advance u q.script pc = .going u' q.script stop ∧
          u'.active.stack = (vs[i]?.map form.coerce).getD form.missing :: u.active.stack := by
  have hprogram := compile_sound hcompile hsmall
  have hsound := hreach.sound_ofProgram hprogram
  have hrecipe : (Entry.statement "procedures_call" Palette.callProcedure).steps ⟨b,params⟩ =
      m.argumentIds.map Step.input ++ [.emit (.call m.procedure m.argumentIds.length)] := by
    simp only [Entry.steps,Entry.statement,Palette.callProcedure,hmutation]
  have hflat : ((Entry.statement "procedures_call" Palette.callProcedure).steps ⟨b,params⟩).all Step.isFlat = true := by
    rw [hrecipe]
    simp [Step.isFlat]
  obtain ⟨rfl,hslots,hsteps,after,hlaid⟩ := hblock.laid (Turn.Sound.small hsound hsmall)
    (Palette.mem_of_group (g := Palette.procedures) (i := 0) (by simp) rfl) hopcode rfl hflat
  rw [hrecipe] at hsteps
  obtain ⟨y,x,q,vs,hlast,hx,hq,hscript,hpc,hvs,hrising,hcomputed,hargs⟩ :=
    hlaid.trail_call (by rw [hslots]; exact Tally.sound_expandSlots g.params b.slots) hprogram hsteps hcall hsound hl hz
  refine ⟨y,x,q,vs,hlast,hx,hq,hscript,hpc,hvs,?_,?_⟩
  · intro i v hv
    obtain ⟨y,hy,hpc,hhead⟩ := hcomputed hv
    rw [Nat.zero_add] at hpc
    refine ⟨⟨y,hy,hpc⟩,fun y' hy' hpc' => ?_⟩
    rwa [hrising.eq hy' hy (hpc'.trans hpc.symm)]
  · intro l' u pc hbody hdeep hu name form code stop i hreads hcode hi hword
    have hz := hcall.sound hsound hprogram
    have hsmall' : q.script.code.size < 2 ^ 32 := Turn.Sound.small (hbody.sound hz hprogram) hsmall
    obtain ⟨u',hadvance,hstack⟩ := hcode.advance_argument hsmall' hreads hi hword u
    refine ⟨u',hadvance,?_⟩
    have hkeeps : u.active.frame.args = _ := (hbody.args_eq hz hprogram hdeep hu).trans hargs
    rw [hstack,hkeeps,form.read_bindArguments (List.findIdx?_eq_some_iff_findIdx_eq.1 hi).1]

def echoing (slots : List Slot) : Block :=
  .mk "procedures_call" (some { procedure := "echo", argumentIds := slots.map Slot.name }) slots []

def echoCall : Block :=
  echoing [.holding "word" (.text "outer"),.holding "again" (.text "true")]

def echoedWord : Block :=
  .leaf "argument_reporter_string_number" [("VALUE",{ value := "word" })]

/-- Says a word, after a call of itself with another word and without a second argument, and after yields. -/
def echoBody : List Block := [
  .mk "control_if" none [
    .holding "CONDITION" (.leaf "argument_reporter_boolean" [("VALUE",{ value := "again" })]),
    .holding "SUBSTACK" (echoing [.holding "word" (.text "inner")])] [],
  onceBlock [],
  .mk "looks_say" none [.holding "MESSAGE" echoedWord] []]

def echoProject : Project where
  stage := {
    name := "Stage"
    isStage := true
    scripts := [
      { hat := .flag, blocks := [echoCall] },
      { hat := .flag, blocks := [.mk "control_forever" none [.mk "SUBSTACK" [] none] []] },
      { hat := .procedure { procedure := "echo", parameters := [⟨"word","word",""⟩,⟨"again","again",""⟩] },
        blocks := echoBody }] }

def echoPc (n : Nat) : Nat :=
  ((Emitter.start stageEmitter.symbols "echo").run ((expandStack ["word","again"] echoBody).take n)).pc

/-- A thread enters the procedure with its word, and comes to say it after having been deeper. -/
def Ground.Echoes (g : Ground) (body : Script) (x : Spot) : Prop :=
  ∃ y ∈ Spot.trail? (fun y => y.depth = x.depth && y.pc < g.stop) 60 20 x, y.2.depth = x.depth + 1 ∧ y.2.script = body ∧
    (∀ w ∈ y.1, ∀ target ∈ w.turn.machine.targets.get? w.turn.active.target, ∀ q ∈ target.scripts.procedure? "echo",
      q.arguments = ["word","again"]) ∧
    (∃ w ∈ y.1, w.pc = g.pc 1 ∧ w.turn.active.stack.head? = some (.text "outer")) ∧
  ∃ z ∈ Spot.trail? (fun w => y.2.depth ≤ w.depth && !w.isAt y.2.depth (echoPc 26)) 60 200 y.2,
    z.2.isAt y.2.depth (echoPc 26) ∧ z.2.script = body ∧ ∃ w ∈ z.1, y.2.depth < w.depth

instance (g : Ground) (body : Script) (x : Spot) : Decidable (g.Echoes body x) := by
  unfold Ground.Echoes
  infer_instance

theorem echoProject_echoes : ∃ p ∈ (compile echoProject).toOption, p.isSmall ∧
    ∃ script ∈ (Compile.script stageEmitter.symbols "Stage #0" [] [echoCall] .finish 0).toOption,
    ∃ body ∈ (Compile.script stageEmitter.symbols "echo" ["word","again"] echoBody .endCall 2).toOption,
    ∃ e ∈ Palette.find? "procedures_call", ∃ x ∈ (Machine.ofProgram p {} {}).greenFlag.beginFrame.turnAfter? 0 0,
      x.2 = (script.1,(echoCall.firstGround e).start) ∧
      (echoCall.firstGround e).Echoes body.1 ⟨x.1,script.1,(echoCall.firstGround e).start⟩ := by
  decide +kernel

/-- The word is the one that the procedure was called with, whatever the call in between was called with. -/
theorem arguments_of_compile_echoProject : ∃ p t s g l z l' u r u', compile echoProject = .ok p ∧ s.Lays [] echoCall g ∧
    Phase.Steps (.idle (Machine.ofProgram p {} {})) (.turn t s g.start) ∧ Trail ⟨t,s,g.start⟩ l z ∧
    z.depth = t.active.calls.length + 1 ∧ Trail z l' ⟨u,r,echoPc 26⟩ ∧ (∃ y ∈ l', z.depth < y.depth) ∧
    Machine.advance u r (echoPc 26) = .going u' r (echoPc 29) ∧ u'.active.stack = .text "outer" :: u.active.stack := by
  obtain ⟨p,hp,hsmall,⟨s,after⟩,hscript,⟨_,after'⟩,hbody,e,hfind,⟨t,_⟩,hturn,rfl,⟨l,z⟩,htrail,hz,rfl,
    harguments,⟨w,hw,hpc,hhead⟩,⟨l',u,r,pc⟩,htrail',hz',hr,hdeeper⟩ := echoProject_echoes
  have hcompile := Except.mem_toOption.1 hp
  have hsmall := Program.small_of_isSmall hsmall
  have hprogram := compile_sound hcompile hsmall
  have hframe : Phase.Steps (.idle (Machine.ofProgram p {} {})) (.frame (Machine.ofProgram p {} {}).greenFlag.beginFrame) :=
    .tail (.single (.host _ .greenFlag)) (.begin _)
  have hreach := hframe.trans (Machine.resumption_of_turnAfter hturn).steps
  have hsound := Phase.Steps.sound_ofProgram hreach hprogram
  obtain ⟨hcall,hl⟩ := Spot.trail_of_trail? htrail hsound hprogram
  obtain ⟨hrest,hl'⟩ := Spot.trail_of_trail? htrail' (hcall.sound hsound hprogram) hprogram
  have hblock : s.Lays [] echoCall (echoCall.firstGround e) :=
    ⟨_,_,_,_,_,_,[],[],_,_,.inl rfl,Except.mem_toOption.1 hscript,by decide +kernel,hfind,rfl⟩
  obtain ⟨y,x,q,vs,hlast,hx,hq,hq',-,hvs,hvalues,hreads⟩ :=
    arguments_of_compile hcompile hsmall hblock rfl rfl hreach hcall
      (fun y hy => (Bool.and_eq_true_iff.1 (hl y hy)).imp of_decide_eq_true of_decide_eq_true) hz
  have hparams : q.arguments = ["word","again"] := harguments y (List.mem_of_getLast? hlast) x hx q hq
  obtain ⟨v,hv⟩ : ∃ v, vs[0]? = some v := ⟨_,List.getElem?_eq_getElem (by rw [hvs]; decide)⟩
  obtain rfl : v = .text "outer" := Option.some.inj (((hvalues 0 v hv).2 w hw hpc).symm.trans hhead)
  obtain ⟨hdepth,rfl⟩ := Spot.isAt_iff.1 hz'
  cases hr
  have htake : (expandStack ["word","again"] echoBody).take 29 =
      (expandStack ["word","again"] echoBody).take 26 ++ (expand ["word","again"] echoedWord).reporter := by
    decide +kernel
  have hcode : z.script.HasCode ["word","again"] (expand ["word","again"] echoedWord).reporter (echoPc 26) (echoPc 29) :=
    ⟨_,_,_,_,_,_,(expandStack ["word","again"] echoBody).take 26,(expandStack ["word","again"] echoBody).drop 29,
      .inr rfl,Except.mem_toOption.1 hbody,by decide +kernel,rfl,
      congrArg (fun ds => ((Emitter.start _ _).run ds).pc) htake⟩
  have hdeep : ∀ y ∈ l', z.depth ≤ y.depth := fun y hy => of_decide_eq_true (Bool.and_eq_true_iff.1 (hl' y hy)).1
  obtain ⟨u',hadvance,hstack⟩ := hreads l' u (echoPc 26) (hq' ▸ hrest) hdeep hdepth
    "word" .plain _ _ 0 (hparams ▸ .plain rfl rfl) (hparams ▸ hq' ▸ hcode) (by rw [hparams]; rfl) (by decide)
  rw [← hq'] at hadvance
  rw [hv] at hstack
  exact ⟨p,t,s,echoCall.firstGround e,l,z,l',u,z.script,u',hcompile,hblock,hreach,hcall,hz,hrest,hdeeper,hadvance,
    hstack⟩

end SpriteMachine
