import SpriteMachine.Proofs.Compilation
import SpriteMachine.Proofs.Operands

/-!
Code of expressions. It falls through and leaves one more value on the operand stack, the one that the recursion
over the tree gives; apart from that it only draws random numbers.
-/

namespace SpriteMachine

/-! Code that gives a value -/

/-- A script in which the code of an emitter stands, in a turn that has the variables and lists it names. -/
structure Script.Serves (s : Script) (e : Emitter) (t : Turn) : Prop where
  holds : s.Holds e.code
  constants : e.code.constants.size ≤ 2 ^ 32
  resolves : ∀ kind h, e.symbols.Has kind h → t.machine.Resolves t.active.target kind h

namespace Script.Serves

variable {s : Script} {e : Emitter} {t : Turn} {d : Directive} {ds : List Directive}

theorem of_run (h : s.Serves (e.run ds) t) : s.Serves e t where
  holds := h.holds.of_grows (e.run_grows ds)
  constants := Nat.le_trans (e.run_grows ds).constants_size h.constants
  resolves kind handle hh := h.resolves kind handle (hh.mono (e.symbols_grows_run ds))

theorem giving (h : s.Serves e t) (rest : List Value) (v : Value) (r : Random) : s.Serves e (t.giving rest v r) :=
  ⟨h.holds,h.constants,h.resolves⟩

theorem perform {i : Instr} {u : Turn} (h : s.Serves (e.step d) t) (he : e.code.Neat) (hwhole : d.isWhole = true)
    (hflush : d.flushes = false) (hi : e.written s d = some i) (hstraight : i.isStraight = true)
    (hperform : Turn.perform s i t = .ok () u) : s.Goes t e.pc u (e.step d).pc := by
  have hfetch := h.holds.fetch_written he hwhole (fun o j hd => by rw [hd] at hflush; cases hflush) hi
  rw [Emitter.before,if_neg (by rw [hflush]; decide)] at hfetch
  exact .perform hfetch hstraight hperform

end Script.Serves

/-- From one emitter to another the code gives the value that was evaluated. -/
structure Script.Gives (s : Script) (e e' : Emitter) (t : Turn) (rest : List Value) (r : Value × EvalState) : Prop where
  goes : s.Goes t e.pc (t.giving rest r.1 r.2.random) e'.pc
  symbols : e'.symbols.quiet = r.2.symbols

/-- Code that takes `k` operands, the topmost first, and gives a value. It may read the list of the scope. -/
structure Leads (params : List String) (k : Nat) (bound : Bool) (ds : List Directive)
    (x : World → Handle → List Value → Eval Value) : Prop where
  gives : ∀ {s : Script} {e : Emitter} {t : Turn} {vs rest : List Value}, e.code.Neat → s.Serves (e.run ds) t →
    t.active.stack = vs ++ rest → vs.length = k →
    (bound = true → t.machine.Resolves t.active.target .list e.scope.handle) →
    s.Gives e (e.run ds) t rest (x (t.world params) e.scope.handle vs ⟨e.symbols.quiet,t.machine.random⟩)
  outer : ∀ e : Emitter, (e.run ds).outer = e.outer

structure Computes (params : List String) (ds : List Directive) (x : World → Eval Value) : Prop where
  leads : Leads params 0 false ds fun w _ _ => x w
  scope : ∀ e : Emitter, (e.run ds).scope = e.scope

theorem Computes.gives {params : List String} {ds : List Directive} {x : World → Eval Value}
    (h : Computes params ds x) {s : Script} {e : Emitter} {t : Turn} (he : e.code.Neat) (hs : s.Serves (e.run ds) t) :
    s.Gives e (e.run ds) t t.active.stack (x (t.world params) ⟨e.symbols.quiet,t.machine.random⟩) :=
  h.leads.gives he hs (List.nil_append _).symm rfl nofun

namespace Leads

variable {params : List String} {k : Nat} {bound : Bool} {ds ds' : List Directive} {d : Directive}
  {x y : World → Handle → List Value → Eval Value}

theorem congr (h : Leads params k bound ds x) (heq : ∀ w, w.params = params → x w = y w) :
    Leads params k bound ds y := by
  refine ⟨fun {s e t vs rest} he hs hstack hlen hbound => ?_,h.outer⟩
  rw [← heq (t.world params) rfl]
  exact h.gives he hs hstack hlen hbound

theorem instr (hwhole : d.isWhole = true) (hflush : d.flushes = false)
    (houter : ∀ e : Emitter, (e.step d).outer = e.outer)
    (hstep : ∀ {s : Script} {e : Emitter} {t : Turn} {vs rest : List Value}, s.Serves (e.step d) t →
      t.active.stack = vs ++ rest → vs.length = k →
      (bound = true → t.machine.Resolves t.active.target .list e.scope.handle) →
      let r := x (t.world params) e.scope.handle vs ⟨e.symbols.quiet,t.machine.random⟩
      (e.step d).symbols.quiet = r.2.symbols ∧ ∃ i, e.written s d = some i ∧ i.isStraight = true ∧
        Turn.perform s i t = .ok () (t.giving rest r.1 r.2.random)) : Leads params k bound [d] x := by
  refine ⟨fun he hs hstack hlen hbound => ?_,houter⟩
  obtain ⟨hsymbols,i,hi,hstraight,hperform⟩ := hstep hs hstack hlen hbound
  exact ⟨hs.perform he hwhole hflush hi hstraight hperform,hsymbols⟩

theorem op {o : Opcode} {ws : List UInt32} {i : Instr} {f : World → List Value → Random → Value × Random}
    (hi : Instr.ofOperands o ws = i) (hwhole : ws.length = o.operandWords) (hflush : o.flushes = false)
    (hstraight : i.isStraight = true)
    (hperform : ∀ {s : Script} {t : Turn} {vs rest : List Value}, t.active.stack = vs ++ rest → vs.length = k →
      let r := f (t.world params) vs t.machine.random
      Turn.perform s i t = .ok () (t.giving rest r.1 r.2)) :
    Leads params k bound [.op o ws] fun w _ vs => Eval.draw (f w vs) := by
  have hd : (Directive.op o ws).isWhole = true := by simpa [Directive.isWhole] using hwhole
  refine instr hd hflush (fun e => e.op_outer o ws) fun {s e t vs rest} hs hstack hlen _ => ⟨?_,?_⟩
  · exact congrArg Symbols.quiet (e.op_symbols o ws)
  · exact ⟨i,by rw [← hi]; rfl,hstraight,hperform hstack hlen⟩

theorem operand {x : World → Eval Value} (hx : Computes params ds x) (hy : Leads params (k + 1) bound ds' y) :
    Leads params k bound (ds ++ ds') fun w handle vs => x w >>= fun v => y w handle (v :: vs) := by
  constructor
  case gives =>
    intro s e t vs rest he hs hstack hlen hbound
    rw [Emitter.run_append] at hs ⊢
    obtain ⟨hgoes,hsymbols⟩ := hx.gives he hs.of_run
    have hscope := hx.scope e
    change s.Gives e _ t rest (y (t.world params) e.scope.handle
      ((x (t.world params) ⟨e.symbols.quiet,t.machine.random⟩).1 :: vs)
      (x (t.world params) ⟨e.symbols.quiet,t.machine.random⟩).2)
    generalize x (t.world params) ⟨e.symbols.quiet,t.machine.random⟩ = r at hgoes hsymbols
    have hpushed : (t.giving t.active.stack r.1 r.2.random).active.stack = (r.1 :: vs) ++ rest :=
      congrArg (r.1 :: ·) hstack
    have hrest := hy.gives ((e.run_grows ds).neat he) (hs.giving _ _ _) hpushed (congrArg (· + 1) hlen)
      (by rw [hscope]; exact hbound)
    rw [hscope,hsymbols] at hrest
    exact ⟨hgoes.trans hrest.goes,hrest.symbols⟩
  case outer =>
    intro e
    rw [Emitter.run_append,hy.outer,hx.leads.outer]

theorem bindList (r : Reference) (h : Leads params k true ds x) :
    Leads params k false (.bindList r :: ds) fun w _ vs =>
      Eval.resolve (·.listHandle r) >>= fun handle => x w handle vs := by
  refine ⟨fun {s e t vs rest} he hs hstack hlen _ => ?_,fun e => h.outer _⟩
  obtain ⟨hhandle,hquiet⟩ := e.symbols.listHandle_quiet r
  have hhas := (e.symbols.listHandle_spec r).2.mono ((e.step (.bindList r)).symbols_grows_run ds)
  have hrest := h.gives (e := e.step (.bindList r)) he hs hstack hlen fun _ => hs.resolves _ _ hhas
  change s.Gives e _ t rest (x (t.world params) (e.symbols.quiet.listHandle r).1 vs
    ⟨(e.symbols.quiet.listHandle r).2.quiet,t.machine.random⟩)
  rw [hhandle,hquiet]
  exact ⟨hrest.goes,hrest.symbols⟩

theorem warn (message : String) (h : Leads params k bound ds x) :
    Leads params k bound (.warn message :: ds) x := by
  refine ⟨fun {s e t vs rest} he hs hstack hlen hbound => ?_,fun e => h.outer _⟩
  have hrest := h.gives (e := e.step (.warn message)) he hs hstack hlen hbound
  exact ⟨hrest.goes,hrest.symbols⟩

theorem computes {x : World → Eval Value} (h : Leads params 0 false ds fun w _ _ => x w) :
    Computes params (.enter :: ds ++ [.leave]) x := by
  have hrun : ∀ e : Emitter, e.run (.enter :: ds ++ [.leave]) = ((e.step .enter).run ds).step .leave := by
    intro e
    rw [List.cons_append,Emitter.run_cons,Emitter.run_append]
    rfl
  have houter : ∀ e : Emitter, ((e.step .enter).run ds).outer = e.scope :: e.outer := fun e => h.outer _
  refine ⟨⟨fun {s e t vs rest} he hs hstack hlen _ => ?_,fun e => ?_⟩,fun e => ?_⟩
  · rw [hrun] at hs ⊢
    have hbody := h.gives (e := e.step .enter) he ⟨hs.holds,hs.constants,hs.resolves⟩ hstack hlen nofun
    exact ⟨hbody.goes,hbody.symbols⟩
  · rw [hrun]
    exact congrArg List.tail (houter e)
  · rw [hrun]
    exact congrArg (List.headD · {}) (houter e)

/-! Instructions that compute -/

theorem unary {o : Opcode} {ws : List UInt32} {f : UnaryOperator} (hi : Instr.ofOperands o ws = .unary f)
    (hwhole : ws.length = o.operandWords) (hflush : o.flushes = false) :
    Leads params 1 bound [.op o ws] fun _ _ vs => pure (f.apply (vs.headD default)) := by
  refine op (f := fun _ vs r => (f.apply (vs.headD default),r)) hi hwhole hflush rfl fun hstack hlen => ?_
  obtain ⟨v,rfl⟩ := List.length_eq_one_iff.1 hlen
  exact Turn.perform_unary hstack f

theorem binary {o : Opcode} {f : BinaryOperator} (hi : Instr.ofOperands o [] = .binary f)
    (hwhole : o.operandWords = 0) (hflush : o.flushes = false) :
    Leads params 2 bound [.op o []] fun _ _ vs => pure (f.apply (vs.tail.headD default) (vs.headD default)) := by
  refine op (f := fun _ vs r => (f.apply (vs.tail.headD default) (vs.headD default),r)) hi hwhole.symm hflush rfl
    fun hstack hlen => ?_
  obtain ⟨y,x,rfl⟩ := List.length_eq_two.1 hlen
  exact Turn.perform_binary hstack f

theorem random : Leads params 2 bound [.op .random []] fun _ _ vs =>
    Value.number <$> Eval.draw (Random.between (vs.tail.headD default) (vs.headD default)) := by
  refine op (f := fun _ vs r =>
    let drawn := Random.between (vs.tail.headD default) (vs.headD default) r
    (.number drawn.1,drawn.2)) rfl rfl rfl rfl fun hstack hlen => ?_
  obtain ⟨y,x,rfl⟩ := List.length_eq_two.1 hlen
  exact Turn.perform_random hstack

theorem readList {o : Opcode} {action : ListAction} {f : Items → Value → Random → Value × Random}
    (hi : ∀ w, Instr.ofOperands o [w] = .list action ⟨w⟩) (hwhole : o.operandWords = 1) (hflush : o.flushes = false)
    (hone : action.operands ≤ 1)
    (happly : ∀ l top r, action.apply l top default r = (l,some (f l top r).1,(f l top r).2)) :
    Leads params action.operands true [.bound o []] fun w handle vs =>
      Eval.draw (f (w.listAt handle) (vs.headD default)) := by
  have hd : (Directive.bound o []).isWhole = true := by simp [Directive.isWhole,hwhole]
  refine instr hd hflush (fun e => e.op_outer o _) fun {s e t vs rest} hs hstack hlen hbound => ⟨?_,?_⟩
  · exact congrArg Symbols.quiet (e.op_symbols o _)
  · exact ⟨.list action e.scope.handle,congrArg some (hi _),rfl,
      Turn.perform_list params hstack hlen hone (hbound rfl) (happly _ _ _)⟩

end Leads

namespace Computes

variable {params : List String} {ds ds' : List Directive} {d : Directive} {x y : World → Eval Value}

theorem congr (h : Computes params ds x) (heq : ∀ w, w.params = params → x w = y w) : Computes params ds y :=
  ⟨h.leads.congr fun w hw => funext fun _ => funext fun _ => heq w hw,h.scope⟩

theorem push (hwhole : d.isWhole = true) (hflush : d.flushes = false)
    (hscope : ∀ e : Emitter, (e.step d).scope = e.scope ∧ (e.step d).outer = e.outer)
    (hstep : ∀ {s : Script} {e : Emitter} {t : Turn}, s.Serves (e.step d) t →
      let r := x (t.world params) ⟨e.symbols.quiet,t.machine.random⟩
      (e.step d).symbols.quiet = r.2.symbols ∧ ∃ i, e.written s d = some i ∧ i.isStraight = true ∧
        Turn.perform s i t = .ok () (t.giving t.active.stack r.1 r.2.random)) : Computes params [d] x := by
  refine ⟨.instr hwhole hflush (fun e => (hscope e).2) fun {s e t vs rest} hs hstack hlen _ => ?_,
    fun e => (hscope e).1⟩
  obtain rfl := List.length_eq_zero_iff.1 hlen
  obtain rfl : t.active.stack = rest := hstack
  exact hstep hs

theorem pushNumber (v : Float) : Computes params [.pushNumber v] fun _ => pure (.number v) :=
  push rfl rfl (fun _ => ⟨rfl,rfl⟩) fun _ => ⟨rfl,_,rfl,rfl,rfl⟩

theorem pushBool (b : Bool) : Computes params [.pushBool b] fun _ => pure (.bool b) :=
  push rfl rfl (fun _ => ⟨rfl,rfl⟩) fun _ => ⟨rfl,_,rfl,rfl,rfl⟩

theorem pushText (text : String) : Computes params [.pushText text] fun _ => pure (.text text) := by
  refine push rfl rfl (fun _ => ⟨rfl,rfl⟩) fun {s e t} hs => ⟨rfl,_,rfl,rfl,?_⟩
  have hheld := hs.holds.of_grows (Assembler.Grows.op (e.code.constant text) .pushConstant [_])
  have hget := e.code.constants_constantIndex text
  have hlt := (Array.getElem?_eq_some_iff.1 hget).1
  have hsize : (e.code.constant text).constants.size ≤ 2 ^ 32 :=
    Nat.le_trans (Assembler.Grows.op _ .pushConstant [_]).constants_size hs.constants
  have hindex : (UInt32.ofNat (e.code.constantIndex text)).toNat = e.code.constantIndex text :=
    UInt32.toNat_ofNat_of_lt' (Nat.lt_of_lt_of_le hlt hsize)
  have hconstant : Turn.constant s (UInt32.ofNat (e.code.constantIndex text)) t = .ok text t := by
    simp only [Turn.constant,Script.constant?,hindex,hheld.constants _ hlt,hget]
    rfl
  simp only [Turn.perform,bind,EStateM.bind,hconstant]
  rfl

theorem pushVariable (r : Reference) : Computes params [.pushVariable r] fun w => Eval.variableNamed w r := by
  refine push rfl rfl (fun e => ⟨Emitter.op_scope _ _ _,Emitter.op_outer _ _ _⟩) fun {s e t} hs => ?_
  obtain ⟨hhandle,hquiet⟩ := e.symbols.variableHandle_quiet r
  have hhas := (e.symbols.variableHandle_spec r).2
  refine ⟨hquiet.symm,.pushVar (e.symbols.variableHandle r).1,rfl,rfl,?_⟩
  rw [Turn.perform_pushVar params (hs.resolves _ _ hhas),← hhandle]
  rfl

theorem pushList (r : Reference) :
    Computes params [.pushList r] fun w => (fun l => .text (Items.contents l)) <$> Eval.listNamed w r := by
  refine push rfl rfl (fun e => ⟨Emitter.op_scope _ _ _,Emitter.op_outer _ _ _⟩) fun {s e t} hs => ?_
  obtain ⟨hhandle,hquiet⟩ := e.symbols.listHandle_quiet r
  have hhas := (e.symbols.listHandle_spec r).2
  refine ⟨hquiet.symm,.list .contents (e.symbols.listHandle r).1,rfl,rfl,?_⟩
  rw [Turn.perform_list params (List.nil_append _).symm rfl (Nat.zero_le _) (hs.resolves _ _ hhas) rfl,
    ← hhandle]
  rfl

theorem pushArg {o : Opcode} (form : ArgumentForm) (i : UInt32) (hi : Instr.ofOperands o [i] = .pushArg form i)
    (hwhole : o.operandWords = 1) (hflush : o.flushes = false) :
    Computes params [.op o [i]] fun w => pure (form.read w.args[i.toNat]?) := by
  have hd : (Directive.op o [i]).isWhole = true := by simp [Directive.isWhole,hwhole]
  refine push hd hflush (fun e => ⟨e.op_scope o _,e.op_outer o _⟩) fun {s e t} hs => ?_
  exact ⟨congrArg Symbols.quiet (e.op_symbols o _),.pushArg form i,congrArg some hi,rfl,rfl⟩

theorem read {o : Opcode} {f : UnaryOperator} (hx : Computes params ds x) (hi : Instr.ofOperands o [] = .unary f)
    (hwhole : o.operandWords = 0) (hflush : o.flushes = false) :
    Computes params (ds ++ [.op o []]) fun w => f.apply <$> x w := by
  refine ⟨(Leads.operand hx (.unary hi hwhole.symm hflush)).congr fun w _ => rfl,fun e => ?_⟩
  rw [Emitter.run_append,← hx.scope e]
  exact (e.run ds).op_scope o []

theorem warn (message : String) (h : Computes params ds x) : Computes params (.warn message :: ds) x :=
  ⟨h.leads.warn message,fun _ => h.scope _⟩

theorem primitive (p : Primitive) : Computes params (primitiveCode p) (p.value ·) := by
  cases p with
  | text s => exact pushText s
  | number written =>
    simp only [primitiveCode,Primitive.value]
    cases literalNumber? written with
    | some v => exact pushNumber v
    | none => exact pushText written
  | colour written =>
    simp only [primitiveCode,Primitive.value]
    cases literalColour? written with
    | some rgb => exact pushNumber _
    | none => exact (pushNumber 0.0).warn _
  | variableOf r => exact pushVariable r
  | listOf r => exact pushList r
  | messageOf r => exact pushText r.name

end Computes

/-! Slots -/

theorem Value.toNumber_empty : (Value.text "").toNumber = 0.0 := by decide +kernel

/-- Code of a slot whose value is known: the slot is empty or holds an expression. -/
inductive Answers (params : List String) : Option SlotCode → (World → Eval Value) → Prop
  | empty {c : Option SlotCode} (h : c.bind SlotCode.value = none) : Answers params c fun _ => pure (.text "")
  | block {c : SlotCode} {b : Block} (hvalue : c.value = some b) (hcode : c.reporter = (expand params b).reporter)
      (h : Computes params (expand params b).reporter (evaluate · b)) : Answers params (some c) (evaluate · b)

theorem evaluate_eq (w : World) (b : Block) : evaluate w b = reporterValue w b (slotValues w b.slots) := by
  cases b with
  | mk opcode mutation slots fields => rfl

theorem Operation.ofOpcode?_opcode (o : Operation) : ofOpcode? o.opcode = some o := by
  cases o <;> decide +kernel

variable {b : Block} {params : List String} {ds : List Directive} {x : World → Eval Value} {o : Opcode} {s : Slot}
  {name : String}

theorem evaluate_literal {v : Float} (h : SlotCode.literal? b = some v) (w : World) :
    evaluate w b = pure (.number v) ∧ v.isNaN = false := by
  unfold SlotCode.literal? at h
  split at h
  next written hprimitive =>
    refine ⟨?_,isNaN_literalNumber h⟩
    rw [evaluate_eq,reporterValue,hprimitive]
    simp only [Primitive.value,h,Option.map_some,Option.getD_some]
  next => cases h

theorem evaluate_param {o : Operation} {i : UInt32} (ho : o = .argument ∨ o = .boolArgument)
    (h : SlotCode.param? params o.opcode b = some i) (w : World) :
    evaluate w b = o.value w b (slotValues w b.slots) ∧
      Palette.paramIndex? params (b.fieldText "VALUE") = some i := by
  unfold SlotCode.param? at h
  split at h
  next hopcode =>
    replace hopcode : b.opcode = o.opcode := by simpa using hopcode
    obtain ⟨field,hfield,hindex⟩ := Option.bind_eq_some_iff.1 h
    have hprimitive : b.primitive? = none := by
      unfold Block.primitive?
      rw [hopcode]
      rcases ho with rfl | rfl <;> rfl
    refine ⟨?_,?_⟩
    · rw [evaluate_eq,reporterValue,hprimitive,hopcode,o.ofOpcode?_opcode]
    · rw [Block.fieldText,hfield]
      exact hindex
  next => cases h

namespace Answers

variable {params : List String} {c : Option SlotCode} {x : World → Eval Value}

theorem input (h : Answers params c x) : Computes params (SlotCode.inputCode c) x := by
  cases h with
  | empty hnone =>
    match c, hnone with
    | none, _ | some ⟨_,none,_,_⟩, _ => exact .pushText ""
  | @block c b hvalue hcode h =>
    match c, hvalue, hcode with
    | ⟨_,_,_,_⟩, rfl, rfl => exact h

theorem number (h : Answers params c x) :
    Computes params (SlotCode.numberCode params c) fun w => UnaryOperator.toNumber.apply <$> x w := by
  cases h with
  | empty hnone =>
    have hzero : Computes params [.pushNumber 0.0] fun _ => UnaryOperator.toNumber.apply <$> pure (.text "") :=
      (Computes.pushNumber 0.0).congr fun w _ => by rw [map_pure,UnaryOperator.apply,Value.toNumber_empty]
    match c, hnone with
    | none, _ | some ⟨_,none,_,_⟩, _ => exact hzero
  | @block c b hvalue hcode h =>
    obtain ⟨name,value,reporter,statements⟩ := c
    obtain rfl : value = some b := hvalue
    obtain rfl : reporter = _ := hcode
    unfold SlotCode.numberCode
    dsimp only
    split
    next v hliteral =>
      refine (Computes.pushNumber v).congr fun w _ => ?_
      obtain ⟨hvalue,hnan⟩ := evaluate_literal hliteral w
      rw [hvalue,map_pure,UnaryOperator.apply,Value.toNumber_number hnan]
    next i _ hparam =>
      refine (Computes.pushArg .number i rfl rfl rfl).congr fun w hw => ?_
      obtain ⟨hvalue,hindex⟩ := evaluate_param (o := .argument) (.inl rfl) hparam w
      rw [hvalue,Operation.value,World.argument?,hw,hindex,Option.map_some,Option.getD_some]
      cases w.args[i.toNat]? with
      | some v => rfl
      | none => exact congrArg (fun x => pure (Value.number x)) Value.toNumber_empty.symm
    next => exact h.read (o := .toNumber) rfl rfl rfl

theorem text (h : Answers params c x) :
    Computes params (SlotCode.textCode c) fun w => UnaryOperator.toText.apply <$> x w := by
  have hread : Computes params (SlotCode.inputCode c ++ [.op .toString []]) fun w =>
    UnaryOperator.toText.apply <$> x w := h.input.read rfl rfl rfl
  cases h with
  | empty hnone =>
    rw [SlotCode.textCode,hnone]
    exact hread
  | @block c b hvalue hcode h =>
    rw [SlotCode.textCode,Option.bind_some,hvalue,Option.bind_some]
    split
    next text hprimitive =>
      refine (Computes.pushText text).congr fun w _ => ?_
      change _ = UnaryOperator.toText.apply <$> evaluate w b
      rw [evaluate_eq,reporterValue,hprimitive]
      rfl
    next => exact hread

theorem condition (h : Answers params c x) :
    ∃ y, Computes params (SlotCode.conditionCode params c) y ∧
      ∀ w, w.params = params → Value.toBool <$> y w = Value.toBool <$> x w := by
  cases h with
  | empty hnone =>
    refine ⟨fun _ => pure (.bool false),?_,fun w _ => rfl⟩
    have hfalse : Computes params [.pushBool false] fun _ => pure (.bool false) := .pushBool false
    match c, hnone with
    | none, _ | some ⟨_,none,_,_⟩, _ => exact hfalse
  | @block c b hvalue hcode h =>
    obtain ⟨name,value,reporter,statements⟩ := c
    obtain rfl : value = some b := hvalue
    obtain rfl : reporter = _ := hcode
    unfold SlotCode.conditionCode
    dsimp only
    split
    next i hparam =>
      refine ⟨_,.pushArg .bool i rfl rfl rfl,fun w hw => ?_⟩
      obtain ⟨hvalue,hindex⟩ := evaluate_param (o := .boolArgument) (.inr rfl) hparam w
      rw [hvalue,Operation.value,World.argument?,hw,hindex,Option.map_some,Option.map_some,Option.getD_some]
      cases w.args[i.toNat]? with
      | some v => rfl
      | none => rfl
    next => exact ⟨_,h,fun w _ => rfl⟩

end Answers

/-! Operations -/

theorem Leads.pair {ds' : List Directive} {y : World → Eval Value} {f : BinaryOperator} (hx : Computes params ds x)
    (hy : Computes params ds' y) (hi : Instr.ofOperands o [] = .binary f) (hwhole : o.operandWords = 0)
    (hflush : o.flushes = false) :
    Leads params 0 false (ds ++ (ds' ++ [.op o []])) fun w _ _ => do return f.apply (← x w) (← y w) :=
  .operand hx (.operand hy (.binary hi hwhole hflush))

theorem Leads.single {ws : List UInt32} {f : UnaryOperator} (hx : Computes params ds x)
    (hi : Instr.ofOperands o ws = .unary f) (hwhole : ws.length = o.operandWords) (hflush : o.flushes = false) :
    Leads params 0 false (ds ++ [.op o ws]) fun w _ _ => do return f.apply (← x w) :=
  .operand hx (.unary hi hwhole hflush)

theorem mathResult_word (f : MathFunction) (x : Float) : mathResult f.word x = f.apply x := by
  have hword : MathFunction.ofWord? f.word = some f := by cases f <;> decide +kernel
  rw [mathResult,hword]

section Operations

variable {params : List String} {b : Block} {codes : List SlotCode} {slots : World → List SlotValue}

theorem Computes.entry {x : World → Eval Value} {e : Entry} {recipe : Recipe} (hmem : e ∈ Palette.entries.toList)
    (hopcode : b.opcode = e.opcode) (hprimitive : b.primitive? = none) (hreporter : e.reporter = true)
    (hrecipe : e.recipe = some recipe)
    (h : ∀ id, Leads params 0 false ((recipe ⟨b,params⟩).flatMap (stepCode params codes e id)) fun w _ _ => x w) :
    Computes params (reporterCode ⟨b,params⟩ codes) x := by
  obtain ⟨id,hfind,-,-⟩ := Palette.find?_of_mem hmem
  have hcode : reporterCode ⟨b,params⟩ codes =
      .enter :: (recipe ⟨b,params⟩).flatMap (stepCode params codes e id) ++ [.leave] := by
    rw [reporterCode,hprimitive]
    rw [hopcode,hfind]
    dsimp only
    rw [if_pos hreporter,entryCode,hrecipe]
  rw [hcode]
  exact (h id).computes

theorem Leads.withList {o : Opcode} {operands otherwise : List Step} {v : Value} {g : World → Items → Eval Value}
    (e : Entry) (id : Nat)
    (hotherwise : Leads params 0 false (otherwise.flatMap (stepCode params codes e id)) fun _ _ _ => pure v)
    (hlist : Leads params 0 true (operands.flatMap (stepCode params codes e id) ++ [.bound o []])
      fun w handle _ => g w (w.listAt handle)) :
    Leads params 0 false ((Palette.withList operands o [] otherwise ⟨b,params⟩).flatMap (stepCode params codes e id))
      fun w _ _ => ofList w b v (g w) := by
  unfold Palette.withList
  cases hfield : b.field? "LIST" with
  | some field =>
    have hcode : (Step.emit (.bindList field.reference) :: operands ++ [Step.emit (.bound o [])]).flatMap
        (stepCode params codes e id) =
        .bindList field.reference :: (operands.flatMap (stepCode params codes e id) ++ [.bound o []]) := by
      simp [List.flatMap_append,stepCode]
    rw [hcode]
    refine (hlist.bindList field.reference).congr fun w _ => ?_
    simp only [ofList,hfield,Eval.listNamed,bind_assoc,pure_bind]
  | none =>
    refine (hotherwise.warn _).congr fun w _ => ?_
    simp only [ofList,hfield]

variable (h : ∀ name, Answers params (stepCode.find codes name) fun w => SlotValue.input (slots w) name)

include h

theorem Leads.arithmetic {o : Opcode} {f : BinaryOperator} {g : Float → Float → Float}
    (hf : ∀ x y : Value, f.apply x y = .number (zeroIfNaN (g x.toNumber y.toNumber)))
    (hi : Instr.ofOperands o [] = .binary f) (hwhole : o.operandWords = 0) (hflush : o.flushes = false) :
    Leads params 0 false (SlotCode.numberCode params (stepCode.find codes "NUM1") ++
      (SlotCode.numberCode params (stepCode.find codes "NUM2") ++ [.op o []])) fun w _ _ =>
      SpriteMachine.arithmetic (slots w) g := by
  refine (Leads.pair (h "NUM1").number (h "NUM2").number hi hwhole hflush).congr fun w _ => ?_
  simp only [SpriteMachine.arithmetic,SlotValue.number,bind_map_left,UnaryOperator.apply,hf,
    Value.toNumber_number (Value.isNaN_toNumber _)]

theorem Leads.comparison {o o' : Opcode} {f f' : BinaryOperator} {g : Value → Value → Bool}
    {g' : Float → Value → Bool} (hf : ∀ x y, f.apply x y = .bool (g x y))
    (hf' : ∀ x y, f'.apply x y = .bool (g' x.toNumber y))
    (hi : Instr.ofOperands o [] = .binary f) (hwhole : o.operandWords = 0) (hflush : o.flushes = false)
    (hi' : Instr.ofOperands o' [] = .binary f') (hwhole' : o'.operandWords = 0) (hflush' : o'.flushes = false)
    (e : Entry) (id : Nat) :
    Leads params 0 false ((Palette.comparison o o' ⟨b,params⟩).flatMap (stepCode params codes e id)) fun w _ _ =>
      SpriteMachine.comparison b (slots w) g g' := by
  unfold Palette.comparison
  split
  next v hliteral =>
    have hnan : v.isNaN = false := by
      obtain ⟨slot,-,hslot⟩ := Option.bind_eq_some_iff.1 hliteral
      unfold Slot.literal? at hslot
      split at hslot
      next => exact isNaN_literalNumber hslot
      next => cases hslot
    refine (Leads.pair (.pushNumber v) (h "OPERAND2").input hi' hwhole' hflush').congr fun w _ => ?_
    simp only [SpriteMachine.comparison,hliteral,hf',pure_bind,Value.toNumber_number hnan]
  next hliteral =>
    refine (Leads.pair (h "OPERAND1").input (h "OPERAND2").input hi hwhole hflush).congr fun w _ => ?_
    simp only [SpriteMachine.comparison,hliteral,hf]

theorem Leads.conditions {o : Opcode} {f : BinaryOperator} {g : Bool → Bool → Bool}
    (hf : ∀ x y : Value, f.apply x y = .bool (g x.toBool y.toBool))
    (hi : Instr.ofOperands o [] = .binary f) (hwhole : o.operandWords = 0) (hflush : o.flushes = false) :
    Leads params 0 false (SlotCode.conditionCode params (stepCode.find codes "OPERAND1") ++
      (SlotCode.conditionCode params (stepCode.find codes "OPERAND2") ++ [.op o []])) fun w _ _ => do
      return .bool (g (← SlotValue.condition (slots w) "OPERAND1") (← SlotValue.condition (slots w) "OPERAND2")) := by
  obtain ⟨x,hx,hsame⟩ := (h "OPERAND1").condition
  obtain ⟨y,hy,hsame'⟩ := (h "OPERAND2").condition
  refine (Leads.pair hx hy hi hwhole hflush).congr fun w hw => ?_
  simp only [SlotValue.condition,← hsame w hw,← hsame' w hw,bind_map_left,hf]

theorem Operation.computes (o : Operation) (hopcode : b.opcode = o.opcode) (hprimitive : b.primitive? = none) :
    Computes params (reporterCode ⟨b,params⟩ codes) fun w => o.value w b (slots w) := by
  have hoperators : ∀ {e : Entry} {i : Nat}, Palette.operators[i]? = some e → e ∈ Palette.entries.toList :=
    Palette.mem_of_group (by simp)
  have hdata : ∀ {e : Entry} {i : Nat}, Palette.data[i]? = some e → e ∈ Palette.entries.toList :=
    Palette.mem_of_group (by simp)
  have hprocedures : ∀ {e : Entry} {i : Nat}, Palette.procedures[i]? = some e → e ∈ Palette.entries.toList :=
    Palette.mem_of_group (by simp)
  have hevents : ∀ {e : Entry} {i : Nat}, Palette.events[i]? = some e → e ∈ Palette.entries.toList :=
    Palette.mem_of_group (by simp)
  cases o with
  | add => exact .entry (hoperators (i := 0) rfl) hopcode hprimitive rfl rfl fun _ =>
      .arithmetic h (fun _ _ => rfl) rfl rfl rfl
  | subtract => exact .entry (hoperators (i := 1) rfl) hopcode hprimitive rfl rfl fun _ =>
      .arithmetic h (fun _ _ => rfl) rfl rfl rfl
  | multiply => exact .entry (hoperators (i := 2) rfl) hopcode hprimitive rfl rfl fun _ =>
      .arithmetic h (fun _ _ => rfl) rfl rfl rfl
  | divide => exact .entry (hoperators (i := 3) rfl) hopcode hprimitive rfl rfl fun _ =>
      .arithmetic h (fun _ _ => rfl) rfl rfl rfl
  | mod =>
    refine .entry (hoperators (i := 4) rfl) hopcode hprimitive rfl rfl fun _ =>
      (Leads.pair (h "NUM1").number (h "NUM2").number rfl rfl rfl).congr fun w _ => ?_
    simp only [Operation.value,SlotValue.number,bind_map_left,UnaryOperator.apply,BinaryOperator.apply,
      Value.toNumber_number (Value.isNaN_toNumber _)]
  | random => exact .entry (hoperators (i := 5) rfl) hopcode hprimitive rfl rfl fun _ =>
      .operand (h "FROM").input (.operand (h "TO").input .random)
  | less => exact .entry (hoperators (i := 6) rfl) hopcode hprimitive rfl rfl fun id =>
      .comparison h (fun _ _ => rfl) (fun _ _ => rfl) rfl rfl rfl rfl rfl rfl _ id
  | greater => exact .entry (hoperators (i := 7) rfl) hopcode hprimitive rfl rfl fun id =>
      .comparison h (fun _ _ => rfl) (fun _ _ => rfl) rfl rfl rfl rfl rfl rfl _ id
  | equals => exact .entry (hoperators (i := 8) rfl) hopcode hprimitive rfl rfl fun id =>
      .comparison h (fun _ _ => rfl) (fun _ _ => rfl) rfl rfl rfl rfl rfl rfl _ id
  | and => exact .entry (hoperators (i := 9) rfl) hopcode hprimitive rfl rfl fun _ =>
      .conditions h (fun _ _ => rfl) rfl rfl rfl
  | or => exact .entry (hoperators (i := 10) rfl) hopcode hprimitive rfl rfl fun _ =>
      .conditions h (fun _ _ => rfl) rfl rfl rfl
  | not =>
    obtain ⟨x,hx,hsame⟩ := (h "OPERAND").condition
    refine .entry (hoperators (i := 11) rfl) hopcode hprimitive rfl rfl fun _ =>
      (Leads.single hx rfl rfl rfl).congr fun w hw => ?_
    simp only [Operation.value,SlotValue.condition,← hsame w hw,bind_map_left]
    rfl
  | join =>
    refine .entry (hoperators (i := 12) rfl) hopcode hprimitive rfl rfl fun _ =>
      (Leads.pair (h "STRING1").text (h "STRING2").text rfl rfl rfl).congr fun w _ => ?_
    rfl
  | letterOf =>
    refine .entry (hoperators (i := 13) rfl) hopcode hprimitive rfl rfl fun _ =>
      (Leads.pair (h "LETTER").number (h "STRING").text rfl rfl rfl).congr fun w _ => ?_
    simp only [Operation.value,SlotValue.number,SlotValue.text,bind_map_left,UnaryOperator.apply,
      BinaryOperator.apply,Value.toNumber_number (Value.isNaN_toNumber _)]
    rfl
  | length =>
    refine .entry (hoperators (i := 14) rfl) hopcode hprimitive rfl rfl fun _ =>
      (Leads.single (h "STRING").text rfl rfl rfl).congr fun w _ => ?_
    rfl
  | contains =>
    refine .entry (hoperators (i := 15) rfl) hopcode hprimitive rfl rfl fun _ =>
      (Leads.pair (h "STRING1").text (h "STRING2").text rfl rfl rfl).congr fun w _ => ?_
    rfl
  | round =>
    refine .entry (hoperators (i := 16) rfl) hopcode hprimitive rfl rfl fun _ =>
      (Leads.single (h "NUM").number rfl rfl rfl).congr fun w _ => ?_
    simp only [Operation.value,SlotValue.number,bind_map_left,UnaryOperator.apply,
      Value.toNumber_number (Value.isNaN_toNumber _)]
  | math =>
    refine .entry (hoperators (i := 17) rfl) hopcode hprimitive rfl rfl fun id => ?_
    unfold Palette.mathFunction
    dsimp only [Site.field]
    cases hname : MathFunction.ofName? (Text.lower (b.fieldText "OPERATOR")) with
    | some f =>
      refine (Leads.single (f := .math f.word) (h "NUM").number rfl rfl rfl).congr fun w _ => ?_
      simp only [Operation.value,hname,SlotValue.number,bind_map_left,UnaryOperator.apply,
        Value.toNumber_number (Value.isNaN_toNumber _),mathResult_word]
    | none =>
      refine ((Computes.pushNumber 0.0).leads.warn _).congr fun w _ => ?_
      simp only [Operation.value,hname]
  | item =>
    refine .entry (hdata (i := 11) rfl) hopcode hprimitive rfl rfl fun id =>
      .withList _ id (Computes.pushText "").leads ?_
    rw [List.flatMap_singleton]
    exact .operand (h "INDEX").input
      (.readList (o := .listItem) (f := Items.item) (fun _ => rfl) rfl rfl (Nat.le_refl 1) fun _ _ _ => rfl)
  | itemNumber =>
    refine .entry (hdata (i := 12) rfl) hopcode hprimitive rfl rfl fun id =>
      .withList _ id (Computes.pushNumber 0.0).leads ?_
    rw [List.flatMap_singleton]
    exact .operand (h "ITEM").input (.readList (o := .listItemNum) (f := fun l v r => (.ofNat (l.indexOf v),r))
      (fun _ => rfl) rfl rfl (Nat.le_refl 1) fun _ _ _ => rfl)
  | listLength =>
    refine .entry (hdata (i := 13) rfl) hopcode hprimitive rfl rfl fun id =>
      .withList _ id (Computes.pushNumber 0.0).leads ?_
    exact .readList (o := .listLength) (f := fun l _ r => (.ofNat l.length,r)) (fun _ => rfl) rfl rfl
      (Nat.zero_le 1) fun _ _ _ => rfl
  | listContains =>
    refine .entry (hdata (i := 14) rfl) hopcode hprimitive rfl rfl fun id =>
      .withList _ id (Computes.pushBool false).leads ?_
    rw [List.flatMap_singleton]
    exact .operand (h "ITEM").input (.readList (o := .listContains) (f := fun l v r => (.bool (l.contains v),r))
      (fun _ => rfl) rfl rfl (Nat.le_refl 1) fun _ _ _ => rfl)
  | argument =>
    refine .entry (hprocedures (i := 1) rfl) hopcode hprimitive rfl rfl fun id => ?_
    unfold Palette.parameter
    dsimp only [Site.field]
    cases hindex : Palette.paramIndex? params (b.fieldText "VALUE") with
    | some i =>
      refine (Computes.pushArg _ i rfl rfl rfl).leads.congr fun w hw => ?_
      simp only [Operation.value,World.argument?,hw,hindex,Option.map_some,Option.getD_some]
      rfl
    | none =>
      refine (Computes.pushNumber 0.0).leads.congr fun w hw => ?_
      simp only [Operation.value,World.argument?,hw,hindex,Option.map_none,Option.getD_none]
  | boolArgument =>
    refine .entry (hprocedures (i := 2) rfl) hopcode hprimitive rfl rfl fun id => ?_
    unfold Palette.parameter
    dsimp only [Site.field]
    cases hindex : Palette.paramIndex? params (b.fieldText "VALUE") with
    | some i =>
      refine (Computes.pushArg _ i rfl rfl rfl).leads.congr fun w hw => ?_
      simp only [Operation.value,World.argument?,hw,hindex,Option.map_some,Option.getD_some]
      cases w.args[i.toNat]? <;> rfl
    | none =>
      refine (Computes.pushBool false).leads.congr fun w hw => ?_
      simp only [Operation.value,World.argument?,hw,hindex,Option.map_none,Option.getD_none]
  | message => exact .entry (hevents (i := 2) rfl) hopcode hprimitive rfl rfl fun _ =>
      (Computes.pushText _).leads

end Operations

/-! Block trees -/

/-- The block that gives a slot its value. -/
def Block.operand? (b : Block) (name : String) : Option Block :=
  (b.slot? name).bind Slot.value?

theorem Slot.sizeOf_value (h : s.value? = some b) : sizeOf b < sizeOf s := by
  match s, h with
  | .mk _ (b :: _) _, rfl | .mk _ [] (some b), rfl => simp; omega

theorem Block.sizeOf_operand {b' : Block} (h : b.operand? name = some b') : sizeOf b' < sizeOf b := by
  obtain ⟨s,hs,hvalue⟩ := Option.bind_eq_some_iff.1 h
  have hmem : s ∈ b.slots := List.mem_of_find?_eq_some hs
  have hslot := Slot.sizeOf_value hvalue
  have hslots := List.sizeOf_lt_of_mem hmem
  cases b with
  | mk opcode mutation slots fields =>
    simp only [Block.slots,Block.mk.sizeOf_spec] at hslots ⊢
    omega

theorem isExpression_value (hs : isExpressionSlot s = true) (h : s.value? = some b) : isExpression b = true := by
  match s, hs, h with
  | .mk _ (b :: _) _, hs, rfl => simpa [isExpressionSlot,startsWithExpression] using hs
  | .mk _ [] (some b), hs, rfl => simpa [isExpressionSlot,startsWithExpression,isExpressionShadow] using hs

theorem isExpressionSlot_of_mem {slots : List Slot} (h : areExpressions slots = true) (hs : s ∈ slots) :
    isExpressionSlot s = true := by
  induction slots with
  | nil => cases hs
  | cons first rest ih =>
    rw [areExpressions,Bool.and_eq_true] at h
    rcases List.mem_cons.1 hs with rfl | hs
    · exact h.1
    · exact ih h.2 hs

theorem isExpression_operand {b' : Block} (hb : isExpression b = true) (h : b.operand? name = some b') :
    isExpression b' = true := by
  obtain ⟨s,hs,hvalue⟩ := Option.bind_eq_some_iff.1 h
  have hmem : s ∈ b.slots := List.mem_of_find?_eq_some hs
  cases b with
  | mk opcode mutation slots fields =>
    rw [isExpression,Bool.and_eq_true] at hb
    exact isExpression_value (isExpressionSlot_of_mem hb.2 hmem) hvalue

theorem slotValues_eq_map (w : World) (slots : List Slot) : slotValues w slots = slots.map (slotValue w) := by
  induction slots with
  | nil => rw [slotValues,List.map_nil]
  | cons s rest ih => rw [slotValues,ih,List.map_cons]

theorem slotValue_name (w : World) (s : Slot) : (slotValue w s).name = s.name := by
  cases s with
  | mk name blocks shadow => rfl

theorem expandSlot_value (params : List String) (s : Slot) : (expandSlot params s).value = s.value? := by
  match s with
  | .mk _ (b :: _) _ => rfl
  | .mk _ [] shadow => rfl

theorem expandSlot_reporter (h : s.value? = some b) : (expandSlot params s).reporter = (expand params b).reporter := by
  match s, h with
  | .mk _ (b :: _) _, rfl => rfl
  | .mk _ [] (some b), rfl => rfl

theorem slotValue_value (w : World) (s : Slot) : (slotValue w s).value = s.value?.map (evaluate w) := by
  match s with
  | .mk _ (b :: _) _ => rfl
  | .mk _ [] (some b) => rfl
  | .mk _ [] none => rfl

theorem answers (h : ∀ name b', b.operand? name = some b' → Computes params (expand params b').reporter (evaluate · b'))
    (name : String) : Answers params (stepCode.find (expandSlots params b.slots) name) fun w =>
      SlotValue.input (slotValues w b.slots) name := by
  have hcode : stepCode.find (expandSlots params b.slots) name = (b.slot? name).map (expandSlot params) :=
    find_expandSlots params b.slots name
  have hinput : ∀ w, SlotValue.input (slotValues w b.slots) name =
      ((b.operand? name).map (evaluate w)).getD (pure (.text "")) := by
    intro w
    have hfind : (slotValues w b.slots).find? (fun s => s.name == name) = (b.slot? name).map (slotValue w) := by
      rw [slotValues_eq_map,List.find?_map,Block.slot?]
      simp only [Function.comp_def,slotValue_name]
    rw [SlotValue.input,hfind,Block.operand?]
    cases b.slot? name with
    | none => rfl
    | some s => rw [Option.map_some,Option.bind_some,Option.bind_some,slotValue_value]
  simp only [hcode,hinput]
  cases hoperand : b.operand? name with
  | none =>
    have hvalue : ∀ o : Option Slot, (o.map (expandSlot params)).bind SlotCode.value = o.bind Slot.value? := by
      intro o
      cases o with
      | none => rfl
      | some s => exact expandSlot_value params s
    exact .empty ((hvalue _).trans hoperand)
  | some b' =>
    obtain ⟨s,hs,hvalue⟩ := Option.bind_eq_some_iff.1 hoperand
    rw [hs]
    exact .block ((expandSlot_value params s).trans hvalue) (expandSlot_reporter hvalue) (h name b' hoperand)

theorem computes_expand (params : List String) (b : Block) (hb : isExpression b = true) :
    Computes params (expand params b).reporter (evaluate · b) := by
  induction hn : sizeOf b using Nat.strongRecOn generalizing b with
  | ind n ih =>
    have hslots := answers fun name b' h =>
      ih (sizeOf b') (hn ▸ Block.sizeOf_operand h) b' (isExpression_operand hb h) rfl
    have hcode : (expand params b).reporter = reporterCode ⟨b,params⟩ (expandSlots params b.slots) := by
      cases b with
      | mk opcode mutation slots fields => rfl
    rw [hcode]
    simp only [evaluate_eq,reporterValue]
    cases hprimitive : b.primitive? with
    | some p =>
      rw [reporterCode,hprimitive]
      exact .primitive p
    | none =>
      cases ho : Operation.ofOpcode? b.opcode with
      | some o =>
        have hopcode : b.opcode = o.opcode := by
          have hfound := List.find?_some ho
          exact (by simpa using hfound : o.opcode = b.opcode).symm
        exact o.computes hslots hopcode hprimitive
      | none =>
        have hunknown : reporterCode ⟨b,params⟩ (expandSlots params b.slots) =
            [.warn s!"unknown expression {b.opcode}",.pushText ""] := by
          have hreports : Palette.reports b.opcode = false := by
            cases b with
            | mk opcode mutation slots fields =>
              rw [isExpression,Bool.and_eq_true] at hb
              change Palette.reports opcode = false
              simpa [hprimitive,show Operation.ofOpcode? opcode = none from ho] using hb.1
          rw [reporterCode,hprimitive]
          unfold Palette.reports at hreports
          cases hfind : Palette.find? b.opcode with
          | none => rfl
          | some found =>
            rw [hfind] at hreports
            have hreporter : found.1.reporter = false := by simpa using hreports
            simp [hreporter]
        rw [hunknown]
        exact (Computes.pushText "").warn _

/-- The code of a slot that holds a block. -/
def SlotCode.holding (params : List String) (b : Block) : SlotCode where
  name := ""
  value := some b
  reporter := (expand params b).reporter
  statements := []

/-- What a slot wants of the block in it. -/
inductive SlotForm where
  | plain | number | text | condition
  deriving DecidableEq, Repr

namespace SlotForm

/-- The code by which a slot has what it wants of a block. -/
def code (params : List String) (b : Block) : SlotForm → List Directive
  | .plain => SlotCode.inputCode (SlotCode.holding params b)
  | .number => SlotCode.numberCode params (SlotCode.holding params b)
  | .text => SlotCode.textCode (SlotCode.holding params b)
  | .condition => SlotCode.conditionCode params (SlotCode.holding params b)

/-- What the slot has in place of the value of its block. -/
def Reads : SlotForm → Value → Value → Prop
  | .plain, v, u => u = v
  | .number, v, u => u = .number v.toNumber
  | .text, v, u => u = .text v.toText
  | .condition, v, u => u.toBool = v.toBool

theorem computes (form : SlotForm) (params : List String) {b : Block} (hb : isExpression b = true) :
    ∃ x, Computes params (form.code params b) x ∧ ∀ w st, w.params = params →
      form.Reads (evaluate w b st).1 (x w st).1 ∧ (x w st).2 = (evaluate w b st).2 := by
  have hslot : Answers params (SlotCode.holding params b) (evaluate · b) := .block rfl rfl (computes_expand params b hb)
  cases form with
  | plain => exact ⟨_,hslot.input,fun w st _ => ⟨rfl,rfl⟩⟩
  | number => exact ⟨_,hslot.number,fun w st _ => ⟨rfl,rfl⟩⟩
  | text => exact ⟨_,hslot.text,fun w st _ => ⟨rfl,rfl⟩⟩
  | condition =>
    obtain ⟨x,hx,hsame⟩ := hslot.condition
    refine ⟨x,hx,fun w st hw => ?_⟩
    have hrun := congrFun (hsame w hw) st
    have htruth := congrArg Prod.fst hrun
    have hstate := congrArg Prod.snd hrun
    exact ⟨htruth,hstate⟩

end SlotForm

/-- Expressions mean what their trees say. In every script that is built from code with an expression in it, and in
every turn that has the variables and lists that are named up to there, the code of the expression falls through to
what follows and puts one value on the operand stack. It is the value of the tree, read as the slot wants it; apart
from the random numbers that the tree draws nothing else changes. -/
theorem goes_expression (form : SlotForm) (params : List String) (b : Block) (hb : isExpression b = true)
    (symbols : Symbols) (name : String) (before after : List Directive) (id : Nat) (s : Script)
    (hbuild : ((Emitter.start symbols name).run (before ++ form.code params b ++ after)).code.build id = .ok s)
    (hconstants : s.constants.size ≤ 2 ^ 32) (t : Turn)
    (hresolves : ∀ kind h,
      ((Emitter.start symbols name).run (before ++ form.code params b)).symbols.Has kind h →
        t.machine.Resolves t.active.target kind h) :
    let e := (Emitter.start symbols name).run before
    let e' := e.run (form.code params b)
    let r := evaluate (t.world params) b ⟨e.symbols.quiet,t.machine.random⟩
    ∃ v, form.Reads r.1 v ∧ s.Goes t e.pc (t.giving t.active.stack v r.2.random) e'.pc ∧
      e'.symbols.quiet = r.2.symbols := by
  intro e e' r
  obtain ⟨x,hx,hread⟩ := form.computes params hb
  obtain ⟨hreads,hstate⟩ := hread (t.world params) ⟨e.symbols.quiet,t.machine.random⟩ rfl
  have hneat : (Emitter.start symbols name).code.Neat := (Emitter.fits_start symbols name).neat
  have hrun : (Emitter.start symbols name).run (before ++ form.code params b) = e' := Emitter.run_append _ _ _
  have hall : (Emitter.start symbols name).run (before ++ form.code params b ++ after) = e'.run after := by
    rw [Emitter.run_append,hrun]
  rw [hall] at hbuild
  have hheld := Script.Holds.of_build hbuild
    ((e'.run_grows after).neat ((e.run_grows _).neat (((Emitter.start symbols name).run_grows before).neat hneat)))
  have hserves : s.Serves e' t := by
    refine ⟨hheld.of_grows (e'.run_grows after),?_,by rw [← hrun]; exact hresolves⟩
    obtain ⟨_,hbuilt⟩ := Assembler.built_of_build hbuild
    exact Nat.le_trans (e'.run_grows after).constants_size (hbuilt.constants ▸ hconstants)
  have hgives := hx.gives (((Emitter.start symbols name).run_grows before).neat hneat) hserves
  refine ⟨_,hreads,?_,?_⟩
  · rw [show r.2 = _ from hstate.symm]
    exact hgives.goes
  · rw [show r.2 = _ from hstate.symm]
    exact hgives.symbols

/-! A tree with operands, a variable, a list and an argument in it -/

def letterTree : Block :=
  .mk "operator_join" none [
    .holding "STRING1" (.mk "data_itemoflist" none [
      .holding "INDEX" (.mk "operator_add" none [
        .holding "NUM1" (.number "1"),.holding "NUM2" (.variableNamed "x" "x")] [])] [("LIST",⟨"l",some "l"⟩)]),
    .holding "STRING2" (.leaf "argument_reporter_string_number" [("VALUE",⟨"n",none⟩)])] []

def letterData : DataTables where
  vars := .insert .empty "x" ⟨"x",.text "2"⟩
  lists := .insert .empty "l" ⟨"l",.ofList [.text "a",.text "b",.text "c"]⟩

def letterTurn : Turn where
  machine := { targets := .ofList [{ name := "Stage", kind := .stage, data := letterData }], children := [],
               time := .ofClock {}, random := .ofSeed 0 }
  active := { target := 0, base := 0, frame := { args := #[.text "!"] }, stack := [.number 7.0] }

def letterCode : Emitter :=
  (Emitter.start { isStage := true, stage := letterData } "letters").run ([] ++ SlotForm.code ["n"] letterTree .plain)

theorem letterCode_eq : letterCode.symbols.isStage = true ∧ (∀ kind, letterCode.symbols.count kind true = 1) ∧
    ∃ s, (letterCode.run [.op .pop [],.op .finish []]).code.build 0 = .ok s ∧ s.constants.size = 0 := by
  have hcheck : (fun e : Emitter =>
      e.symbols.isStage && e.symbols.count .variable true == 1 && e.symbols.count .list true == 1 &&
        match (e.run [.op .pop [],.op .finish []]).code.build 0 with
        | .ok s => s.constants.size == 0
        | .error _ => false) letterCode = true := by decide +kernel
  obtain ⟨hcheck,hbuild⟩ := Bool.and_eq_true_iff.1 hcheck
  obtain ⟨hcheck,hlists⟩ := Bool.and_eq_true_iff.1 hcheck
  obtain ⟨hstage,hvars⟩ := Bool.and_eq_true_iff.1 hcheck
  refine ⟨hstage,fun kind => ?_,?_⟩
  · cases kind with
    | «variable» => exact eq_of_beq hvars
    | list => exact eq_of_beq hlists
  · split at hbuild
    next s hs => exact ⟨s,hs,eq_of_beq hbuild⟩
    next => cases hbuild

theorem goes_expression_letterTree : ∃ s v random,
    (letterCode.run [.op .pop [],.op .finish []]).code.build 0 = .ok s ∧ v.toText = "c!" ∧
      s.Goes letterTurn 0 (letterTurn.giving [.number 7.0] v random) letterCode.pc := by
  obtain ⟨hisStage,hcount,s,hs,hconstants⟩ := letterCode_eq
  have hresolves : ∀ kind h, letterCode.symbols.Has kind h →
      letterTurn.machine.Resolves letterTurn.active.target kind h := by
    rintro kind h ⟨i,stage,rfl,hlt,hstage⟩
    obtain rfl : stage = true := hstage hisStage
    obtain rfl : i = 0 := by rw [hcount] at hlt; omega
    exact ⟨_,rfl,by cases kind <;> decide +kernel⟩
  obtain ⟨v,hv,hgoes,-⟩ := goes_expression .plain ["n"] letterTree (by decide +kernel)
    { isStage := true, stage := letterData } "letters" [] [.op .pop [],.op .finish []] 0 s
    ((congrArg (fun e : Emitter => e.code.build 0) (Emitter.run_append _ _ _)).trans hs)
    (by rw [hconstants]; exact Nat.zero_le _) letterTurn hresolves
  refine ⟨s,v,_,hs,?_,hgoes⟩
  rw [show v = _ from hv]
  decide +kernel

end SpriteMachine
