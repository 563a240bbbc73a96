import SpriteMachine.Proofs.Certificate

/-!
Call stacks. At the bottom is the frame of the script that was started; every other frame runs a procedure and
returns to a label of the script that the frame below it runs. Each frame has saved as many locals as the
script says where it goes on.
-/

namespace SpriteMachine

/-- Whether a handle in the code of a target leads to a variable or list. -/
def Shape.Has (stage σ : Shape) (kind : DataKind) (h : Handle) : Prop :=
  h.index < if h.isStage then stage.count kind else σ.count kind

/-- A script of a target can go on at a label with some saved locals. -/
def Shape.Enters (stage σ : Shape) (s : Script) (label : UInt32) (saves : Nat) : Prop :=
  s.Resumes (s.Allows (stage.Has σ)) label saves

def Shape.Sound (stage σ : Shape) : Prop :=
  ∀ s ∈ σ.scripts.all, stage.Enters σ s 0 0

/-- The frames of a thread, the innermost first, of which the first runs a script. What the first one has saved
does not count, since that changes while it runs. -/
inductive Chain (stage σ : Shape) (base : Nat) : Script → List Frame → Prop
  | root {s : Script} {f : Frame} (hs : s ∈ σ.scripts.all) (hid : s.id = base) (hbase : f.base = none)
      (hret : f.ret = none) (hwarp : f.warp = false) : Chain stage σ base s [f]
  | call {n : String} {q : Procedure} {f caller : Frame} {callers : List Frame} {k : Continuation} {saves : Nat}
      (hq : (n,q) ∈ σ.scripts.procedures) (hbase : f.base = some q.script.id) (hret : f.ret = some k)
      (hcaller : Chain stage σ base k.script (caller :: callers)) (hsaved : caller.saved.length = saves + 1)
      (hk : stage.Enters σ k.script k.label saves) : Chain stage σ base q.script (f :: caller :: callers)

/-- How many frames there are from the outermost one that runs without yielding up to the innermost. -/
def Frame.warpDepth (frames : List Frame) : Nat :=
  (frames.reverse.dropWhile fun f => !f.warp).length

theorem Frame.warpDepth_cons (f : Frame) (frames : List Frame) :
    Frame.warpDepth (f :: frames) =
      if f.warp || decide (0 < Frame.warpDepth frames) then Frame.warpDepth frames + 1 else 0 := by
  unfold warpDepth
  rw [List.reverse_cons,List.dropWhile_append]
  cases hrest : frames.reverse.dropWhile fun f => !f.warp with
  | nil => cases hf : f.warp <;> simp [hf]
  | cons g rest => simp

theorem Frame.warpDepth_top {f g : Frame} (h : g.warp = f.warp) (frames : List Frame) :
    Frame.warpDepth (g :: frames) = Frame.warpDepth (f :: frames) := by
  rw [warpDepth_cons,warpDepth_cons,h]

namespace Chain

variable {stage σ : Shape} {base : Nat} {s : Script} {f g : Frame} {frames : List Frame}

theorem top (h : Chain stage σ base s (f :: frames)) (hbase : g.base = f.base) (hret : g.ret = f.ret)
    (hwarp : g.warp = f.warp) : Chain stage σ base s (g :: frames) := by
  cases h with
  | root hs hid hb hr hw => exact .root hs hid (hbase.trans hb) (hret.trans hr) (hwarp.trans hw)
  | call hq hb hr hcaller hsaved hk => exact .call hq (hbase.trans hb) (hret.trans hr) hcaller hsaved hk

theorem inner {caller : Frame} (h : Chain stage σ base s (f :: caller :: frames)) :
    ∃ k saves, f.ret = some k ∧ Chain stage σ base k.script (caller :: frames) ∧ caller.saved.length = saves + 1 ∧
      stage.Enters σ k.script k.label saves := by
  cases h with
  | call _ _ hret hcaller hsaved hk => exact ⟨_,_,hret,hcaller,hsaved,hk⟩

end Chain

structure Thread.Sound (stage σ : Shape) (limit : Nat) (t : Thread) : Prop where
  resumes : ∃ k top callers saves, t.resume = some k ∧ t.frames = top :: callers ∧
    Chain stage σ t.base k.script (top :: callers) ∧ top.saved.length = saves + 1 ∧
    stage.Enters σ k.script k.label saves
  depth : t.frames.length ≤ limit + 1
  warp : t.warp = Frame.warpDepth t.frames

namespace Thread.Sound

variable {stage σ : Shape} {limit : Nat} {t : Thread}

theorem stop (h : t.Sound stage σ limit) : t.stop.Sound stage σ limit := ⟨h.resumes,h.depth,h.warp⟩

theorem start (hσ : stage.Sound σ) {s : Script} (hs : s ∈ σ.scripts.all) (id : Nat) :
    (Thread.start id s).Sound stage σ limit where
  resumes := ⟨s.entry,{ saved := [{}] },[],0,rfl,rfl,.root hs rfl rfl rfl rfl,rfl,hσ s hs⟩
  depth := Nat.le_add_left _ _
  warp := rfl

end Thread.Sound

/-! Programs -/

/-- A target of a machine is a copy of one of a program, but for its kind and the values of its data. The stage has no
copies. -/
def Shape.Of (p : Program) (σ : Shape) : Prop :=
  ∃ t ∈ p.stage :: p.sprites, σ = { t.shape with kind := σ.kind } ∧ (t.kind = .stage → σ.kind = .stage)

structure Program.Sound (p : Program) : Prop where
  stage : p.stage.kind = .stage
  sprites : ∀ t ∈ p.sprites, t.kind = .sprite
  scripts : ∀ t ∈ p.stage :: p.sprites, p.stage.shape.Sound t.shape

theorem Program.Sound.shape {p : Program} (h : p.Sound) {σ : Shape} (hσ : σ.Of p) : p.stage.shape.Sound σ := by
  obtain ⟨t,ht,heq,-⟩ := hσ
  obtain ⟨name,kind,scripts,vars,lists⟩ := σ
  cases heq
  exact h.scripts t ht

/-- Targets with fewer variables and lists, and scripts with fewer words, than a word can count. -/
def Program.Small (p : Program) : Prop :=
  ∀ t ∈ p.stage :: p.sprites, t.data.vars.size < 2 ^ 31 ∧ t.data.lists.size < 2 ^ 31 ∧
    ∀ s ∈ t.scripts.all, s.code.size < 2 ^ 32

theorem Compile.Supplied.has {p : Program} {t : Target} (hsmall : p.Small) (ht : t ∈ p.stage :: p.sprites)
    {symbols : Symbols} (hstage : symbols.isStage = t.isStage)
    (hcount : ∀ kind, symbols.count kind true ≤ p.stage.data.count kind)
    (hown : t.isStage = false → ∀ kind, symbols.count kind false ≤ t.data.count kind) {kind : DataKind} {h : Handle}
    (hh : symbols.Has kind h) : p.stage.shape.Has t.shape kind h := by
  have hsize : ∀ u ∈ p.stage :: p.sprites, u.data.count kind < 2 ^ 31 := by
    intro u hu
    cases kind with
    | «variable» => exact (hsmall u hu).1
    | list => exact (hsmall u hu).2.1
  obtain ⟨i,stage,rfl,hlt,honly⟩ := hh
  unfold Shape.Has
  cases stage with
  | true =>
    have hle := Nat.lt_of_lt_of_le hlt (hcount kind)
    have hi := Nat.lt_trans hle (hsize p.stage List.mem_cons_self)
    rw [Handle.isStage_make hi,Handle.index_make hi,if_pos rfl,Target.count_shape]
    exact hle
  | false =>
    have hsprite : t.isStage = false := by
      rw [← hstage]
      exact Bool.eq_false_iff.2 fun hs => nomatch honly hs
    have hle := Nat.lt_of_lt_of_le hlt (hown hsprite kind)
    have hi := Nat.lt_trans hle (hsize t ht)
    rw [Handle.isStage_make hi,Handle.index_make hi,if_neg (by decide),Target.count_shape]
    exact hle

theorem compile_sound {project : Project} {p : Program} (h : compile project = .ok p) (hsmall : p.Small) : p.Sound := by
  obtain ⟨hstage,hsprites,hsupplied⟩ := compile_supplied h
  refine ⟨hstage,hsprites,fun t ht => ?_⟩
  obtain ⟨symbols,hisStage,hsourced,hcount,hown⟩ := hsupplied t ht
  have hstarts : ∀ {o : Opcode} {s : Script}, Compile.Ends o → s ∈ t.scripts.all → Compile.Compiled symbols o s →
      p.stage.shape.Enters t.shape s 0 0 := by
    intro o s ho hs hcompiled
    have hstart := hcompiled.starts ho ((hsmall t ht).2.2 s hs)
    exact hstart.mono fun pc d n hallows =>
      hallows.mono fun kind handle => Compile.Supplied.has hsmall ht hisStage hcount hown
  intro s hs
  rcases Compile.mem_all.1 hs with ⟨e,he⟩ | ⟨n,q,hq,rfl⟩
  · exact hstarts (.inl rfl) hs (hsourced.listeners he)
  · exact hstarts (.inr rfl) hs (hsourced.procedures hq)

end SpriteMachine
