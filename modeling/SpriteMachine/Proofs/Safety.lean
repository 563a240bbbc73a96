import SpriteMachine.Proofs.Edits
import SpriteMachine.Proofs.Invariant

/-!
A turn of a sound machine goes on soundly: its thread finds what it needs, and the only fault is a call that is
too deep. What each instruction does then is said once, case by case.
-/

namespace SpriteMachine

theorem Instr.handle?_of_access {i : Instr} {kind : DataKind} {h : Handle} (hi : i.access.handles kind h) :
    i.handle? = some (kind,h) := by
  cases i with
  | pushVar _ | setVar _ | changeVar _ | watchVar _ _ | list _ _ | watchList _ _ =>
    obtain ⟨rfl,rfl⟩ := hi
    rfl
  | _ => cases hi

theorem Instr.Admits.operates {i : Instr} {s : Script} {has : DataKind → Handle → Prop} {T : Typing} {next d n : Nat}
    {arity : Nat × Nat} (h : i.Admits s has T next d n) (hi : i.arity? = some arity) : i.Operates s has T next d n := by
  cases i with
  | save | restore | jump _ | jumpIf _ _ | queue _ | forceQueue _ | finish | endCall | call _ _ _ | broadcast
  | broadcastAndWait | sceneChanged | stop _ | deleteClone => cases hi
  | _ => exact h

namespace Instr

/-- The label where the script goes on after an instruction that leaves it. -/
def label? : Instr → Option UInt32
  | .queue label | .forceQueue label | .call _ _ label => some label
  | _ => none

/-- How many operands an instruction takes that raises an event. -/
def sends : Instr → Nat
  | .broadcast | .broadcastAndWait => 1
  | _ => 0

end Instr

namespace Machine

variable {p : Program} {c : Settings} {m m' : Machine}

theorem createClone_settings (m : Machine) (parent : Nat) : (m.createClone parent).2.settings = m.settings := by
  obtain ⟨_,_,_,_,_,heq⟩ := m.createClone_frame parent
  rw [heq]

theorem Evolves.settings (h : m.Evolves m') : m'.settings = m.settings := by
  induction h with
  | refl => rfl
  | alike _ ha ih => exact ha.settings.trans ih
  | clone _ parent ih => exact (createClone_settings _ parent).trans ih

theorem Sound.resolves (h : m.Sound p c) {own : Nat} {σ : Shape} (hown : m.shape? own = some σ) {kind : DataKind}
    {handle : Handle} (hhas : p.stage.shape.Has σ kind handle) : m.Resolves own kind handle := by
  unfold Shape.Has at hhas
  unfold Resolves Handle.owner
  by_cases hstage : handle.isStage = true
  · rw [if_pos hstage] at hhas ⊢
    exact ⟨_,h.stage,hhas⟩
  · rw [if_neg hstage] at hhas ⊢
    exact ⟨σ,hown,hhas⟩

end Machine

namespace Turn

/-- A thread runs on a live target, in its slot if it has one. -/
structure Placed (p : Program) (c : Settings) (o : Option Nat) (σ : Shape) (t : Turn) : Prop where
  machine : t.machine.Sound p c
  own : t.machine.shape? t.active.target = some σ
  slot : t.active.slot = o
  occupied : ∀ {i : Nat}, o = some i → ∃ u : Thread, t.machine.queue[i]? = some (some u) ∧
    u.target = t.active.target ∧ u.base = t.active.base
  live : t.active.stopped = false
  depth : t.active.calls.length ≤ t.machine.settings.maxCallDepth
  warp : t.active.warp = Frame.warpDepth (t.active.frame :: t.active.calls)

/-- A thread runs a script and has not said where to go on. -/
structure Running (p : Program) (c : Settings) (o : Option Nat) (σ : Shape) (s : Script) (t : Turn) : Prop where
  placed : t.Placed p c o σ
  chain : Chain p.stage.shape σ t.active.base s (t.active.frame :: t.active.calls)
  immediate : t.active.immediate = none
  requeue : t.active.requeue = none

def Sound (p : Program) (c : Settings) (o : Option Nat) (t : Turn) (s : Script) (pc : Nat) : Prop :=
  ∃ σ, t.Running p c o σ s ∧ s.Allows (p.stage.shape.Has σ) pc t.active.stack.length t.active.frame.saved.length

/-- A thread may go on at a label. -/
def Ready (p : Program) (c : Settings) (o : Option Nat) (t : Turn) (k : Continuation) : Prop :=
  ∃ σ, t.Placed p c o σ ∧ Chain p.stage.shape σ t.active.base k.script (t.active.frame :: t.active.calls) ∧
    p.stage.shape.Enters σ k.script k.label t.active.frame.saved.length

/-- A thread leaves a script: it is over, or goes on at once or in the next pass. -/
inductive Left (p : Program) (c : Settings) (o : Option Nat) (t : Turn) : Prop
  | ended (h : t.machine.Sound p c) (himmediate : t.active.immediate = none) (hrequeue : t.active.requeue = none)
  | atOnce {k : Continuation} (h : t.Ready p c o k) (himmediate : t.active.immediate = some k)
      (hrequeue : t.active.requeue = none)
  | later {k : Continuation} (h : t.Ready p c o k) (himmediate : t.active.immediate = none)
      (hrequeue : t.active.requeue = some k)

/-- What an instruction does in a turn where it finds what it needs. -/
inductive Outcome (s : Script) (next : Nat) (t : Turn) : Instr → EStateM.Result Fault Turn Flow → Prop
  | plain {i : Instr} {n k : Nat} {u : Turn} (harity : i.arity? = some (n,k))
      (hconstant : ∀ index, i = .pushConstant index → index.toNat < s.constants.size)
      (hperform : perform s i t = .ok () u) : Outcome s next t i (.ok (.next next) u)
  | save : Outcome s next t .save (.ok (.next next) (t.withActive t.active.save))
  | restore {l : Locals} {rest : List Locals} (hsaved : t.active.frame.saved = l :: rest) : Outcome s next t .restore
      (.ok (.next next) (t.withActive { t.active with frame := { t.active.frame with saved := rest }, locals := l }))
  | jump (target : UInt32) : Outcome s next t (.jump target) (.ok (.next target.toNat) t)
  | jumpIf {v : Value} {rest : List Value} (hstack : t.active.stack = v :: rest) (wanted : Bool) (target : UInt32) :
      Outcome s next t (.jumpIf wanted target)
        (.ok (.next (if v.toBool = wanted then target.toNat else next)) (t.withStack rest))
  | onward {label : UInt32} : Outcome s next t (.queue label)
      (.ok .leave (t.withActive { t.active with immediate := some ⟨s,label⟩ }))
  | yields {i : Instr} {label : UInt32} (hi : i = .forceQueue label ∨ i = .queue label ∧ t.active.warp = 0) :
      Outcome s next t i (.ok .leave (t.withActive { t.active with requeue := some ⟨s,label⟩ }))
  | ended {i : Instr} (hi : i = .finish ∨ t.active.calls = [] ∧ (i = .endCall ∨ ∃ mode, i = .stop mode)) :
      Outcome s next t i (.ok .leave t)
  | returns {i : Instr} {caller : Frame} {calls : List Frame} {k : Continuation} {l : Locals} {rest : List Locals}
      (hi : i = .endCall ∨ ∃ mode, i = .stop mode) (hcalls : t.active.calls = caller :: calls)
      (hret : t.active.frame.ret = some k) (hsaved : caller.saved = l :: rest) :
      Outcome s next t i (.ok .leave (t.withActive { t.active with
        calls := calls, frame := { caller with saved := rest }, locals := l, warp := t.active.warp - 1
        immediate := some k }))
  | unknown {procedure argc ret : UInt32} {name : String} {x : Target} (hname : s.constant? procedure = some name)
      (hx : t.machine.targets.get? t.active.target = some x) (hq : x.scripts.procedure? name = none) :
      Outcome s next t (.call procedure argc ret) (.ok .leave (t.withActive
        { t.active with stack := t.active.stack.drop argc.toNat, immediate := some ⟨s,ret⟩ }))
  | enters {procedure argc ret : UInt32} {name : String} {x : Target} {q : Procedure} {immediate requeue : Option Continuation}
      (hname : s.constant? procedure = some name) (hx : t.machine.targets.get? t.active.target = some x)
      (hq : x.scripts.procedure? name = some q) (hdeep : ¬ t.machine.settings.maxCallDepth ≤ t.active.depth)
      (hk : immediate = some q.script.entry ∧ requeue = none ∨
        immediate = none ∧ requeue = some q.script.entry ∧ q.warp = false ∧ t.active.warp = 0) :
      Outcome s next t (.call procedure argc ret) (.ok .leave (t.withActive
        { (t.withStack (t.active.stack.drop argc.toNat)).active.enter
            (callFrame q (t.active.stack.take argc.toNat).reverse ⟨s,ret⟩) with
          warp := if q.warp || t.active.warp > 0 then t.active.warp + 1 else t.active.warp
          immediate, requeue }))
  | tooDeep {procedure argc ret : UInt32} : Outcome s next t (.call procedure argc ret)
      (.error (.callDepthExceeded t.machine.settings.maxCallDepth) (t.withStack (t.active.stack.drop argc.toNat)))
  | raises {i : Instr} {e : Event} {locals : Locals} (he : t.raises? i = some e)
      (hlocals : i.setsLocals = false → locals = t.active.locals) :
      Outcome s next t i (.ok (if (t.machine.trigger e).1.contains t.active.base then .leave else .next next)
        ⟨(t.machine.trigger e).2,{ t.active with stack := t.active.stack.drop i.sends, locals }⟩)
  | stopsAll {mode : UInt32} (hmode : StopMode.ofWord? mode = some .all) :
      Outcome s next t (.stop mode) (.ok .leave ⟨t.machine.stopAll,{ t.active with stopped := true }⟩)
  | stopsOthers {mode : UInt32} : Outcome s next t (.stop mode) (.ok (.next next)
      (t.withMachine (t.machine.dropThreads fun i u => some i != t.active.slot && u.target == t.active.target)))
  | stays {i : Instr} (hi : i = .deleteClone ∨ ∃ mode, i = .stop mode) : Outcome s next t i (.ok (.next next) t)
  | deletes : Outcome s next t .deleteClone (.ok .leave (t.withMachine (t.machine.deleteClone t.active.target)))

inductive Safe (p : Program) (c : Settings) (o : Option Nat) (s : Script) : EStateM.Result Fault Turn Flow → Prop
  | next {pc : Nat} {t : Turn} (h : t.Sound p c o s pc) : Safe p c o s (.ok (.next pc) t)
  | leave {t : Turn} (h : t.Left p c o) : Safe p c o s (.ok .leave t)
  | fault {t : Turn} (h : t.machine.Sound p c) :
      Safe p c o s (.error (.callDepthExceeded c.maxCallDepth) t)

variable {p : Program} {c : Settings} {o : Option Nat} {t : Turn} {s : Script} {pc next : Nat} {σ : Shape}

namespace Placed

theorem reactive (h : t.Placed p c o σ) {a : Activation} (htarget : a.target = t.active.target)
    (hbase : a.base = t.active.base) (hslot : a.slot = t.active.slot) (hstopped : a.stopped = t.active.stopped)
    (hdepth : a.calls.length ≤ t.machine.settings.maxCallDepth) (hwarp : a.warp = Frame.warpDepth (a.frame :: a.calls)) :
    (t.withActive a).Placed p c o σ where
  machine := h.machine
  own := by
    change t.machine.shape? a.target = some σ
    rw [htarget]
    exact h.own
  slot := hslot.trans h.slot
  occupied hi := by
    obtain ⟨u,hu,hut,hub⟩ := h.occupied hi
    exact ⟨u,hu,hut.trans htarget.symm,hub.trans hbase.symm⟩
  live := hstopped.trans h.live
  depth := hdepth
  warp := hwarp

theorem remachine (h : t.Placed p c o σ) {m : Machine} (hm : m.Sound p c)
    (hshape : m.shape? t.active.target = t.machine.shape? t.active.target) (hsettings : m.settings = t.machine.settings)
    (hretains : ∀ {i : Nat} {u : Thread}, o = some i → t.machine.queue[i]? = some (some u) →
      ∃ v : Thread, m.queue[i]? = some (some v) ∧ v.target = u.target ∧ v.base = u.base) :
    (t.withMachine m).Placed p c o σ where
  machine := hm
  own := hshape.trans h.own
  slot := h.slot
  occupied hi := by
    obtain ⟨u,hu,hut,hub⟩ := h.occupied hi
    obtain ⟨v,hv,hvt,hvb⟩ := hretains hi hu
    exact ⟨v,hv,hvt.trans hut,hvb.trans hub⟩
  live := h.live
  depth := by
    change t.active.calls.length ≤ m.settings.maxCallDepth
    rw [hsettings]
    exact h.depth
  warp := h.warp

theorem target (h : t.Placed p c o σ) : ∃ x, t.machine.targets.get? t.active.target = some x ∧ x.shape = σ := by
  have hown := h.own
  rw [Machine.shape?,Option.map_eq_some_iff] at hown
  exact hown

theorem trigger (h : t.Placed p c o σ) (hp : p.Sound) (e : Event) :
    (t.withMachine (t.machine.trigger e).2).Placed p c o σ := by
  obtain ⟨queue,starts,heq⟩ := t.machine.trigger_eq e
  refine h.remachine (h.machine.trigger hp e) ?_ ?_ fun _ hu => Machine.Retains.trigger _ e _ _ hu
  · rw [heq]
    rfl
  · rw [heq]

theorem evolves (h : t.Placed p c o σ) (hp : p.Sound) {m : Machine} (he : t.machine.Evolves m) :
    (t.withMachine m).Placed p c o σ :=
  h.remachine (h.machine.evolves hp he) ((he.shape? h.own).trans h.own.symm) he.settings fun _ hu =>
    Machine.Retains.evolves he _ _ hu

end Placed

namespace Running

theorem reactive (h : t.Running p c o σ s) (stack : List Value) (locals : Locals) (saved : List Locals) :
    (t.withActive { t.active with stack, locals, frame := { t.active.frame with saved } }).Running p c o σ s where
  placed := h.placed.reactive rfl rfl rfl rfl h.placed.depth
    (h.placed.warp.trans (Frame.warpDepth_top (f := { t.active.frame with saved }) (g := t.active.frame) rfl _))
  chain := h.chain.top rfl rfl rfl
  immediate := h.immediate
  requeue := h.requeue

theorem remachine (h : t.Running p c o σ s) {m : Machine} (hm : (t.withMachine m).Placed p c o σ) :
    (t.withMachine m).Running p c o σ s :=
  ⟨hm,h.chain,h.immediate,h.requeue⟩

theorem performs (h : t.Running p c o σ s) {i : Instr}
    (hi : i.Operates s (p.stage.shape.Has σ) (s.Allows (p.stage.shape.Has σ)) next t.active.stack.length
      t.active.frame.saved.length) : ∃ u, perform s i t = .ok () u := by
  obtain ⟨⟨a,r,harity,hle,-⟩,hhandle,hconstant⟩ := hi
  have htame := Tame.perform (s := s) harity fun _ => hconstant
  cases hu : perform s i t with
  | ok _ u => exact ⟨u,rfl⟩
  | error f u =>
    exfalso
    cases htame.blames hu with
    | underflow hlt => omega
    | missing hnone =>
      rw [h.placed.own] at hnone
      cases hnone
    | handle hc hbad _ =>
      exact hbad (h.placed.machine.resolves h.placed.own (hhandle (Instr.handle?_of_access hc)))

theorem yieldTo (h : t.Running p c o σ s) (k : Continuation) :
    t.active.yieldTo k = { t.active with requeue := some k } := by
  simp [Activation.yieldTo,h.placed.live]

theorem endCall (h : t.Running p c o σ s) {i : Instr} (hi : i = .endCall ∨ ∃ mode, i = .stop mode) (next : Nat) :
    Outcome s next t i (Turn.stop (some .thisScript) next t) := by
  cases hcalls : t.active.calls with
  | nil =>
    have hend : t.active.endCall = .ok t.active := by simp [Activation.endCall,hcalls]
    rw [stop_thisScript hend]
    exact .ended (.inr ⟨hcalls,hi⟩)
  | cons caller calls =>
    have hchain := h.chain
    rw [hcalls] at hchain
    obtain ⟨k,saves,hret,-,hsaved,-⟩ := hchain.inner
    obtain ⟨l,rest,hcons,-⟩ := List.length_eq_succ_iff.1 hsaved
    have hend : t.active.endCall = .ok { t.active with
        calls := calls, frame := { caller with saved := rest }, locals := l, warp := t.active.warp - 1
        immediate := some k } := by
      simp [Activation.endCall,Activation.leave,Activation.restore,hcalls,← hcons,hret,bind,Except.bind,pure,
        Except.pure]
    rw [stop_thisScript hend]
    exact .returns hi hcalls hret hcons.symm

theorem call (h : t.Running p c o σ s) {procedure argc ret : UInt32} (hconstant : procedure.toNat < s.constants.size)
    (hargc : argc.toNat ≤ t.active.stack.length) (hret : ret.toNat < s.labels.size) (next : Nat) :
    Outcome s next t (.call procedure argc ret) (exec s next (.call procedure argc ret) t) := by
  obtain ⟨name,hname,hexec⟩ := exec_call hconstant hargc hret next
  obtain ⟨x,hx,-⟩ := h.placed.target
  have hrest : (t.withStack (t.active.stack.drop argc.toNat)).machine.targets.get?
      (t.withStack (t.active.stack.drop argc.toNat)).active.target = some x := hx
  rw [hexec]
  change Outcome s next t _ (EStateM.bind (Turn.call name _ ⟨s,ret⟩) _ _)
  unfold EStateM.bind
  cases hq : x.scripts.procedure? name with
  | none =>
    rw [call_unknown hrest _ ⟨s,ret⟩ hq]
    exact .unknown hname hx hq
  | some q =>
    by_cases hdeep : t.machine.settings.maxCallDepth ≤ t.active.depth
    · rw [call_tooDeep hrest _ ⟨s,ret⟩ hq hdeep]
      exact .tooDeep
    · rw [call_enters hrest _ ⟨s,ret⟩ hq hdeep]
      have henters := fun immediate requeue => @Outcome.enters s next t procedure argc ret name x q immediate requeue hname hx hq hdeep
      have hwarp : ∀ f, ((t.withStack (t.active.stack.drop argc.toNat)).active.enter f).warp = t.active.warp := fun _ => rfl
      have himmediate : ∀ f, ((t.withStack (t.active.stack.drop argc.toNat)).active.enter f).immediate = none :=
        fun _ => h.immediate
      have hrequeue : ∀ f, ((t.withStack (t.active.stack.drop argc.toNat)).active.enter f).requeue = none :=
        fun _ => h.requeue
      dsimp only
      rw [hwarp]
      cases hinside : q.warp || decide (t.active.warp > 0) with
      | true =>
        simp only [hinside,if_true] at henters ⊢
        exact henters _ _ (.inl ⟨rfl,hrequeue _⟩)
      | false =>
        have hout : q.warp = false ∧ t.active.warp = 0 := by simpa using hinside
        simp only [hinside,Bool.false_eq_true,if_false] at henters ⊢
        split
        · exact henters _ _ (.inr ⟨himmediate _,rfl,hout⟩)
        · exact henters _ _ (.inl ⟨rfl,hrequeue _⟩)

theorem outcome (h : t.Running p c o σ s) {i : Instr} (hi : i.Admits s (p.stage.shape.Has σ)
      (s.Allows (p.stage.shape.Has σ)) next t.active.stack.length t.active.frame.saved.length) :
    Outcome s next t i (exec s next i t) := by
  have hplain : i.isStraight = true → i.Operates s (p.stage.shape.Has σ) (s.Allows (p.stage.shape.Has σ)) next
      t.active.stack.length t.active.frame.saved.length → Outcome s next t i (exec s next i t) := by
    intro hstraight hi
    obtain ⟨u,hu⟩ := h.performs hi
    obtain ⟨⟨a,r,harity,-⟩,-,hconstant⟩ := hi
    rw [exec_of_isStraight hstraight]
    change Outcome s next t i (EStateM.bind (perform s i) _ t)
    unfold EStateM.bind
    rw [hu]
    exact .plain harity (fun _ => hconstant) hu
  cases i with
  | save => exact .save
  | restore =>
    obtain ⟨k,hk,-⟩ := hi
    obtain ⟨l,rest,hsaved,-⟩ := List.length_eq_succ_iff.1 hk
    rw [exec_restore hsaved.symm]
    exact .restore hsaved.symm
  | jump target => exact .jump target
  | jumpIf wanted target =>
    obtain ⟨k,hk,-⟩ := hi
    obtain ⟨v,rest,hstack,-⟩ := List.length_eq_succ_iff.1 hk
    rw [exec_jumpIf hstack.symm]
    exact .jumpIf hstack.symm wanted target
  | queue label =>
    obtain ⟨q,hq,-⟩ := hi
    rw [exec_queue (Array.getElem?_eq_some_iff.1 hq).1]
    split
    · exact .onward
    next hwarp =>
      rw [h.yieldTo]
      exact .yields (.inr ⟨rfl,Nat.eq_zero_of_not_pos hwarp⟩)
  | forceQueue label =>
    obtain ⟨q,hq,-⟩ := hi
    rw [exec_forceQueue (Array.getElem?_eq_some_iff.1 hq).1,h.yieldTo]
    exact .yields (.inl rfl)
  | finish => exact .ended (.inl rfl)
  | endCall => exact h.endCall (.inl rfl) next
  | call procedure argc ret =>
    obtain ⟨hconstant,hargc,q,hq,-⟩ := hi
    exact h.call hconstant hargc (Array.getElem?_eq_some_iff.1 hq).1 next
  | broadcast =>
    obtain ⟨k,hk,-⟩ := hi
    obtain ⟨v,rest,hstack,-⟩ := List.length_eq_succ_iff.1 hk
    have hraises := @Outcome.raises s next t .broadcast (.ofMessage v.toText) t.active.locals (by simp [raises?,← hstack]) fun _ => rfl
    rw [Instr.sends,← hstack] at hraises
    rw [exec_broadcast hstack.symm]
    exact hraises
  | broadcastAndWait =>
    obtain ⟨k,hk,-⟩ := hi
    obtain ⟨v,rest,hstack,-⟩ := List.length_eq_succ_iff.1 hk
    have hraises := fun locals => @Outcome.raises s next t .broadcastAndWait (.ofMessage v.toText) locals
      (by simp [raises?,← hstack]) fun h => Bool.noConfusion h
    rw [Instr.sends,← hstack] at hraises
    rw [exec_broadcastAndWait hstack.symm]
    exact hraises _
  | sceneChanged =>
    have hraises := @Outcome.raises s next t .sceneChanged _ t.active.locals rfl fun _ => rfl
    have hexec : exec s next .sceneChanged t = _ := unlessRestarted_eq _
    rw [hexec]
    exact hraises
  | stop mode =>
    change Outcome s next t _ (Turn.stop (StopMode.ofWord? mode) next t)
    cases hmode : StopMode.ofWord? mode with
    | none => exact .stays (.inr ⟨mode,rfl⟩)
    | some m =>
      cases m with
      | all => exact .stopsAll hmode
      | thisScript => exact h.endCall (.inr ⟨mode,rfl⟩) next
      | otherScripts => exact .stopsOthers
  | deleteClone =>
    obtain ⟨x,hx,-⟩ := h.placed.target
    rw [exec_deleteClone hx]
    split
    · exact .deletes
    · exact .stays (.inl rfl)
  | _ => exact hplain rfl hi

theorem ready (h : t.Running p c o σ s) {label : UInt32}
    (hlabel : p.stage.shape.Enters σ s label t.active.frame.saved.length) (immediate requeue : Option Continuation) :
    (t.withActive { t.active with immediate, requeue }).Ready p c o ⟨s,label⟩ :=
  ⟨σ,h.placed.reactive rfl rfl rfl rfl h.placed.depth h.placed.warp,h.chain,hlabel⟩

theorem enters (h : t.Running p c o σ s) (hp : p.Sound) {name : String} {q : Procedure}
    (hq : σ.scripts.procedure? name = some q) (hdeep : ¬ t.machine.settings.maxCallDepth ≤ t.active.depth)
    (args : List Value) {ret : UInt32} (hret : p.stage.shape.Enters σ s ret t.active.frame.saved.length)
    (immediate requeue : Option Continuation) :
    (t.withActive { t.active.enter (callFrame q args ⟨s,ret⟩) with
      warp := if q.warp || t.active.warp > 0 then t.active.warp + 1 else t.active.warp
      immediate, requeue }).Ready p c o q.script.entry := by
  have hmem : (name,q) ∈ σ.scripts.procedures := by
    rw [Scripts.procedure?,Option.map_eq_some_iff] at hq
    obtain ⟨⟨n,q'⟩,hfind,rfl⟩ := hq
    have hname : n = name := by simpa using List.find?_some hfind
    rw [← hname]
    exact List.mem_of_find?_eq_some hfind
  have hof := (h.placed.machine.shapes h.placed.own).1
  have hentry : p.stage.shape.Enters σ q.script 0 0 :=
    hp.shape hof q.script (Compile.mem_all.2 (.inr ⟨name,q,hmem,rfl⟩))
  have hcaller : Chain p.stage.shape σ t.active.base s
      ({ t.active.frame with saved := t.active.locals :: t.active.frame.saved } :: t.active.calls) :=
    h.chain.top rfl rfl rfl
  refine ⟨σ,h.placed.reactive rfl rfl rfl rfl ?_ ?_,.call hmem rfl rfl hcaller rfl hret,hentry⟩
  · exact Nat.lt_of_not_le hdeep
  · have hwarp := h.placed.warp
    have htop := Frame.warpDepth_top (f := t.active.frame)
      (g := { t.active.frame with saved := t.active.locals :: t.active.frame.saved }) rfl t.active.calls
    change (if (q.warp || decide (t.active.warp > 0)) = true then t.active.warp + 1 else t.active.warp) =
      Frame.warpDepth (callFrame q args ⟨s,ret⟩ ::
        { t.active.frame with saved := t.active.locals :: t.active.frame.saved } :: t.active.calls)
    rw [Frame.warpDepth_cons,htop,← hwarp]
    change _ = if (q.warp || decide (t.active.warp > 0)) = true then _ else _
    split
    · rfl
    next hnone =>
      simp only [Bool.or_eq_true,decide_eq_true_eq,not_or] at hnone
      omega

theorem operate (h : t.Running p c o σ s) (hp : p.Sound) {i : Instr} {n k : Nat} {u : Turn}
    (harity : i.arity? = some (n,k)) (hconstant : ∀ index, i = .pushConstant index → index.toNat < s.constants.size)
    (hperform : perform s i t = .ok () u) (hi : i.Admits s (p.stage.shape.Has σ) (s.Allows (p.stage.shape.Has σ)) next
      t.active.stack.length t.active.frame.saved.length) : u.Sound p c o s next := by
  obtain ⟨⟨n',k',harity',hle,hallows⟩,-⟩ := hi.operates harity
  cases harity.symm.trans harity'
  have htame := Tame.perform harity hconstant
  have hkept := htame.kept hperform
  obtain ⟨results,hlength,hstack⟩ := htame.stack (s := t.active.stack.take n) hperform
    (List.take_append_drop n _).symm (by simp [hle])
  have hlen : u.active.stack.length = t.active.stack.length - n + k := by
    rw [hstack,List.length_append,hlength,List.length_drop]
    omega
  have hrunning := (h.remachine (h.placed.evolves hp hkept.machine)).reactive u.active.stack u.active.locals
    t.active.frame.saved
  have hu : u = (t.withMachine u.machine).withActive { t.active with
      stack := u.active.stack, locals := u.active.locals } := by
    rw [← hkept.active]
    rfl
  refine ⟨σ,by rw [hu]; exact hrunning,?_⟩
  rw [hlen,hkept.active]
  exact hallows

theorem returns (h : t.Running p c o σ s) {caller : Frame} {calls : List Frame} {k : Continuation} {l : Locals}
    {rest : List Locals} (hcalls : t.active.calls = caller :: calls) (hret : t.active.frame.ret = some k)
    (hsaved : caller.saved = l :: rest) : (t.withActive { t.active with
      calls := calls, frame := { caller with saved := rest }, locals := l, warp := t.active.warp - 1
      immediate := some k }).Ready p c o k := by
  have hchain := h.chain
  have hdepth := h.placed.depth
  have hwarp := h.placed.warp
  rw [hcalls] at hchain hdepth hwarp
  obtain ⟨k',saves,hret',hcaller,hlength,hk⟩ := hchain.inner
  cases hret.symm.trans hret'
  rw [hsaved] at hlength
  cases hlength
  refine ⟨σ,h.placed.reactive rfl rfl rfl rfl (Nat.le_of_succ_le hdepth) ?_,hcaller.top rfl rfl rfl,hk⟩
  change t.active.warp - 1 = Frame.warpDepth ({ caller with saved := rest } :: calls)
  rw [Frame.warpDepth_top (f := caller) (g := { caller with saved := rest }) rfl,hwarp,Frame.warpDepth_cons]
  split
  · rfl
  next hnone =>
    simp only [Bool.or_eq_true,decide_eq_true_eq,not_or] at hnone
    omega

theorem raises (h : t.Running p c o σ s) (hp : p.Sound) {i : Instr} {e : Event} (he : t.raises? i = some e)
    (hi : i.Admits s (p.stage.shape.Has σ) (s.Allows (p.stage.shape.Has σ)) next t.active.stack.length
      t.active.frame.saved.length) (locals : Locals) (again : Bool) :
    Safe p c o s (.ok (if again then .leave else .next next)
      ⟨(t.machine.trigger e).2,{ t.active with stack := t.active.stack.drop i.sends, locals }⟩) := by
  have hrunning := (h.reactive (t.active.stack.drop i.sends) locals t.active.frame.saved).remachine
    ((h.reactive (t.active.stack.drop i.sends) locals t.active.frame.saved).placed.trigger hp e)
  cases again with
  | true => exact .leave (.ended hrunning.placed.machine h.immediate h.requeue)
  | false =>
    refine .next ⟨σ,hrunning,?_⟩
    rw [List.length_drop]
    cases i with
    | broadcast | broadcastAndWait =>
      obtain ⟨k,hk,hallows⟩ := hi
      rw [hk]
      exact hallows
    | sceneChanged => exact hi
    | _ => cases he

theorem safe (h : t.Running p c o σ s) (hp : p.Sound) {i : Instr}
    (hi : i.Admits s (p.stage.shape.Has σ) (s.Allows (p.stage.shape.Has σ)) next t.active.stack.length
      t.active.frame.saved.length) {r : EStateM.Result Fault Turn Flow} (ho : Outcome s next t i r) : Safe p c o s r := by
  cases ho with
  | plain harity hconstant hperform => exact .next (h.operate hp harity hconstant hperform hi)
  | save => exact .next ⟨σ,h.reactive _ _ _,hi⟩
  | restore hsaved =>
    obtain ⟨k,hk,hallows⟩ := hi
    rw [hsaved] at hk
    cases hk
    exact .next ⟨σ,h.reactive _ _ _,hallows⟩
  | jump target => exact .next ⟨σ,h,hi⟩
  | jumpIf hstack wanted target =>
    obtain ⟨k,hk,htarget,hnext⟩ := hi
    rw [hstack] at hk
    cases hk
    refine .next ⟨σ,h.reactive _ _ _,?_⟩
    split
    · exact htarget
    · exact hnext
  | onward => exact .leave (.atOnce (h.ready hi _ t.active.requeue) rfl h.requeue)
  | yields hyields =>
    rcases hyields with rfl | ⟨rfl,-⟩ <;> exact .leave (.later (h.ready hi t.active.immediate _) h.immediate rfl)
  | ended _ => exact .leave (.ended h.placed.machine h.immediate h.requeue)
  | returns _ hcalls hret hsaved => exact .leave (.atOnce (h.returns hcalls hret hsaved) rfl h.requeue)
  | unknown =>
    exact .leave (.atOnce ((h.reactive (t.active.stack.drop _) t.active.locals t.active.frame.saved).ready hi.2.2
      (some _) t.active.requeue) rfl h.requeue)
  | @enters procedure argc _ _ _ _ _ _ _ hx hq hdeep hk =>
    obtain ⟨x,hx',rfl⟩ := h.placed.target
    cases hx.symm.trans hx'
    have hready := (h.reactive (t.active.stack.drop argc.toNat) t.active.locals t.active.frame.saved).enters hp hq hdeep
      (t.active.stack.take argc.toNat).reverse hi.2.2
    rcases hk with ⟨rfl,rfl⟩ | ⟨rfl,rfl,-⟩
    · exact .leave (.atOnce (hready _ _) rfl rfl)
    · exact .leave (.later (hready _ _) rfl rfl)
  | tooDeep =>
    rw [h.placed.machine.settings]
    exact .fault h.placed.machine
  | raises he _ => exact h.raises hp he hi _ _
  | stopsAll _ => exact .leave (.ended (h.placed.machine.stopAll hp) h.immediate h.requeue)
  | stopsOthers =>
    refine .next ⟨σ,h.remachine (h.placed.remachine (h.placed.machine.dropThreads _) rfl rfl ?_),hi⟩
    -- The thread's own slot is spared.
    intro i u hi hu
    simp only [Machine.dropThreads,Array.getElem?_mapIdx,hu,Option.map_some,h.placed.slot,hi]
    simp
  | stays hstays => rcases hstays with rfl | ⟨mode,rfl⟩ <;> exact .next ⟨σ,h,hi⟩
  | deletes => exact .leave (.ended (h.placed.machine.deleteClone hp _) h.immediate h.requeue)

end Running

theorem Sound.outcome (h : t.Sound p c o s pc) {i : Instr} (hfetch : s.fetch pc = .ok (i,next)) :
    Outcome s next t i (Turn.exec s next i t) := by
  obtain ⟨σ,hrunning,hallows⟩ := h
  obtain ⟨i',next',hfetch',hadmits⟩ := (s.certificate_allows _).steps hallows
  rw [hfetch] at hfetch'
  cases hfetch'
  exact hrunning.outcome hadmits

theorem Sound.exec (h : t.Sound p c o s pc) (hp : p.Sound) :
    ∃ i next, s.fetch pc = .ok (i,next) ∧ Safe p c o s (Turn.exec s next i t) := by
  obtain ⟨σ,hrunning,hallows⟩ := h
  obtain ⟨i,next,hfetch,hadmits⟩ := (s.certificate_allows _).steps hallows
  exact ⟨i,next,hfetch,hrunning.safe hp hadmits (hrunning.outcome hadmits)⟩

end Turn

end SpriteMachine
