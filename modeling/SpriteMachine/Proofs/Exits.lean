import SpriteMachine.Proofs.Moves

/-!
How a thread leaves a script. It goes on at once, it yields, or it is over; a thread that runs without yielding is made to
yield by one instruction only. Calls enter the procedures that the target of the thread has.
-/

namespace SpriteMachine

namespace Turn

variable {p : Program} {c : Settings} {o : Option Nat} {t u : Turn} {s : Script} {pc next : Nat} {i : Instr} {flow : Flow}

/-- An instruction raises an event by which the script of the thread is started over. -/
def Restarts (t : Turn) (i : Instr) : Prop :=
  ∃ e, t.raises? i = some e ∧ t.active.base ∈ (t.machine.trigger e).1

inductive Leaves (t : Turn) (i : Instr) (a : Activation) : Prop
  | onward {k : Continuation} (himmediate : a.immediate = some k) (hrequeue : a.requeue = none)
  | yields {k : Continuation} (himmediate : a.immediate = none) (hrequeue : a.requeue = some k)
      (hi : (∃ label, i = .forceQueue label) ∨ t.active.warp = 0 ∧
        ((∃ label, i = .queue label) ∨ ∃ procedure argc ret, i = .call procedure argc ret))
  | ends (himmediate : a.immediate = none) (hrequeue : a.requeue = none)
      (hi : i = .finish ∨ t.active.calls = [] ∧ (i = .endCall ∨ ∃ mode, i = .stop mode) ∨ i.stopsAll = true ∨
        i = .deleteClone ∨ t.Restarts i)

/-- What a call does: nothing is called if the target has no such procedure. -/
inductive Calls (t : Turn) (s : Script) (ret : UInt32) (args : List Value) (q? : Option Procedure) (a : Activation) : Prop
  | unknown (hq : q? = none) (hcalls : a.calls = t.active.calls) (hframe : a.frame = t.active.frame)
      (himmediate : a.immediate = some ⟨s,ret⟩) (hrequeue : a.requeue = none)
  | enters {q : Procedure} (hq : q? = some q)
      (hcalls : a.calls = { t.active.frame with saved := t.active.locals :: t.active.frame.saved } :: t.active.calls)
      (hret : a.frame.ret = some ⟨s,ret⟩) (hwarp : a.frame.warp = q.warp)
      (hk : a.immediate = some q.script.entry ∧ a.requeue = none ∨
        a.immediate = none ∧ a.requeue = some q.script.entry ∧ q.warp = false ∧ t.active.warp = 0)
      (hargs : a.frame.args = bindArguments q.arguments.length args)

theorem Sound.calls (h : t.Sound p c o s pc) {procedure argc ret : UInt32}
    (hfetch : s.fetch pc = .ok (.call procedure argc ret,next)) {x : Target}
    (hx : t.machine.targets.get? t.active.target = some x)
    (hexec : Turn.exec s next (.call procedure argc ret) t = .ok flow u) :
    flow = .leave ∧ ∃ name, s.constant? procedure = some name ∧
      t.Calls s ret (t.active.stack.take argc.toNat).reverse (x.scripts.procedure? name) u.active := by
  have ho := h.outcome hfetch
  obtain ⟨σ,hrunning,-⟩ := h
  rw [hexec] at ho
  cases ho with
  | plain harity => cases harity
  | yields hi => rcases hi with hi | ⟨hi,-⟩ <;> cases hi
  | ended hi => rcases hi with hi | ⟨-,hi | ⟨mode,hi⟩⟩ <;> cases hi
  | returns hi | stays hi => rcases hi with hi | ⟨mode,hi⟩ <;> cases hi
  | unknown hname hx' hq =>
    cases hx.symm.trans hx'
    exact ⟨rfl,_,hname,.unknown hq rfl rfl rfl hrunning.requeue⟩
  | enters hname hx' hq _ hk =>
    cases hx.symm.trans hx'
    exact ⟨rfl,_,hname,.enters hq rfl rfl rfl hk rfl⟩
  | raises he => cases he

theorem Sound.leaves (h : t.Sound p c o s pc) (hfetch : s.fetch pc = .ok (i,next))
    (hexec : Turn.exec s next i t = .ok .leave u) : t.Leaves i u.active := by
  have ho := h.outcome hfetch
  obtain ⟨σ,⟨-,-,himmediate,hrequeue⟩,-⟩ := h
  generalize hresult : Turn.exec s next i t = result at ho hexec
  cases ho with
  | plain | save | restore _ | jump _ | jumpIf _ _ _ | tooDeep | stopsOthers | stays _ => cases hexec
  | onward | unknown _ _ _ | returns _ _ _ _ =>
    cases hexec
    exact .onward rfl hrequeue
  | yields hi =>
    cases hexec
    exact .yields himmediate rfl (hi.imp (fun hi => ⟨_,hi⟩) fun hi => ⟨hi.2,.inl ⟨_,hi.1⟩⟩)
  | ended hi =>
    cases hexec
    exact .ends himmediate hrequeue (hi.imp_right .inl)
  | enters _ _ _ _ hk =>
    cases hexec
    rcases hk with ⟨himmediate,hrequeue⟩ | ⟨himmediate,hrequeue,-,hwarp⟩
    · exact .onward himmediate hrequeue
    · exact .yields himmediate hrequeue (.inr ⟨hwarp,.inr ⟨_,_,_,rfl⟩⟩)
  | raises he _ =>
    split at hexec
    next hagain =>
      cases hexec
      exact .ends himmediate hrequeue (.inr (.inr (.inr (.inr ⟨_,he,List.contains_iff_mem.1 hagain⟩))))
    · cases hexec
  | stopsAll hmode =>
    cases hexec
    exact .ends himmediate hrequeue (.inr (.inr (.inl (by simp [Instr.stopsAll,hmode]))))
  | deletes =>
    cases hexec
    exact .ends himmediate hrequeue (.inr (.inr (.inr (.inl rfl))))

end Turn

end SpriteMachine
