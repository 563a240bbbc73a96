import SpriteMachine.Proofs.Occurrences

/-!
Prompts. A thread that waits for the turn of its ticket notices that it has come when it is taken up. So if the user
answers at most once between two frames, no question is put up after its turn has passed, and a prompt that is visible can
be answered.
-/

namespace SpriteMachine

/-! The prompt while a thread runs -/

theorem Machine.Edits.promptVisible {i : Instr} {own : Nat} {m m' : Machine} (h : m.Edits i own m')
    (hi : i.builtin? ≠ some (.sensing .ask)) : m'.panel.promptVisible = m.panel.promptVisible := by
  induction h with
  | refl => rfl
  | target _ _ _ ih | layer _ _ ih | watcher _ _ _ ih | ticket _ _ ih | visual _ _ ih => exact ih
  | clone _ _ parent ih =>
    exact (congrArg (fun x => x.1.promptVisible) (instruments_createClone _ parent)).trans ih
  | @panel m' f _ hf ih =>
    refine Eq.trans ?_ ih
    change (f m'.panel).promptVisible = _
    rw [hf]
  | prompt _ hprompt _ _ => exact absurd hprompt hi
  | aside _ hm _ ih =>
    rw [hm]
    exact ih

theorem Turn.Effect.promptVisible {t : Turn} {i : Instr} {m : Machine} (h : t.Effect i m)
    (hi : i.builtin? ≠ some (.sensing .ask)) (hm : m.panel.promptVisible = true) :
    t.machine.panel.promptVisible = true := by
  have hpanel : m.instruments = t.machine.instruments → t.machine.panel.promptVisible = true := fun heq => by
    rw [← hm]
    exact (congrArg (fun x => x.1.promptVisible) heq).symm
  cases h with
  | edits h => rw [← h.promptVisible hi,hm]
  | raises _ => exact hpanel (t.machine.instruments_trigger _)
  | stopsAll _ =>
    have hnone := congrArg (fun x => x.1.promptVisible) t.machine.instruments_stopAll
    exact absurd (hm.symm.trans hnone) nofun
  | stopsOthers => exact hm
  | deletes _ _ => exact hpanel (t.machine.instruments_deleteClone _)

/-! Waiting in a block that asks -/

theorem Polling.In.ascends {w : Polling} {s : Script} {f : BinaryOperator} (hw : w.In s f) :
    w.poll < w.load ∧ w.load < w.test ∧ w.test < w.branch ∧ w.branch < w.again ∧ w.again < w.exit := by
  obtain ⟨id,hpoll,-⟩ := hw.polls
  obtain ⟨label,hagain,-⟩ := hw.yields
  exact ⟨Script.lt_of_fetch hpoll,Script.lt_of_fetch hw.loads,Script.lt_of_fetch hw.tests,
    Script.lt_of_fetch hw.branches,Script.lt_of_fetch hagain⟩

theorem Polling.Knows.yields {w : Polling} {f : BinaryOperator} {s r : Script} {t u : Turn} {q x : Nat} {p : Program}
    {c : Settings} (hw : w.In s f) (h : w.Knows f t.machine.panel.turn x t.active.stack q)
    (hsound : (Phase.turn t s q).Sound p c) (hadvance : Machine.advance t s q = .going u r w.again) :
    (f.apply (.ofNat t.machine.panel.turn) (.ofNat x)).toBool = true := by
  obtain ⟨hpoll,hload,htest,hbranch,hagain⟩ := hw.ascends
  cases h with
  | poll =>
    obtain ⟨id,hfetch,-⟩ := hw.polls
    have := (Machine.advance_straight hfetch rfl hadvance).2.1
    omega
  | load _ =>
    have := (Machine.advance_straight hw.loads rfl hadvance).2.1
    omega
  | test _ =>
    have := (Machine.advance_straight hw.tests rfl hadvance).2.1
    omega
  | branch hstack =>
    rcases Machine.advance_going hw.branches hadvance with ⟨hexec,-⟩ | ⟨v,k,hexec,-⟩
    · rw [Turn.exec_jumpIf hstack] at hexec
      rw [← Bool.not_eq_false]
      intro hfalse
      rw [if_pos hfalse] at hexec
      injection hexec with hflow
      injection hflow with hexit
      rw [UInt32.toNat_ofNat_of_lt' hw.small] at hexit
      omega
    · rw [Turn.exec_jumpIf hstack] at hexec
      cases hexec
  | again =>
    obtain ⟨label,hfetch,hpc⟩ := hw.yields
    obtain ⟨b,hmove⟩ : ∃ b : Activation, Move s w.exit (.forceQueue label) t.active b r w.again := by
      rcases Machine.advance_going hfetch hadvance with ⟨hexec,rfl⟩ | ⟨v,k,hexec,hk,-,rfl,hq⟩
      · exact ⟨_,Turn.Sound.moves hsound hfetch hexec⟩
      · rw [hq]
        exact ⟨_,Turn.Sound.moves hsound hfetch hexec k (.inl hk)⟩
    have := (hmove.of_yield (.inr rfl)).2.1
    omega

namespace Asking

variable {o : Asking} {s r : Script} {t u : Turn} {q q' : Nat} {ticket : Option Nat} {p : Program} {c : Settings}

theorem In.ascends (ho : o.In s) : o.take < o.keep ∧ o.keep < o.ready ∧ o.ready ≤ o.wait.poll ∧ o.wait.exit ≤ o.ask ∧
    o.ask < o.answer.poll ∧ o.answer.exit < o.leave ∧ o.leave < o.stop := by
  obtain ⟨_,htake,-⟩ := ho.takes
  obtain ⟨_,hask,-⟩ := ho.asks
  obtain ⟨_,hends,-⟩ := ho.ends
  refine ⟨Script.lt_of_fetch htake,Script.lt_of_fetch ho.keeps,?_,(ho.bounded ho.begins).2,Script.lt_of_fetch hask,
    Script.lt_of_fetch hends,Script.lt_of_fetch ho.restores⟩
  rcases ho.settles with heq | ⟨w,hfetch⟩
  · exact Nat.le_of_eq heq
  · exact Nat.le_of_lt (Script.lt_of_fetch hfetch)

/-- After its question a thread does not come back to before it, and it yields before it only if it is not its turn. -/
theorem Knows.waits (ho : o.In s) (h : o.Knows t.machine.panel.turn t.machine.panel.nextTicket t.active.locals
      t.active.stack q ticket) (hsound : (Phase.turn t s q).Sound p c)
    (hle : t.machine.panel.turn ≤ t.machine.panel.nextTicket) (hfew : t.machine.panel.nextTicket < 2 ^ 53)
    (hadvance : Machine.advance t s q = .going u r q') (hq' : q' ≤ o.ask) :
    q ≤ o.ask ∧ (q' = o.wait.again → ∃ x, ticket = some x ∧ t.machine.panel.turn < x) := by
  obtain ⟨htake,hkeep,hready,hexit,hask,hends,hleave⟩ := ho.ascends
  obtain ⟨hpoll,hload,htest,hbranch,hagain⟩ := ho.waits.ascends
  obtain ⟨hpoll',hload',htest',hbranch',hagain'⟩ := ho.answers.ascends
  have hnever : ∀ {P : Prop}, q' ≠ o.wait.again → q' = o.wait.again → P := fun hne heq => absurd heq hne
  have hwait : ∀ {x : Nat}, x < t.machine.panel.nextTicket → o.wait.Knows .less t.machine.panel.turn x t.active.stack q →
      q' = o.wait.again → t.machine.panel.turn < x := by
    rintro x hx hknows rfl
    have hless := hknows.yields ho.waits hsound hadvance
    change ((Value.ofNat t.machine.panel.turn).compare (.ofNat x) == .lt) = true at hless
    rw [Value.compare_ofNat (by omega) (by omega),decide_eq_true_iff] at hless
    exact hless
  cases h with
  | take hl =>
    obtain ⟨id,hfetch,-⟩ := ho.takes
    have := (Machine.advance_straight hfetch rfl hadvance).2.1
    exact ⟨by omega,hnever (by omega)⟩
  | keep hl hx hstack =>
    have := (Machine.advance_straight ho.keeps rfl hadvance).2.1
    exact ⟨by omega,hnever (by omega)⟩
  | ready hl hx =>
    rcases ho.settles with heq | ⟨w,hfetch⟩
    · exact ⟨by omega,fun hq => ⟨_,rfl,hwait hx (by rw [heq]; exact .poll) hq⟩⟩
    · have := (Machine.advance_straight hfetch rfl hadvance).2.1
      exact ⟨by omega,hnever (by omega)⟩
  | wait hl hx hknows =>
    have := (hknows.bounds ho.waits).2
    exact ⟨by omega,fun hq => ⟨_,rfl,hwait hx hknows hq⟩⟩
  | text hl hx hturned htext =>
    refine ⟨(ho.bounded htext).2,hnever ?_⟩
    rcases ho.computes htext with rfl | ⟨i,next,hfetch,hi,htext'⟩
    · obtain ⟨id,hfetch,-⟩ := ho.asks
      have := (Machine.advance_straight hfetch rfl hadvance).2.1
      omega
    · have := (Machine.advance_straight hfetch (Instr.isStraight_of_isQuery hi) hadvance).2.1
      have := (ho.bounded htext').1
      omega
  | answer hl hx hturned hknows =>
    obtain ⟨-,-,-,hnext | ⟨hq,-⟩⟩ := hknows.going ho.answers hl hsound hadvance
    · have := (hnext.bounds ho.answers).1
      omega
    · omega
  | ends hl hx hlt =>
    obtain ⟨id,hfetch,-⟩ := ho.ends
    have := (Machine.advance_straight hfetch rfl hadvance).2.1
    omega
  | leave hl hx hlt =>
    have := (Machine.advance_straight ho.restores rfl hadvance).2.1
    omega

end Asking

/-! Tickets of those who wait -/

/-- A thread that waits for its turn looks at the turn when it is taken up, and its ticket is not below a number. -/
def Thread.Awaits (t : Thread) (n next : Nat) : Prop :=
  ∀ (a : Activation) (k : Continuation), t.Wakes a k → ∀ o : Asking, o.In k.script → o.start < k.pc → k.pc ≤ o.ask →
    k.pc = o.wait.poll ∧ ∃ x < next, a.locals.get 0 = .ofNat x ∧ n ≤ x

theorem Thread.Awaits.mono {t : Thread} {n next next' : Nat} (h : t.Awaits n next) (hnext : next ≤ next') :
    t.Awaits n next' := by
  intro a k hwakes o ho hstart hask
  obtain ⟨hpoll,x,hx,hl,hn⟩ := h a k hwakes o ho hstart hask
  exact ⟨hpoll,x,by omega,hl,hn⟩

theorem Thread.Awaits.le {t : Thread} {n n' next : Nat} (h : t.Awaits n next) (hle : n' ≤ n) : t.Awaits n' next := by
  intro a k hwakes o ho hstart hask
  obtain ⟨hpoll,x,hx,hl,hn⟩ := h a k hwakes o ho hstart hask
  exact ⟨hpoll,x,hx,hl,Nat.le_trans hle hn⟩

theorem Thread.awaits_start (id : Nat) (s : Script) (n next : Nat) : (Thread.start id s).Awaits n next := by
  intro a k hwakes o ho hstart _
  obtain ⟨rfl,-⟩ := hwakes.of_start
  exact absurd ho.shut.entry (Nat.not_le_of_lt hstart)

def Turn.Awaits (t : Turn) (s : Script) (pc : Nat) : Prop :=
  ∀ o : Asking, o.In s → o.start < pc → pc ≤ o.ask → ∀ x,
    o.Knows t.machine.panel.turn t.machine.panel.nextTicket t.active.locals t.active.stack pc (some x) →
      t.machine.panel.turn ≤ x ∧ (pc = o.wait.again → t.machine.panel.turn < x)

/-- A prompt that is visible can be answered. Those who wait for their turn have tickets that are by a number above
the turn. -/
structure Machine.Polite (d : Nat) (m : Machine) : Prop where
  answerable : m.panel.nextTicket < 2 ^ 53 → m.panel.promptVisible = true → m.panel.turn < m.panel.nextTicket
  waits : m.panel.nextTicket < 2 ^ 53 → ∀ t, m.Live t → t.Awaits (m.panel.turn + d) m.panel.nextTicket

/-- In the first slots of the queue, those who wait for their turn have tickets above it. -/
def Machine.Settled (m : Machine) (n : Nat) : Prop :=
  m.panel.nextTicket < 2 ^ 53 → ∀ j < n, ∀ t, m.queue[j]? = some (some t) → t.stopped = false →
    t.Awaits (m.panel.turn + 1) m.panel.nextTicket

namespace Machine

variable {m m' : Machine} {d n : Nat}

theorem Polite.grows (h : m.Polite d) (hbrings : m.Brings m') (hturn : m'.panel.turn = m.panel.turn)
    (hnext : m.panel.nextTicket ≤ m'.panel.nextTicket)
    (hprompt : m.panel.nextTicket < 2 ^ 53 → m'.panel.promptVisible = true →
      m.panel.promptVisible = true ∨ m.panel.turn < m.panel.nextTicket) :
    m'.Polite d where
  answerable hfew hvisible := by
    rcases hprompt (by omega) hvisible with hold | hlt
    · have := h.answerable (by omega) hold
      omega
    · omega
  waits hfew t ht := by
    rw [hturn]
    rcases hbrings t ht with hold | ⟨id,s,rfl⟩
    · exact (h.waits (by omega) t hold).mono hnext
    · exact Thread.awaits_start id s _ _

theorem Polite.keeps (h : m.Polite d) (hbrings : m.Brings m') (hasking : m'.asking = m.asking) : m'.Polite d := by
  obtain ⟨hvisible,htickets⟩ := Prod.mk.inj hasking
  obtain ⟨hturn,hnext⟩ := Prod.mk.inj htickets
  exact h.grows hbrings hturn (Nat.le_of_eq hnext.symm) fun _ hm => .inl (hvisible ▸ hm)

theorem polite_stopAll (m : Machine) (d : Nat) : m.stopAll.Polite d where
  answerable _ hvisible := by
    have hnone := congrArg (fun x => x.1.promptVisible) m.instruments_stopAll
    exact absurd (hvisible.symm.trans hnone) nofun
  waits _ t ht := absurd ht (m.not_live_stopAll t)

theorem Settled.grows (h : m.Settled n) (hrenews : m.Renews m') (hturn : m'.panel.turn = m.panel.turn)
    (hnext : m.panel.nextTicket ≤ m'.panel.nextTicket) : m'.Settled n := by
  intro hfew j hj t ht hlive
  rw [hturn]
  rcases hrenews j t ht hlive with hold | ⟨id,s,rfl⟩
  · exact (h (by omega) j hj t hold hlive).mono hnext
  · exact Thread.awaits_start id s _ _

theorem settled_stopAll (m : Machine) (n : Nat) : m.stopAll.Settled n :=
  fun _ _ _ t ht hlive => absurd ⟨⟨_,ht⟩,hlive⟩ (m.not_live_stopAll t)

end Machine

namespace Turn

variable {p : Program} {c : Settings} {t u : Turn} {s r : Script} {pc q n d : Nat} {m : Machine} {a : Activation}
  {k : Continuation} {th : Thread}

theorem awaits_take {i : Nat} (h : th.Awaits (m.panel.turn + d) m.panel.nextTicket) (hfew : m.panel.nextTicket < 2 ^ 53)
    (hload : Activation.ofThread i th = .ok a) (hk : a.immediate = some k) :
    Turn.Awaits ⟨m.setSlot i (some th.shell),a.begin⟩ k.script k.pc := by
  intro o ho hstart hask y hknows
  obtain ⟨hpoll,x,hx,hl,hle⟩ := h a k ⟨i,hload,hk⟩ o ho hstart hask
  obtain ⟨-,hkeep,hready,-⟩ := ho.ascends
  obtain ⟨hload',htest,hbranch,hagain,-⟩ := ho.waits.ascends
  rcases hknows.value with ⟨hnone,-⟩ | ⟨z,hz,hlt,hvalue⟩
  · cases hnone
  · cases hz
    have hget : a.locals.get 0 = .ofNat y := by
      rcases hvalue with hget | ⟨hpc,-⟩
      · exact hget
      · omega
    obtain rfl : x = y := Value.ofNat_inj (by omega) (Nat.lt_trans hlt hfew) (hl.symm.trans hget)
    exact ⟨Nat.le_of_add_right_le hle,fun hpc => by omega⟩

theorem Awaits.going (h : t.Awaits s pc) (hfair : t.Fair n s pc) (hsound : (Phase.turn t s pc).Sound p c)
    (hfew : u.machine.panel.nextTicket < 2 ^ 53) (hadvance : Machine.advance t s pc = .going u r q) : u.Awaits r q := by
  intro o ho hstart hask x hx
  obtain ⟨-,hturn,hnext⟩ := Machine.grows_going hsound hadvance
  obtain ⟨i,next,hfetch,hmove⟩ := Machine.move_going hsound hadvance
  obtain ⟨rfl,hle,hlt⟩ := ho.arrives hfair.sited hfetch hmove hstart (hx.inside ho).2
  rcases Nat.eq_or_lt_of_le hle with rfl | hin
  · -- At the start of the block there is no ticket yet.
    obtain ⟨-,rfl,hperform⟩ := Machine.advance_straight ho.saves rfl hadvance
    cases hperform
    exact absurd (hx.unique ho hfew (.take rfl)) nofun
  · obtain ⟨ticket,hknows⟩ := hfair.informs (by omega) o ho hin hlt
    obtain ⟨hbefore,hyields⟩ := hknows.waits ho hsound hfair.machine.issued (by omega) hadvance hask
    obtain ⟨-,⟨hend,-⟩ | ⟨ticket',hknows',hticket⟩⟩ := hknows.going ho hsound hfair.machine.issued (by omega) hadvance
    · have := (hx.inside ho).2
      omega
    · obtain rfl := hknows'.unique ho hfew hx
      rw [hturn]
      refine ⟨?_,fun hq => ?_⟩
      · rcases hticket with rfl | ⟨-,hnew⟩
        · exact (h o ho hin hbefore x hknows).1
        · cases hnew
          exact hfair.machine.issued
      · obtain ⟨y,rfl,hy⟩ := hyields hq
        rcases hticket with hsame | ⟨hnone,-⟩
        · cases hsame
          exact hy
        · cases hnone

theorem Awaits.laid (h : t.Awaits s pc) (hfair : t.Fair n s pc) (hsound : (Phase.turn t s pc).Sound p c)
    (hfew : t.machine.panel.nextTicket < 2 ^ 53) (hadvance : Machine.advance t s pc = .halted (.done m a))
    (hk : a.requeue = some k) : (a.toThread k).Awaits (t.machine.panel.turn + 1) t.machine.panel.nextTicket := by
  intro b k' hwakes o ho hstart hask
  obtain ⟨rfl,hlocals,-⟩ := Activation.wakes_toThread hwakes
  obtain ⟨htake,hkeep,hready,hexit,hanswer,hends,hleave⟩ := ho.ascends
  have hpoll' := (Polling.Knows.poll : o.answer.Knows .equals 0 0 [] _).bounds ho.answers
  obtain ⟨i,next,hfetch,hmove⟩ := Machine.move_done hsound hadvance hk
  obtain ⟨rfl,hle,hlt⟩ := ho.arrives hfair.sited hfetch hmove hstart (by omega)
  rcases Nat.eq_or_lt_of_le hle with rfl | hin
  · exact absurd hadvance (Machine.not_done_of_straight ho.saves rfl)
  · obtain ⟨ticket,hknows⟩ := hfair.informs hfew o ho hin hlt
    obtain ⟨-,-,hknows',⟨hagain,hpoll⟩ | hpoll⟩ := hknows.done ho hsound hadvance hk
    · rcases hknows'.value with ⟨-,hpc,-⟩ | ⟨x,rfl,hx,hget | ⟨hpc,-⟩⟩
      · omega
      · have hbefore := ho.waits.ascends
        have := (h o ho hin (by omega) x hknows).2 hagain
        exact ⟨hpoll,x,hx,by rw [hlocals,hget],this⟩
      · omega
    · omega

end Turn

/-! Steps -/

/-- In a phase all is in order, and the prompt can be answered if it is visible. -/
structure Phase.Civil (p : Program) (c : Settings) (d : Nat) (σ : Phase) : Prop where
  sound : σ.Sound p c
  fair : σ.Fair σ.machine.panel.turn
  polite : σ.machine.Polite d
  waits : ∀ {t : Turn} {s : Script} {pc : Nat}, σ = .turn t s pc → t.machine.panel.nextTicket < 2 ^ 53 → t.Awaits s pc

theorem Phase.Civil.le {p : Program} {c : Settings} {σ : Phase} {d d' : Nat} (h : σ.Civil p c d) (hle : d' ≤ d) :
    σ.Civil p c d' :=
  ⟨h.sound,h.fair,⟨h.polite.answerable,fun hfew t ht => (h.polite.waits hfew t ht).le (by omega)⟩,h.waits⟩

theorem Phase.Step.fair {p : Program} {c : Settings} {σ τ : Phase} (h : Step σ τ) (hσ : σ.Fair σ.machine.panel.turn)
    (hsound : σ.Sound p c) : τ.Fair τ.machine.panel.turn := by
  obtain ⟨n,hcounts⟩ := h.counts _
  have hfair := hcounts.fair hσ hsound
  rw [hfair.machine.count]
  exact hfair

section Steps

variable {project : Project} {p : Program} (hcompile : compile project = .ok p) (hsmall : p.Small)
include hcompile hsmall

variable {c : Settings} {t u : Turn} {s r : Script} {pc q d n i : Nat} {m m' : Machine} {a : Activation}

theorem Turn.Awaits.asks (h : t.Awaits s pc) (hfair : t.Fair n s pc) (hsound : (Phase.turn t s pc).Sound p c)
    (hfew : t.machine.panel.nextTicket < 2 ^ 53) {i : Instr} {next : Nat} (hfetch : s.fetch pc = .ok (i,next))
    (hi : i.builtin? = some (.sensing .ask)) : t.machine.panel.turn < t.machine.panel.nextTicket := by
  cases i with
  | builtin id =>
    obtain ⟨params,b,start,stop,hblock,hopcode,hstart,hstop⟩ :=
      Turn.Sound.asks hcompile hsmall hsound hfair.sited hfetch hi
    obtain ⟨o,ho,rfl,rfl⟩ := hblock.asking (Turn.Sound.small hsound hsmall) hopcode
    obtain ⟨ticket,hknows⟩ := hfair.informs hfew o ho hstart hstop
    obtain ⟨x,rfl,hx,-,hask⟩ := hknows.asks ho hfetch hi
    exact Nat.lt_of_le_of_lt (h o ho hstart hask x hknows).1 hx
  | _ => cases hi

theorem Machine.Polite.going (h : t.machine.Polite d) (hwaits : t.machine.panel.nextTicket < 2 ^ 53 → t.Awaits s pc)
    (hfair : t.Fair n s pc) (hsound : (Phase.turn t s pc).Sound p c) (hadvance : Machine.advance t s pc = .going u r q) :
    u.machine.Polite d := by
  obtain ⟨-,hturn,hnext⟩ := Machine.grows_going hsound hadvance
  refine h.grows (Machine.renews_going hadvance).brings hturn hnext fun hfew hvisible => ?_
  obtain ⟨i,next,hfetch⟩ := Machine.fetch_of_going hadvance
  by_cases hi : i.builtin? = some (.sensing .ask)
  · exact .inr ((hwaits hfew).asks hcompile hsmall hfair hsound hfew hfetch hi)
  · exact .inl ((Machine.effect_of_going hfetch hadvance).1.promptVisible hi hvisible)

omit hcompile hsmall in
theorem Machine.Polite.done (h : t.machine.Polite d) (hadvance : Machine.advance t s pc = .halted (.done m a))
    (htickets : m.tickets = t.machine.tickets) : m.Polite d := by
  obtain ⟨hturn,hnext⟩ := Prod.mk.inj htickets
  refine h.grows (Machine.renews_done hadvance).brings hturn (Nat.le_of_eq hnext.symm) fun _ hvisible => .inl ?_
  obtain ⟨i,next,hfetch⟩ := Machine.fetch_of_done hadvance
  refine (Machine.effect_of_halted hfetch hadvance rfl).promptVisible (fun hi => ?_) hvisible
  cases i with
  | builtin id => exact Machine.not_done_of_straight hfetch rfl hadvance
  | _ => cases hi

omit hcompile hsmall in
theorem Machine.Polite.putBack (h : t.machine.Polite d) (hd : d ≤ 1)
    (hwaits : t.machine.panel.nextTicket < 2 ^ 53 → t.Awaits s pc) (hfair : t.Fair n s pc)
    (hsound : (Phase.turn t s pc).Sound p c) (hadvance : Machine.advance t s pc = .halted (.done m a))
    (htickets : m.tickets = t.machine.tickets) (i : Nat) : (m.putBack i a).Polite d := by
  have hdone := h.done hadvance htickets
  have hpanel : (m.putBack i a).panel = m.panel := congrArg Prod.fst (m.instruments_putBack i a)
  obtain ⟨hturn,hnext⟩ := Prod.mk.inj htickets
  refine ⟨by rw [hpanel]; exact hdone.answerable,fun hfew th hth => ?_⟩
  rw [hpanel] at hfew ⊢
  rcases Machine.live_putBack hth with hth | ⟨k,hk,rfl⟩
  · exact hdone.waits hfew th hth
  · have hlaid := (hwaits (by omega)).laid hfair hsound (by omega) hadvance hk
    rw [hturn,hnext]
    exact hlaid.le (by omega)

theorem Phase.Step.civil {σ τ : Phase} (h : Step σ τ) (hidle : σ.isIdle = false) (hσ : σ.Civil p c d) (hd : d ≤ 1) :
    τ.Civil p c d := by
  have hsound := h.sound hσ.sound (compile_sound hcompile hsmall)
  have hfair := h.fair hσ.fair hσ.sound
  have hpolite := hσ.polite
  have hwaits := @hσ.waits
  cases h with
  | host | start | detach | begin => cases hidle
  | @take m i th a k hi hlive hload hk =>
    refine ⟨hsound,hfair,hpolite.keeps (Machine.Renews.setSlot i rfl).brings rfl,?_⟩
    rintro t s pc heq hfew
    cases heq
    exact Turn.awaits_take (hpolite.waits hfew th ⟨⟨i,hi⟩,hlive⟩) hfew hload hk
  | gone hi hgone => exact ⟨hsound,hfair,hpolite.keeps (Machine.Renews.setSlot _ rfl).brings rfl,nofun⟩
  | advance h =>
    refine ⟨hsound,hfair,hpolite.going hcompile hsmall (hwaits rfl) hσ.fair hσ.sound h,?_⟩
    rintro _ _ _ heq hfew
    cases heq
    obtain ⟨-,-,hnext⟩ := Machine.grows_going hσ.sound h
    exact (hwaits rfl (by omega)).going hσ.fair hσ.sound hfew h
  | @layDown t s pc i m a h hslot =>
    refine ⟨hsound,hfair,?_,nofun⟩
    rcases Machine.tickets_halt hσ.sound h with ⟨-,rfl,hrequeue⟩ | ⟨-,htickets⟩
    · unfold Machine.putBack
      rw [hrequeue]
      exact Machine.polite_stopAll _ d
    · exact hpolite.putBack hd (hwaits rfl) hσ.fair hσ.sound h htickets i
  | finish h hslot =>
    refine ⟨hsound,hfair,?_,nofun⟩
    rcases Machine.tickets_halt hσ.sound h with ⟨-,rfl,-⟩ | ⟨-,htickets⟩
    · exact Machine.polite_stopAll _ d
    · exact hpolite.done h htickets
  | fault h =>
    refine ⟨hsound,hfair,?_,nofun⟩
    rw [show (Phase.idle _).machine = _ from (Machine.fault_keeps hσ.sound h).2]
    exact hpolite
  | sweep m => exact ⟨hsound,hfair,hpolite.keeps (.sweep m) rfl,nofun⟩
  | clock m => exact ⟨hsound,hfair,hpolite.keeps (Machine.Renews.of_queue rfl).brings rfl,nofun⟩
  | draw m =>
    exact ⟨hsound,hfair,hpolite.keeps (Machine.Renews.of_queue (Machine.Alike.draw m).queue).brings
      (Machine.asking_of_instruments m.instruments_draw),nofun⟩

/-! Frames -/

omit hcompile hsmall in
theorem Machine.run_ends {P : Turn → Script → Nat → Prop}
    (hP : ∀ {t u : Turn} {s r : Script} {pc q : Nat}, P t s pc → advance t s pc = .going u r q → P u r q) {fuel : Nat}
    (h : P t s pc) : run fuel t s pc = .outOfFuel ∨ ∃ t' s' pc', P t' s' pc' ∧ advance t' s' pc' = .halted (run fuel t s pc) := by
  induction fuel generalizing t s pc with
  | zero => exact .inl rfl
  | succ fuel ih =>
    unfold run
    cases hadvance : advance t s pc with
    | going u r q => exact ih (hP h hadvance)
    | halted halt => exact .inr ⟨t,s,pc,h,hadvance⟩

omit hcompile hsmall in
theorem Machine.Settled.putBack (h : t.machine.Settled n)
    (hwaits : t.machine.panel.nextTicket < 2 ^ 53 → t.Awaits s pc) (hfair : t.Fair t.machine.panel.turn s pc)
    (hsound : (Phase.turn t s pc).Sound p c) (hadvance : Machine.advance t s pc = .halted (.done m a)) :
    (m.putBack i a).Settled n := by
  rcases Machine.tickets_halt hsound hadvance with ⟨-,rfl,hrequeue⟩ | ⟨-,htickets⟩
  · unfold Machine.putBack
    rw [hrequeue]
    exact Machine.settled_stopAll _ n
  · have hpanel : (m.putBack i a).panel = m.panel := congrArg Prod.fst (m.instruments_putBack i a)
    obtain ⟨hturn,hnext⟩ := Prod.mk.inj htickets
    have hdone := h.grows (Machine.renews_done hadvance) hturn (Nat.le_of_eq hnext.symm)
    intro hfew j hj th hth hlive
    rw [hpanel] at hfew ⊢
    rcases Machine.slot_putBack hth with hold | ⟨k,hk,rfl⟩
    · exact hdone hfew j hj th hold hlive
    · rw [hturn,hnext]
      exact (hwaits (by omega)).laid hfair hsound (by omega) hadvance hk

def Outcome.Leaves (P Q : Machine → Prop) : Outcome → Prop
  | .done m => P m
  | .fault m _ => Q m
  | .outOfFuel => True

/-- What holds in a turn holds when it comes to its last instruction, in the same slot. -/
theorem Phase.Civil.run_ends (h : (Phase.turn t s pc).Civil p c d) (hd : d ≤ 1) (hsettled : t.machine.Settled n)
    (fuel : Nat) : Machine.run fuel t s pc = .outOfFuel ∨ ∃ t' s' pc', ((Phase.turn t' s' pc').Civil p c d ∧
      t'.active.slot = t.active.slot ∧ t'.machine.Settled n) ∧
      Machine.advance t' s' pc' = .halted (Machine.run fuel t s pc) := by
  refine Machine.run_ends (P := fun t' s' pc' => (Phase.turn t' s' pc').Civil p c d ∧
    t'.active.slot = t.active.slot ∧ t'.machine.Settled n) ?_ ⟨h,rfl,hsettled⟩
  rintro t u s r pc q ⟨hcivil,hslot,hkept⟩ hadvance
  obtain ⟨-,hturn,hnext⟩ := Machine.grows_going hcivil.sound hadvance
  have hsafe := Turn.Sound.advance hcivil.sound (compile_sound hcompile hsmall)
  rw [hadvance] at hsafe
  refine ⟨(Phase.Step.advance hadvance).civil hcompile hsmall rfl hcivil hd,?_,
    hkept.grows (Machine.renews_going hadvance) hturn hnext⟩
  cases hsafe with
  | going hu =>
    obtain ⟨_,hrunning,-⟩ := hu
    exact hrunning.placed.slot.trans hslot

theorem Machine.run_settles (h : (Phase.turn t s pc).Civil p c d) (hd : d ≤ 1) (hslot : t.active.slot = some i)
    (hsettled : t.machine.Settled n) (fuel : Nat) :
    (afterHalt i (run fuel t s pc)).Leaves (fun m' => (Phase.frame m').Civil p c d ∧ m'.Settled n)
      fun m' => (Phase.idle m').Civil p c d := by
  have hend := h.run_ends hcompile hsmall hd hsettled fuel
  generalize run fuel t s pc = halt at hend
  rcases hend with rfl | ⟨t',s',pc',⟨hcivil,hslot',hkept⟩,hadvance⟩
  · trivial
  · cases halt with
    | done m' a =>
      exact ⟨(Phase.Step.layDown hadvance (hslot'.trans hslot)).civil hcompile hsmall rfl hcivil hd,
        hkept.putBack (hcivil.waits rfl) hcivil.fair hcivil.sound hadvance⟩
    | fault m' f => exact (Phase.Step.fault hadvance).civil hcompile hsmall rfl hcivil hd
    | outOfFuel => trivial

omit hcompile hsmall in
theorem Machine.Settled.succ (h : m.Settled i)
    (hstopped : ∀ th, m.queue[i]? = some (some th) → th.stopped = true) : m.Settled (i + 1) := by
  intro hfew j hj th hth hlive
  rcases Nat.lt_succ_iff_lt_or_eq.1 hj with hj | rfl
  · exact h hfew j hj th hth hlive
  · rw [hstopped th hth] at hlive
    cases hlive

omit hcompile hsmall in
theorem Machine.Settled.setSlot (h : m.Settled i) {th : Thread} (hth : th.stopped = true) :
    (m.setSlot i (some th)).Settled (i + 1) := by
  refine (h.grows (.setSlot i hth) rfl (Nat.le_refl _)).succ fun u hu => ?_
  simp only [Machine.setSlot,Array.getElem?_setIfInBounds,if_true] at hu
  split at hu
  · cases hu
    exact hth
  · cases hu

theorem Machine.resume_settles (h : (Phase.frame m).Civil p c d) (hd : d ≤ 1) (hsettled : m.Settled i)
    (fuel : Nat) : (m.resume fuel i).Leaves (fun m' => (Phase.frame m').Civil p c d ∧ m'.Settled (i + 1))
      fun m' => (Phase.idle m').Civil p c d := by
  unfold Machine.resume
  cases hi : m.queue[i]? with
  | none => exact ⟨h,hsettled.succ (by simp [hi])⟩
  | some slot =>
    cases slot with
    | none => exact ⟨h,hsettled.succ (by simp [hi])⟩
    | some th =>
      dsimp only [Option.join_some]
      cases hlive : th.stopped with
      | true => exact ⟨h,hsettled.succ (by simp [hi,hlive])⟩
      | false =>
        simp only [Bool.false_eq_true,if_false]
        split
        · obtain ⟨b,k,hload,hk,hrequeue,hready⟩ := h.sound.load hi hlive
          have hstart := (Phase.Step.take hi hlive hload hk).civil hcompile hsmall rfl h hd
          have hslot : b.begin.slot = some i := by
            obtain ⟨_,hrunning,-⟩ := hready.sound hrequeue
            exact hrunning.placed.slot
          have hrun := run_settles hcompile hsmall hstart hd hslot (hsettled.setSlot rfl) fuel
          unfold Machine.resumeThread Machine.activate
          rw [hload]
          dsimp only
          rw [hk]
          exact hrun
        next hgone =>
          exact ⟨(Phase.Step.gone hi (by simpa using hgone)).civil hcompile hsmall rfl h hd,hsettled.setSlot rfl⟩

theorem Machine.resumeFrom_settles (h : (Phase.frame m).Civil p c d) (hd : d ≤ 1) (hsettled : m.Settled i)
    (fuel k : Nat) : (resumeFrom fuel k i m).Leaves (fun m' => (Phase.frame m').Civil p c 1)
      fun m' => (Phase.idle m').Civil p c d := by
  induction k generalizing m i with
  | zero => trivial
  | succ k ih =>
    unfold resumeFrom
    split
    · have hresume := resume_settles hcompile hsmall h hd hsettled fuel
      generalize m.resume fuel i = result at hresume
      cases result with
      | done m' => exact ih hresume.1 hresume.2
      | fault m' f => exact hresume
      | outOfFuel => trivial
    next hsize =>
      refine ⟨h.sound,h.fair,⟨h.polite.answerable,fun hfew th hth => ?_⟩,fun hturn => by cases hturn⟩
      obtain ⟨⟨j,hj⟩,hlive⟩ := hth
      have hlt : j < m.queue.size := (Array.getElem?_eq_some_iff.1 hj).1
      exact hsettled hfew j (by omega) th hj hlive

theorem Machine.passes_settle (h : (Phase.frame m).Civil p c d) (hd : d ≤ 1) (fuel : Nat) (start budget : Float) (k : Nat) :
    (passes fuel start budget k m).Leaves (fun m' => (Phase.frame m').Civil p c 1)
      fun m' => (Phase.idle m').Civil p c d := by
  induction k generalizing m with
  | zero => trivial
  | succ k ih =>
    have hpass := resumeFrom_settles hcompile hsmall h hd (fun _ j hj => absurd hj (Nat.not_lt_zero j)) fuel fuel
    unfold passes pass
    generalize resumeFrom fuel fuel 0 m = result at hpass
    cases result with
    | done m₁ =>
      have hsweep := (Phase.Step.sweep m₁).civil hcompile hsmall rfl hpass (Nat.le_refl 1)
      dsimp only
      split
      · have hclock := (Phase.Step.clock m₁.sweep).civil hcompile hsmall rfl hsweep (Nat.le_refl 1)
        split
        · exact ih (hclock.le hd)
        · exact hclock
      · exact hsweep
    | fault m' f => exact hpass
    | outOfFuel => trivial

theorem Machine.step_settles (h : (Phase.idle m).Civil p c d) (hd : d ≤ 1) (fuel : Nat) :
    (m.step fuel).Leaves (fun m' => (Phase.idle m').Civil p c 1) fun m' => (Phase.idle m').Civil p c d := by
  have hbegin : (Phase.frame m.beginFrame).Civil p c d :=
    ⟨(Phase.Step.begin m).sound h.sound (compile_sound hcompile hsmall),(Phase.Step.begin m).fair h.fair h.sound,
      h.polite.keeps (Machine.Renews.of_queue (Machine.Alike.beginFrame m).queue).brings
        (congrArg (fun x => (x.promptVisible,x.turn,x.nextTicket)) m.panel_beginFrame),nofun⟩
  obtain ⟨start,heq⟩ := m.step_eq fuel
  have hpasses := passes_settle hcompile hsmall hbegin hd fuel start m.beginFrame.settings.frameDuration.milliseconds fuel
  rw [heq]
  generalize passes fuel start _ fuel m.beginFrame = result at hpasses
  cases result with
  | done m₁ => exact (Phase.Step.draw m₁).civil hcompile hsmall rfl hpasses (Nat.le_refl 1)
  | fault m' f => exact hpasses
  | outOfFuel => trivial

theorem Machine.detached_settles (h : (Phase.idle m).Civil p c d) (hd : d ≤ 1) {id : Nat} {x : Target}
    (hx : m.targets.get? id = some x) (hs : s ∈ x.scripts.all) (fuel : Nat) :
    (m.runDetached fuel id s).Leaves (fun m' => (Phase.idle m').Civil p c d) fun m' => (Phase.idle m').Civil p c d := by
  have hdetach := Phase.Step.detach hx hs
  have hstart : (Phase.turn ⟨m,(Activation.detached id s).begin⟩ s s.entry.pc).Civil p c d := by
    refine ⟨hdetach.sound h.sound (compile_sound hcompile hsmall),hdetach.fair h.fair h.sound,h.polite,?_⟩
    rintro _ _ _ heq hfew o ho hstart
    cases heq
    exact absurd ho.shut.entry (Nat.not_le_of_lt hstart)
  have hend := hstart.run_ends hcompile hsmall hd (n := 0) (fun _ j hj => absurd hj (Nat.not_lt_zero j)) fuel
  have hactivate : m.activate fuel (.detached id s) = run fuel ⟨m,(Activation.detached id s).begin⟩ s s.entry.pc := rfl
  unfold runDetached
  rw [hactivate]
  generalize run fuel ⟨m,(Activation.detached id s).begin⟩ s s.entry.pc = halt at hend
  rcases hend with rfl | ⟨t',s',pc',⟨hcivil,hslot,-⟩,hadvance⟩
  · trivial
  · cases halt with
    | done m' a => exact (Phase.Step.finish hadvance hslot).civil hcompile hsmall rfl hcivil hd
    | fault m' f => exact (Phase.Step.fault hadvance).civil hcompile hsmall rfl hcivil hd
    | outOfFuel => trivial

end Steps

/-! Runs with at most one answer between two frames -/

/-- Whether an answer was accepted since a frame was over or everything was stopped last, after an action. -/
def HostAction.pending (m : Machine) (answered : Bool) : HostAction → Bool
  | .submitAnswer _ => answered || m.accepts
  | .stopAll => false
  | _ => answered

namespace Machine

/-- What a machine can become if the host does not answer a second question before a frame is over. -/
inductive Attended (first : Machine) : Machine → Bool → Prop
  | first : Attended first first false
  | host {m : Machine} {answered : Bool} (h : Attended first m answered) (a : HostAction)
      (hone : ∀ text, a = .submitAnswer text → m.accepts = true → answered = false) :
      Attended first (a.apply m) (a.pending m answered)
  | frame {m m' : Machine} {answered : Bool} {fuel : Nat} (h : Attended first m answered)
      (hstep : m.step fuel = .done m') : Attended first m' false
  | fault {m m' : Machine} {answered : Bool} {fuel : Nat} {f : Fault} (h : Attended first m answered)
      (hstep : m.step fuel = .fault m' f) : Attended first m' answered
  | startThread {m : Machine} {answered : Bool} {id : Nat} {t : Target} {s : Script} (h : Attended first m answered)
      (ht : m.targets.get? id = some t) (hs : s ∈ t.scripts.all) (restart : Bool) :
      Attended first (m.startThread id s restart) answered
  | detached {m m' : Machine} {answered : Bool} {id fuel : Nat} {t : Target} {s : Script} (h : Attended first m answered)
      (ht : m.targets.get? id = some t) (hs : s ∈ t.scripts.all) (hrun : m.runDetached fuel id s = .done m') :
      Attended first m' answered
  | detachedFault {m m' : Machine} {answered : Bool} {id fuel : Nat} {t : Target} {s : Script} {f : Fault}
      (h : Attended first m answered) (ht : m.targets.get? id = some t) (hs : s ∈ t.scripts.all)
      (hrun : m.runDetached fuel id s = .fault m' f) : Attended first m' answered

variable {m : Machine} {d : Nat}

/-- An answer lets the turn pass on, and takes the prompt away if there are no more questions. -/
theorem Polite.submitAnswer (h : m.Polite 1) (haccepts : m.accepts = true) (text : String) :
    (m.submitAnswer text).Polite 0 := by
  have hopen : m.panel.turn < m.panel.nextTicket := of_decide_eq_true haccepts
  obtain ⟨hturn,hnext⟩ := Prod.mk.inj (m.tickets_submitAnswer text)
  rw [haccepts,if_pos rfl] at hturn
  refine ⟨fun _ hvisible => ?_,fun hfew t ht => ?_⟩
  · rw [hturn,hnext]
    by_contra hlast
    have hpanel : (m.submitAnswer text).panel.promptVisible = false := by
      simp only [Machine.submitAnswer,Machine.modifyPanel,hopen,hlast,if_true,if_false]
    rw [hpanel] at hvisible
    cases hvisible
  · rw [hturn,hnext]
    rw [hnext] at hfew
    exact h.waits hfew t ht

theorem submitAnswer_of_not_accepts (haccepts : m.accepts = false) (text : String) : m.submitAnswer text = m := by
  have hclosed : ¬ m.panel.turn < m.panel.nextTicket := of_decide_eq_false haccepts
  simp only [Machine.submitAnswer,Machine.modifyPanel,hclosed,if_false]

def margin (answered : Bool) : Nat :=
  if answered then 0 else 1

theorem margin_le (answered : Bool) : margin answered ≤ 1 := by cases answered <;> decide

variable {project : Project} {p : Program} {c : Settings} {first : Machine} {answered : Bool}

theorem civil_host (h : (Phase.idle m).Civil p c (margin answered)) (hp : p.Sound) (a : HostAction)
    (hone : ∀ text, a = .submitAnswer text → m.accepts = true → answered = false) :
    (Phase.idle (a.apply m)).Civil p c (margin (a.pending m answered)) := by
  have hstep := Phase.Step.host m a
  refine ⟨hstep.sound h.sound hp,hstep.fair h.fair h.sound,?_,nofun⟩
  have hother : a ≠ .stopAll → (∀ text, a ≠ .submitAnswer text) → (a.apply m).Polite (margin answered) :=
    fun hstop hanswer => Polite.keeps h.polite (Renews.host m a).brings (m.asking_host hstop hanswer)
  cases a with
  | submitAnswer text =>
    cases haccepts : m.accepts with
    | true =>
      have hfalse := hone text rfl haccepts
      subst hfalse
      simp only [HostAction.pending,haccepts,Bool.or_true]
      exact Polite.submitAnswer h.polite haccepts text
    | false =>
      simp only [HostAction.pending,haccepts,Bool.or_false]
      change (m.submitAnswer text).Polite _
      rw [submitAnswer_of_not_accepts haccepts]
      exact h.polite
  | stopAll => exact m.polite_stopAll _
  | _ => exact hother nofun nofun

theorem Attended.civil (hcompile : compile project = .ok p) (hsmall : p.Small) (h : first.Attended m answered)
    (hfirst : (Phase.idle first).Civil p c 1) : (Phase.idle m).Civil p c (margin answered) := by
  have hp := compile_sound hcompile hsmall
  induction h with
  | first => exact hfirst
  | host _ a hone ih => exact civil_host ih hp a hone
  | @frame m m' answered fuel _ hstep ih | @fault m m' answered fuel f _ hstep ih =>
    have hleaves := step_settles hcompile hsmall ih (margin_le answered) fuel
    rw [hstep] at hleaves
    exact hleaves
  | @startThread m answered id t s _ ht hs restart ih =>
    have hstep := Phase.Step.start ht hs restart
    exact ⟨hstep.sound ih.sound hp,hstep.fair ih.fair ih.sound,Polite.keeps ih.polite (Renews.startThread m id s restart).brings
      (asking_of_instruments (m.instruments_startThread id s restart)),nofun⟩
  | @detached m m' answered id fuel t s _ ht hs hrun ih | @detachedFault m m' answered id fuel t s f _ ht hs hrun ih =>
    have hleaves := detached_settles hcompile hsmall ih (margin_le answered) ht hs fuel
    rw [hrun] at hleaves
    exact hleaves

theorem civil_ofProgram (hcompile : compile project = .ok p) (hsmall : p.Small) (c : Settings) (clock : Clock) :
    (Phase.idle (Machine.ofProgram p c clock)).Civil p c 1 where
  sound := Machine.Sound.ofProgram (compile_sound hcompile hsmall) c clock
  fair := Machine.fair_ofProgram p c clock
  polite := {
    answerable := nofun
    waits := by
      rintro - t ⟨⟨i,hi⟩,-⟩
      cases hi }
  waits := nofun

end Machine

/-- If the user answers at most one question between two frames, a prompt that is visible can be answered. -/
theorem accepts_of_promptVisible {project : Project} {program : Program} (hcompile : compile project = .ok program)
    (hsmall : program.Small) {settings : Settings} {clock : Clock} {m : Machine} {answered : Bool}
    (hrun : (Machine.ofProgram program settings clock).Attended m answered) (hfew : m.panel.nextTicket < 2 ^ 53)
    (hvisible : m.panel.promptVisible = true) : m.accepts = true :=
  decide_eq_true ((hrun.civil hcompile hsmall (Machine.civil_ofProgram hcompile hsmall settings clock)).polite.answerable hfew
    hvisible)

/-- One answer leaves a prompt that can be answered, and two answers in a row leave one that cannot. -/
theorem askingProject_prompts : ∃ p ∈ (compile askingProject).toOption, p.isSmall ∧
    ∃ x ∈ ((Machine.ofProgram p shallow {}).greenFlag.step 60).ended?, x.2 = none ∧
    (∃ y ∈ ((x.1.submitAnswer "yes").step 60).ended?, y.2 = none ∧ y.1.panel.nextTicket = 2 ∧
      y.1.panel.promptVisible = true) ∧
    ∃ y ∈ (((x.1.submitAnswer "yes").submitAnswer "no").step 60).ended?, y.2 = none ∧ y.1.panel.promptVisible = true ∧
      y.1.accepts = false := by
  decide +kernel

/-- After one answer the second of two questions is put up, and can be answered. -/
theorem accepts_of_promptVisible_askingProject : ∃ p m, compile askingProject = .ok p ∧
    (Machine.ofProgram p shallow {}).Attended m false ∧ m.panel.nextTicket = 2 ∧ m.panel.promptVisible = true ∧
      m.accepts = true := by
  obtain ⟨p,hp,hsmall,⟨m₁,_⟩,hm₁,rfl,⟨⟨m,_⟩,hm,rfl,hnext,hvisible⟩,-⟩ := askingProject_prompts
  have hcompile := Except.mem_toOption.1 hp
  have hflag : (Machine.ofProgram p shallow {}).Attended m₁ false :=
    (Machine.Attended.first.host .greenFlag nofun).frame (Outcome.eq_done hm₁)
  have hrun : (Machine.ofProgram p shallow {}).Attended m false :=
    (hflag.host (.submitAnswer "yes") fun _ _ _ => rfl).frame (Outcome.eq_done hm)
  exact ⟨p,m,hcompile,hrun,hnext,hvisible,accepts_of_promptVisible hcompile (Program.small_of_isSmall hsmall) hrun
    (hnext.trans_lt (by decide)) hvisible⟩

/-- After two answers in a row the second question is put up too late: there is a prompt, and no answer is accepted. -/
theorem promptVisible_without_accepts : ∃ p m, compile askingProject = .ok p ∧
    (Machine.ofProgram p shallow {}).Reachable m ∧ m.panel.promptVisible = true ∧ m.accepts = false := by
  obtain ⟨p,hp,-,⟨m₁,_⟩,hm₁,rfl,-,⟨m,_⟩,hm,rfl,hvisible,haccepts⟩ := askingProject_prompts
  have hflag : (Machine.ofProgram p shallow {}).Reachable m₁ :=
    (Machine.Reachable.first.host .greenFlag).frame (Outcome.eq_done hm₁)
  exact ⟨p,m,Except.mem_toOption.1 hp,
    ((hflag.host (.submitAnswer "yes")).host (.submitAnswer "no")).frame (Outcome.eq_done hm),hvisible,haccepts⟩

end SpriteMachine
