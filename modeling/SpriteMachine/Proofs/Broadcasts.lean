import SpriteMachine.Proofs.Transparency

/-!
A block that sends a message and waits is left only when no thread is in the queue whose script the message started,
also none that is stopped and not swept out yet. So every thread that was started is gone by then.
-/

namespace SpriteMachine

/-! What a message starts is in the queue -/

namespace Machine

variable {m : Machine} {target base : Nat}

/-- A thread of a target for a script is in the queue, and not stopped. -/
def Queued (m : Machine) (target base : Nat) : Prop :=
  ∃ (i : Nat) (t : Thread), m.queue[i]? = some (some t) ∧ t.target = target ∧ t.base = base ∧ t.stopped = false

theorem queued_startThread (m : Machine) (id : Nat) (s : Script) : (m.startThread id s true).Queued id s.id := by
  unfold startThread
  dsimp only
  split
  next i hi =>
    obtain ⟨u,hu,-,-⟩ := slotOf?_eq_some hi
    have hlt : i < m.queue.size := (Array.getElem?_eq_some_iff.1 hu).1
    exact ⟨i,.start id s,by simp [setSlot,hlt],rfl,rfl,rfl⟩
  next => exact ⟨m.queue.size,.start id s,by simp,rfl,rfl,rfl⟩

theorem Queued.startThread (h : m.Queued target base) (id : Nat) (s : Script) (restart : Bool) :
    (m.startThread id s restart).Queued target base := by
  obtain ⟨i,t,hi,htarget,hbase,hlive⟩ := h
  by_cases hsame : t.target = id ∧ t.base = s.id
  · obtain ⟨n,⟨j,u,hj,hut,hub,heq⟩ | heq | ⟨hnone,heq⟩⟩ := m.startThread_cases id s restart
    · have hlt : j < m.queue.size := (Array.getElem?_eq_some_iff.1 hj).1
      refine ⟨j,.start id s,?_,hsame.1.symm.trans htarget,hsame.2.symm.trans hbase,rfl⟩
      rw [heq]
      simp [setSlot,hlt]
    · exact ⟨i,t,by rw [heq]; exact hi,htarget,hbase,hlive⟩
    · exact absurd hsame (hnone hi)
  · exact ⟨i,t,startThread_other hi id s hsame restart,htarget,hbase,hlive⟩

theorem Queued.startThreads (h : m.Queued target base) (id : Nat) (scripts : List Script) (restart : Bool) :
    (scripts.foldl (fun m s => m.startThread id s restart) m).Queued target base := by
  induction scripts generalizing m with
  | nil => exact h
  | cons s scripts ih => exact ih (h.startThread id s restart)

theorem queued_startThreads {scripts : List Script} (hbase : base ∈ scripts.map Script.id) (m : Machine) (id : Nat) :
    (scripts.foldl (fun m s => m.startThread id s true) m).Queued id base := by
  induction scripts generalizing m with
  | nil => cases hbase
  | cons s scripts ih =>
    rw [List.foldl_cons]
    rcases List.mem_cons.1 hbase with rfl | hbase
    · exact (m.queued_startThread id s).startThreads id scripts true
    · exact ih hbase _

theorem Queued.triggerFor (h : m.Queued target base) (id : Nat) (e : Event) : (m.triggerFor id e).2.Queued target base := by
  unfold Machine.triggerFor
  split
  · exact h
  · exact h.startThreads _ _ _

theorem queued_triggerFor {e : Event} (hrestarts : e.restarts = true) (hbase : base ∈ m.listening e target) :
    (m.triggerFor target e).2.Queued target base := by
  unfold listening at hbase
  unfold Machine.triggerFor
  split at hbase
  next hx => cases hbase
  next x hx =>
    simp only [hx]
    rw [hrestarts]
    exact queued_startThreads hbase m target

theorem queued_trigger {e : Event} (hrestarts : e.restarts = true) (h : m.Starts e target base) :
    (m.trigger e).2.Queued target base := by
  obtain ⟨hmem,hbase⟩ := h
  rw [trigger_eq_foldl]
  dsimp only
  generalize m.children.reverse ++ [stageId] = ids at hmem
  have hstay : ∀ {ids : List Nat} {m : Machine}, m.Queued target base →
      (ids.foldl (fun m id => (m.triggerFor id e).2) m).Queued target base := by
    intro ids
    induction ids with
    | nil => exact fun h => h
    | cons id ids ih => exact fun h => ih (h.triggerFor id e)
  induction ids generalizing m with
  | nil => cases hmem
  | cons id ids ih =>
    rw [List.foldl_cons]
    rcases List.mem_cons.1 hmem with rfl | hmem
    · exact hstay (queued_triggerFor hrestarts hbase)
    · exact ih (by rw [listening_congr (targets_triggerFor m id e)]; exact hbase) hmem

/-- No thread in the queue, stopped or not, has one of some scripts. -/
def Clear (m : Machine) (scripts : List Nat) : Prop :=
  ∀ (i : Nat) (t : Thread), m.queue[i]? = some (some t) → t.base ∉ scripts

end Machine

/-! The code of the block -/

variable {i : Instr} {next pc : Nat}

theorem Instr.isStraight_of_isQuery (h : i.isQuery = true) : i.isStraight = true := by
  cases i with
  | jump _ | jumpIf _ _ | queue _ | forceQueue _ | finish | endCall | call _ _ _ | broadcast | broadcastAndWait
  | sceneChanged | stop _ | deleteClone => cases h
  | _ => rfl

/-- The offsets of a block that sends a message and waits. The text of the message is computed first. -/
structure Sending where
  start : Nat
  text : Nat → Prop
  send : Nat
  wait : Nat
  test : Nat
  again : Nat
  exit : Nat
  stop : Nat

namespace Sending

structure In (o : Sending) (s : Script) : Prop where
  saves : ∃ next, s.fetch o.start = .ok (.save,next) ∧ o.text next
  computes : ∀ {pc : Nat}, o.text pc → pc = o.send ∨
    ∃ i next, s.fetch pc = .ok (i,next) ∧ i.isStraight = true ∧ o.text next
  sends : s.fetch o.send = .ok (.broadcastAndWait,o.wait)
  asks : s.fetch o.wait = .ok (.running,o.test)
  branches : s.fetch o.test = .ok (.jumpIf false (UInt32.ofNat o.exit),o.again)
  yields : ∃ label, s.fetch o.again = .ok (.forceQueue label,o.exit) ∧ Continuation.pc ⟨s,label⟩ = o.wait
  restores : s.fetch o.exit = .ok (.restore,o.stop)
  small : o.exit < 2 ^ 32

end Sending

theorem Laid.sending {s : Script} {g : Ground} {after : List Directive} (h : Laid s g after) (site : Site)
    (hsteps : g.steps = Palette.broadcastAndWait site) :
    ∃ o : Sending, o.In s ∧ o.start = g.pc 0 ∧ o.stop = g.pc g.steps.length := by
  have hstep : ∀ {n : Nat} {st : Step}, (Palette.broadcastAndWait site)[n]? = some st → g.steps[n]? = some st :=
    fun hn => by rw [hsteps]; exact hn
  have hmade : ∀ {n k : Nat}, (((Palette.broadcastAndWait site).take n).map Step.makes).sum = k → g.made n = k :=
    fun hn => by rw [Ground.made,hsteps]; exact hn
  have hlength : g.steps.length = 10 := by rw [hsteps]; rfl
  -- Sending writes out what is known about changes of the picture, and nothing becomes known afterwards.
  have h3 : (g.upTo 3).pending = .none := pending_flush (hstep (n := 2) rfl) (by rintro _ ⟨⟩) rfl
  have h4 := h.pending_succ (hstep (n := 3) rfl) rfl h3
  have h5 := h.pending_succ (hstep (n := 4) rfl) rfl h4
  have h6 := h.pending_succ (hstep (n := 5) rfl) rfl h5
  have h7 := h.pending_succ (hstep (n := 6) rfl) rfl h6
  have h8 := h.pending_succ (hstep (n := 7) rfl) rfl h7
  have hhere : g.pc 4 = g.pc 3 := pc_unwritten (s := s) (hstep (n := 3) rfl) (.inr h3) rfl
  have hlabel : g.pc 5 = g.pc 4 := pc_unwritten (s := s) (hstep (n := 4) rfl) (.inr h4) rfl
  have hplace : g.pc 9 = g.pc 8 := pc_unwritten (s := s) (hstep (n := 8) rfl) (.inr h8) rfl
  have hmade3 : g.made 3 = 0 := hmade rfl
  have hmade6 : g.made 6 = 2 := hmade rfl
  have hmade7 : g.made 7 = 2 := hmade rfl
  have hmade8 : g.made 8 = 2 := hmade rfl
  have hback := h.labels_here (hstep (n := 3) rfl)
  have hexit := h.labels_place (hstep (n := 8) rfl) (by omega)
  rw [hmade3] at hback
  let o : Sending := {
    start := g.pc 0
    text := fun pc => Computing g 1 pc ∨ pc = ((g.upTo 2).before (.op .broadcastAndWait [])).pc
    send := ((g.upTo 2).before (.op .broadcastAndWait [])).pc
    wait := g.pc 3
    test := g.pc 6
    again := g.pc 7
    exit := g.pc 9
    stop := g.pc g.steps.length }
  refine ⟨o,⟨⟨g.pc 1,h.fetch (hstep (n := 0) rfl) (.inl rfl) rfl,.inl (computing_start g 1)⟩,?_,?_,?_,?_,?_,?_,
    h.pc_lt 9⟩,rfl,rfl⟩
  · rintro pc (hpc | rfl)
    · rcases h.computing (hstep (n := 1) rfl) rfl hpc with rfl | ⟨i,next,hfetch,hi,hnext⟩
      · -- At the end of the text a change of the picture may be written out.
        by_cases hbefore : g.pc 2 = o.send
        · exact .inl hbefore
        · exact .inr ⟨_,_,h.fetch_pending (hstep (n := 2) rfl) hbefore,rfl,.inr rfl⟩
      · exact .inr ⟨i,next,hfetch,Instr.isStraight_of_isQuery hi,.inl hnext⟩
    · exact .inl rfl
  · have hfetch := h.fetch_before (hstep (n := 2) rfl) rfl rfl
    rw [← Ground.upTo_emit (hstep (n := 2) rfl)] at hfetch
    exact hfetch
  · change s.fetch (g.pc 3) = _
    rw [← hhere,← hlabel]
    exact h.fetch (hstep (n := 5) rfl) (.inr h5) rfl
  · exact h.fetch_jump (hstep (n := 6) rfl) h6 (by omega) hexit
  · obtain ⟨label,hfetch,hpc⟩ := h.fetch_resume (hstep (n := 7) rfl) h7 (by omega) hback
    refine ⟨label,?_,hpc.trans hhere⟩
    change _ = Except.ok (_,g.pc 9)
    rw [hplace]
    exact hfetch
  · change _ = Except.ok (_,g.pc g.steps.length)
    rw [hlength]
    exact h.fetch (hstep (n := 9) rfl) (.inl rfl) rfl

/-! Waiting -/

theorem Move.next_of_isStraight {s r : Script} {q : Nat} {a b : Activation} (h : Move s next i a b r q)
    (hi : i.isStraight = true ∨ i = .broadcastAndWait) : r = s ∧ q = next ∧ b.calls = a.calls := by
  cases h with
  | within hq hcalls _ _ =>
    refine ⟨rfl,?_,hcalls⟩
    rcases hi with hi | rfl
    · cases i with
      | jump _ | jumpIf _ _ | queue _ | forceQueue _ | finish | endCall | call _ _ _ | broadcast | broadcastAndWait
      | sceneChanged | stop _ | deleteClone => cases hi
      | _ => exact hq
    · exact hq
  | label hlabel _ _ _ =>
    rcases hi with hi | rfl
    · cases i with
      | queue _ | forceQueue _ | call _ _ _ => cases hi
      | _ => cases hlabel
    · cases hlabel
  | enters hcall _ _ =>
    subst hcall
    rcases hi with hi | hi <;> cases hi
  | returns hend _ _ _ _ =>
    rcases hend with rfl | ⟨mode,rfl⟩ <;> rcases hi with hi | hi <;> cases hi

theorem Turn.Sound.admits {p : Program} {c : Settings} {o : Option Nat} {t : Turn} {s : Script} (h : t.Sound p c o s pc)
    (hfetch : s.fetch pc = .ok (i,next)) :
    ∃ has T, i.Admits s has T next t.active.stack.length t.active.frame.saved.length := by
  obtain ⟨σ,-,hallows⟩ := h
  obtain ⟨i',next',hfetch',hadmits⟩ := (s.certificate_allows _).steps hallows
  rw [hfetch] at hfetch'
  cases hfetch'
  exact ⟨_,_,hadmits⟩

namespace Sending

inductive Covers (o : Sending) : Nat → Prop
  | start : Covers o o.start
  | text {q : Nat} (h : o.text q) : Covers o q
  | wait : Covers o o.wait
  | test : Covers o o.test
  | again : Covers o o.again
  | exit : Covers o o.exit
  | stop : Covers o o.stop

variable {o : Sending} {s : Script}

variable {q' next : Nat} {i : Instr} {a b : Activation} {r : Script}

theorem In.move_again (ho : o.In s) (hfetch : s.fetch o.again = .ok (i,next)) (hmove : Move s next i a b r q') :
    b.locals = a.locals ∧ b.calls = a.calls ∧ r = s ∧ q' = o.wait := by
  obtain ⟨label,hfetch',hpc⟩ := ho.yields
  rw [hfetch] at hfetch'
  cases hfetch'
  cases hmove with
  | within hq _ _ _ => exact hq.elim
  | label hlabel hcalls _ hlocals =>
    cases hlabel
    exact ⟨hlocals,hcalls,rfl,hpc⟩
  | enters hcall _ _ => cases hcall
  | returns hend _ _ _ _ => rcases hend with hend | ⟨mode,hend⟩ <;> cases hend

theorem Covers.move (ho : o.In s) {q : Nat} (h : o.Covers q) (hstop : q ≠ o.stop) (hfetch : s.fetch q = .ok (i,next))
    (hmove : Move s next i a b r q') : r = s ∧ b.calls = a.calls ∧ o.Covers q' := by
  have hnext : ∀ {i' : Instr} {next' : Nat}, s.fetch q = .ok (i',next') → (i'.isStraight = true ∨ i' = .broadcastAndWait) →
      o.Covers next' → r = s ∧ b.calls = a.calls ∧ o.Covers q' := by
    intro i' next' hfetch' hi hcovers
    rw [hfetch] at hfetch'
    cases hfetch'
    obtain ⟨hr,rfl,hcalls⟩ := hmove.next_of_isStraight hi
    exact ⟨hr,hcalls,hcovers⟩
  cases h with
  | start =>
    obtain ⟨next',hfetch',htext⟩ := ho.saves
    exact hnext hfetch' (.inl rfl) (.text htext)
  | text htext =>
    rcases ho.computes htext with rfl | ⟨i',next',hfetch',hi,htext'⟩
    · exact hnext ho.sends (.inr rfl) .wait
    · exact hnext hfetch' (.inl hi) (.text htext')
  | wait => exact hnext ho.asks (.inl rfl) .test
  | test =>
    rw [ho.branches] at hfetch
    cases hfetch
    cases hmove with
    | within hq hcalls _ _ =>
      refine ⟨rfl,hcalls,?_⟩
      rcases (hq : _ ∨ _) with rfl | rfl
      · rw [UInt32.toNat_ofNat_of_lt' ho.small]
        exact .exit
      · exact .again
    | label hlabel _ _ _ => cases hlabel
    | enters hcall _ _ => cases hcall
    | returns hend _ _ _ _ => rcases hend with hend | ⟨mode,hend⟩ <;> cases hend
  | again =>
    obtain ⟨-,hcalls,hr,rfl⟩ := ho.move_again hfetch hmove
    exact ⟨hr,hcalls,.wait⟩
  | exit => exact hnext ho.restores (.inl rfl) .stop
  | stop => exact absurd rfl hstop

theorem Covers.eq_send (ho : o.In s) {q : Nat} (h : o.Covers q) (hstop : q ≠ o.stop)
    (hfetch : s.fetch q = .ok (.broadcastAndWait,next)) : q = o.send := by
  have hother : ∀ {i' : Instr} {next' : Nat}, s.fetch q = .ok (i',next') → i' ≠ .broadcastAndWait → q = o.send := by
    intro i' next' hfetch' hne
    rw [hfetch] at hfetch'
    cases hfetch'
    exact absurd rfl hne
  cases h with
  | start =>
    obtain ⟨next',hfetch',-⟩ := ho.saves
    exact hother hfetch' nofun
  | text htext =>
    rcases ho.computes htext with rfl | ⟨i',next',hfetch',hi,-⟩
    · rfl
    · exact hother hfetch' (by rintro rfl; cases hi)
  | wait => exact hother ho.asks nofun
  | test => exact hother ho.branches nofun
  | again =>
    obtain ⟨label,hfetch',-⟩ := ho.yields
    exact hother hfetch' nofun
  | exit => exact hother ho.restores nofun
  | stop => exact absurd rfl hstop

/-- What a thread knows at each place after it sent the message. -/
inductive Waits (o : Sending) (started : List Nat) (u : Turn) : Nat → Prop
  | wait (h : u.active.locals.threads = started) : Waits o started u o.wait
  | test {w : Bool} {rest : List Value} (h : u.active.locals.threads = started)
      (hstack : u.active.stack = .bool w :: rest) (hw : w = false → u.machine.Clear started) : Waits o started u o.test
  | again (h : u.active.locals.threads = started) : Waits o started u o.again
  | exit (h : u.machine.Clear started) : Waits o started u o.exit
  | stop (h : u.machine.Clear started) : Waits o started u o.stop

theorem clear_of_any {m : Machine} {scripts : List Nat}
    (h : (m.queue.any fun t => t.any fun t => scripts.contains t.base) = false) : m.Clear scripts := by
  intro i t hi hmem
  have hfound : (m.queue.any fun t => t.any fun t => scripts.contains t.base) = true := by
    refine Array.any_eq_true'.2 ⟨some t,Array.mem_of_getElem? hi,?_⟩
    simpa using hmem
  rw [h] at hfound
  cases hfound

variable {started : List Nat} {p : Program} {c : Settings} {u v : Turn} {q : Nat}

theorem Waits.going (ho : o.In s) (h : o.Waits started u q) (hstop : q ≠ o.stop) (hsound : (Phase.turn u s q).Sound p c)
    (hadvance : Machine.advance u s q = .going v r q') : o.Waits started v q' := by
  have hnext : ∀ {i : Instr} {next q₁ : Nat} {w : Turn}, s.fetch q = .ok (i,next) →
      Turn.exec s next i u = .ok (.next q₁) w → q' = q₁ ∧ v = w := by
    intro i next q₁ w hfetch hexec
    rcases Machine.advance_going hfetch hadvance with ⟨hexec',-⟩ | ⟨w',k,hexec',-⟩
    · rw [hexec] at hexec'
      cases hexec'
      exact ⟨rfl,rfl⟩
    · rw [hexec] at hexec'
      cases hexec'
  cases h with
  | wait hthreads =>
    obtain ⟨rfl,rfl⟩ := hnext ho.asks rfl
    refine .test hthreads rfl fun hw => clear_of_any ?_
    rw [← hthreads]
    exact hw
  | @test w rest hthreads hstack hw =>
    obtain ⟨rfl,rfl⟩ := hnext ho.branches (Turn.exec_jumpIf hstack _ _)
    split
    next hfalse =>
      rw [UInt32.toNat_ofNat_of_lt' ho.small]
      exact .exit (hw hfalse)
    · exact .again hthreads
  | again hthreads =>
    obtain ⟨label,hfetch,-⟩ := ho.yields
    rcases Machine.advance_going hfetch hadvance with ⟨hexec,-⟩ | ⟨w,k,hexec,hk,rfl,-,rfl⟩
    · obtain ⟨hlocals,-,-,rfl⟩ := ho.move_again hfetch (Turn.Sound.moves hsound hfetch hexec)
      exact .wait (by rw [hlocals,hthreads])
    · obtain ⟨hlocals,-,-,hq⟩ := ho.move_again hfetch (Turn.Sound.moves hsound hfetch hexec k (.inl hk))
      rw [hq]
      exact .wait ((congrArg Locals.threads hlocals).trans hthreads)
  | exit hclear =>
    obtain ⟨has,T,k,hk,-⟩ := Turn.Sound.admits hsound ho.restores
    obtain ⟨l,rest,hsaved,-⟩ := List.length_eq_succ_iff.1 hk
    obtain ⟨rfl,rfl⟩ := hnext ho.restores (Turn.exec_restore hsaved.symm)
    exact .stop hclear
  | stop => exact absurd rfl hstop

theorem Waits.resumed (ho : o.In s) (h : o.Waits started u q) (hstop : q ≠ o.stop) (hsound : (Phase.turn u s q).Sound p c)
    {m : Machine} {a : Activation} {k : Continuation} (hadvance : Machine.advance u s q = .halted (.done m a))
    (hk : a.requeue = some k) (m' : Machine) (j : Nat) : o.Waits started ⟨m',a.resumed j⟩ k.pc := by
  have hnext : ∀ {i : Instr} {next q₁ : Nat} {w : Turn}, s.fetch q = .ok (i,next) →
      Turn.exec s next i u = .ok (.next q₁) w → o.Waits started ⟨m',a.resumed j⟩ k.pc := by
    intro i next q₁ w hfetch hexec
    obtain ⟨hexec',-⟩ := Machine.advance_done hfetch hadvance
    rw [hexec] at hexec'
    cases hexec'
  cases h with
  | wait _ => exact hnext ho.asks rfl
  | test _ hstack _ => exact hnext ho.branches (Turn.exec_jumpIf hstack _ _)
  | again hthreads =>
    obtain ⟨label,hfetch,-⟩ := ho.yields
    obtain ⟨hexec,-⟩ := Machine.advance_done hfetch hadvance
    obtain ⟨hlocals,-,-,hq⟩ := ho.move_again hfetch (Turn.Sound.moves hsound hfetch hexec k (.inr hk))
    rw [hq]
    exact .wait ((congrArg Locals.threads hlocals).trans hthreads)
  | exit _ =>
    obtain ⟨has,T,n,hn,-⟩ := Turn.Sound.admits hsound ho.restores
    obtain ⟨l,rest,hsaved,-⟩ := List.length_eq_succ_iff.1 hn
    exact hnext ho.restores (Turn.exec_restore hsaved.symm)
  | stop => exact absurd rfl hstop

end Sending

theorem Script.Contains.sending {s : Script} {params : List String} {b : Block} {start stop : Nat}
    (h : s.Contains params b start stop) (hsmall : s.code.size < 2 ^ 32) (hopcode : b.opcode = "event_broadcastandwait") :
    ∃ o : Sending, o.In s ∧ o.start = start ∧ o.stop = stop := by
  obtain ⟨g,after,hlaid,-,hsteps,rfl,rfl⟩ := h.laid hsmall
    (Palette.mem_of_group (g := Palette.events) (i := 1) (by simp) rfl) hopcode rfl rfl
  exact hlaid.sending ⟨b,params⟩ hsteps

section Follow

variable {o : Sending} {p : Program} {c : Settings} {t₀ t u : Turn} {s r : Script} {q : Nat}

theorem Turn.Follows.covers (ho : o.In s) (hp : p.Sound) (hsound : (Phase.turn t₀ s o.start).Sound p c)
    (h : t₀.Follows (t₀.Until o.stop) s o.start u r q) : r = s ∧ u.active.calls = t₀.active.calls ∧ o.Covers q := by
  refine h.induct (I := fun a r q => r = s ∧ a.calls = t₀.active.calls ∧ o.Covers q) hsound hp ⟨rfl,rfl,.start⟩ ?_
  rintro u r q - huntil ⟨rfl,hcalls,hcovers⟩ i next hfetch b r' q' hmove
  obtain ⟨hr,hcalls',hcovers'⟩ := hcovers.move ho (huntil.2 (by rw [hcalls])) hfetch hmove
  exact ⟨hr,hcalls'.trans hcalls,hcovers'⟩

theorem Turn.Follows.waits (ho : o.In s) (hp : p.Sound) (hsound : (Phase.turn t₀ s o.start).Sound p c)
    (hto : t₀.Follows (t₀.Until o.stop) s o.start t s o.send) {v : Value} {rest : List Value}
    (hstack : t.active.stack = v :: rest) (h : t.Follows (t₀.Until o.stop) s o.send u r q) :
    (u = t ∧ q = o.send) ∨ o.Waits (t.machine.trigger (.ofMessage v.toText)).1 u q := by
  have hsent := hto.steps.sound hsound hp
  have hexec := @Turn.exec_broadcastAndWait s t o.wait v rest hstack
  have hquiet : t.active.immediate = none ∧ t.active.requeue = none := by
    obtain ⟨σ,hrunning,-⟩ := hsent
    exact ⟨hrunning.immediate,hrunning.requeue⟩
  induction h with
  | here => exact .inl ⟨rfl,rfl⟩
  | @advance u v' r r' q q' h huntil hadvance ih =>
    obtain ⟨rfl,hdepth,-⟩ := (hto.trans h).covers ho hp hsound
    rcases ih with ⟨rfl,rfl⟩ | hwaits
    · rcases Machine.advance_going ho.sends hadvance with ⟨hexec',-⟩ | ⟨w,k,hexec',hk,-⟩
      · rw [hexec] at hexec'
        split at hexec'
        · cases hexec'
        · cases hexec'
          exact .inr (.wait rfl)
      · -- Its own script would have been started over.
        rw [hexec] at hexec'
        split at hexec'
        · cases hexec'
          exact absurd (hk.symm.trans hquiet.1) nofun
        · cases hexec'
    · exact .inr (hwaits.going ho (huntil.2 (by rw [hdepth])) (h.steps.sound hsent hp) hadvance)
  | @resume u r q i j m m' a k h huntil hadvance hslot hk hsteps hj ih =>
    obtain ⟨rfl,hdepth,-⟩ := (hto.trans h).covers ho hp hsound
    rcases ih with ⟨rfl,rfl⟩ | hwaits
    · obtain ⟨hexec',-⟩ := Machine.advance_done ho.sends hadvance
      rw [hexec] at hexec'
      split at hexec'
      · cases hexec'
        exact absurd (hk.symm.trans hquiet.2) nofun
      · cases hexec'
    · exact .inr (hwaits.resumed ho (huntil.2 (by rw [hdepth])) (h.steps.sound hsent hp) hadvance hk _ j)

end Follow

/-- When a thread comes to the end of a block that sends a message and waits, no slot of the queue has a thread of a
script that the message started, also none that is stopped. Right after it was sent they were all in the queue. -/
theorem clear_of_compile {project : Project} {program : Program} (hcompile : compile project = .ok program)
    (hsmall : program.Small) {settings : Settings} {clock : Clock} {t₀ t : Turn} {s r : Script} {start stop pc next : Nat}
    (hreach : Phase.Steps (.idle (Machine.ofProgram program settings clock)) (.turn t₀ s start)) {params : List String}
    {b : Block} (hblock : s.Contains params b start stop) (hopcode : b.opcode = "event_broadcastandwait")
    (hto : t₀.Follows (t₀.Until stop) s start t r pc) (hpc : pc ≠ stop)
    (hfetch : r.fetch pc = .ok (.broadcastAndWait,next)) :
    ∃ e, t.raises? .broadcastAndWait = some e ∧
      (∀ target base, t.machine.Starts e target base → (t.machine.trigger e).2.Queued target base) ∧
      ∀ u r', t.Follows (t₀.Until stop) r pc u r' stop → ∀ target base, t.machine.Starts e target base →
        ∀ (i : Nat) (x : Thread), u.machine.queue[i]? = some (some x) → x.base ≠ base := by
  have hprogram := compile_sound hcompile hsmall
  have hsound := hreach.sound_ofProgram hprogram
  obtain ⟨o,ho,rfl,rfl⟩ := hblock.sending (Turn.Sound.small hsound hsmall) hopcode
  obtain ⟨rfl,-,hcovers⟩ := hto.covers ho hprogram hsound
  obtain rfl := hcovers.eq_send ho hpc hfetch
  obtain ⟨has,T,k,hk,-⟩ := Turn.Sound.admits (hto.steps.sound hsound hprogram) hfetch
  obtain ⟨v,rest,hstack,-⟩ := List.length_eq_succ_iff.1 hk
  have hraises : t.raises? .broadcastAndWait = some (.ofMessage v.toText) := by simp [Turn.raises?,← hstack]
  refine ⟨_,hraises,fun target base hstarts => Machine.queued_trigger (Turn.restarts_of_raises hraises) hstarts,?_⟩
  rintro u r' hfollows target base hstarts i x hx rfl
  have hmem := Machine.mem_trigger hstarts
  have hasks := Script.lt_of_fetch ho.asks
  have hbranches := Script.lt_of_fetch ho.branches
  obtain ⟨label,hyields,-⟩ := ho.yields
  have hyields := Script.lt_of_fetch hyields
  have hrestores := Script.lt_of_fetch ho.restores
  rcases Turn.Follows.waits ho hprogram hsound hto hstack.symm hfollows with ⟨-,heq⟩ | hwaits
  · exact hpc heq.symm
  · generalize hstop : o.stop = q at hwaits
    cases hwaits with
    | wait | test | again => omega
    | exit hclear | stop hclear => exact hclear i x hx hmem

/-! A message starts a script that yields -/

def sendBlock : Block :=
  .mk "event_broadcastandwait" none [.mk "BROADCAST_INPUT" [
    .mk "event_broadcast_menu" none [] [("BROADCAST_OPTION",⟨"go",none⟩)]] none] []

def sendingProject : Project where
  stage := {
    name := "Stage"
    isStage := true
    scripts := [
      { hat := .flag, blocks := [sendBlock] },
      { hat := .message ⟨"go","go"⟩, blocks := [onceBlock []] }] }

/-- Where the code of the block ends. -/
def sendEnd : Nat :=
  (stageEmitter.run (expand [] sendBlock).statement).pc

/-- Whether the instruction at an offset sends a message and waits. -/
def Script.sendsAt (s : Script) (pc : Nat) : Bool :=
  match s.fetch pc with
  | .ok (.broadcastAndWait,_) => true
  | _ => false

theorem Script.fetch_of_sendsAt {s : Script} (h : s.sendsAt pc = true) :
    ∃ next, s.fetch pc = .ok (.broadcastAndWait,next) := by
  unfold sendsAt at h
  split at h
  next next hfetch => exact ⟨next,hfetch⟩
  next => cases h

/-- The first thread comes to the end of the block after it sent the message, which starts the other script. -/
theorem sendingProject_waits : ∃ p ∈ (compile sendingProject).toOption, p.isSmall ∧
    ∃ script ∈ (Compile.script stageEmitter.symbols "Stage #0" [] [sendBlock] .finish 0).toOption,
    ∃ x ∈ (flagFrame p).turnAfter? 0 0, x.2 = (script.1,0) ∧
    ∃ y ∈ x.1.follow? (fun u q => x.1.Until sendEnd u q && !script.1.sendsAt q) 60 60 script.1 0,
      y.2.1.sendsAt y.2.2 ∧ y.2.2 ≠ sendEnd ∧ (∃ e ∈ y.1.raises? .broadcastAndWait, y.1.machine.Starts e 0 1) ∧
      ∃ z ∈ y.1.follow? (fun u q => x.1.Until sendEnd u q) 60 60 y.2.1 y.2.2, z.2.2 = sendEnd := by
  decide +kernel

/-- A thread sends the message, waits while the other one runs, and comes to the end of the block. -/
theorem clear_of_compile_sendingProject : ∃ p t₀ t u s r r' pc next e, compile sendingProject = .ok p ∧
    Phase.Steps (.idle (Machine.ofProgram p shallow {})) (.turn t₀ s 0) ∧ s.Contains [] sendBlock 0 sendEnd ∧
    t₀.Follows (t₀.Until sendEnd) s 0 t r pc ∧ pc ≠ sendEnd ∧ r.fetch pc = .ok (.broadcastAndWait,next) ∧
    t.machine.Starts e 0 1 ∧ (t.machine.trigger e).2.Queued 0 1 ∧ t.Follows (t₀.Until sendEnd) r pc u r' sendEnd ∧
    ∀ (i : Nat) (x : Thread), u.machine.queue[i]? = some (some x) → x.base ≠ 1 := by
  obtain ⟨p,hp,hsmall,⟨s,after⟩,hscript,⟨t₀,_⟩,hturn,rfl,⟨t,r,pc⟩,hsend,hsends,hpc,⟨e,he,hstarts⟩,⟨u,r',_⟩,
    hend,rfl⟩ := sendingProject_waits
  have hcompile := Except.mem_toOption.1 hp
  have hsmall := Program.small_of_isSmall hsmall
  have hprogram := compile_sound hcompile hsmall
  have hreach := (steps_flagFrame p).trans (Machine.resumption_of_turnAfter hturn).steps
  have hsound := Phase.Steps.sound_ofProgram hreach hprogram
  have hblock : s.Contains [] sendBlock 0 sendEnd :=
    ⟨_,_,_,_,_,_,[],[],.inl rfl,Except.mem_toOption.1 hscript,by decide +kernel,rfl,rfl⟩
  have hto : t₀.Follows (t₀.Until sendEnd) s 0 t r pc :=
    (Turn.follows_of_follow hsend hsound hprogram).mono fun u q hu => of_decide_eq_true (Bool.and_eq_true_iff.1 hu).1
  have hfollows : t.Follows (t₀.Until sendEnd) r pc u r' sendEnd :=
    (Turn.follows_of_follow hend (hto.steps.sound hsound hprogram) hprogram).mono fun u q hu => of_decide_eq_true hu
  obtain ⟨next,hfetch⟩ := Script.fetch_of_sendsAt hsends
  obtain ⟨e',hraises,hqueued,hclear⟩ := clear_of_compile hcompile hsmall hreach hblock rfl hto hpc hfetch
  obtain rfl := Option.some.inj (hraises.symm.trans he)
  exact ⟨p,t₀,t,u,s,r,r',pc,next,e',hcompile,hreach,hblock,hto,hpc,hfetch,hstarts,hqueued 0 1 hstarts,
    hfollows,hclear u r' hfollows 0 1 hstarts⟩

end SpriteMachine
