import SpriteMachine.Proofs.Boundaries
import SpriteMachine.Proofs.Broadcasts
import SpriteMachine.Proofs.Operands
import SpriteMachine.Proofs.Tickets
import SpriteMachine.Proofs.WholeNumbers

/-!
The code of a block that asks a question: it takes a ticket, waits for its turn, asks, and waits until the turn has
passed. Control comes into this code at its start only.
-/

namespace SpriteMachine

/-- The offsets of a loop that looks at the turn, and yields until it is as wanted. -/
structure Polling where
  poll : Nat
  load : Nat
  test : Nat
  branch : Nat
  again : Nat
  exit : Nat

structure Polling.In (w : Polling) (s : Script) (f : BinaryOperator) : Prop where
  polls : ∃ id, s.fetch w.poll = .ok (.builtin id,w.load) ∧ Palette.builtin? id = some (.sensing .currentTicket)
  loads : s.fetch w.load = .ok (.pushLocal 0,w.test)
  tests : s.fetch w.test = .ok (.binary f,w.branch)
  branches : s.fetch w.branch = .ok (.jumpIf false (UInt32.ofNat w.exit),w.again)
  yields : ∃ label, s.fetch w.again = .ok (.forceQueue label,w.exit) ∧ Continuation.pc ⟨s,label⟩ = w.poll
  small : w.exit < 2 ^ 32

theorem Ground.made_add (g : Ground) (n j : Nat) :
    g.made (n + j) = g.made n + (((g.steps.drop n).take j).map Step.makes).sum := by
  rw [made,List.take_add,List.map_append,List.sum_append]
  rfl

/-- The steps of the loop, with the number of its first label. -/
def Polling.steps (o : Opcode) (k : Nat) : List Step :=
  [.here,.label,.callEntry "sensing_askandwait.turn",.op .pushLocal [0],.op o,.jump .jumpIfFalse (k + 1),
    .resume .forceQueue k,.place (k + 1)]

variable {s r : Script} {g : Ground} {after : List Directive} {n next q : Nat} {i : Instr} {a b : Activation}

theorem Laid.polling (h : Laid s g after) {k : Nat} {o : Opcode} {f : BinaryOperator}
    (ho : Instr.ofOperands o [] = .binary f) {more : List Step} (hsteps : g.steps.drop n = Polling.steps o k ++ more)
    (hmade : g.made n = k) : ∃ w : Polling, w.In s f ∧ w.poll = g.pc (n + 1) ∧ w.exit = g.pc (n + 8) := by
  have hstep : ∀ {j : Nat} {st : Step}, (Polling.steps o k ++ more)[j]? = some st → g.steps[n + j]? = some st := by
    intro j st hj
    rw [← List.getElem?_drop,hsteps]
    exact hj
  have hfirst : g.steps[n]? = some .here := hstep (j := 0) rfl
  have hmade5 : g.made (n + 5) = k + 2 := by rw [Ground.made_add,hsteps,hmade]; rfl
  have hmade6 : g.made (n + 6) = k + 2 := by rw [Ground.made_add,hsteps,hmade]; rfl
  have hmade7 : g.made (n + 7) = k + 2 := by rw [Ground.made_add,hsteps,hmade]; rfl
  -- The label of the loop lets nothing be kept back about changes of the picture.
  have h1 : (g.upTo (n + 1)).pending = .none := pending_flush hfirst nofun rfl
  have h2 := h.pending_succ (hstep (j := 1) rfl) rfl h1
  have h3 := h.pending_succ (hstep (j := 2) rfl) rfl h2
  have h4 := h.pending_succ (hstep (j := 3) rfl) rfl h3
  have h5 := h.pending_succ (hstep (j := 4) rfl) rfl h4
  have h6 := h.pending_succ (hstep (j := 5) rfl) rfl h5
  have h7 := h.pending_succ (hstep (j := 6) rfl) rfl h6
  have hlabel : g.pc (n + 2) = g.pc (n + 1) := pc_unwritten (s := s) (hstep (j := 1) rfl) (.inr h1) rfl
  have hplace : g.pc (n + 8) = g.pc (n + 7) := pc_unwritten (s := s) (hstep (j := 7) rfl) (.inr h7) rfl
  have hback := h.labels_here hfirst
  have hexit := h.labels_place (hstep (j := 7) rfl) (by omega)
  rw [hmade] at hback
  refine ⟨⟨g.pc (n + 1),g.pc (n + 3),g.pc (n + 4),g.pc (n + 5),g.pc (n + 6),g.pc (n + 8)⟩,⟨?_,?_,?_,?_,?_,
    h.pc_lt _⟩,rfl,rfl⟩
  · rw [← hlabel]
    exact h.fetch_entry (hstep (j := 2) rfl) rfl
  · exact h.fetch (hstep (j := 3) rfl) (.inr h3) rfl
  · rw [← ho]
    exact h.fetch (hstep (j := 4) rfl) (.inr h4) rfl
  · exact h.fetch_jump (hstep (j := 5) rfl) h5 (by omega) hexit
  · obtain ⟨label,hfetch,hpc⟩ := h.fetch_resume (hstep (j := 6) rfl) h6 (by omega) hback
    refine ⟨label,?_,hpc⟩
    rw [hplace]
    exact hfetch

/-- The offsets of a block that asks. The text of the question is computed when it is its turn. -/
structure Asking where
  start : Nat
  take : Nat
  keep : Nat
  ready : Nat
  wait : Polling
  text : Nat → Prop
  ask : Nat
  answer : Polling
  leave : Nat
  stop : Nat

/-- The instructions of the block are there in a script, and control comes to them from the start. -/
structure Asking.In (o : Asking) (s : Script) : Prop where
  saves : s.fetch o.start = .ok (.save,o.take)
  takes : ∃ id, s.fetch o.take = .ok (.builtin id,o.keep) ∧ Palette.builtin? id = some (.sensing .takeTicket)
  keeps : s.fetch o.keep = .ok (.setLocal 0,o.ready)
  settles : o.ready = o.wait.poll ∨ ∃ w, s.fetch o.ready = .ok (.visual w,o.wait.poll)
  waits : o.wait.In s .less
  begins : o.text o.wait.exit
  computes : ∀ {pc : Nat}, o.text pc → pc = o.ask ∨
    ∃ i next, s.fetch pc = .ok (i,next) ∧ i.isQuery = true ∧ o.text next
  bounded : ∀ {pc : Nat}, o.text pc → o.wait.exit ≤ pc ∧ pc ≤ o.ask
  asks : ∃ id, s.fetch o.ask = .ok (.builtin id,o.answer.poll) ∧ Palette.builtin? id = some (.sensing .ask)
  answers : o.answer.In s .equals
  ends : ∃ id, s.fetch o.answer.exit = .ok (.builtin id,o.leave) ∧ Palette.builtin? id = some (.sensing .endAsk)
  restores : s.fetch o.leave = .ok (.restore,o.stop)
  shut : s.Shut o.start o.stop

theorem Laid.computing_le {pc : Nat} {st : Step} (hn : g.steps[n]? = some st) (hpc : Computing g n pc) :
    g.pc n ≤ pc ∧ pc ≤ g.pc (n + 1) := by
  obtain ⟨ds₁,ds₂,hcode,rfl⟩ := hpc
  rw [hn] at hcode
  change g.code st = ds₁ ++ ds₂ at hcode
  refine ⟨Portion.pc_le_run _ _ _,?_⟩
  rw [Ground.pc,Ground.upTo_succ hn,hcode,Ground.upTo,← Emitter.run_append,← List.append_assoc]
  exact Portion.pc_le_run _ _ _

theorem Laid.asking (h : Laid s g after) (site : Site) (hsteps : g.steps = Palette.ask site)
    (hself : g.entry.builtin = some (.sensing .ask)) (hshut : s.Shut (g.pc 0) (g.pc g.steps.length)) :
    ∃ o : Asking, o.In s ∧ o.start = g.pc 0 ∧ o.stop = g.pc g.steps.length := by
  have hstep : ∀ {n : Nat} {st : Step}, (Palette.ask site)[n]? = some st → g.steps[n]? = some st :=
    fun hn => by rw [hsteps]; exact hn
  have hmade : ∀ {n k : Nat}, (((Palette.ask site).take n).map Step.makes).sum = k → g.made n = k :=
    fun hn => by rw [Ground.made,hsteps]; exact hn
  have hlength : g.steps.length = 24 := by rw [hsteps]; rfl
  obtain ⟨wait,hwait,hwpoll,hwexit⟩ := h.polling (n := 3) (k := 0) (o := .lt) (f := .less) rfl
    (by rw [hsteps]; rfl) (hmade rfl)
  obtain ⟨answer,hanswer,hapoll,haexit⟩ := h.polling (n := 13) (k := 2) (o := .equals) (f := .equals) rfl
    (by rw [hsteps]; rfl) (hmade rfl)
  have h11 : (g.upTo 11).pending = .none := pending_flush (hstep (n := 10) rfl) (by rintro _ ⟨⟩) rfl
  have h12 := h.pending_succ (hstep (n := 11) rfl) rfl h11
  have h13 := h.pending_succ (hstep (n := 12) rfl) rfl h12
  have hhere : g.pc 14 = g.pc 13 := pc_unwritten (s := s) (hstep (n := 13) rfl) (.inr h13) rfl
  have hvisual : g.pc 24 = g.pc 23 := pc_unwritten (s := s) (hstep (n := 23) rfl) (.inl rfl) rfl
  have hplaced : g.pc 4 = ((g.upTo 3).before .here).pc := by
    rw [Ground.pc,Ground.upTo_emit (hstep (n := 3) rfl)]
    exact Script.Holds.pc_step (s := s) rfl
  let o : Asking := {
    start := g.pc 0
    take := g.pc 1
    keep := g.pc 2
    ready := g.pc 3
    wait := wait
    text := Computing g 11
    ask := g.pc 12
    answer := answer
    leave := g.pc 22
    stop := g.pc g.steps.length }
  refine ⟨o,⟨h.fetch (hstep (n := 0) rfl) (.inl rfl) rfl,h.fetch_entry (hstep (n := 1) rfl) rfl,
    h.fetch (hstep (n := 2) rfl) (.inl rfl) rfl,?_,hwait,?_,fun hpc => ?_,fun hpc => ?_,
    ⟨UInt32.ofNat g.id,?_,?_⟩,hanswer,?_,?_,hshut⟩,rfl,rfl⟩
  · -- A change of the picture may be written out before the loop.
    rw [hwpoll,hplaced]
    by_cases hbefore : g.pc 3 = ((g.upTo 3).before .here).pc
    · exact .inl hbefore
    · exact .inr ⟨_,h.fetch_pending (hstep (n := 3) rfl) hbefore⟩
  · rw [hwexit]
    exact computing_start g 11
  · exact h.computing (hstep (n := 11) rfl) rfl hpc
  · rw [hwexit]
    exact computing_le (hstep (n := 11) rfl) hpc
  · rw [hapoll,hhere]
    exact h.fetch_self (hstep (n := 12) rfl)
  · rw [h.builtin,hself]
  · rw [haexit]
    exact h.fetch_entry (hstep (n := 21) rfl) rfl
  · change _ = Except.ok (_,g.pc g.steps.length)
    rw [hlength,hvisual]
    exact h.fetch (hstep (n := 22) rfl) (.inl rfl) rfl

def Step.isOwn : Step → Bool
  | .substack _ | .inputs | .emit (.call ..) => false
  | _ => true

theorem Laid.not_call_mem (h : Laid s g after) (hown : g.steps.all Step.isOwn = true) (procedure : String) (argc : Nat) :
    Directive.call procedure argc ∉ g.steps.flatMap g.code := by
  intro hmem
  obtain ⟨st,hst,hcode⟩ := List.mem_flatMap.1 hmem
  have hstep := List.all_eq_true.1 hown st hst
  cases st with
  | input _ | number _ | text _ | condition _ =>
    have hquery := h.isQuery_code rfl _ hcode
    cases hquery
  | substack _ | inputs => cases hstep
  | callSelf => cases List.mem_singleton.1 hcode
  | callEntry opcode =>
    simp only [Ground.code,stepCode,callEntryCode] at hcode
    split at hcode <;> cases List.mem_singleton.1 hcode
  | emit d =>
    cases List.mem_singleton.1 hcode
    cases hstep

theorem Script.Contains.asking {s : Script} {params : List String} {b : Block} {start stop : Nat}
    (h : s.Contains params b start stop) (hsmall : s.code.size < 2 ^ 32) (hopcode : b.opcode = "sensing_askandwait") :
    ∃ o : Asking, o.In s ∧ o.start = start ∧ o.stop = stop := by
  obtain ⟨g,after,hlaid,hentry,hsteps,rfl,rfl⟩ := h.laid hsmall
    (Palette.mem_of_group (g := Palette.sensing) (i := 0) (by simp) rfl) hopcode rfl rfl
  refine hlaid.asking ⟨b,params⟩ hsteps (by rw [hentry]; rfl) ?_
  have hshut := hlaid.portion.isShut (hlaid.not_call_mem (by rw [hsteps]; rfl))
  have hstart : (g.first.run g.before).pc = g.pc 0 := by
    rw [Ground.pc,Ground.upTo,Emitter.run_append]
    rfl
  have hstop : Portion.finish g.first g.before (g.steps.flatMap g.code) = g.pc g.steps.length := by
    rw [Ground.pc,Ground.upTo,List.take_length]
    rfl
  rw [hstart,hstop] at hshut
  exact hshut

/-! Steps in the block -/

section Advance

variable {t u : Turn} {s r : Script} {pc next q : Nat} {i : Instr} (hfetch : s.fetch pc = .ok (i,next))

include hfetch

theorem Machine.advance_straight (hi : i.isStraight = true) (h : Machine.advance t s pc = .going u r q) :
    r = s ∧ q = next ∧ Turn.perform s i t = .ok () u := by
  have hexec : ∀ {flow : Flow} {v : Turn}, Turn.exec s next i t = .ok flow v →
      flow = .next next ∧ Turn.perform s i t = .ok () v := by
    intro flow v hv
    rw [Turn.exec_of_isStraight hi] at hv
    change EStateM.bind (Turn.perform s i) _ t = _ at hv
    unfold EStateM.bind at hv
    split at hv
    next hperform =>
      cases hv
      exact ⟨rfl,hperform⟩
    next => cases hv
  rcases Machine.advance_going hfetch h with ⟨hgoing,rfl⟩ | ⟨v,k,hleave,-⟩
  · obtain ⟨hflow,hperform⟩ := hexec hgoing
    cases hflow
    exact ⟨rfl,rfl,hperform⟩
  · cases (hexec hleave).1

theorem Machine.not_done_of_straight (hi : i.isStraight = true) {m : Machine} {a : Activation} :
    Machine.advance t s pc ≠ .halted (.done m a) := by
  intro h
  have hexec := (Machine.advance_done hfetch h).1
  rw [Turn.exec_of_isStraight hi] at hexec
  change EStateM.bind (Turn.perform s i) _ t = _ at hexec
  unfold EStateM.bind at hexec
  split at hexec <;> cases hexec

theorem Machine.tickets_going (hi : i.takesTicket = false) (hs : i.stopsAll = false)
    (h : Machine.advance t s pc = .going u r q) : u.machine.tickets = t.machine.tickets :=
  (Machine.effect_of_going hfetch h).1.tickets hi hs

theorem Machine.tickets_done (hi : i.takesTicket = false) (hs : i.stopsAll = false) {m : Machine} {a : Activation}
    (h : Machine.advance t s pc = .halted (.done m a)) : m.tickets = t.machine.tickets :=
   (Turn.effect_of_exec (Machine.advance_done hfetch h).1).1.tickets hi hs

end Advance

theorem Move.of_yield {label : UInt32} (h : Move s next i a b r q) (hi : i = .queue label ∨ i = .forceQueue label) :
    r = s ∧ q = Continuation.pc ⟨s,label⟩ ∧ a.Agrees b := by
  have hlabel : i.label? = some label := by rcases hi with rfl | rfl <;> rfl
  cases h with
  | within hq =>
    rcases hi with rfl | rfl
    · exact hq.elim
    · exact hq.elim
  | label hl hcalls hframe hlocals =>
    obtain rfl := Option.some.inj (hlabel.symm.trans hl)
    exact ⟨rfl,rfl,hcalls,hframe,hlocals⟩
  | enters hcall =>
    subst hcall
    rcases hi with hi | hi <;> cases hi
  | returns hend =>
    rcases hend with rfl | ⟨mode,rfl⟩ <;> cases hlabel

/-- An instruction that lets control go on and does not set locals leaves them and the frame. -/
theorem Move.agrees (h : Move s next i a b r q) (hi : i.isStraight = true) (hsets : i.setsLocals = false) (hsave : i ≠ .save)
    (hrestore : i ≠ .restore) : a.Agrees b := by
  cases h with
  | within _ hcalls hframe hlocals =>
    have hkept : b.frame.saved = a.frame.saved ∧ b.locals = a.locals := by
      cases i with
      | save => exact absurd rfl hsave
      | restore => exact absurd rfl hrestore
      | _ => exact ⟨hlocals.1,hlocals.2 hsets⟩
    refine ⟨hcalls,?_,hkept.2⟩
    rw [hframe,hkept.1]
  | label _ hcalls hframe hlocals => exact ⟨hcalls,hframe,hlocals⟩
  | enters hcall _ _ =>
    subst hcall
    cases hi
  | returns hend _ _ _ _ => rcases hend with rfl | ⟨mode,rfl⟩ <;> cases hi

theorem Builtin.plain_of_isQuery {b : Builtin} (h : b.isQuery = true) : b.setsLocals = false ∧ b.takesTicket = false := by
  cases b with
  | motion a | looks a | sound a | sensing a => cases a <;> first | exact ⟨rfl,rfl⟩ | cases h
  | control _ | pen _ | music _ => exact ⟨rfl,rfl⟩

theorem Instr.plain_of_isQuery {i : Instr} (h : i.isQuery = true) :
    i.setsLocals = false ∧ i.takesTicket = false ∧ i ≠ .save ∧ i ≠ .restore := by
  cases i with
  | builtin id =>
    rw [isQuery] at h
    rw [setsLocals,takesTicket]
    generalize Palette.builtin? id = o at h
    cases o with
    | none => cases h
    | some b =>
      obtain ⟨hsets,htakes⟩ := Builtin.plain_of_isQuery h
      exact ⟨hsets,htakes,by rintro ⟨⟩,by rintro ⟨⟩⟩
  | save | restore | setLocal _ | decLocal _ | broadcastAndWait => cases h
  | _ => exact ⟨rfl,rfl,by rintro ⟨⟩,by rintro ⟨⟩⟩

theorem Locals.get_set_of_ne (l : Locals) {i j : UInt32} (hij : i.toNat ≠ j.toNat) (v : Value) : (l.set i v).get j = l.get j := by
  unfold set
  dsimp only
  split
  · simp only [get,Array.getElem?_setIfInBounds,if_neg hij]
  next hle =>
    simp only [get,Array.getElem?_push,Array.size_append,Array.size_replicate]
    rw [if_neg (by omega)]
    by_cases hj : j.toNat < l.slots.size
    · rw [Array.getElem?_append_left hj]
    · rw [Array.getElem?_eq_none (by omega : l.slots.size ≤ j.toNat),Array.getElem?_append_right (by omega)]
      rw [Array.getElem?_replicate]
      split <;> rfl

theorem Locals.get_set (l : Locals) (i : UInt32) (v : Value) : (l.set i v).get i = v := by
  unfold set
  dsimp only
  split
  next hlt => simp [get,hlt]
  next hle =>
    have hsize : (l.slots ++ Array.replicate (i.toNat - l.slots.size) default).size = i.toNat := by
      simp only [Array.size_append,Array.size_replicate]
      omega
    simp only [get,Array.getElem?_push,hsize,if_true]
    rfl

namespace Polling

/-- What a thread with a ticket knows in the loop, with the turn at a number. -/
inductive Knows (w : Polling) (f : BinaryOperator) (turn ticket : Nat) (stack : List Value) : Nat → Prop
  | poll : Knows w f turn ticket stack w.poll
  | load {rest : List Value} (h : stack = .ofNat turn :: rest) : Knows w f turn ticket stack w.load
  | test {rest : List Value} (h : stack = .ofNat ticket :: .ofNat turn :: rest) : Knows w f turn ticket stack w.test
  | branch {rest : List Value} (h : stack = f.apply (.ofNat turn) (.ofNat ticket) :: rest) :
      Knows w f turn ticket stack w.branch
  | again : Knows w f turn ticket stack w.again

variable {w : Polling} {f : BinaryOperator} {s r : Script} {t u : Turn} {q q' ticket : Nat} {p : Program} {c : Settings}

theorem Knows.going (hw : w.In s f) (h : w.Knows f t.machine.panel.turn ticket t.active.stack q)
    (hl : t.active.locals.get 0 = .ofNat ticket) (hsound : (Phase.turn t s q).Sound p c)
    (hadvance : Machine.advance t s q = .going u r q') :
    r = s ∧ u.active.locals = t.active.locals ∧ u.machine.tickets = t.machine.tickets ∧
      (w.Knows f u.machine.panel.turn ticket u.active.stack q' ∨
        q' = w.exit ∧ (f.apply (.ofNat u.machine.panel.turn) (.ofNat ticket)).toBool = false) := by
  cases h with
  | poll =>
    obtain ⟨id,hfetch,hb⟩ := hw.polls
    obtain ⟨rfl,rfl,hperform⟩ := Machine.advance_straight hfetch rfl hadvance
    change Turn.callBuiltin id t = _ at hperform
    unfold Turn.callBuiltin at hperform
    rw [hb] at hperform
    cases hperform
    exact ⟨rfl,rfl,rfl,.inl (.load rfl)⟩
  | @load rest hstack =>
    obtain ⟨rfl,rfl,hperform⟩ := Machine.advance_straight hw.loads rfl hadvance
    cases hperform
    have hnext : t.active.locals.get 0 :: t.active.stack = .ofNat ticket :: .ofNat t.machine.panel.turn :: rest := by
      rw [hl,hstack]
    exact ⟨rfl,rfl,rfl,.inl (.test hnext)⟩
  | test hstack =>
    obtain ⟨rfl,rfl,hperform⟩ := Machine.advance_straight hw.tests rfl hadvance
    rw [Turn.perform_binary hstack] at hperform
    cases hperform
    exact ⟨rfl,rfl,rfl,.inl (.branch rfl)⟩
  | branch hstack =>
    rcases Machine.advance_going hw.branches hadvance with ⟨hexec,rfl⟩ | ⟨v,k,hexec,-⟩
    · rw [Turn.exec_jumpIf hstack] at hexec
      cases hexec
      refine ⟨rfl,rfl,rfl,?_⟩
      split
      next hfalse => exact .inr ⟨UInt32.toNat_ofNat_of_lt' hw.small,hfalse⟩
      · exact .inl .again
    · rw [Turn.exec_jumpIf hstack] at hexec
      cases hexec
  | again =>
    obtain ⟨label,hfetch,hpc⟩ := hw.yields
    have htickets := Machine.tickets_going hfetch rfl rfl hadvance
    obtain ⟨b,hmove,hlocals⟩ : ∃ b : Activation, Move s w.exit (.forceQueue label) t.active b r q' ∧
        b.locals = u.active.locals := by
      rcases Machine.advance_going hfetch hadvance with ⟨hexec,rfl⟩ | ⟨v,k,hexec,hk,rfl,rfl,rfl⟩
      · exact ⟨_,Turn.Sound.moves hsound hfetch hexec,rfl⟩
      · exact ⟨_,Turn.Sound.moves hsound hfetch hexec k (.inl hk),rfl⟩
    obtain ⟨rfl,rfl,-,-,hkept⟩ := hmove.of_yield (.inr rfl)
    refine ⟨rfl,by rw [← hlocals,hkept],htickets,.inl ?_⟩
    rw [hpc]
    exact .poll

variable {turn : Nat} {stack : List Value}

theorem Knows.done (hw : w.In s f) (h : w.Knows f turn ticket t.active.stack q) (hsound : (Phase.turn t s q).Sound p c)
    {m : Machine} {a : Activation} {k : Continuation} (hadvance : Machine.advance t s q = .halted (.done m a))
    (hk : a.requeue = some k) :
    a.locals = t.active.locals ∧ m.tickets = t.machine.tickets ∧ k.script = s ∧ q = w.again ∧ k.pc = w.poll := by
  cases h with
  | poll =>
    obtain ⟨id,hfetch,-⟩ := hw.polls
    exact absurd hadvance (Machine.not_done_of_straight hfetch rfl)
  | load _ => exact absurd hadvance (Machine.not_done_of_straight hw.loads rfl)
  | test _ => exact absurd hadvance (Machine.not_done_of_straight hw.tests rfl)
  | branch hstack =>
    have hexec := (Machine.advance_done hw.branches hadvance).1
    rw [Turn.exec_jumpIf hstack] at hexec
    cases hexec
  | again =>
    obtain ⟨label,hfetch,hpc⟩ := hw.yields
    have hexec := (Machine.advance_done hfetch hadvance).1
    obtain ⟨hscript,hkpc,-,-,hlocals⟩ := (Turn.Sound.moves hsound hfetch hexec k (.inr hk)).of_yield (.inr rfl)
    exact ⟨hlocals,Machine.tickets_done hfetch rfl rfl hadvance,hscript,rfl,hkpc.trans hpc⟩

theorem Knows.mono (h : w.Knows f turn ticket [] q) (turn' : Nat) : w.Knows f turn' ticket [] q := by
  cases h with
  | poll => exact .poll
  | load h | test h | branch h => cases h
  | again => exact .again

theorem Knows.bounds (hw : w.In s f) (h : w.Knows f turn ticket stack q) : w.poll ≤ q ∧ q < w.exit := by
  obtain ⟨id,hpoll,-⟩ := hw.polls
  obtain ⟨label,hagain,-⟩ := hw.yields
  have h₁ := Script.lt_of_fetch hpoll
  have h₂ := Script.lt_of_fetch hw.loads
  have h₃ := Script.lt_of_fetch hw.tests
  have h₄ := Script.lt_of_fetch hw.branches
  have h₅ := Script.lt_of_fetch hagain
  cases h <;> omega

theorem Knows.plain (hw : w.In s f) {next : Nat} (h : w.Knows f turn ticket stack q) {i : Instr}
    (hfetch : s.fetch q = .ok (i,next)) :
    (∀ slot, i ≠ .setLocal slot) ∧ ∀ id, i = .builtin id → Palette.builtin? id = some (.sensing .currentTicket) := by
  have hother : ∀ {j : Instr} {next' : Nat}, s.fetch q = .ok (j,next') → (∀ slot, j ≠ .setLocal slot) →
      (∀ id, j ≠ .builtin id) → (∀ slot, i ≠ .setLocal slot) ∧
        ∀ id, i = .builtin id → Palette.builtin? id = some (.sensing .currentTicket) := by
    intro j next' hfetch' hset hbuiltin
    rw [hfetch] at hfetch'
    cases hfetch'
    exact ⟨hset,fun id hid => absurd hid (hbuiltin id)⟩
  cases h with
  | poll =>
    obtain ⟨id',hpoll,hb⟩ := hw.polls
    rw [hfetch] at hpoll
    cases hpoll
    refine ⟨nofun,fun id hid => ?_⟩
    cases hid
    exact hb
  | load _ => exact hother hw.loads nofun nofun
  | test _ => exact hother hw.tests nofun nofun
  | branch _ => exact hother hw.branches nofun nofun
  | again =>
    obtain ⟨label,hagain,-⟩ := hw.yields
    exact hother hagain nofun nofun

end Polling

def SparesFirst {α : Type} (x : Exec α) : Prop :=
  ∀ t a u, x t = .ok a u → u.active.locals.get 0 = t.active.locals.get 0

namespace SparesFirst

variable {α β : Type} {x : Exec α}

theorem of_spares (h : Spares x) : SparesFirst x :=
  fun t a u hu => by rw [h t a u hu]

theorem bind {f : α → Exec β} (hx : SparesFirst x) (hf : ∀ a, SparesFirst (f a)) : SparesFirst (x >>= f) := by
  intro t b v h
  change EStateM.bind x f t = .ok b v at h
  unfold EStateM.bind at h
  split at h
  next a u hu => exact (hf a u b v h).trans (hx t a u hu)
  next => cases h

theorem modifyMachine (f : Machine → Machine) : SparesFirst (Turn.modifyMachine f) := by
  intro t a u h
  cases h
  rfl

theorem setNumber {slot : UInt32} (hslot : slot.toNat ≠ (0 : UInt32).toNat) (v : Float) :
    SparesFirst (Turn.setNumber slot v) := by
  intro t a u h
  cases h
  exact t.active.locals.get_set_of_ne hslot _

theorem ask : SparesFirst Turn.ask := by
  have hpop : SparesFirst Turn.popText := of_spares (.of_tame (c := {}) (n := 1) .popText rfl)
  have hown : SparesFirst Turn.own := of_spares (.of_tame (c := {}) (n := 0) .own rfl)
  refine hpop.bind fun question => hown.bind fun target => ?_
  split
  · have hsay : SparesFirst (Turn.sayOwn question false) :=
      of_spares (.of_tame (c := {}) (n := 0) (Mild.sayOwn (i := .pop) _ _).toTame rfl)
    exact hsay.bind fun _ => (setNumber (by decide) _).bind fun _ => (modifyMachine _).bind fun _ => modifyMachine _
  · exact (setNumber (by decide) _).bind fun _ => (modifyMachine _).bind fun _ => modifyMachine _

end SparesFirst

namespace Asking

/-- What a thread knows in the block, and the ticket that it has. -/
inductive Knows (o : Asking) (turn next : Nat) (l : Locals) (stack : List Value) : Nat → Option Nat → Prop
  | take (hl : l = {}) : Knows o turn next l stack o.take none
  | keep {x : Nat} {rest : List Value} (hl : l = {}) (hx : x < next) (hstack : stack = .ofNat x :: rest) :
      Knows o turn next l stack o.keep (some x)
  | ready {x : Nat} (hl : l.get 0 = .ofNat x) (hx : x < next) : Knows o turn next l stack o.ready (some x)
  | wait {x q : Nat} (hl : l.get 0 = .ofNat x) (hx : x < next) (h : o.wait.Knows .less turn x stack q) :
      Knows o turn next l stack q (some x)
  | text {x q : Nat} (hl : l.get 0 = .ofNat x) (hx : x < next) (hle : x ≤ turn) (h : o.text q) :
      Knows o turn next l stack q (some x)
  | answer {x q : Nat} (hl : l.get 0 = .ofNat x) (hx : x < next) (hle : x ≤ turn)
      (h : o.answer.Knows .equals turn x stack q) : Knows o turn next l stack q (some x)
  | ends {x : Nat} (hl : l.get 0 = .ofNat x) (hx : x < next) (hlt : x < turn) :
      Knows o turn next l stack o.answer.exit (some x)
  | leave {x : Nat} (hl : l.get 0 = .ofNat x) (hx : x < next) (hlt : x < turn) : Knows o turn next l stack o.leave (some x)

variable {o : Asking} {s r : Script} {t u : Turn} {q q' : Nat} {ticket : Option Nat} {p : Program} {c : Settings}

/-- A step in the block: what is known afterwards, or that the turn of the ticket has passed. -/
theorem Knows.going (ho : o.In s) (h : o.Knows t.machine.panel.turn t.machine.panel.nextTicket t.active.locals
      t.active.stack q ticket) (hsound : (Phase.turn t s q).Sound p c) (hle : t.machine.panel.turn ≤ t.machine.panel.nextTicket)
    (hfew : t.machine.panel.nextTicket < 2 ^ 53) (hadvance : Machine.advance t s q = .going u r q') :
    r = s ∧ ((q' = o.stop ∧ ∃ x, ticket = some x ∧ x < t.machine.panel.turn) ∨
      ∃ ticket', o.Knows u.machine.panel.turn u.machine.panel.nextTicket u.active.locals u.active.stack q' ticket' ∧
        (ticket' = ticket ∨ ticket = none ∧ ticket' = some t.machine.panel.nextTicket)) := by
  have hwait : ∀ {x : Nat}, t.active.locals.get 0 = .ofNat x → x < t.machine.panel.nextTicket →
      o.wait.Knows .less t.machine.panel.turn x t.active.stack q → r = s ∧ ∃ ticket',
        o.Knows u.machine.panel.turn u.machine.panel.nextTicket u.active.locals u.active.stack q' ticket' ∧
          ticket' = some x := by
    intro x hl hx hknows
    obtain ⟨rfl,hlocals,htickets,hnext⟩ := hknows.going ho.waits hl hsound hadvance
    obtain ⟨hturn,hticket⟩ := Prod.mk.inj htickets
    refine ⟨rfl,some x,?_,rfl⟩
    rw [hlocals,hticket]
    rcases hnext with hnext | ⟨rfl,hfalse⟩
    · exact .wait hl hx hnext
    · -- The turn was not below the ticket.
      refine .text hl hx ?_ ho.begins
      rw [hturn] at hfalse ⊢
      change ((Value.ofNat t.machine.panel.turn).compare (.ofNat x) == .lt) = false at hfalse
      rw [Value.compare_ofNat (by omega) (by omega),decide_eq_false_iff_not] at hfalse
      omega
  have hstays : ∀ {i : Instr} {next : Nat}, s.fetch q = .ok (i,next) → i.isStraight = true → i.setsLocals = false →
      i.takesTicket = false → i ≠ .save → i ≠ .restore → r = s ∧ q' = next ∧
        u.active.locals = t.active.locals ∧ u.machine.panel.turn = t.machine.panel.turn ∧
        u.machine.panel.nextTicket = t.machine.panel.nextTicket := by
    intro i next hfetch hi hsets htakes hsave hrestore
    obtain ⟨rfl,rfl,-⟩ := Machine.advance_straight hfetch hi hadvance
    have hstops : i.stopsAll = false := by
      cases i with
      | stop mode => cases hi
      | _ => rfl
    obtain ⟨hturn,hticket⟩ := Prod.mk.inj (Machine.tickets_going hfetch htakes hstops hadvance)
    refine ⟨rfl,rfl,?_,hturn,hticket⟩
    rcases Machine.advance_going hfetch hadvance with ⟨hexec,-⟩ | ⟨v,k,hexec,hk,rfl,-,-⟩
    · exact (Turn.Sound.moves hsound hfetch hexec).agrees hi hsets hsave hrestore |>.locals
    · exact (Turn.Sound.moves hsound hfetch hexec k (.inl hk)).agrees hi hsets hsave hrestore |>.locals
  cases h with
  | take hl =>
    obtain ⟨id,hfetch,hb⟩ := ho.takes
    obtain ⟨rfl,rfl,hperform⟩ := Machine.advance_straight hfetch rfl hadvance
    change Turn.callBuiltin id t = _ at hperform
    unfold Turn.callBuiltin at hperform
    rw [hb] at hperform
    cases hperform
    exact ⟨rfl,.inr ⟨_,.keep hl (Nat.lt_succ_self _) rfl,.inr ⟨rfl,rfl⟩⟩⟩
  | keep hl hx hstack =>
    obtain ⟨rfl,rfl,hperform⟩ := Machine.advance_straight ho.keeps rfl hadvance
    simp only [Turn.perform,bind,EStateM.bind,Turn.pop_cons hstack] at hperform
    cases hperform
    exact ⟨rfl,.inr ⟨_,.ready (Locals.get_set _ _ _) hx,.inl rfl⟩⟩
  | ready hl hx =>
    rcases ho.settles with heq | ⟨w,hfetch⟩
    · obtain ⟨hr,ticket',hknows,rfl⟩ := hwait hl hx (by rw [heq]; exact .poll)
      exact ⟨hr,.inr ⟨_,hknows,.inl rfl⟩⟩
    · obtain ⟨hr,rfl,hlocals,hturn,hticket⟩ := hstays hfetch rfl rfl rfl (by rintro ⟨⟩) (by rintro ⟨⟩)
      refine ⟨hr,.inr ⟨_,?_,.inl rfl⟩⟩
      rw [hlocals,hticket]
      exact .wait hl hx .poll
  | wait hl hx hknows =>
    obtain ⟨hr,ticket',hknows,rfl⟩ := hwait hl hx hknows
    exact ⟨hr,.inr ⟨_,hknows,.inl rfl⟩⟩
  | text hl hx hturned htext =>
    rcases ho.computes htext with rfl | ⟨i,next,hfetch,hi,htext'⟩
    · obtain ⟨id,hfetch,hb⟩ := ho.asks
      have htakes : (Instr.builtin id).takesTicket = false := by
        rw [Instr.takesTicket,hb]
        rfl
      obtain ⟨hturn,hticket⟩ := Prod.mk.inj (Machine.tickets_going hfetch htakes rfl hadvance)
      obtain ⟨rfl,rfl,hperform⟩ := Machine.advance_straight hfetch rfl hadvance
      change Turn.callBuiltin id t = _ at hperform
      unfold Turn.callBuiltin at hperform
      rw [hb] at hperform
      refine ⟨rfl,.inr ⟨_,.answer ((SparesFirst.ask t () u hperform).trans hl) ?_ ?_ .poll,.inl rfl⟩⟩
      · rw [hticket]
        exact hx
      · rw [hturn]
        exact hturned
    · obtain ⟨hsets,htakes,hsave,hrestore⟩ := Instr.plain_of_isQuery hi
      obtain ⟨hr,rfl,hlocals,hturn,hticket⟩ := hstays hfetch (Instr.isStraight_of_isQuery hi) hsets htakes hsave hrestore
      refine ⟨hr,.inr ⟨_,?_,.inl rfl⟩⟩
      rw [hlocals,hticket,hturn]
      exact .text hl hx hturned htext'
  | answer hl hx hturned hknows =>
    obtain ⟨rfl,hlocals,htickets,hnext⟩ := hknows.going ho.answers hl hsound hadvance
    obtain ⟨hturn,hticket⟩ := Prod.mk.inj htickets
    refine ⟨rfl,.inr ⟨_,?_,.inl rfl⟩⟩
    rw [hlocals,hticket]
    rw [hturn] at hnext ⊢
    rcases hnext with hnext | ⟨rfl,hfalse⟩
    · exact .answer hl hx hturned hnext
    · -- The turn is no longer that of the ticket.
      refine .ends hl hx ?_
      change (Value.ofNat t.machine.panel.turn).equal (.ofNat _) = false at hfalse
      rw [Value.equal_ofNat (by omega) (by omega),decide_eq_false_iff_not] at hfalse
      omega
  | ends hl hx hlt =>
    obtain ⟨id,hfetch,hb⟩ := ho.ends
    have hsets : (Instr.builtin id).setsLocals = false := by
      rw [Instr.setsLocals,hb]
      rfl
    have htakes : (Instr.builtin id).takesTicket = false := by
      rw [Instr.takesTicket,hb]
      rfl
    obtain ⟨hr,rfl,hlocals,hturn,hticket⟩ := hstays hfetch rfl hsets htakes (by rintro ⟨⟩) (by rintro ⟨⟩)
    refine ⟨hr,.inr ⟨_,?_,.inl rfl⟩⟩
    rw [hlocals,hticket,hturn]
    exact .leave hl hx hlt
  | leave hl hx hlt =>
    obtain ⟨hr,rfl,-⟩ := Machine.advance_straight ho.restores rfl hadvance
    exact ⟨hr,.inl ⟨rfl,_,rfl,hlt⟩⟩

/-- A thread that yields in the block does so in one of its loops, and knows the same when it is taken up. -/
theorem Knows.done (ho : o.In s) {turn next : Nat} (h : o.Knows turn next t.active.locals t.active.stack q ticket)
    (hsound : (Phase.turn t s q).Sound p c) {m : Machine} {a : Activation} {k : Continuation}
    (hadvance : Machine.advance t s q = .halted (.done m a)) (hk : a.requeue = some k) :
    m.tickets = t.machine.tickets ∧ k.script = s ∧ o.Knows turn next a.locals [] k.pc ticket ∧
      (q = o.wait.again ∧ k.pc = o.wait.poll ∨ k.pc = o.answer.poll) := by
  have hstraight : ∀ {i : Instr} {next' : Nat} {P : Prop}, s.fetch q = .ok (i,next') → i.isStraight = true → P :=
    fun hfetch hi => absurd hadvance (Machine.not_done_of_straight hfetch hi)
  have hwait : ∀ {x : Nat}, t.active.locals.get 0 = .ofNat x → x < next → o.wait.Knows .less turn x t.active.stack q →
      m.tickets = t.machine.tickets ∧ k.script = s ∧ o.Knows turn next a.locals [] k.pc (some x) ∧
        (q = o.wait.again ∧ k.pc = o.wait.poll ∨ k.pc = o.answer.poll) := by
    intro x hl hx hknows
    obtain ⟨hlocals,htickets,hscript,hq,hpc⟩ := hknows.done ho.waits hsound hadvance hk
    exact ⟨htickets,hscript,.wait (by rw [hlocals,hl]) hx (by rw [hpc]; exact .poll),.inl ⟨hq,hpc⟩⟩
  cases h with
  | take hl =>
    obtain ⟨id,hfetch,-⟩ := ho.takes
    exact hstraight hfetch rfl
  | keep hl hx hstack => exact hstraight ho.keeps rfl
  | ready hl hx =>
    rcases ho.settles with heq | ⟨w,hfetch⟩
    · exact hwait hl hx (by rw [heq]; exact .poll)
    · exact hstraight hfetch rfl
  | wait hl hx hknows => exact hwait hl hx hknows
  | text hl hx hturned htext =>
    rcases ho.computes htext with rfl | ⟨i,next',hfetch,hi,-⟩
    · obtain ⟨id,hfetch,-⟩ := ho.asks
      exact hstraight hfetch rfl
    · exact hstraight hfetch (Instr.isStraight_of_isQuery hi)
  | answer hl hx hturned hknows =>
    obtain ⟨hlocals,htickets,hscript,-,hpc⟩ := hknows.done ho.answers hsound hadvance hk
    exact ⟨htickets,hscript,.answer (by rw [hlocals,hl]) hx hturned (by rw [hpc]; exact .poll),.inr hpc⟩
  | ends hl hx hlt =>
    obtain ⟨id,hfetch,-⟩ := ho.ends
    exact hstraight hfetch rfl
  | leave hl hx hlt => exact hstraight ho.restores rfl

variable {turn next : Nat} {l : Locals} {stack : List Value}

theorem Knows.mono (h : o.Knows turn next l [] q ticket) {turn' next' : Nat} (hturn : turn ≤ turn') (hnext : next ≤ next') :
    o.Knows turn' next' l [] q ticket := by
  cases h with
  | take hl => exact .take hl
  | keep hl hx hstack => cases hstack
  | ready hl hx => exact .ready hl (by omega)
  | wait hl hx h => exact .wait hl (by omega) (h.mono turn')
  | text hl hx hle h => exact .text hl (by omega) (by omega) h
  | answer hl hx hle h => exact .answer hl (by omega) (by omega) (h.mono turn')
  | ends hl hx hlt => exact .ends hl (by omega) (by omega)
  | leave hl hx hlt => exact .leave hl (by omega) (by omega)

theorem Knows.value (h : o.Knows turn next l stack q ticket) :
    (ticket = none ∧ q = o.take ∧ l = {}) ∨
      ∃ x, ticket = some x ∧ x < next ∧ (l.get 0 = .ofNat x ∨ q = o.keep ∧ l = {} ∧ stack.head? = some (.ofNat x)) := by
  cases h with
  | take hl => exact .inl ⟨rfl,rfl,hl⟩
  | keep hl hx hstack => exact .inr ⟨_,rfl,hx,.inr ⟨rfl,hl,by rw [hstack]; rfl⟩⟩
  | ready hl hx | wait hl hx _ | text hl hx _ _ | answer hl hx _ _ | ends hl hx _ | leave hl hx _ =>
    exact .inr ⟨_,rfl,hx,.inl hl⟩

theorem ofNat_ne_get_empty (x : Nat) : Locals.get {} 0 ≠ .ofNat x := nofun

theorem Knows.unique (ho : o.In s) (hfew : next < 2 ^ 53) {ticket' : Option Nat} (h : o.Knows turn next l stack q ticket)
    (h' : o.Knows turn next l stack q ticket') : ticket = ticket' := by
  have hapart : q = o.take → q ≠ o.keep := by
    rintro rfl hkeep
    obtain ⟨id,hfetch,-⟩ := ho.takes
    rw [hkeep,ho.keeps] at hfetch
    cases hfetch
  rcases h.value with ⟨rfl,htake,hl⟩ | ⟨x,rfl,hx,hvalue⟩ <;> rcases h'.value with ⟨rfl,htake',hl'⟩ | ⟨y,rfl,hy,hvalue'⟩
  · rfl
  · rcases hvalue' with hget | ⟨hkeep,-⟩
    · rw [hl] at hget
      exact absurd hget (ofNat_ne_get_empty y)
    · exact absurd hkeep (hapart htake)
  · rcases hvalue with hget | ⟨hkeep,-⟩
    · rw [hl'] at hget
      exact absurd hget (ofNat_ne_get_empty x)
    · exact absurd hkeep (hapart htake')
  · refine congrArg some (Value.ofNat_inj (by omega) (by omega) ?_)
    rcases hvalue with hget | ⟨-,hl,hhead⟩ <;> rcases hvalue' with hget' | ⟨-,hl',hhead'⟩
    · rw [← hget,hget']
    · rw [hl'] at hget
      exact absurd hget (ofNat_ne_get_empty x)
    · rw [hl] at hget'
      exact absurd hget' (ofNat_ne_get_empty y)
    · exact Option.some.inj (hhead.symm.trans hhead')

theorem Knows.inside (ho : o.In s) (h : o.Knows turn next l stack q ticket) : o.start < q ∧ q < o.stop := by
  obtain ⟨id₁,htake,-⟩ := ho.takes
  obtain ⟨id₂,hask,-⟩ := ho.asks
  obtain ⟨id₃,hends,-⟩ := ho.ends
  have h₀ := Script.lt_of_fetch ho.saves
  have h₁ := Script.lt_of_fetch htake
  have h₂ := Script.lt_of_fetch ho.keeps
  have h₃ := Script.lt_of_fetch hask
  have h₄ := Script.lt_of_fetch hends
  have h₅ := Script.lt_of_fetch ho.restores
  have h₆ := (Polling.Knows.poll : o.wait.Knows .less 0 0 [] _).bounds ho.waits
  have h₇ := (Polling.Knows.poll : o.answer.Knows .equals 0 0 [] _).bounds ho.answers
  have h₈ := ho.bounded ho.begins
  have h₉ : o.ready ≤ o.wait.poll := by
    rcases ho.settles with heq | ⟨w,hfetch⟩
    · exact Nat.le_of_eq heq
    · exact Nat.le_of_lt (Script.lt_of_fetch hfetch)
  cases h with
  | wait _ _ h =>
    have := h.bounds ho.waits
    omega
  | text _ _ _ h =>
    have := ho.bounded h
    omega
  | answer _ _ _ h =>
    have := h.bounds ho.answers
    omega
  | _ => omega

theorem Knows.asks (ho : o.In s) (h : o.Knows turn next l stack q ticket) {id : UInt32} {next' : Nat}
    (hfetch : s.fetch q = .ok (.builtin id,next')) (hb : Palette.builtin? id = some (.sensing .ask)) :
    ∃ x, ticket = some x ∧ x < next ∧ x ≤ turn ∧ q ≤ o.ask := by
  have hother : ∀ {id' : UInt32} {next₂ : Nat} {a : SensingAction} {P : Prop}, s.fetch q = .ok (.builtin id',next₂) →
      Palette.builtin? id' = some (.sensing a) → a ≠ .ask → P := by
    intro id' next₂ a P hfetch' hb' hne
    rw [hfetch] at hfetch'
    cases hfetch'
    rw [hb] at hb'
    cases hb'
    exact absurd rfl hne
  have hinstr : ∀ {i : Instr} {next₂ : Nat} {P : Prop}, s.fetch q = .ok (i,next₂) → i ≠ .builtin id → P := by
    intro i next₂ P hfetch' hne
    rw [hfetch] at hfetch'
    cases hfetch'
    exact absurd rfl hne
  have hpolls : ∀ {w : Polling} {f : BinaryOperator} {x : Nat} {P : Prop}, w.In s f → w.Knows f turn x stack q → P := by
    intro w f x P hw hknows
    have hturn := (hknows.plain hw hfetch).2 id rfl
    rw [hb] at hturn
    cases hturn
  cases h with
  | take hl =>
    obtain ⟨id',hfetch',hb'⟩ := ho.takes
    exact hother hfetch' hb' nofun
  | keep hl hx hstack => exact hinstr ho.keeps nofun
  | @ready x hl hx =>
    rcases ho.settles with heq | ⟨w,hfetch'⟩
    · rw [heq] at hpolls
      exact hpolls (x := x) ho.waits .poll
    · exact hinstr hfetch' nofun
  | wait hl hx h => exact hpolls ho.waits h
  | text hl hx hle h => exact ⟨_,rfl,hx,hle,(ho.bounded h).2⟩
  | answer hl hx hle h => exact hpolls ho.answers h
  | ends hl hx hlt =>
    obtain ⟨id',hfetch',hb'⟩ := ho.ends
    exact hother hfetch' hb' nofun
  | leave hl hx hlt => exact hinstr ho.restores nofun

theorem Knows.keeps (ho : o.In s) (h : o.Knows turn next l stack q ticket) {slot : UInt32} {next' : Nat}
    (hfetch : s.fetch q = .ok (.setLocal slot,next')) : q = o.keep ∧ l = {} := by
  have hinstr : ∀ {i : Instr} {next₂ : Nat} {P : Prop}, s.fetch q = .ok (i,next₂) → i ≠ .setLocal slot → P := by
    intro i next₂ P hfetch' hne
    rw [hfetch] at hfetch'
    cases hfetch'
    exact absurd rfl hne
  have hpolls : ∀ {w : Polling} {f : BinaryOperator} {x : Nat} {P : Prop}, w.In s f → w.Knows f turn x stack q → P :=
    fun hw hknows => absurd rfl ((hknows.plain hw hfetch).1 slot)
  cases h with
  | take hl =>
    obtain ⟨id,hfetch',-⟩ := ho.takes
    exact hinstr hfetch' nofun
  | keep hl hx hstack => exact ⟨rfl,hl⟩
  | @ready x hl hx =>
    rcases ho.settles with heq | ⟨w,hfetch'⟩
    · rw [heq] at hpolls
      exact hpolls (x := x) ho.waits .poll
    · exact hinstr hfetch' nofun
  | wait hl hx h => exact hpolls ho.waits h
  | text hl hx hle h =>
    rcases ho.computes h with rfl | ⟨i,next₂,hfetch',hi,-⟩
    · obtain ⟨id,hfetch',-⟩ := ho.asks
      exact hinstr hfetch' nofun
    · refine hinstr hfetch' ?_
      rintro rfl
      cases hi
  | answer hl hx hle h => exact hpolls ho.answers h
  | ends hl hx hlt =>
    obtain ⟨id,hfetch',-⟩ := ho.ends
    exact hinstr hfetch' nofun
  | leave hl hx hlt => exact hinstr ho.restores nofun

end Asking

end SpriteMachine
