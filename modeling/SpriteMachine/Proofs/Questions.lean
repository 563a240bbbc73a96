import SpriteMachine.Proofs.Arrivals
import SpriteMachine.Proofs.Asking

/-!
Questions are answered in order. A thread that asks takes a ticket, and no two threads have the same one; it puts up
its question when it is the turn of its ticket, and goes on after its question was answered.
-/

namespace SpriteMachine

/-! What becomes of the tickets while a thread goes on -/

/-- Whether the instruction at an offset stops all threads. -/
def Script.stopsAllAt (s : Script) (pc : Nat) : Bool :=
  match s.fetch pc with
  | .ok (i,_) => i.stopsAll
  | .error _ => false

theorem Script.stopsAllAt_of_fetch {s : Script} {pc next : Nat} {i : Instr} (h : s.fetch pc = .ok (i,next)) :
    s.stopsAllAt pc = i.stopsAll := by
  unfold stopsAllAt
  rw [h]

theorem Instr.eq_stop {i : Instr} (h : i.stopsAll = true) : ∃ mode, i = .stop mode ∧ StopMode.ofWord? mode = some .all := by
  cases i with
  | stop mode => exact ⟨mode,rfl,by simpa [stopsAll] using h⟩
  | _ => cases h

theorem Instr.eq_takeTicket {i : Instr} (h : i.takesTicket = true) :
    ∃ id, i = .builtin id ∧ Palette.builtin? id = some (.sensing .takeTicket) := by
  cases i with
  | builtin id =>
    refine ⟨id,rfl,?_⟩
    rw [takesTicket] at h
    generalize Palette.builtin? id = b at h
    obtain ⟨b,rfl,hb⟩ := (Option.any_eq_true _ _).1 h
    unfold Builtin.takesTicket at hb
    split at hb
    · rfl
    · cases hb
  | _ => cases h

section Tickets

variable {p : Program} {c : Settings} {o : Option Nat} {t u : Turn} {s r : Script} {pc q : Nat} {m : Machine}

variable {a : Activation}

theorem Machine.fetch_of_done (h : advance t s pc = .halted (.done m a)) : ∃ i next, s.fetch pc = .ok (i,next) := by
  unfold advance at h
  split at h
  · cases h
  next i next hfetch => exact ⟨i,next,hfetch⟩

theorem Machine.grows_going (hsound : t.Sound p c o s pc) (hadvance : advance t s pc = .going u r q) :
    s.stopsAllAt pc = false ∧ u.machine.panel.turn = t.machine.panel.turn ∧
      t.machine.panel.nextTicket ≤ u.machine.panel.nextTicket := by
  obtain ⟨i,next,hfetch⟩ := fetch_of_going hadvance
  have hstops : i.stopsAll = false := by
    rw [← Bool.not_eq_true]
    intro hstops
    obtain ⟨mode,rfl,hmode⟩ := Instr.eq_stop hstops
    have hexec : Turn.exec s next (.stop mode) t = Turn.stop (some .all) next t := by rw [← hmode]; rfl
    obtain ⟨σ,hrunning,-⟩ := hsound
    rcases advance_going hfetch hadvance with ⟨hgoing,-⟩ | ⟨v,k,hleave,hk,-⟩
    · rw [hexec,Turn.stop_all] at hgoing
      cases hgoing
    · rw [hexec,Turn.stop_all] at hleave
      cases hleave
      exact absurd (hk.symm.trans hrunning.immediate) nofun
  refine ⟨(Script.stopsAllAt_of_fetch hfetch).trans hstops,?_⟩
  cases htakes : i.takesTicket with
  | false =>
    obtain ⟨hturn,hnext⟩ := Prod.mk.inj (tickets_going hfetch htakes hstops hadvance)
    exact ⟨hturn,Nat.le_of_eq hnext.symm⟩
  | true =>
    obtain ⟨id,rfl,hb⟩ := Instr.eq_takeTicket htakes
    obtain ⟨-,-,hperform⟩ := advance_straight hfetch rfl hadvance
    change Turn.callBuiltin id t = _ at hperform
    unfold Turn.callBuiltin at hperform
    rw [hb] at hperform
    cases hperform
    exact ⟨rfl,Nat.le_succ _⟩

theorem Machine.tickets_halt (hsound : t.Sound p c o s pc) (hadvance : advance t s pc = .halted (.done m a)) :
    (s.stopsAllAt pc = true ∧ m = t.machine.stopAll ∧ a.requeue = none) ∨
      (s.stopsAllAt pc = false ∧ m.tickets = t.machine.tickets) := by
  obtain ⟨i,next,hfetch⟩ := fetch_of_done hadvance
  rw [Script.stopsAllAt_of_fetch hfetch]
  cases hstops : i.stopsAll with
  | true =>
    obtain ⟨mode,rfl,hmode⟩ := Instr.eq_stop hstops
    have hexec : Turn.exec s next (.stop mode) t = Turn.stop (some .all) next t := by rw [← hmode]; rfl
    obtain ⟨σ,hrunning,-⟩ := hsound
    have hdone := (advance_done hfetch hadvance).1
    rw [hexec,Turn.stop_all] at hdone
    cases hdone
    exact .inl ⟨rfl,rfl,hrunning.requeue⟩
  | false =>
    refine .inr ⟨rfl,tickets_done hfetch ?_ hstops hadvance⟩
    rw [← Bool.not_eq_true]
    intro htakes
    obtain ⟨id,rfl,-⟩ := Instr.eq_takeTicket htakes
    exact not_done_of_straight hfetch rfl hadvance

theorem Machine.fault_keeps {f : Fault} (hsound : t.Sound p c o s pc) (hadvance : advance t s pc = .halted (.fault m f)) :
    s.stopsAllAt pc = false ∧ m = t.machine := by
  unfold advance at hadvance
  split at hadvance
  next f' hfetch =>
    cases hadvance
    exact ⟨by unfold Script.stopsAllAt; rw [hfetch],rfl⟩
  next i next hfetch =>
    split at hadvance
    next f' v hexec =>
      cases hadvance
      refine ⟨?_,Turn.Sound.machine_of_error hsound hfetch hexec⟩
      rw [Script.stopsAllAt_of_fetch hfetch,← Bool.not_eq_true]
      intro hstops
      obtain ⟨mode,rfl,hmode⟩ := Instr.eq_stop hstops
      have heq : Turn.exec s next (.stop mode) t = Turn.stop (some .all) next t := by rw [← hmode]; rfl
      rw [heq,Turn.stop_all] at hexec
      cases hexec
    · cases hadvance
    · split at hadvance <;> cases hadvance

theorem Machine.renews_going (hadvance : advance t s pc = .going u r q) : t.machine.Renews u.machine := by
  obtain ⟨i,next,hfetch⟩ := fetch_of_going hadvance
  exact (effect_of_going hfetch hadvance).1.renews

theorem Machine.renews_done (hadvance : advance t s pc = .halted (.done m a)) : t.machine.Renews m := by
  obtain ⟨i,next,hfetch⟩ := fetch_of_done hadvance
  exact (effect_of_halted hfetch hadvance rfl).renews

theorem Machine.move_going (hsound : t.Sound p c o s pc) (hadvance : advance t s pc = .going u r q) :
    ∃ i next, s.fetch pc = .ok (i,next) ∧ Move s next i t.active u.active r q := by
  obtain ⟨i,next,hfetch⟩ := fetch_of_going hadvance
  refine ⟨i,next,hfetch,?_⟩
  rcases advance_going hfetch hadvance with ⟨hexec,rfl⟩ | ⟨v,k,hexec,hk,rfl,rfl,rfl⟩
  · exact Turn.Sound.moves hsound hfetch hexec
  · exact (Turn.Sound.moves hsound hfetch hexec k (.inl hk)).congr ⟨rfl,rfl,rfl⟩ ⟨rfl,rfl,rfl⟩

theorem Machine.move_done {k : Continuation} (hsound : t.Sound p c o s pc) (hadvance : advance t s pc = .halted (.done m a))
    (hk : a.requeue = some k) : ∃ i next, s.fetch pc = .ok (i,next) ∧ Move s next i t.active a k.script k.pc := by
  obtain ⟨i,next,hfetch⟩ := fetch_of_done hadvance
  exact ⟨i,next,hfetch,Turn.Sound.moves hsound hfetch (advance_done hfetch hadvance).1 k (.inr hk)⟩

end Tickets

/-! What threads know -/

def Thread.Wakes (t : Thread) (a : Activation) (k : Continuation) : Prop :=
  ∃ i, Activation.ofThread i t = .ok a ∧ a.immediate = some k

/-- In the code of a block that asks, a thread knows how its ticket stands. -/
def Machine.Informs (m : Machine) (a : Activation) (s : Script) (pc : Nat) : Prop :=
  ∀ o : Asking, o.In s → o.start < pc → pc < o.stop →
    ∃ ticket, o.Knows m.panel.turn m.panel.nextTicket a.locals a.stack pc ticket

def Activation.Carries (a : Activation) (s : Script) (pc x : Nat) : Prop :=
  ∃ o : Asking, o.In s ∧ o.start < pc ∧ pc < o.stop ∧
    (a.locals.get 0 = .ofNat x ∨ pc = o.keep ∧ a.locals = {} ∧ a.stack.head? = some (.ofNat x))

def Machine.Alone (m : Machine) (b : Activation) (s : Script) (pc : Nat) : Prop :=
  ∀ {x : Nat} {t : Thread} {a : Activation} {k : Continuation}, b.Carries s pc x → m.Live t → t.Wakes a k →
    ¬ a.Carries k.script k.pc x

section Knowledge

variable {m m' : Machine} {a b : Activation} {s r : Script} {pc next q : Nat} {i : Instr} {t : Thread} {k : Continuation}
  {o : Asking}

theorem Thread.Wakes.stack (h : t.Wakes a k) : a.stack = [] := by
  obtain ⟨i,hload,-⟩ := h
  unfold Activation.ofThread at hload
  split at hload
  · cases hload
  · split at hload
    · cases hload
    · cases hload
      rfl

theorem Thread.Wakes.of_start {id : Nat} (h : (Thread.start id s).Wakes a k) :
    k = s.entry ∧ ∀ f ∈ a.frame :: a.calls, f.ret = none := by
  obtain ⟨i,hload,hk⟩ := h
  cases hload
  cases hk
  exact ⟨rfl,List.forall_mem_singleton.2 rfl⟩

theorem Activation.wakes_toThread {k' : Continuation} (h : (a.toThread k).Wakes b k') :
    k' = k ∧ b.locals = a.locals ∧ b.stack = [] ∧ b.frame = a.frame ∧ b.calls = a.calls := by
  obtain ⟨i,hload,hk⟩ := h
  cases hload
  cases hk
  exact ⟨rfl,rfl,rfl,rfl,rfl⟩

theorem Machine.informs_entry (m : Machine) (a : Activation) (s : Script) : m.Informs a s s.entry.pc := by
  intro o ho hstart _
  exact absurd ho.shut.entry (Nat.not_le_of_lt hstart)

theorem Activation.not_carries_entry (a : Activation) (s : Script) (x : Nat) : ¬ a.Carries s s.entry.pc x := by
  rintro ⟨o,ho,hstart,-⟩
  exact absurd ho.shut.entry (Nat.not_le_of_lt hstart)

theorem Machine.Informs.grows (h : m.Informs a s pc) (hstack : a.stack = []) (hturn : m.panel.turn ≤ m'.panel.turn)
    (hnext : m.panel.nextTicket ≤ m'.panel.nextTicket) : m'.Informs a s pc := by
  intro o ho hstart hstop
  obtain ⟨ticket,hknows⟩ := h o ho hstart hstop
  rw [hstack] at hknows ⊢
  exact ⟨ticket,hknows.mono hturn hnext⟩

theorem Activation.Carries.congr {x y : Nat} (h : a.Carries s pc x) (heq : Value.ofNat x = .ofNat y) : a.Carries s pc y := by
  unfold Carries at h
  rw [heq] at h
  exact h

theorem Asking.Knows.carries {turn next x : Nat} (h : o.Knows turn next a.locals a.stack pc (some x)) (ho : o.In s) :
    a.Carries s pc x := by
  obtain ⟨hstart,hstop⟩ := h.inside ho
  rcases h.value with ⟨hnone,-⟩ | ⟨y,hy,-,hvalue⟩
  · cases hnone
  · cases hy
    exact ⟨o,ho,hstart,hstop,hvalue⟩

theorem Activation.Carries.knows {x : Nat} (h : a.Carries s pc x) (hinforms : m.Informs a s pc) :
    ∃ o y, Asking.In o s ∧ o.Knows m.panel.turn m.panel.nextTicket a.locals a.stack pc (some y) ∧
      y < m.panel.nextTicket ∧ Value.ofNat x = .ofNat y := by
  obtain ⟨o,ho,hstart,hstop,hx⟩ := h
  obtain ⟨ticket,hknows⟩ := hinforms o ho hstart hstop
  rcases hknows.value with ⟨rfl,htake,hl⟩ | ⟨y,rfl,hy,hvalue⟩
  · rcases hx with hget | ⟨hkeep,-⟩
    · rw [hl] at hget
      exact absurd hget (Asking.ofNat_ne_get_empty x)
    · obtain ⟨id,hfetch,-⟩ := ho.takes
      rw [← htake,hkeep,ho.keeps] at hfetch
      cases hfetch
  · refine ⟨o,y,ho,hknows,hy,?_⟩
    rcases hx with hget | ⟨-,hl,hhead⟩ <;> rcases hvalue with hget' | ⟨-,hl',hhead'⟩
    · rw [← hget,hget']
    · rw [hl'] at hget
      exact absurd hget (Asking.ofNat_ne_get_empty x)
    · rw [hl] at hget'
      exact absurd hget' (Asking.ofNat_ne_get_empty y)
    · exact Option.some.inj (hhead.symm.trans hhead')

theorem Asking.In.arrives (ho : o.In r) (hsited : Sited (a.frame :: a.calls) s pc) (hfetch : s.fetch pc = .ok (i,next))
    (hmove : Move s next i a b r q) (hstart : o.start < q) (hstop : q < o.stop) : s = r ∧ o.start ≤ pc ∧ pc < o.stop := by
  by_contra hout
  have hstays := ho.shut.stays_out hsited (fun heq => by
    by_contra hin
    exact hout ⟨heq,by omega,by omega⟩) hfetch hmove
  omega

end Knowledge

/-! Every thread knows how its ticket stands, and has its own -/

/-- A machine whose threads ask in order, after a number of answers. -/
structure Machine.Fair (n : Nat) (m : Machine) : Prop where
  count : m.panel.turn = n
  issued : m.panel.turn ≤ m.panel.nextTicket
  sited : ∀ {t : Thread} {a : Activation} {k : Continuation}, m.Live t → t.Wakes a k →
    Sited (a.frame :: a.calls) k.script k.pc
  informs : m.panel.nextTicket < 2 ^ 53 → ∀ {t : Thread} {a : Activation} {k : Continuation}, m.Live t → t.Wakes a k →
    m.Informs a k.script k.pc
  apart : m.panel.nextTicket < 2 ^ 53 → ∀ {t t' : Thread} {a a' : Activation} {k k' : Continuation} {x : Nat},
    m.Live t → t.Wakes a k → m.Live t' → t'.Wakes a' k' → a.Carries k.script k.pc x → a'.Carries k'.script k'.pc x →
      t.target = t'.target ∧ t.base = t'.base

/-- A turn in such a machine, of a thread at an offset of a script. -/
structure Turn.Fair (n : Nat) (t : Turn) (s : Script) (pc : Nat) : Prop where
  machine : t.machine.Fair n
  sited : Sited (t.active.frame :: t.active.calls) s pc
  informs : t.machine.panel.nextTicket < 2 ^ 53 → t.machine.Informs t.active s pc
  alone : t.machine.panel.nextTicket < 2 ^ 53 → t.machine.Alone t.active s pc

def Phase.Fair (n : Nat) : Phase → Prop
  | .idle m | .frame m => m.Fair n
  | .turn t s pc => t.Fair n s pc

namespace Machine

variable {m m' : Machine} {n : Nat}

/-- Threads that were in the queue are as before when tickets are given out and questions are answered. -/
theorem Fair.grows (h : m.Fair n) (hbrings : m.Brings m') (hturn : m.panel.turn ≤ m'.panel.turn)
    (hnext : m.panel.nextTicket ≤ m'.panel.nextTicket) (hissued : m'.panel.turn ≤ m'.panel.nextTicket) :
    m'.Fair m'.panel.turn where
  count := rfl
  issued := hissued
  sited {t a k} ht hwakes := by
    rcases hbrings t ht with ht | ⟨id,s,rfl⟩
    · exact h.sited ht hwakes
    · obtain ⟨rfl,hret⟩ := hwakes.of_start
      exact .entry hret s
  informs hfew {t a k} ht hwakes := by
    rcases hbrings t ht with ht | ⟨id,s,rfl⟩
    · exact (h.informs (by omega) ht hwakes).grows hwakes.stack hturn hnext
    · obtain ⟨rfl,-⟩ := hwakes.of_start
      exact m'.informs_entry a s
  apart hfew {t t' a a' k k' x} ht hwakes ht' hwakes' hx hx' := by
    have hold : ∀ {t : Thread} {a : Activation} {k : Continuation}, m'.Live t → t.Wakes a k →
        a.Carries k.script k.pc x → m.Live t := by
      intro t a k ht hwakes hx
      refine (hbrings t ht).resolve_right ?_
      rintro ⟨id,s,rfl⟩
      obtain ⟨rfl,-⟩ := hwakes.of_start
      exact a.not_carries_entry s x hx
    exact h.apart (by omega) (hold ht hwakes hx) hwakes (hold ht' hwakes' hx') hwakes' hx hx'

theorem Fair.keeps (h : m.Fair n) (hbrings : m.Brings m') (htickets : m'.tickets = m.tickets) : m'.Fair n := by
  obtain ⟨hturn,hnext⟩ := Prod.mk.inj htickets
  have hgrows := h.grows hbrings (Nat.le_of_eq hturn.symm) (Nat.le_of_eq hnext.symm) (by rw [hturn,hnext]; exact h.issued)
  rw [hturn,h.count] at hgrows
  exact hgrows

theorem fair_stopAll (m : Machine) : m.stopAll.Fair 0 := by
  obtain ⟨hturn,hnext⟩ := Prod.mk.inj m.tickets_stopAll
  exact {
    count := hturn
    issued := Nat.le_of_eq (hturn.trans hnext.symm)
    sited := fun ht => absurd ht (m.not_live_stopAll _)
    informs := fun _ _ _ _ ht => absurd ht (m.not_live_stopAll _)
    apart := fun _ _ _ _ _ _ _ _ ht => absurd ht (m.not_live_stopAll _) }

end Machine

namespace Turn

variable {p : Program} {c : Settings} {slot : Option Nat} {t u : Turn} {s r : Script} {pc q n : Nat} {m : Machine}
  {a b : Activation} {k : Continuation} {o : Asking}

/-- In the block a thread goes on with what it knows, and has its ticket or the next one that is given out. -/
theorem Fair.knows_going (h : t.Fair n s pc) (hsound : (Phase.turn t s pc).Sound p c)
    (hfew : t.machine.panel.nextTicket < 2 ^ 53) (hadvance : Machine.advance t s pc = .going u r q) (ho : o.In r)
    (hstart : o.start < q) (hstop : q < o.stop) :
    ∃ ticket, o.Knows u.machine.panel.turn u.machine.panel.nextTicket u.active.locals u.active.stack q ticket ∧
      ∀ x, ticket = some x → t.active.Carries s pc x ∨ x = t.machine.panel.nextTicket := by
  obtain ⟨i,next,hfetch,hmove⟩ := Machine.move_going hsound hadvance
  obtain ⟨rfl,hle,hlt⟩ := ho.arrives h.sited hfetch hmove hstart hstop
  rcases Nat.eq_or_lt_of_le hle with rfl | hin
  · -- The block begins with locals of its own.
    obtain ⟨-,rfl,hperform⟩ := Machine.advance_straight ho.saves rfl hadvance
    cases hperform
    exact ⟨none,.take rfl,nofun⟩
  · obtain ⟨ticket,hknows⟩ := h.informs hfew o ho hin hlt
    obtain ⟨-,⟨heq,-⟩ | ⟨ticket',hknows',hticket⟩⟩ := hknows.going ho hsound h.machine.issued hfew hadvance
    · exact absurd heq (Nat.ne_of_lt hstop)
    · refine ⟨ticket',hknows',?_⟩
      rintro x rfl
      rcases hticket with rfl | ⟨-,hx⟩
      · exact .inl (hknows.carries ho)
      · exact .inr (Option.some.inj hx)

theorem Fair.knows_done (h : t.Fair n s pc) (hsound : (Phase.turn t s pc).Sound p c)
    (hfew : t.machine.panel.nextTicket < 2 ^ 53) (hadvance : Machine.advance t s pc = .halted (.done m a))
    (hk : a.requeue = some k) (ho : o.In k.script) (hstart : o.start < k.pc) (hstop : k.pc < o.stop) :
    ∃ ticket, o.Knows t.machine.panel.turn t.machine.panel.nextTicket a.locals [] k.pc ticket ∧
      ∀ x, ticket = some x → t.active.Carries s pc x := by
  obtain ⟨i,next,hfetch,hmove⟩ := Machine.move_done hsound hadvance hk
  obtain ⟨rfl,hle,hlt⟩ := ho.arrives h.sited hfetch hmove hstart hstop
  rcases Nat.eq_or_lt_of_le hle with rfl | hin
  · exact absurd hadvance (Machine.not_done_of_straight ho.saves rfl)
  · obtain ⟨ticket,hknows⟩ := h.informs hfew o ho hin hlt
    obtain ⟨-,-,hknows',-⟩ := hknows.done ho hsound hadvance hk
    refine ⟨ticket,hknows',?_⟩
    rintro x rfl
    exact hknows.carries ho

theorem Fair.alone_of_knows (h : t.Fair n s pc) (hfew : m.panel.nextTicket < 2 ^ 53)
    (hfew' : t.machine.panel.nextTicket < 2 ^ 53) (hbrings : t.machine.Brings m)
    (hknows : ∀ {o : Asking}, o.In r → o.start < q → q < o.stop →
      ∃ ticket, o.Knows m.panel.turn m.panel.nextTicket b.locals b.stack q ticket ∧
        ∀ x, ticket = some x → t.active.Carries s pc x ∨ x = t.machine.panel.nextTicket) : m.Alone b r q := by
  intro x u a k hx hu hwakes hcarries
  have hinforms : m.Informs b r q := by
    intro o ho hstart hstop
    obtain ⟨ticket,h,-⟩ := hknows ho hstart hstop
    exact ⟨ticket,h⟩
  obtain ⟨o,y,ho,hy,hlt,heq⟩ := hx.knows hinforms
  obtain ⟨hstart,hstop⟩ := hy.inside ho
  obtain ⟨ticket,hticket,hold⟩ := hknows ho hstart hstop
  obtain rfl := hticket.unique ho hfew hy
  have hlive : t.machine.Live u := by
    refine (hbrings u hu).resolve_right ?_
    rintro ⟨id,s,rfl⟩
    obtain ⟨rfl,-⟩ := hwakes.of_start
    exact a.not_carries_entry s x hcarries
  rcases hold y rfl with hy | rfl
  · exact h.alone hfew' hy hlive hwakes (hcarries.congr heq)
  · -- The ticket is new, and those in the queue have older ones.
    obtain ⟨_,z,-,-,hz,heq'⟩ := hcarries.knows (h.machine.informs hfew' hlive hwakes)
    exact Nat.ne_of_lt hz (Value.ofNat_inj (by omega) hfew' (heq'.symm.trans heq))

theorem Fair.going (h : t.Fair n s pc) (hsound : (Phase.turn t s pc).Sound p c)
    (hadvance : Machine.advance t s pc = .going u r q) : u.Fair n r q := by
  obtain ⟨-,hturn,hnext⟩ := Machine.grows_going hsound hadvance
  have hbrings := (Machine.renews_going hadvance).brings
  have hknows : u.machine.panel.nextTicket < 2 ^ 53 → ∀ {o : Asking}, o.In r → o.start < q → q < o.stop → _ :=
    fun hfew _ ho hstart hstop => h.knows_going hsound (by omega) hadvance ho hstart hstop
  obtain ⟨i,next,hfetch,hmove⟩ := Machine.move_going hsound hadvance
  have hmachine := h.machine.grows hbrings (Nat.le_of_eq hturn.symm) hnext (by rw [hturn]; exact Nat.le_trans h.machine.issued hnext)
  rw [hturn,h.machine.count] at hmachine
  refine ⟨hmachine,h.sited.move hfetch hmove,fun hfew o ho hstart hstop => ?_,fun hfew => ?_⟩
  · obtain ⟨ticket,hticket,-⟩ := hknows hfew ho hstart hstop
    exact ⟨ticket,hticket⟩
  · exact h.alone_of_knows hfew (by omega) hbrings (hknows hfew)

theorem Fair.done (h : t.Fair n s pc) (hadvance : Machine.advance t s pc = .halted (.done m a))
    (htickets : m.tickets = t.machine.tickets) : m.Fair n :=
  h.machine.keeps (Machine.renews_done hadvance).brings htickets

theorem Fair.putBack (h : t.Fair n s pc) (hsound : (Phase.turn t s pc).Sound p c)
    (hadvance : Machine.advance t s pc = .halted (.done m a)) (htickets : m.tickets = t.machine.tickets) (i : Nat) :
    (m.putBack i a).Fair n := by
  have hdone := h.done hadvance htickets
  have hbrings := (Machine.renews_done hadvance).brings
  have hpanel : (m.putBack i a).panel = m.panel := by
    unfold Machine.putBack
    split <;> rfl
  obtain ⟨hturn,hnext⟩ := Prod.mk.inj htickets
  have hknows : m.panel.nextTicket < 2 ^ 53 → ∀ {k : Continuation} {b : Activation}, a.requeue = some k →
      (a.toThread k).Wakes b k → ∀ {o : Asking}, o.In k.script → o.start < k.pc → k.pc < o.stop →
        ∃ ticket, o.Knows m.panel.turn m.panel.nextTicket b.locals b.stack k.pc ticket ∧
          ∀ x, ticket = some x → t.active.Carries s pc x ∨ x = t.machine.panel.nextTicket := by
    intro hfew k b hk hb o ho hstart hstop
    obtain ⟨-,hlocals,hstack,-⟩ := Activation.wakes_toThread hb
    obtain ⟨ticket,hticket,hcarries⟩ := h.knows_done hsound (by omega) hadvance hk ho hstart hstop
    rw [hlocals,hstack,hturn,hnext]
    exact ⟨ticket,hticket,fun x hx => .inl (hcarries x hx)⟩
  have halone : m.panel.nextTicket < 2 ^ 53 → ∀ {k : Continuation} {b : Activation}, a.requeue = some k →
      (a.toThread k).Wakes b k → m.Alone b k.script k.pc :=
    fun hfew _ _ hk hb => h.alone_of_knows hfew (by omega) hbrings (hknows hfew hk hb)
  refine ⟨by rw [hpanel]; exact hdone.count,by rw [hpanel]; exact hdone.issued,fun {u b k} hu hb => ?_,
    fun hfew u b k hu hb => ?_,fun hfew u u' b b' k k' x hu hb hu' hb' hx hx' => ?_⟩
  · rcases Machine.live_putBack hu with hu | ⟨k,hk,rfl⟩
    · exact hdone.sited hu hb
    · obtain ⟨rfl,-,-,hframe,hcalls⟩ := Activation.wakes_toThread hb
      obtain ⟨i,next,hfetch,hmove⟩ := Machine.move_done hsound hadvance hk
      rw [hframe,hcalls]
      exact h.sited.move hfetch hmove
  · rw [hpanel] at hfew
    unfold Machine.Informs
    rw [hpanel]
    rcases Machine.live_putBack hu with hu | ⟨k,hk,rfl⟩
    · exact hdone.informs hfew hu hb
    · obtain ⟨rfl,-⟩ := Activation.wakes_toThread hb
      intro o ho hstart hstop
      obtain ⟨ticket,hticket,-⟩ := hknows hfew hk hb ho hstart hstop
      exact ⟨ticket,hticket⟩
  · rw [hpanel] at hfew
    rcases Machine.live_putBack hu with hu | ⟨k,hk,rfl⟩ <;> rcases Machine.live_putBack hu' with hu' | ⟨k',hk',rfl⟩
    · exact hdone.apart hfew hu hb hu' hb' hx hx'
    · obtain ⟨rfl,-⟩ := Activation.wakes_toThread hb'
      exact absurd hx (halone hfew hk' hb' hx' hu hb)
    · obtain ⟨rfl,-⟩ := Activation.wakes_toThread hb
      exact absurd hx' (halone hfew hk hb hx hu' hb')
    · exact ⟨rfl,rfl⟩

theorem fair_take {i : Nat} {th : Thread} (h : m.Fair n) (hsound : m.Sound p c) (hi : m.queue[i]? = some (some th))
    (hlive : th.stopped = false) (hload : Activation.ofThread i th = .ok a) (hk : a.immediate = some k) :
    Turn.Fair n ⟨m.setSlot i (some th.shell),a.begin⟩ k.script k.pc := by
  have hwakes : th.Wakes a k := ⟨i,hload,hk⟩
  have hbrings : m.Brings (m.setSlot i (some th.shell)) := (Machine.Renews.setSlot i rfl).brings
  have hth : m.Live th := ⟨⟨i,hi⟩,hlive⟩
  have hsited := h.sited hth hwakes
  refine ⟨h.keeps hbrings rfl,hsited,fun hfew => ?_,fun hfew x u b k' hx hu hb hx' => ?_⟩
  · have hinforms := h.informs hfew hth hwakes
    unfold Machine.Informs at hinforms ⊢
    rw [hwakes.stack] at hinforms
    exact hinforms
  · have hcarries : a.Carries k.script k.pc x := by
      obtain ⟨o,ho,hstart,hstop,hvalue⟩ := hx
      exact ⟨o,ho,hstart,hstop,hvalue.imp_right fun ⟨hkeep,hl,hhead⟩ => ⟨hkeep,hl,by cases hhead⟩⟩
    rcases hbrings u hu with hlive' | ⟨id,s,rfl⟩
    · exact hsound.not_live_taken hi hu (h.apart hfew hlive' hb hth hwakes hx' hcarries)
    · obtain ⟨rfl,-⟩ := hb.of_start
      exact b.not_carries_entry s x hx'

end Turn

/-! Runs, with the number of answers -/

/-- How many answers were accepted since everything was stopped last, after an action. -/
def HostAction.answers (m : Machine) (n : Nat) : HostAction → Nat
  | .submitAnswer _ => if m.accepts then n + 1 else n
  | .stopAll => 0
  | _ => n

namespace Phase

/-- Steps, with the number of answers that were accepted since everything was stopped last. -/
inductive Counts : Phase → Nat → Phase → Nat → Prop
  | host (m : Machine) (a : HostAction) (n : Nat) : Counts (.idle m) n (.idle (a.apply m)) (a.answers m n)
  | start {m : Machine} {id : Nat} {x : Target} {s : Script} (hx : m.targets.get? id = some x) (hs : s ∈ x.scripts.all)
      (restart : Bool) (n : Nat) : Counts (.idle m) n (.idle (m.startThread id s restart)) n
  | runs {m : Machine} {τ : Phase} (h : Step (.idle m) τ) (hτ : τ.isIdle = false) (n : Nat) : Counts (.idle m) n τ n
  | frame {m : Machine} {τ : Phase} (h : Step (.frame m) τ) (n : Nat) : Counts (.frame m) n τ n
  | turn {t : Turn} {s : Script} {pc : Nat} {τ : Phase} (h : Step (.turn t s pc) τ) (n : Nat) :
      Counts (.turn t s pc) n τ (if s.stopsAllAt pc then 0 else n)

/-- A run, with the number of answers that were accepted in it since everything was stopped last. -/
inductive Run (first : Phase) : Phase → Nat → Prop
  | first : Run first first 0
  | step {σ τ : Phase} {n n' : Nat} (h : Run first σ n) (hcounts : Counts σ n τ n') : Run first τ n'

variable {p : Program} {c : Settings} {first σ τ : Phase} {n n' : Nat}

theorem Counts.step (h : Counts σ n τ n') : Step σ τ := by
  cases h with
  | host m a => exact .host m a
  | start hx hs restart => exact .start hx hs restart
  | runs h | frame h | turn h => exact h

theorem Step.counts (h : Step σ τ) (n : Nat) : ∃ n', Counts σ n τ n' := by
  cases h with
  | host m a => exact ⟨_,.host m a n⟩
  | start hx hs restart => exact ⟨_,.start hx hs restart n⟩
  | detach hx hs => exact ⟨_,.runs (.detach hx hs) rfl n⟩
  | begin m => exact ⟨_,.runs (.begin m) rfl n⟩
  | take hi hlive hload hk => exact ⟨_,.frame (.take hi hlive hload hk) n⟩
  | gone hi hgone => exact ⟨_,.frame (.gone hi hgone) n⟩
  | advance h => exact ⟨_,.turn (.advance h) n⟩
  | layDown h hslot => exact ⟨_,.turn (.layDown h hslot) n⟩
  | finish h hslot => exact ⟨_,.turn (.finish h hslot) n⟩
  | fault h => exact ⟨_,.turn (.fault h) n⟩
  | sweep m => exact ⟨_,.frame (.sweep m) n⟩
  | clock m => exact ⟨_,.frame (.clock m) n⟩
  | draw m => exact ⟨_,.frame (.draw m) n⟩

theorem Run.steps (h : Run first σ n) : Steps first σ := by
  induction h with
  | first => exact .refl
  | step _ hcounts ih => exact ih.tail hcounts.step

theorem Run.of_steps (h : Steps first σ) : ∃ n, Run first σ n := by
  induction h with
  | refl => exact ⟨0,.first⟩
  | tail _ hstep ih =>
    obtain ⟨n,hrun⟩ := ih
    obtain ⟨n',hcounts⟩ := hstep.counts n
    exact ⟨n',hrun.step hcounts⟩

theorem fair_host {m : Machine} (h : m.Fair n) (a : HostAction) : (a.apply m).Fair (a.answers m n) := by
  have hbrings : m.Brings (a.apply m) := (Machine.Renews.host m a).brings
  cases a with
  | stopAll => exact m.fair_stopAll
  | submitAnswer text =>
    change m.Brings (m.submitAnswer text) at hbrings
    obtain ⟨hturn,hnext⟩ := Prod.mk.inj (m.tickets_submitAnswer text)
    have hopen : m.accepts = true ↔ m.panel.turn < m.panel.nextTicket := decide_eq_true_iff
    have hissued := h.issued
    have hle : m.panel.turn ≤ (m.submitAnswer text).panel.turn := by
      rw [hturn]
      split <;> omega
    have hgrows := h.grows hbrings hle (Nat.le_of_eq hnext.symm) (by
      rw [hturn,hnext]
      split
      next haccepts => exact hopen.1 haccepts
      · exact hissued)
    rw [hturn,h.count] at hgrows
    exact hgrows
  | _ => exact h.keeps hbrings (m.tickets_host nofun nofun)

theorem Counts.fair (h : Counts σ n τ n') (hσ : σ.Fair n) (hsound : σ.Sound p c) : τ.Fair n' := by
  cases h with
  | host m a => exact fair_host hσ a
  | start hx hs restart =>
    exact Machine.Fair.keeps hσ (Machine.Renews.startThread _ _ _ restart).brings (Machine.tickets_startThread _ _ _ restart)
  | runs h hτ =>
    cases h with
    | host | start => cases hτ
    | @detach _ id x s hx hs =>
      exact ⟨hσ,.entry (List.forall_mem_singleton.2 rfl) s,fun _ => Machine.informs_entry _ _ s,fun _ _ _ _ _ hx _ _ =>
        absurd hx (Activation.not_carries_entry _ s _)⟩
    | begin =>
      exact Machine.Fair.keeps hσ (Machine.Renews.of_queue (Machine.Alike.beginFrame _).queue).brings
        (Machine.tickets_beginFrame _)
  | frame h =>
    cases h with
    | take hi hlive hload hk => exact Turn.fair_take hσ hsound hi hlive hload hk
    | gone hi hgone => exact Machine.Fair.keeps hσ (Machine.Renews.setSlot _ rfl).brings rfl
    | sweep => exact Machine.Fair.keeps hσ (.sweep _) (Machine.tickets_sweep _)
    | clock => exact Machine.Fair.keeps hσ (Machine.Renews.of_queue rfl).brings (Machine.tickets_readClock _)
    | draw => exact Machine.Fair.keeps hσ (Machine.Renews.of_queue (Machine.Alike.draw _).queue).brings (Machine.tickets_draw _)
  | turn h =>
    cases h with
    | advance h =>
      rw [(Machine.grows_going hsound h).1]
      exact Turn.Fair.going hσ hsound h
    | @layDown _ _ _ i _ _ h hslot =>
      rcases Machine.tickets_halt hsound h with ⟨hstops,rfl,hrequeue⟩ | ⟨hstops,htickets⟩
      · rw [hstops]
        unfold Machine.putBack
        rw [hrequeue]
        exact Machine.fair_stopAll _
      · rw [hstops]
        exact Turn.Fair.putBack hσ hsound h htickets i
    | finish h hslot =>
      rcases Machine.tickets_halt hsound h with ⟨hstops,rfl,-⟩ | ⟨hstops,htickets⟩
      · rw [hstops]
        exact Machine.fair_stopAll _
      · rw [hstops]
        exact Turn.Fair.done hσ h htickets
    | fault h =>
      obtain ⟨hstops,rfl⟩ := Machine.fault_keeps hsound h
      rw [hstops]
      exact Turn.Fair.machine hσ

theorem Run.fair (h : Run first σ n) (hfirst : first.Fair 0) (hsound : first.Sound p c) (hp : p.Sound) : σ.Fair n := by
  induction h with
  | first => exact hfirst
  | step h hcounts ih => exact hcounts.fair ih (h.steps.sound hsound hp)

end Phase

theorem Machine.fair_ofProgram (p : Program) (c : Settings) (clock : Clock) : (Machine.ofProgram p c clock).Fair 0 := by
  have hnone : ∀ t, ¬ (Machine.ofProgram p c clock).Live t := by
    rintro t ⟨⟨i,hi⟩,-⟩
    cases hi
  exact {
    count := rfl
    issued := Nat.le_refl _
    sited := fun ht => absurd ht (hnone _)
    informs := fun _ _ _ _ ht => absurd ht (hnone _)
    apart := fun _ _ _ _ _ _ _ _ ht => absurd ht (hnone _) }

/-! Tickets -/

/-- An offset in the code of a block that asks, after its start. -/
def Script.Asks (s : Script) (pc : Nat) : Prop :=
  ∃ params b start stop, s.Contains params b start stop ∧ b.opcode = "sensing_askandwait" ∧ start < pc ∧ pc < stop

/-- In a block that asks, a thread holds a ticket: it keeps it in its first local, or took it just now. -/
def Activation.Holds (a : Activation) (s : Script) (pc x : Nat) : Prop :=
  s.Asks pc ∧ (a.locals.get 0 = .ofNat x ∨
    (∃ next, s.fetch pc = .ok (.setLocal 0,next)) ∧ a.stack.head? = some (.ofNat x))

/-- The live threads that hold a ticket: the one that runs, or one in a slot of the queue. -/
inductive Phase.Holds : Phase → Option Nat → Nat → Prop
  | running {t : Turn} {s : Script} {pc x : Nat} (h : t.active.Holds s pc x) : Holds (.turn t s pc) none x
  | queued {σ : Phase} {i x : Nat} {t : Thread} {a : Activation} {k : Continuation}
      (hi : σ.machine.queue[i]? = some (some t)) (hlive : t.stopped = false) (hload : Activation.ofThread i t = .ok a)
      (hk : a.immediate = some k) (h : a.Holds k.script k.pc x) : Holds σ (some i) x

section Holds

variable {p : Program} {c : Settings} {m : Machine} {a : Activation} {s : Script} {pc x n : Nat} {σ : Phase}

theorem Activation.Holds.carries (h : a.Holds s pc x) (hsmall : s.code.size < 2 ^ 32) (hinforms : m.Informs a s pc) :
    a.Carries s pc x := by
  obtain ⟨⟨params,b,start,stop,hblock,hopcode,hstart,hstop⟩,hx⟩ := h
  obtain ⟨o,ho,rfl,rfl⟩ := hblock.asking hsmall hopcode
  refine ⟨o,ho,hstart,hstop,hx.imp_right ?_⟩
  rintro ⟨⟨next,hfetch⟩,hhead⟩
  obtain ⟨ticket,hknows⟩ := hinforms o ho hstart hstop
  obtain ⟨hkeep,hl⟩ := hknows.keeps ho hfetch
  exact ⟨hkeep,hl,hhead⟩

theorem Asking.Knows.holds {o : Asking} {turn next : Nat} (h : o.Knows turn next a.locals a.stack pc (some x)) (ho : o.In s)
    (hasks : s.Asks pc) : x < next ∧ a.Holds s pc x := by
  rcases h.value with ⟨hnone,-⟩ | ⟨y,hy,hlt,hvalue⟩
  · cases hnone
  · cases hy
    refine ⟨hlt,hasks,hvalue.imp_right ?_⟩
    rintro ⟨rfl,-,hhead⟩
    exact ⟨⟨_,ho.keeps⟩,hhead⟩

theorem Phase.Fair.machine (h : σ.Fair n) : σ.machine.Fair n := by
  cases σ with
  | idle m | frame m => exact h
  | turn t s pc => exact Turn.Fair.machine h

theorem Machine.Sound.small (h : m.Sound p c) (hsmall : p.Small) {i : Nat} {t : Thread} {k : Continuation}
    (hi : m.queue[i]? = some (some t)) (hlive : t.stopped = false) (hload : Activation.ofThread i t = .ok a)
    (hk : a.immediate = some k) : k.script.code.size < 2 ^ 32 := by
  obtain ⟨a',k',hload',hk',hrequeue,hready⟩ := h.load hi hlive
  rw [hload] at hload'
  cases hload'
  rw [hk] at hk'
  cases hk'
  exact Turn.Sound.small (hready.sound hrequeue) hsmall

theorem Phase.Holds.unique (hsound : σ.Sound p c) (hsmall : p.Small) (hfair : σ.Fair n)
    (hfew : σ.machine.panel.nextTicket < 2 ^ 53) {i j : Option Nat} (hi : σ.Holds i x) (hj : σ.Holds j x) : i = j := by
  have hqueued : ∀ {i : Nat} {t : Thread} {a : Activation} {k : Continuation}, σ.machine.queue[i]? = some (some t) →
      t.stopped = false → Activation.ofThread i t = .ok a → a.immediate = some k → a.Holds k.script k.pc x →
      σ.machine.Live t ∧ t.Wakes a k ∧ a.Carries k.script k.pc x := by
    intro i t a k hi hlive hload hk hx
    have ht : σ.machine.Live t := ⟨⟨i,hi⟩,hlive⟩
    have hwakes : t.Wakes a k := ⟨i,hload,hk⟩
    exact ⟨ht,hwakes,hx.carries (hsound.machine.small hsmall hi hlive hload hk) (hfair.machine.informs hfew ht hwakes)⟩
  have hrunning : ∀ {t : Turn} {s : Script} {pc : Nat}, σ = .turn t s pc → t.active.Holds s pc x →
      t.active.Carries s pc x ∧ σ.machine.Alone t.active s pc := by
    rintro t s pc rfl hx
    exact ⟨hx.carries (Turn.Sound.small hsound hsmall) (Turn.Fair.informs hfair hfew),Turn.Fair.alone hfair hfew⟩
  cases hi with
  | running hx =>
    obtain ⟨hcarries,halone⟩ := hrunning rfl hx
    cases hj with
    | running _ => rfl
    | queued hi hlive hload hk hx' =>
      obtain ⟨ht,hwakes,hcarries'⟩ := hqueued hi hlive hload hk hx'
      exact absurd hcarries' (halone hcarries ht hwakes)
  | queued hi hlive hload hk hx =>
    obtain ⟨ht,hwakes,hcarries⟩ := hqueued hi hlive hload hk hx
    cases hj with
    | running hx' =>
      obtain ⟨hcarries',halone⟩ := hrunning rfl hx'
      exact absurd hcarries (halone hcarries' ht hwakes)
    | queued hj hlive' hload' hk' hx' =>
      obtain ⟨ht',hwakes',hcarries'⟩ := hqueued hj hlive' hload' hk' hx'
      obtain ⟨htarget,hbase⟩ := hfair.machine.apart hfew ht hwakes ht' hwakes' hcarries hcarries'
      exact congrArg some (hsound.machine.unique hi hj htarget hbase)

end Holds

/-- Threads hold different tickets. In a block that asks, a thread puts up its question not before it is the turn of its
ticket; where it goes on it is still in the block, also when it yields, or it comes to its end, after as many answers
as there are tickets up to its own. -/
theorem questions_of_compile {project : Project} {program : Program} (hcompile : compile project = .ok program)
    (hsmall : program.Small) {settings : Settings} {clock : Clock} {σ : Phase} {n : Nat}
    (hrun : Phase.Run (.idle (Machine.ofProgram program settings clock)) σ n)
    (hfew : σ.machine.panel.nextTicket < 2 ^ 53) :
    (∀ {i j : Option Nat} {x : Nat}, σ.Holds i x → σ.Holds j x → i = j) ∧
      ∀ {t : Turn} {s : Script} {pc : Nat} {params : List String} {b : Block} {start stop : Nat}, σ = .turn t s pc →
        s.Contains params b start stop → b.opcode = "sensing_askandwait" → start < pc → pc < stop →
        (∀ {id : UInt32} {next : Nat}, s.fetch pc = .ok (.builtin id,next) → Palette.builtin? id = some (.sensing .ask) →
          ∃ x < t.machine.panel.nextTicket, σ.Holds none x ∧ x ≤ t.machine.panel.turn) ∧
        (∀ {u : Turn} {r : Script} {q : Nat}, Machine.advance t s pc = .going u r q →
          r = s ∧ (start < q ∧ q < stop ∨ q = stop ∧ ∃ x < t.machine.panel.nextTicket, σ.Holds none x ∧ x + 1 ≤ n)) ∧
        ∀ {m : Machine} {a : Activation} {k : Continuation}, Machine.advance t s pc = .halted (.done m a) →
          a.requeue = some k → k.script = s ∧ start < k.pc ∧ k.pc < stop := by
  have hprogram := compile_sound hcompile hsmall
  have hfirst : (Phase.idle (Machine.ofProgram program settings clock)).Sound program settings :=
    Machine.Sound.ofProgram hprogram settings clock
  have hsound := hrun.steps.sound hfirst hprogram
  have hfair := hrun.fair (Machine.fair_ofProgram program settings clock) hfirst hprogram
  refine ⟨Phase.Holds.unique hsound hsmall hfair hfew,?_⟩
  rintro t s pc params b start stop rfl hblock hopcode hstart hstop
  obtain ⟨o,ho,rfl,rfl⟩ := hblock.asking (Turn.Sound.small hsound hsmall) hopcode
  have hasks : s.Asks pc := ⟨params,b,_,_,hblock,hopcode,hstart,hstop⟩
  obtain ⟨ticket,hknows⟩ := Turn.Fair.informs hfair hfew o ho hstart hstop
  refine ⟨fun {id next} hfetch hb => ?_,fun {u r q} hadvance => ?_,fun {m a k} hadvance hk => ?_⟩
  · obtain ⟨x,rfl,-,hle,-⟩ := hknows.asks ho hfetch hb
    obtain ⟨hx,hholds⟩ := hknows.holds ho hasks
    exact ⟨x,hx,.running hholds,hle⟩
  · obtain ⟨rfl,⟨rfl,x,rfl,hlt⟩ | ⟨ticket',hknows',-⟩⟩ :=
      hknows.going ho hsound (Turn.Fair.machine hfair).issued hfew hadvance
    · obtain ⟨hx,hholds⟩ := hknows.holds ho hasks
      rw [(Turn.Fair.machine hfair).count] at hlt
      exact ⟨rfl,.inr ⟨rfl,x,hx,.running hholds,hlt⟩⟩
    · exact ⟨rfl,.inl (hknows'.inside ho)⟩
  · obtain ⟨-,hscript,hknows',-⟩ := hknows.done ho hsound hadvance hk
    exact ⟨hscript,hknows'.inside ho⟩

/-! Two scripts that ask -/

def askBlock : Block :=
  .mk "sensing_askandwait" none [.mk "QUESTION" [.mk "text" none [] [("TEXT",⟨"?",none⟩)]] none] []

def askingProject : Project where
  stage := {
    name := "Stage"
    isStage := true
    scripts := [{ hat := .flag, blocks := [askBlock] },{ hat := .flag, blocks := [askBlock] }] }

def askEnd : Nat :=
  (stageEmitter.run (expand [] askBlock).statement).pc

/-- The thread of a slot is in the block and holds a ticket. -/
def Machine.HoldsAt (m : Machine) (i x : Nat) (s : Script) : Prop :=
  ∃ t ∈ m.queue[i]?.join, t.stopped = false ∧ ∃ a ∈ (Activation.ofThread i t).toOption,
    ∃ k ∈ a.immediate, k.script = s ∧ 0 < k.pc ∧ k.pc < askEnd ∧ a.locals.get 0 = .ofNat x

instance (m : Machine) (i x : Nat) (s : Script) : Decidable (m.HoldsAt i x s) := by
  unfold Machine.HoldsAt
  infer_instance

/-- After one answer, the first thread passes the block and the other one holds the second ticket. -/
theorem askingProject_passes : ∃ p ∈ (compile askingProject).toOption, p.isSmall ∧
    ∃ first ∈ (Compile.script stageEmitter.symbols "Stage #0" [] [askBlock] .finish 0).toOption,
    ∃ second ∈ (Compile.script first.2 "Stage #1" [] [askBlock] .finish 1).toOption,
    askEnd = ((Emitter.start first.2 "Stage #1").run (expand [] askBlock).statement).pc ∧
    ∃ y ∈ ((Machine.ofProgram p shallow {}).greenFlag.step 60).ended?, y.2 = none ∧
    ∃ x ∈ (y.1.submitAnswer "yes").beginFrame.turnAfter? 0 5, x.2.1 = first.1 ∧ 0 < x.2.2 ∧ x.2.2 < askEnd ∧
      x.1.machine.panel.nextTicket = 2 ∧ x.1.machine.HoldsAt 1 1 second.1 ∧
    ∃ z ∈ (y.1.submitAnswer "yes").beginFrame.turnAfter? 0 6, z.2.2 = askEnd := by
  decide +kernel

/-- The first of two threads that ask passes the block after an answer, and the other one holds another ticket. -/
theorem questions_of_compile_askingProject : ∃ p t u s pc n, compile askingProject = .ok p ∧
    Phase.Run (.idle (Machine.ofProgram p shallow {})) (.turn t s pc) n ∧ t.machine.panel.nextTicket = 2 ∧
    s.Contains [] askBlock 0 askEnd ∧ Machine.advance t s pc = .going u s askEnd ∧ 1 ≤ n ∧
    (Phase.turn t s pc).Holds (some 1) 1 ∧ ∃ x < 2, (Phase.turn t s pc).Holds none x ∧ x ≠ 1 := by
  obtain ⟨p,hp,hsmall,⟨_,after⟩,hscript,⟨_,after'⟩,hscript',hend,⟨m,_⟩,hm,rfl,⟨t,s,pc⟩,hturn,rfl,hstart,hstop,
    hnext,⟨th,hslot,hlive,a,hload,k,hk,rfl,hstart',hstop',hl⟩,⟨u,r,_⟩,hturn',rfl⟩ := askingProject_passes
  have hcompile := Except.mem_toOption.1 hp
  have hsmall := Program.small_of_isSmall hsmall
  have hprogram := compile_sound hcompile hsmall
  have hadvance := Machine.advance_of_turnAfter hturn hturn'
  dsimp only at hnext
  have hframe : Phase.Steps _ (.idle m) :=
    Phase.steps_frame ((Machine.Sound.ofProgram hprogram shallow {}).host hprogram .greenFlag) hprogram
      (.inl (Outcome.eq_done hm))
  have hsteps : Phase.Steps (.idle (Machine.ofProgram p shallow {})) (.turn t s pc) :=
    (((Relation.ReflTransGen.single (.host _ .greenFlag)).trans hframe).tail (.host m (.submitAnswer "yes"))).tail (.begin _)
      |>.trans (Machine.resumption_of_turnAfter hturn).steps
  obtain ⟨n,hrun⟩ := Phase.Run.of_steps hsteps
  have hblock : s.Contains [] askBlock 0 askEnd :=
    ⟨_,_,_,_,_,_,[],[],.inl rfl,Except.mem_toOption.1 hscript,by decide +kernel,rfl,rfl⟩
  have hblock' : k.script.Contains [] askBlock 0 askEnd :=
    ⟨_,_,_,_,_,_,[],[],.inl rfl,Except.mem_toOption.1 hscript',by decide +kernel,rfl,hend⟩
  have hother : (Phase.turn t s pc).Holds (some 1) 1 :=
    .queued (Option.join_eq_some_iff.1 hslot) hlive (Except.mem_toOption.1 hload) hk ⟨⟨_,_,_,_,hblock',rfl,hstart',hstop'⟩,.inl hl⟩
  obtain ⟨hunique,hblocks⟩ := questions_of_compile hcompile hsmall hrun (hnext.trans_lt (by decide))
  obtain ⟨-,hgoes,-⟩ := hblocks rfl hblock rfl hstart hstop
  obtain ⟨hr,⟨-,hlt⟩ | ⟨-,x,hx,hown,hle⟩⟩ := hgoes hadvance
  · exact absurd hlt (Nat.lt_irrefl _)
  · rw [hr] at hadvance
    refine ⟨p,t,u,s,pc,n,hcompile,hrun,hnext,hblock,hadvance,by omega,hother,x,by omega,hown,?_⟩
    rintro rfl
    cases hunique hown hother

end SpriteMachine
