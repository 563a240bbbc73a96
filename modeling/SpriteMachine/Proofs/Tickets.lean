import SpriteMachine.Proofs.Instruments

/-!
Tickets: the next one to be given out and the one whose turn it is. Only a block that takes a ticket, an answer of the
user, and an end of all threads change them.
-/

namespace SpriteMachine

namespace Machine

def tickets (m : Machine) : Nat × Nat :=
  (m.panel.turn,m.panel.nextTicket)

/-! What else happens to a machine leaves the tickets as they are. -/

section Tickets

variable (m : Machine)

theorem tickets_of_instruments {m m' : Machine} (h : m'.instruments = m.instruments) : m'.tickets = m.tickets :=
  congrArg (fun x => (x.1.turn,x.1.nextTicket)) h

@[simp] theorem tickets_startThread (id : Nat) (s : Script) (restart : Bool) :
    (m.startThread id s restart).tickets = m.tickets :=
  tickets_of_instruments (m.instruments_startThread id s restart)

@[simp] theorem tickets_trigger (e : Event) : (m.trigger e).2.tickets = m.tickets :=
  tickets_of_instruments (m.instruments_trigger e)

@[simp] theorem tickets_createClone (parent : Nat) : (m.createClone parent).2.tickets = m.tickets :=
  tickets_of_instruments (m.instruments_createClone parent)

@[simp] theorem tickets_deleteClone (id : Nat) : (m.deleteClone id).tickets = m.tickets :=
  tickets_of_instruments (m.instruments_deleteClone id)

@[simp] theorem tickets_sweep : m.sweep.tickets = m.tickets := rfl

@[simp] theorem tickets_readClock : m.readClock.2.tickets = m.tickets := rfl

@[simp] theorem tickets_draw : m.draw.tickets = m.tickets :=
  tickets_of_instruments m.instruments_draw

@[simp] theorem tickets_beginFrame : m.beginFrame.tickets = m.tickets :=
  congrArg (fun x => (x.turn,x.nextTicket)) m.panel_beginFrame

@[simp] theorem tickets_stopAll : m.stopAll.tickets = (0,0) :=
  congrArg (fun x => (x.1.turn,x.1.nextTicket)) m.instruments_stopAll

end Tickets

/-- Whether an answer is accepted: it is if a question waits for it. -/
def accepts (m : Machine) : Bool :=
  m.panel.turn < m.panel.nextTicket

theorem tickets_submitAnswer (m : Machine) (text : String) :
    (m.submitAnswer text).tickets = (if m.accepts then m.panel.turn + 1 else m.panel.turn,m.panel.nextTicket) := by
  unfold submitAnswer accepts modifyPanel tickets
  dsimp only
  by_cases hopen : m.panel.turn < m.panel.nextTicket
  · simp only [hopen,if_true,decide_true]
    split <;> rfl
  · simp [hopen]

def asking (m : Machine) : Bool × Nat × Nat :=
  (m.panel.promptVisible,m.tickets)

theorem asking_of_instruments {m m' : Machine} (h : m'.instruments = m.instruments) : m'.asking = m.asking :=
  congrArg (fun x => (x.1.promptVisible,x.1.turn,x.1.nextTicket)) h

theorem asking_host (m : Machine) {a : HostAction} (hstop : a ≠ .stopAll) (hanswer : ∀ text, a ≠ .submitAnswer text) :
    (a.apply m).asking = m.asking := by
  refine (asking_of_instruments (m.instruments_host a)).trans ?_
  cases a with
  | stopAll => exact absurd rfl hstop
  | submitAnswer text => exact absurd rfl (hanswer text)
  | start =>
    change m.start.asking = _
    unfold Machine.start
    split <;> rfl
  | pause =>
    change m.pause.asking = _
    unfold Machine.pause
    split <;> rfl
  | setWatcher id data visible =>
    obtain ⟨_,heq⟩ := m.setWatcher_eq id data visible
    change (m.setWatcher id data visible).asking = _
    rw [heq]
    rfl
  | _ => rfl

theorem tickets_host (m : Machine) {a : HostAction} (hstop : a ≠ .stopAll) (hanswer : ∀ text, a ≠ .submitAnswer text) :
    (a.apply m).tickets = m.tickets :=
  congrArg Prod.snd (m.asking_host hstop hanswer)

end Machine

def Builtin.takesTicket : Builtin → Bool
  | .sensing .takeTicket => true
  | _ => false

namespace Instr

def takesTicket : Instr → Bool
  | .builtin id => (Palette.builtin? id).any Builtin.takesTicket
  | _ => false

end Instr

theorem Instr.takesTicket_of_builtin? {i : Instr} (hi : i.builtin? = some (.sensing .takeTicket)) : i.takesTicket = true := by
  cases i with
  | builtin id =>
    change Palette.builtin? id = _ at hi
    rw [takesTicket,hi]
    rfl
  | _ => cases hi

theorem Machine.Edits.tickets {i : Instr} {own : Nat} {m m' : Machine} (h : m.Edits i own m') (hi : i.takesTicket = false) :
    m'.tickets = m.tickets := by
  induction h with
  | refl => rfl
  | target _ _ _ ih | layer _ _ ih | watcher _ _ _ ih | prompt _ _ _ ih | visual _ _ ih => exact ih
  | clone _ _ parent ih => exact (tickets_createClone _ _).trans ih
  | @panel m' f _ hf ih =>
    refine Eq.trans ?_ ih
    change ((f m'.panel).turn,(f m'.panel).nextTicket) = _
    rw [hf]
    rfl
  | ticket _ hticket _ =>
    rw [Instr.takesTicket_of_builtin? hticket] at hi
    cases hi
  | aside _ hm _ ih =>
    rw [hm]
    exact ih

theorem Turn.Effect.tickets {t : Turn} {i : Instr} {m : Machine} (h : t.Effect i m) (hi : i.takesTicket = false)
    (hs : i.stopsAll = false) : m.tickets = t.machine.tickets := by
  cases h with
  | edits h => exact h.tickets hi
  | raises _ => exact t.machine.tickets_trigger _
  | stopsAll hall =>
    rw [hs] at hall
    cases hall
  | stopsOthers => rfl
  | deletes _ _ => exact t.machine.tickets_deleteClone _

end SpriteMachine
