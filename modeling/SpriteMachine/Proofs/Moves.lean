import SpriteMachine.Proofs.Phases
import SpriteMachine.Proofs.Regions

/-!
How a thread goes on from an instruction, at once or when it is taken up again: in the same frame of its calls, in
the frame of a procedure, or in that of its caller. Only few instructions touch the locals of a frame.
-/

namespace SpriteMachine

def Spares {α : Type} (x : Exec α) : Prop :=
  ∀ t a u, x t = .ok a u → u.active.locals = t.active.locals

namespace Spares

variable {α β : Type} {x : Exec α}

theorem bind {f : α → Exec β} (hx : Spares x) (hf : ∀ a, Spares (f a)) : Spares (x >>= f) := by
  intro t b v h
  change EStateM.bind x f t = .ok b v at h
  unfold EStateM.bind at h
  split at h
  next a u hu => exact (hf a u b v h).trans (hx t a u hu)
  next => cases h

theorem of_tame {c : Access} {n k : Nat} (h : Tame c n k x) (hc : c.locals = false) : Spares x :=
  fun _ _ _ hu => (h.kept hu).locals hc

theorem getLocal (slot : UInt32) : Spares (Turn.getLocal slot) := by
  intro t a u h
  cases h
  rfl

theorem numberIn (slot : UInt32) : Spares (Turn.numberIn slot) := by
  intro t a u h
  cases h
  rfl

theorem push (v : Value) : Spares (Turn.push v) := of_tame (c := {}) (n := 0) (.push v) rfl

theorem frameTime : Spares (Turn.machineIs Machine.frameTime) := of_tame (c := {}) (n := 0) (.machineIs fun _ _ => rfl) rfl

theorem isWaiting : Spares Turn.isWaiting := by
  intro t a u h
  cases h
  rfl

theorem endBubble (x : Float) : Spares (Turn.endBubble x) := 
  of_tame (c := {}) (n := 0) (Mild.endBubble (i := .pop) x).toTame rfl

theorem glideStep : Spares Turn.glideStep :=
  frameTime.bind fun _ => (numberIn 0).bind fun _ => (numberIn 1).bind fun _ => (numberIn 2).bind fun _ =>
    (numberIn 4).bind fun _ => (numberIn 3).bind fun _ => (numberIn 5).bind fun _ =>
      (of_tame (c := {}) (n := 0) (.moveOwn _) rfl).bind fun _ => push _

theorem builtin {id : UInt32} {b : Builtin} (hb : Palette.builtin? id = some b) (h : b.setsLocals = false) :
    Spares (Turn.builtin b) := by
  by_cases huses : b.usesLocals = false
  · exact of_tame (Mild.builtin (i := .builtin id) hb).toTame huses
  · -- Three more look at locals without setting them.
    cases b with
    | motion a => cases a with
      | glideStep => exact glideStep
      | glideTo | glideToPoint => cases h
      | _ => exact absurd rfl huses
    | looks a => cases a with
      | endSay => exact (numberIn 2).bind endBubble
      | sayFor thinking => cases h
      | _ => exact absurd rfl huses
    | sound a => cases a with
      | playUntilDone => cases h
      | _ => exact absurd rfl huses
    | sensing a => cases a with
      | endAsk => exact (numberIn 1).bind endBubble
      | ask => cases h
      | _ => exact absurd rfl huses
    | control _ | pen _ | music _ => exact absurd rfl huses

theorem perform {s : Script} {i : Instr} {n k : Nat} (harity : i.arity? = some (n,k))
    (hconstant : ∀ index, i = .pushConstant index → index.toNat < s.constants.size) (h : i.setsLocals = false) :
    Spares (Turn.perform s i) := by
  by_cases huses : i.access.locals = false
  · exact of_tame (Tame.perform harity hconstant) huses
  · cases i with
    | pushLocal slot => exact (getLocal slot).bind push
    | running => exact isWaiting.bind fun _ => push _
    | waitElapsed slot => exact frameTime.bind fun _ => (numberIn slot).bind fun _ => (numberIn (slot + 1)).bind fun _ => push _
    | setLocal slot | decLocal slot => cases h
    | builtin id =>
      rw [Instr.arity?,Option.map_eq_some_iff] at harity
      obtain ⟨b,hb,-⟩ := harity
      rw [Instr.setsLocals,hb] at h
      change Spares (Turn.callBuiltin id)
      unfold Turn.callBuiltin
      rw [hb]
      exact builtin hb h
    | _ => exact absurd rfl huses

end Spares

namespace Instr

/-- Where control can go on in the same frame after an instruction. -/
def GoesTo (next q : Nat) : Instr → Prop
  | .jump target => q = target.toNat
  | .jumpIf _ target => q = target.toNat ∨ q = next
  | .queue _ | .forceQueue _ | .call .. | .finish | .endCall => False
  | _ => q = next

/-- What an instruction makes of the locals of a frame, and of those that are saved there. -/
def Changes (l : Locals) (saved : List Locals) (l' : Locals) (saved' : List Locals) : Instr → Prop
  | .save => l' = {} ∧ saved' = l :: saved
  | .restore => saved = l' :: saved'
  | i => saved' = saved ∧ (i.setsLocals = false → l' = l)

theorem plain_of_arity {i : Instr} {arity : Nat × Nat} (h : i.arity? = some arity) (next : Nat) :
    i.GoesTo next next ∧ ∀ {l l' : Locals} {saved saved' : List Locals}, saved' = saved →
      (i.setsLocals = false → l' = l) → i.Changes l saved l' saved' := by
  cases i with
  | save | restore | jump _ | jumpIf _ _ | queue _ | forceQueue _ | finish | endCall | call _ _ _ => cases h
  | _ => exact ⟨rfl,fun hsaved hlocals => ⟨hsaved,hlocals⟩⟩

end Instr

/-- How a thread goes on from an instruction of a script, at once or later: in the same frame, in the frame of a
procedure, or in that of the caller. -/
inductive Move (s : Script) (next : Nat) (i : Instr) (a b : Activation) : Script → Nat → Prop
  | within {q : Nat} (hq : i.GoesTo next q) (hcalls : b.calls = a.calls)
      (hframe : b.frame = { a.frame with saved := b.frame.saved })
      (hlocals : i.Changes a.locals a.frame.saved b.locals b.frame.saved) : Move s next i a b s q
  | label {label : UInt32} (hi : i.label? = some label) (hcalls : b.calls = a.calls) (hframe : b.frame = a.frame)
      (hlocals : b.locals = a.locals) : Move s next i a b s (Continuation.pc ⟨s,label⟩)
  | enters {procedure argc ret : UInt32} {q : Procedure} (hi : i = .call procedure argc ret)
      (hcalls : b.calls = { a.frame with saved := a.locals :: a.frame.saved } :: a.calls)
      (hret : b.frame.ret = some ⟨s,ret⟩) : Move s next i a b q.script q.script.entry.pc
  | returns {k : Continuation} {caller : Frame} (hi : i = .endCall ∨ ∃ mode, i = .stop mode)
      (hcalls : a.calls = caller :: b.calls) (hret : a.frame.ret = some k)
      (hframe : b.frame = { caller with saved := b.frame.saved }) (hsaved : caller.saved = b.locals :: b.frame.saved) :
      Move s next i a b k.script k.pc

/-- The frames and locals of two activations are the same. -/
structure Activation.Agrees (a b : Activation) : Prop where
  calls : b.calls = a.calls
  frame : b.frame = a.frame
  locals : b.locals = a.locals

theorem Move.congr {s r : Script} {next q : Nat} {i : Instr} {a a' b b' : Activation} (h : Move s next i a b r q)
    (ha : a.Agrees a') (hb : b.Agrees b') : Move s next i a' b' r q := by
  obtain ⟨hac,haf,hal⟩ := ha
  obtain ⟨hbc,hbf,hbl⟩ := hb
  cases h with
  | within hq hcalls hframe hlocals =>
    rw [← hac,← hbc] at hcalls
    rw [← haf,← hbf] at hframe
    rw [← haf,← hbf,← hal,← hbl] at hlocals
    exact .within hq hcalls hframe hlocals
  | label hi hcalls hframe hlocals =>
    exact .label hi (by rw [hbc,hac,hcalls]) (by rw [hbf,haf,hframe]) (by rw [hbl,hal,hlocals])
  | enters hi hcalls hret => exact .enters hi (by rw [hbc,haf,hac,hal,hcalls]) (by rw [hbf,hret])
  | returns hi hcalls hret hframe hsaved =>
    rw [← hac,← hbc] at hcalls
    rw [← hbf] at hframe
    rw [← hbf,← hbl] at hsaved
    exact .returns hi hcalls (by rw [haf,hret]) hframe hsaved

namespace Turn

variable {p : Program} {c : Settings} {o : Option Nat} {t u : Turn} {s : Script} {pc next : Nat} {i : Instr} {flow : Flow}

/-- An instruction lets the thread go on in its script, or leaves it to go on elsewhere. -/
def Moves (s : Script) (next : Nat) (i : Instr) (a : Activation) (flow : Flow) (b : Activation) : Prop :=
  match flow with
  | .next q => Move s next i a b s q
  | .leave => ∀ k, b.immediate = some k ∨ b.requeue = some k → Move s next i a b k.script k.pc

theorem moves_over {a b : Activation} (himmediate : b.immediate = none) (hrequeue : b.requeue = none) :
    Moves s next i a .leave b := by
  rintro k (hk | hk)
  · rw [himmediate] at hk
    cases hk
  · rw [hrequeue] at hk
    cases hk

theorem moves_leave {a b : Activation} {k : Continuation} (hmove : Move s next i a b k.script k.pc)
    (himmediate : b.immediate = none ∨ b.immediate = some k) (hrequeue : b.requeue = none ∨ b.requeue = some k) :
    Moves s next i a .leave b := by
  rintro k' (hk | hk)
  · rw [hk] at himmediate
    cases himmediate.resolve_left nofun
    exact hmove
  · rw [hk] at hrequeue
    cases hrequeue.resolve_left nofun
    exact hmove

theorem moves_label {label : UInt32} (hi : i.label? = some label) {b : Activation} (hcalls : b.calls = t.active.calls)
    (hframe : b.frame = t.active.frame) (hlocals : b.locals = t.active.locals)
    (himmediate : b.immediate = none ∨ b.immediate = some ⟨s,label⟩)
    (hrequeue : b.requeue = none ∨ b.requeue = some ⟨s,label⟩) : Moves s next i t.active .leave b :=
  moves_leave (k := ⟨s,label⟩) (.label hi hcalls hframe hlocals) himmediate hrequeue

theorem Sound.moves (h : t.Sound p c o s pc) (hfetch : s.fetch pc = .ok (i,next))
    (hexec : Turn.exec s next i t = .ok flow u) : Moves s next i t.active flow u.active := by
  have ho := h.outcome hfetch
  obtain ⟨σ,⟨-,-,himmediate,hrequeue⟩,-⟩ := h
  rw [hexec] at ho
  cases ho with
  | plain harity hconstant hperform =>
    have hkept := (Tame.perform harity hconstant).kept hperform
    obtain ⟨hgoes,hchanges⟩ := Instr.plain_of_arity harity next
    exact .within hgoes (by rw [hkept.active]) (by rw [hkept.active])
      (hchanges (by rw [hkept.active]) fun hi => Spares.perform harity hconstant hi _ _ _ hperform)
  | save => exact .within rfl rfl rfl ⟨rfl,rfl⟩
  | restore hsaved => exact .within rfl rfl rfl hsaved
  | jump target | stopsOthers => exact .within rfl rfl rfl ⟨rfl,fun _ => rfl⟩
  | jumpIf _ wanted target =>
    refine .within ?_ rfl rfl ⟨rfl,fun _ => rfl⟩
    split
    · exact .inl rfl
    · exact .inr rfl
  | onward | unknown => exact moves_label rfl rfl rfl rfl (.inr rfl) (.inl hrequeue)
  | yields hi => rcases hi with rfl | ⟨rfl,-⟩ <;> exact moves_label rfl rfl rfl rfl (.inl himmediate) (.inr rfl)
  | ended _ | stopsAll _ | deletes => exact moves_over himmediate hrequeue
  | returns hi hcalls hret hsaved =>
    refine moves_leave ?_ (.inr rfl) (.inl hrequeue)
    exact .returns hi hcalls hret rfl hsaved
  | @enters _ _ _ _ _ q _ _ _ _ _ _ hk =>
    refine moves_leave (k := q.script.entry) ?_ ?_ ?_
    · exact .enters rfl rfl rfl
    · exact hk.elim (fun hk => .inr hk.1) fun hk => .inl hk.1
    · exact hk.elim (fun hk => .inl hk.2) fun hk => .inr hk.2.1
  | @raises _ e _ he hlocals =>
    cases (t.machine.trigger e).1.contains t.active.base with
    | true => exact moves_over himmediate hrequeue
    | false =>
      cases i with
      | broadcast | broadcastAndWait | sceneChanged => exact .within rfl rfl rfl ⟨rfl,hlocals⟩
      | _ => cases he
  | stays hi => rcases hi with rfl | ⟨mode,rfl⟩ <;> exact .within rfl rfl rfl ⟨rfl,fun _ => rfl⟩

end Turn

/-! A thread is followed through the queue -/

/-- A thread that was laid down, as it is when it is taken up from a slot. -/
def Activation.resumed (a : Activation) (slot : Nat) : Activation :=
  { a with slot := some slot, immediate := none, requeue := none, stopped := false, stack := [] }

theorem Activation.ofThread_toThread (a : Activation) (k : Continuation) (slot : Nat) :
    ∃ b, Activation.ofThread slot (a.toThread k) = .ok b ∧ b.immediate = some k ∧ b.begin = a.resumed slot :=
  ⟨_,rfl,rfl,rfl⟩

section Resumed

variable {p : Program} {c : Settings} {t u : Turn} {s r : Script} {pc q : Nat}

theorem Turn.Sound.move_going (h : (Phase.turn t s pc).Sound p c) (hadvance : Machine.advance t s pc = .going u r q) :
    ∃ i next, s.fetch pc = .ok (i,next) ∧ Move s next i t.active u.active r q := by
  obtain ⟨i,next,hfetch⟩ := Machine.fetch_of_going hadvance
  refine ⟨i,next,hfetch,?_⟩
  rcases Machine.advance_going hfetch hadvance with ⟨hexec,rfl⟩ | ⟨w,k,hexec,hk,rfl,rfl,rfl⟩
  · exact Turn.Sound.moves h hfetch hexec
  · exact (Turn.Sound.moves h hfetch hexec k (.inl hk)).congr ⟨rfl,rfl,rfl⟩ ⟨rfl,rfl,rfl⟩

theorem Turn.Sound.move_resumed (h : (Phase.turn t s pc).Sound p c) (hp : p.Sound) {m : Machine} {a : Activation}
    {k : Continuation} (hadvance : Machine.advance t s pc = .halted (.done m a)) (hk : a.requeue = some k) (slot : Nat) :
    ∃ i next, s.fetch pc = .ok (i,next) ∧ Move s next i t.active (a.resumed slot) k.script k.pc := by
  obtain ⟨i,next,hfetch,-⟩ := Turn.Sound.exec h hp
  refine ⟨i,next,hfetch,?_⟩
  have hexec := (Machine.advance_done hfetch hadvance).1
  exact (Turn.Sound.moves h hfetch hexec k (.inr hk)).congr ⟨rfl,rfl,rfl⟩ ⟨rfl,rfl,rfl⟩

end Resumed

/-- What one thread comes to, from one offset to another: it performs instructions, and where it yields it is laid
down and taken up again, whatever happens in between. Before each instruction it has a property. -/
inductive Turn.Follows (P : Turn → Nat → Prop) (t : Turn) (s : Script) (pc : Nat) : Turn → Script → Nat → Prop
  | here : Follows P t s pc t s pc
  | advance {u v : Turn} {r r' : Script} {q q' : Nat} (h : Follows P t s pc u r q) (hP : P u q)
      (hadvance : Machine.advance u r q = .going v r' q') : Follows P t s pc v r' q'
  | resume {u : Turn} {r : Script} {q i j : Nat} {m m' : Machine} {a : Activation} {k : Continuation}
      (h : Follows P t s pc u r q) (hP : P u q) (hadvance : Machine.advance u r q = .halted (.done m a))
      (hslot : u.active.slot = some i) (hk : a.requeue = some k)
      (hsteps : Phase.Steps (.frame (m.putBack i a)) (.frame m')) (hj : m'.queue[j]? = some (some (a.toThread k))) :
      Follows P t s pc ⟨m'.setSlot j (some (a.toThread k).shell),a.resumed j⟩ k.script k.pc

namespace Turn.Follows

variable {P : Turn → Nat → Prop} {t u : Turn} {s r : Script} {pc q : Nat} {p : Program} {c : Settings}

theorem steps (h : t.Follows P s pc u r q) : Phase.Steps (.turn t s pc) (.turn u r q) := by
  induction h with
  | here => exact .refl
  | advance _ _ hadvance ih => exact ih.tail (.advance hadvance)
  | @resume u r q i j m m' a k _ _ hadvance hslot _ hsteps hj ih =>
    obtain ⟨b,hload,hb,hbegin⟩ := a.ofThread_toThread k j
    rw [← hbegin]
    exact ((ih.tail (.layDown hadvance hslot)).trans hsteps).tail (.take hj rfl hload hb)

theorem stuck (h : t.Follows P s pc u r q) (hP : ¬ P t pc) : u = t ∧ r = s ∧ q = pc := by
  induction h with
  | here => exact ⟨rfl,rfl,rfl⟩
  | advance _ hu _ ih | resume _ hu _ _ _ _ _ ih =>
    obtain ⟨rfl,rfl,rfl⟩ := ih
    exact absurd hu hP

/-- What holds of frames and locals where a thread starts, and is kept by its moves, holds where it comes to. -/
theorem induct {I : Activation → Script → Nat → Prop} (h : t.Follows P s pc u r q)
    (hsound : (Phase.turn t s pc).Sound p c) (hp : p.Sound) (hstart : I t.active s pc)
    (hstep : ∀ {u : Turn} {r : Script} {q : Nat}, (Phase.turn u r q).Sound p c → P u q → I u.active r q →
      ∀ {i : Instr} {next : Nat}, r.fetch q = .ok (i,next) → ∀ {b : Activation} {r' : Script} {q' : Nat},
        Move r next i u.active b r' q' → I b r' q') : I u.active r q := by
  induction h with
  | here => exact hstart
  | @advance u v r r' q q' h hP hadvance ih =>
    have hu := h.steps.sound hsound hp
    obtain ⟨i,next,hfetch,hmove⟩ := Turn.Sound.move_going hu hadvance
    exact hstep hu hP ih hfetch hmove
  | @resume u r q i j m m' a k h hP hadvance hslot hk hsteps hj ih =>
    have hu := h.steps.sound hsound hp
    obtain ⟨i,next,hfetch,hmove⟩ := Turn.Sound.move_resumed hu hp hadvance hk j
    exact hstep hu hP ih hfetch hmove

theorem mono {Q : Turn → Nat → Prop} (h : t.Follows P s pc u r q) (hPQ : ∀ u q, P u q → Q u q) : t.Follows Q s pc u r q := by
  induction h with
  | here => exact .here
  | advance _ hP hadvance ih => exact ih.advance (hPQ _ _ hP) hadvance
  | resume _ hP hadvance hslot hk hsteps hj ih => exact ih.resume (hPQ _ _ hP) hadvance hslot hk hsteps hj

theorem trans {v : Turn} {r' : Script} {q' : Nat} (h : t.Follows P s pc u r q) (h' : u.Follows P r q v r' q') :
    t.Follows P s pc v r' q' := by
  induction h' with
  | here => exact h
  | advance _ hP hadvance ih => exact ih.advance hP hadvance
  | resume _ hP hadvance hslot hk hsteps hj ih => exact ih.resume hP hadvance hslot hk hsteps hj

end Turn.Follows

/-! Following by computation -/

deriving instance DecidableEq for Script, Continuation, Value, Locals, Frame, Thread

/-- Follows a thread to the first place where it lacks a property. When it yields, the others take their turns until
the end of the pass. -/
def Turn.follow? (P : Turn → Nat → Bool) (fuel : Nat) : Nat → Turn → Script → Nat → Option (Turn × Script × Nat)
  | 0, _, _, _ => none
  | n + 1, t, s, pc =>
    if P t pc then
      match Machine.advance t s pc with
      | .going u r q => follow? P fuel n u r q
      | .halted (.done m a) =>
        match t.active.slot, a.requeue with
        | some i, some k =>
          match Machine.resumeFrom fuel fuel (i + 1) (m.putBack i a) with
          | .done m' =>
            match m'.sweep.queue.findIdx? (· = some (a.toThread k)) with
            | some j =>
              follow? P fuel n ⟨m'.sweep.setSlot j (some (a.toThread k).shell),a.resumed j⟩ k.script k.pc
            | none => none
          | _ => none
        | _, _ => none
      | .halted _ => none
    else some (t,s,pc)

theorem Turn.follows_of_follow {P : Turn → Nat → Bool} {fuel n : Nat} {t u : Turn} {s r : Script} {pc q : Nat}
    {p : Program} {c : Settings} (h : t.follow? P fuel n s pc = some (u,r,q)) (hsound : (Phase.turn t s pc).Sound p c)
    (hp : p.Sound) : t.Follows (fun t pc => P t pc = true) s pc u r q := by
  induction n generalizing t s pc with
  | zero => cases h
  | succ n ih =>
    unfold follow? at h
    split at h
    next hP =>
      split at h
      next v r' q' hadvance =>
        have hstep : t.Follows (fun t pc => P t pc = true) s pc v r' q' := .advance .here hP hadvance
        exact hstep.trans (ih h (hstep.steps.sound hsound hp))
      next m a hadvance =>
        split at h
        next i k hslot hk =>
          split at h
          next m' hrest =>
            split at h
            next j hj =>
              have hlaid : (Phase.frame (m.putBack i a)).Sound p c := (Phase.Step.layDown hadvance hslot).sound hsound hp
              have hcomes := Phase.comes_resumeFrom hlaid hp fuel fuel (i + 1)
              rw [hrest] at hcomes
              obtain ⟨hlt,hget,-⟩ := Array.findIdx?_eq_some_iff_getElem.1 hj
              have hqueue : m'.sweep.queue[j]? = some (some (a.toThread k)) := by
                rw [Array.getElem?_eq_getElem hlt]
                exact congrArg some (of_decide_eq_true hget)
              have hstep : t.Follows (fun t pc => P t pc = true) s pc
                  ⟨m'.sweep.setSlot j (some (a.toThread k).shell),a.resumed j⟩ k.script k.pc :=
                .resume .here hP hadvance hslot hk (.tail hcomes (.sweep m')) hqueue
              exact hstep.trans (ih h (hstep.steps.sound hsound hp))
            · cases h
          · cases h
        · cases h
      · cases h
    · cases h
      exact .here

end SpriteMachine
