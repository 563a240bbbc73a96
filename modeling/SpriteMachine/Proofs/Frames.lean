import SpriteMachine.Proofs.Safety

/-!
A frame of a sound machine: what holds of a turn holds of every thread that is resumed, of every pass over the
queue, and of the frame.
-/

namespace SpriteMachine

/-- How a thread may leave off: its turn is over, and at most it goes on in the next pass. -/
inductive Halt.Safe (p : Program) (c : Settings) (o : Option Nat) : Halt → Prop
  | done {m : Machine} {a : Activation} (h : Turn.Left p c o ⟨m,a⟩) (himmediate : a.immediate = none) :
      Safe p c o (.done m a)
  | fault {m : Machine} (h : m.Sound p c) : Safe p c o (.fault m (.callDepthExceeded c.maxCallDepth))
  | outOfFuel : Safe p c o .outOfFuel

inductive Motion.Safe (p : Program) (c : Settings) (o : Option Nat) : Motion → Prop
  | going {t : Turn} {s : Script} {pc : Nat} (h : t.Sound p c o s pc) : Safe p c o (.going t s pc)
  | halted {h : Halt} (hsafe : h.Safe p c o) : Safe p c o (.halted h)

inductive Outcome.Safe (p : Program) (c : Settings) : Outcome → Prop
  | done {m : Machine} (h : m.Sound p c) : Safe p c (.done m)
  | fault {m : Machine} (h : m.Sound p c) : Safe p c (.fault m (.callDepthExceeded c.maxCallDepth))
  | outOfFuel : Safe p c .outOfFuel

section Turns

variable {p : Program} {c : Settings} {o : Option Nat} {t : Turn} {s : Script} {pc : Nat}

theorem Turn.Ready.sound {k : Continuation} (h : t.Ready p c o k) (hrequeue : t.active.requeue = none) :
    Turn.Sound p c o (t.withActive { t.active with immediate := none, stack := [] }) k.script k.pc := by
  obtain ⟨σ,hplaced,hchain,pc,hpc,hallows⟩ := h
  have hk : k.pc = pc := by rw [Continuation.pc,hpc,Option.getD_some]
  rw [hk]
  exact ⟨σ,⟨hplaced.reactive rfl rfl rfl rfl hplaced.depth hplaced.warp,hchain,rfl,hrequeue⟩,hallows⟩

theorem Turn.Sound.advance (h : t.Sound p c o s pc) (hp : p.Sound) : (Machine.advance t s pc).Safe p c o := by
  obtain ⟨i,next,hfetch,hsafe⟩ := h.exec hp
  unfold Machine.advance
  rw [hfetch]
  dsimp only
  generalize Turn.exec s next i t = result at hsafe
  cases hsafe with
  | next h => exact .going h
  | fault h => exact .halted (.fault h)
  | @leave u h =>
    dsimp only
    cases himmediate : u.active.immediate with
    | none => exact .halted (.done h himmediate)
    | some k =>
      cases h with
      | ended _ hnone _ | later _ hnone _ =>
        rw [hnone] at himmediate
        cases himmediate
      | atOnce hready hsome hrequeue =>
        rw [hsome] at himmediate
        cases himmediate
        exact .going (hready.sound hrequeue)

theorem Turn.Sound.run (h : t.Sound p c o s pc) (hp : p.Sound) (fuel : Nat) : (Machine.run fuel t s pc).Safe p c o := by
  induction fuel generalizing t s pc with
  | zero => exact .outOfFuel
  | succ fuel ih =>
    have hadvance := h.advance hp
    unfold Machine.run
    generalize Machine.advance t s pc = motion at hadvance
    cases hadvance with
    | going h => exact ih h
    | halted hsafe => exact hsafe

theorem Turn.Ready.activate {m : Machine} {a : Activation} {k : Continuation} (h : Turn.Ready p c o ⟨m,a⟩ k)
    (himmediate : a.immediate = some k) (hrequeue : a.requeue = none) (hp : p.Sound) (fuel : Nat) :
    (m.activate fuel a).Safe p c o := by
  unfold Machine.activate
  rw [himmediate]
  exact (h.sound hrequeue).run hp fuel

end Turns

namespace Machine

variable {p : Program} {c : Settings} {m m' : Machine} {i : Nat}

namespace Sound

/-- A thread that is not stopped can be taken up, and goes on where it is to be resumed. -/
theorem load (h : m.Sound p c) {t : Thread} (hi : m.queue[i]? = some (some t)) (hlive : t.stopped = false) :
    ∃ a k, Activation.ofThread i t = .ok a ∧ a.immediate = some k ∧ a.requeue = none ∧
      Turn.Ready p c (some i) ⟨m.setSlot i (some t.shell),a⟩ k := by
  rcases h.threads hi with ⟨hstopped,-⟩ | ⟨σ,hof,hsound,htarget⟩
  · rw [hstopped] at hlive
    cases hlive
  obtain ⟨k,top,callers,saves,hresume,hframes,hchain,hsaved,hk⟩ := hsound.resumes
  obtain ⟨l,rest,hcons,hlength⟩ := List.length_eq_succ_iff.1 hsaved
  have hshape : m.shape? t.target = some σ := by
    rcases htarget with hshape | ⟨hstopped,-⟩
    · exact hshape
    · rw [hstopped] at hlive
      cases hlive
  have hshell : (m.setSlot i (some t.shell)).Sound p c := h.replace hi (.inl ⟨rfl,rfl,rfl⟩) rfl rfl
  have hlt : i < m.queue.size := (Array.getElem?_eq_some_iff.1 hi).1
  refine ⟨{ target := t.target, base := t.base, slot := some i, calls := callers
            frame := { top with saved := rest }, locals := l, warp := t.warp, immediate := t.resume
            stopped := t.stopped },k,?_,hresume,rfl,σ,?_,hchain.top rfl rfl rfl,?_⟩
  · rw [Activation.ofThread,hframes]
    simp only [← hcons]
  · refine ⟨hshell,hshape,rfl,fun hslot => ?_,hlive,?_,?_⟩
    · cases hslot
      exact ⟨t.shell,by simp [setSlot,hlt],rfl,rfl⟩
    · have hdepth := hsound.depth
      rw [hframes] at hdepth
      exact Nat.le_of_succ_le_succ hdepth
    · have hwarp := hsound.warp
      rw [hframes] at hwarp
      exact hwarp.trans (Frame.warpDepth_top (f := { top with saved := rest }) (g := top) rfl callers)
  · change p.stage.shape.Enters σ k.script k.label rest.length
    rw [hlength]
    exact hk

theorem putBack {a : Activation} (h : Turn.Left p c (some i) ⟨m,a⟩) (himmediate : a.immediate = none) :
    (m.putBack i a).Sound p c := by
  unfold Machine.putBack
  cases h with
  | ended h _ hrequeue =>
    rw [hrequeue]
    exact h
  | atOnce _ hsome _ =>
    rw [hsome] at himmediate
    cases himmediate
  | @later k h _ hrequeue =>
    obtain ⟨σ,hplaced,hchain,hk⟩ := h
    obtain ⟨u,hu,hut,hub⟩ := hplaced.occupied rfl
    have hof := (hplaced.machine.shapes hplaced.own).1
    rw [hrequeue]
    refine hplaced.machine.replace hu (.inr ⟨σ,hof,⟨?_,?_,?_⟩,.inl hplaced.own⟩) hut.symm hub.symm
    · exact ⟨k,_,a.calls,a.frame.saved.length,rfl,rfl,hchain.top rfl rfl rfl,rfl,hk⟩
    · exact Nat.succ_le_succ hplaced.depth
    · exact hplaced.warp.trans
        (Frame.warpDepth_top (f := { a.frame with saved := a.locals :: a.frame.saved }) (g := a.frame) rfl a.calls)

theorem resume (h : m.Sound p c) (hp : p.Sound) (fuel i : Nat) : (m.resume fuel i).Safe p c := by
  unfold Machine.resume
  cases hi : m.queue[i]? with
  | none => exact .done h
  | some o =>
    cases o with
    | none => exact .done h
    | some t =>
      dsimp only [Option.join_some]
      cases hlive : t.stopped with
      | true => exact .done h
      | false =>
        simp only [Bool.false_eq_true,if_false]
        split
        · obtain ⟨a,k,hload,himmediate,hrequeue,hready⟩ := h.load hi hlive
          have hsafe := hready.activate himmediate hrequeue hp fuel
          unfold Machine.resumeThread
          rw [hload]
          dsimp only
          generalize (m.setSlot i (some t.shell)).activate fuel a = result at hsafe
          cases hsafe with
          | done h himmediate => exact .done (putBack h himmediate)
          | fault h => exact .fault h
          | outOfFuel => exact .outOfFuel
        · exact .done (h.replace hi ((h.threads hi).stop rfl (.inl rfl)) rfl rfl)

theorem resumeFrom (h : m.Sound p c) (hp : p.Sound) (fuel n i : Nat) : (Machine.resumeFrom fuel n i m).Safe p c := by
  induction n generalizing m i with
  | zero => exact .outOfFuel
  | succ n ih =>
    unfold Machine.resumeFrom
    split
    · have hresume := h.resume hp fuel i
      generalize m.resume fuel i = result at hresume
      cases hresume with
      | done h => exact ih h (i + 1)
      | fault h => exact .fault h
      | outOfFuel => exact .outOfFuel
    · exact .done h

theorem pass (h : m.Sound p c) (hp : p.Sound) (fuel : Nat) : (m.pass fuel).Safe p c := by
  have hresume := h.resumeFrom hp fuel fuel 0
  unfold Machine.pass
  generalize Machine.resumeFrom fuel fuel 0 m = result at hresume
  cases hresume with
  | done h => exact .done h.sweep
  | fault h => exact .fault h
  | outOfFuel => exact .outOfFuel

theorem passes (h : m.Sound p c) (hp : p.Sound) (fuel : Nat) (start budget : Float) (n : Nat) :
    (Machine.passes fuel start budget n m).Safe p c := by
  induction n generalizing m with
  | zero => exact .outOfFuel
  | succ n ih =>
    have hpass := h.pass hp fuel
    unfold Machine.passes
    generalize m.pass fuel = result at hpass
    cases hpass with
    | fault h => exact .fault h
    | outOfFuel => exact .outOfFuel
    | @done m' h =>
      dsimp only
      split
      · have hclock : m'.readClock.2.Sound p c := h.of_eq rfl rfl rfl
        split
        · exact ih hclock
        · exact .done hclock
      · exact .done h

end Sound

/-- The machine in which the first pass of a frame begins. -/
def beginFrame (m : Machine) : Machine :=
  let m := (({ m with visual := false }.applyDrags).call .resume).readClock.2
  { m.now.2 with frameTime := m.now.1 }

theorem step_eq (fuel : Nat) (m : Machine) : ∃ start, m.step fuel =
    match m.beginFrame.passes fuel start m.beginFrame.settings.frameDuration.milliseconds fuel with
    | .done m => .done m.draw
    | o => o :=
  ⟨(({ m with visual := false }.applyDrags).call .resume).readClock.1,rfl⟩

theorem Nudged.applyDrags (m : Machine) : m.Nudged m.applyDrags := by
  refine Nudged.foldl ?_ _ m
  intro m x
  exact .moveTo m x.1 _

theorem Nudged.beginFrame (m : Machine) : m.Nudged m.beginFrame := by
  have hvisual : m.Nudged { m with visual := false } := .of_eq rfl rfl rfl rfl
  have hclock : m.Nudged (({ m with visual := false }.applyDrags).call .resume).readClock.2 :=
    (hvisual.trans (.applyDrags _)).trans (.of_eq rfl rfl rfl rfl)
  unfold Machine.beginFrame
  generalize (({ m with visual := false }.applyDrags).call .resume).readClock.2 = m' at hclock
  exact hclock.trans (.of_eq rfl rfl rfl rfl)

theorem Nudged.draw (m : Machine) : m.Nudged m.draw := by
  refine Nudged.foldl (fun m id => ?_) _ m
  split
  · exact .call _ _
  · exact .refl m

theorem Alike.readClock (m : Machine) : m.Alike m.readClock.2 := .of_eq rfl rfl rfl rfl

theorem Alike.beginFrame (m : Machine) : m.Alike m.beginFrame := (Nudged.beginFrame m).toAlike

theorem Alike.draw (m : Machine) : m.Alike m.draw := (Nudged.draw m).toAlike

theorem Sound.step (h : m.Sound p c) (hp : p.Sound) (fuel : Nat) : (m.step fuel).Safe p c := by
  obtain ⟨start,hstep⟩ := m.step_eq fuel
  have hpasses := (h.alike (.beginFrame m)).passes hp fuel start m.beginFrame.settings.frameDuration.milliseconds fuel
  rw [hstep]
  generalize Machine.passes fuel start _ fuel m.beginFrame = result at hpasses
  cases hpasses with
  | done h => exact .done (h.alike (.draw _))
  | fault h => exact .fault h
  | outOfFuel => exact .outOfFuel

end Machine

end SpriteMachine
