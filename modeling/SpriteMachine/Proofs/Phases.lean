import SpriteMachine.Proofs.Restarts

/-!
A machine step by step: what the host does between frames, the turns of threads in a frame, in any order, and the
instructions of a turn. All that a machine reaches it reaches in such steps. A thread is followed from turn to turn:
where it yields it is laid down in the queue, and goes on as it was when it is taken up again, whatever happens
meanwhile.
-/

namespace SpriteMachine

/-- Where a machine is: between frames, in a frame between the turns of threads, or in a turn, about to perform the
instruction at an offset of a script. -/
inductive Phase where
  | idle (m : Machine)
  | frame (m : Machine)
  | turn (t : Turn) (s : Script) (pc : Nat)

/-- The machine in a phase. -/
def Phase.machine : Phase → Machine
  | .idle m | .frame m => m
  | .turn t _ _ => t.machine

/-- Whether a machine is between frames. -/
def Phase.isIdle : Phase → Bool
  | .idle _ => true
  | _ => false

/-- A thread that begins to run. -/
def Activation.begin (a : Activation) : Activation :=
  { a with immediate := none, stack := [] }

namespace Phase

inductive Step : Phase → Phase → Prop
  | host (m : Machine) (a : HostAction) : Step (.idle m) (.idle (a.apply m))
  | start {m : Machine} {id : Nat} {x : Target} {s : Script} (hx : m.targets.get? id = some x) (hs : s ∈ x.scripts.all)
      (restart : Bool) : Step (.idle m) (.idle (m.startThread id s restart))
  | detach {m : Machine} {id : Nat} {x : Target} {s : Script} (hx : m.targets.get? id = some x)
      (hs : s ∈ x.scripts.all) : Step (.idle m) (.turn ⟨m,(Activation.detached id s).begin⟩ s s.entry.pc)
  | begin (m : Machine) : Step (.idle m) (.frame m.beginFrame)
  | take {m : Machine} {i : Nat} {t : Thread} {a : Activation} {k : Continuation} (hi : m.queue[i]? = some (some t))
      (hlive : t.stopped = false) (hload : Activation.ofThread i t = .ok a) (hk : a.immediate = some k) :
      Step (.frame m) (.turn ⟨m.setSlot i (some t.shell),a.begin⟩ k.script k.pc)
  | gone {m : Machine} {i : Nat} {t : Thread} (hi : m.queue[i]? = some (some t))
      (hgone : m.targets.contains t.target = false) : Step (.frame m) (.frame (m.setSlot i (some t.stop)))
  | advance {t u : Turn} {s r : Script} {pc q : Nat} (h : Machine.advance t s pc = .going u r q) :
      Step (.turn t s pc) (.turn u r q)
  | layDown {t : Turn} {s : Script} {pc i : Nat} {m : Machine} {a : Activation}
      (h : Machine.advance t s pc = .halted (.done m a)) (hslot : t.active.slot = some i) :
      Step (.turn t s pc) (.frame (m.putBack i a))
  | finish {t : Turn} {s : Script} {pc : Nat} {m : Machine} {a : Activation}
      (h : Machine.advance t s pc = .halted (.done m a)) (hslot : t.active.slot = none) :
      Step (.turn t s pc) (.idle m)
  | fault {t : Turn} {s : Script} {pc : Nat} {m : Machine} {f : Fault}
      (h : Machine.advance t s pc = .halted (.fault m f)) : Step (.turn t s pc) (.idle m)
  | sweep (m : Machine) : Step (.frame m) (.frame m.sweep)
  | clock (m : Machine) : Step (.frame m) (.frame m.readClock.2)
  | draw (m : Machine) : Step (.frame m) (.idle m.draw)

/-- Any number of steps. -/
abbrev Steps : Phase → Phase → Prop :=
  Relation.ReflTransGen Step

def Sound (p : Program) (c : Settings) : Phase → Prop
  | .idle m | .frame m => m.Sound p c
  | .turn t s pc => t.Sound p c t.active.slot s pc

variable {p : Program} {c : Settings} {σ τ : Phase}

theorem Sound.machine (h : σ.Sound p c) : σ.machine.Sound p c := by
  cases σ with
  | idle m | frame m => exact h
  | turn t s pc =>
    obtain ⟨_,hrunning,-⟩ := h
    exact hrunning.placed.machine

theorem Step.sound (h : Step σ τ) (hσ : σ.Sound p c) (hp : p.Sound) : τ.Sound p c := by
  have hslot : ∀ {t : Turn} {s : Script} {pc : Nat} {o : Option Nat}, t.Sound p c o s pc → t.active.slot = o :=
    fun ⟨_,hrunning,_⟩ => hrunning.placed.slot
  have hturn : ∀ {t : Turn} {s : Script} {pc : Nat} {o : Option Nat}, t.Sound p c o s pc →
      (Phase.turn t s pc).Sound p c := by
    intro t s pc o h
    change t.Sound p c t.active.slot s pc
    rw [hslot h]
    exact h
  cases h with
  | host m a => exact Machine.Sound.host hσ hp a
  | @start m id x s hx hs restart =>
    have hown : m.shape? id = some x.shape := by rw [Machine.shape?,hx]; rfl
    exact Machine.Sound.startThread hσ hp hown hs restart
  | detach hx hs => exact hturn ((Machine.Sound.detached hσ hp hx hs).sound rfl)
  | begin m => exact Machine.Sound.alike hσ (.beginFrame m)
  | take hi hlive hload hk =>
    obtain ⟨a',k',hload',hk',hrequeue,hready⟩ := Machine.Sound.load hσ hi hlive
    rw [hload] at hload'
    cases hload'
    rw [hk] at hk'
    cases hk'
    exact hturn (hready.sound hrequeue)
  | gone hi hgone => exact Machine.Sound.replace hσ hi ((Machine.Sound.threads hσ hi).stop rfl (.inl rfl)) rfl rfl
  | advance h =>
    have hsafe := Turn.Sound.advance hσ hp
    rw [h] at hsafe
    cases hsafe with
    | going h => exact hturn h
  | layDown h hslot =>
    have hsafe := Turn.Sound.advance hσ hp
    rw [h,hslot] at hsafe
    cases hsafe with
    | halted hsafe =>
      cases hsafe with
      | done hleft himmediate => exact Machine.Sound.putBack hleft himmediate
  | finish h hslot =>
    have hsafe := Turn.Sound.advance hσ hp
    rw [h] at hsafe
    cases hsafe with
    | halted hsafe =>
      cases hsafe with
      | done hleft _ =>
        cases hleft with
        | ended h _ _ => exact h
        | atOnce h _ _ | later h _ _ =>
          obtain ⟨_,hplaced,-⟩ := h
          exact hplaced.machine
  | fault h =>
    have hsafe := Turn.Sound.advance hσ hp
    rw [h] at hsafe
    cases hsafe with
    | halted hsafe =>
      cases hsafe with
      | fault hm => exact hm
  | sweep m => exact Machine.Sound.sweep hσ
  | clock m => exact Machine.Sound.alike hσ (.readClock m)
  | draw m => exact Machine.Sound.alike hσ (.draw m)

theorem Steps.sound (h : Steps σ τ) (hσ : σ.Sound p c) (hp : p.Sound) : τ.Sound p c := by
  induction h with
  | refl => exact hσ
  | tail _ hstep ih => exact hstep.sound ih hp

theorem Steps.sound_ofProgram {clock : Clock} (h : Steps (.idle (.ofProgram p c clock)) σ) (hp : p.Sound) : σ.Sound p c :=
  h.sound (Machine.Sound.ofProgram hp c clock) hp

/-! Frames in steps -/

def Comes (σ : Phase) : Outcome → Prop
  | .done m => Steps σ (.frame m)
  | .fault m _ => Steps σ (.idle m)
  | .outOfFuel => True

theorem Comes.trans {o : Outcome} (h : Steps σ τ) (h' : τ.Comes o) : σ.Comes o := by
  cases o with
  | done m | fault m f => exact Relation.ReflTransGen.trans h h'
  | outOfFuel => trivial

variable {t : Turn} {s : Script} {pc : Nat} {m' : Machine}

theorem comes_run {i : Nat} (h : t.Sound p c (some i) s pc) (hp : p.Sound) (fuel : Nat) :
    (Phase.turn t s pc).Comes (Machine.afterHalt i (Machine.run fuel t s pc)) := by
  induction fuel generalizing t s pc with
  | zero => trivial
  | succ fuel ih =>
    have hslot : t.active.slot = some i := by
      obtain ⟨_,hrunning,-⟩ := h
      exact hrunning.placed.slot
    have hsafe := h.advance hp
    unfold Machine.run
    cases hadvance : Machine.advance t s pc with
    | going u r q =>
      rw [hadvance] at hsafe
      cases hsafe with
      | going hu => exact .trans (.single (.advance hadvance)) (ih hu)
    | halted halt =>
      cases halt with
      | done m a => exact .single (.layDown hadvance hslot)
      | fault m f => exact .single (.fault hadvance)
      | outOfFuel => trivial

variable {m : Machine}

theorem comes_resume (h : m.Sound p c) (hp : p.Sound) (fuel i : Nat) : (Phase.frame m).Comes (m.resume fuel i) := by
  have hstay : (Phase.frame m).Comes (.done m) := .refl
  unfold Machine.resume
  cases hi : m.queue[i]? with
  | none => exact hstay
  | some o =>
    cases o with
    | none => exact hstay
    | some t =>
      dsimp only [Option.join_some]
      cases hlive : t.stopped with
      | true => exact hstay
      | false =>
        simp only [Bool.false_eq_true,if_false]
        split
        · obtain ⟨a,k,hload,hk,hrequeue,hready⟩ := h.load hi hlive
          have hcomes := comes_run (hready.sound hrequeue) hp fuel
          unfold Machine.resumeThread Machine.activate
          rw [hload]
          dsimp only
          rw [hk]
          refine .trans (.single (.take hi hlive hload hk)) ?_
          unfold Machine.afterHalt at hcomes
          exact hcomes
        next hgone => exact .single (.gone hi (by simpa using hgone))

theorem comes_resumeFrom (h : m.Sound p c) (hp : p.Sound) (fuel n i : Nat) :
    (Phase.frame m).Comes (Machine.resumeFrom fuel n i m) := by
  induction n generalizing m i with
  | zero => trivial
  | succ n ih =>
    unfold Machine.resumeFrom
    split
    · have hcomes := comes_resume h hp fuel i
      have hsafe := h.resume hp fuel i
      generalize m.resume fuel i = result at hcomes hsafe
      cases hsafe with
      | done hm => exact .trans hcomes (ih hm (i + 1))
      | fault _ => exact hcomes
      | outOfFuel => trivial
    · exact .refl

theorem comes_passes (h : m.Sound p c) (hp : p.Sound) (fuel : Nat) (start budget : Float) (n : Nat) :
    (Phase.frame m).Comes (Machine.passes fuel start budget n m) := by
  induction n generalizing m with
  | zero => trivial
  | succ n ih =>
    have hcomes := comes_resumeFrom h hp fuel fuel 0
    have hsafe := h.resumeFrom hp fuel fuel 0
    unfold Machine.passes Machine.pass
    generalize Machine.resumeFrom fuel fuel 0 m = result at hcomes hsafe
    cases hsafe with
    | fault _ => exact hcomes
    | outOfFuel => trivial
    | @done m₁ hm =>
      have hsweep : Steps (.frame m) (.frame m₁.sweep) := .tail hcomes (.sweep m₁)
      dsimp only
      split
      · have hclock : Steps (.frame m) (.frame m₁.sweep.readClock.2) := .tail hsweep (.clock _)
        split
        · exact .trans hclock (ih (hm.sweep.alike (.readClock _)))
        · exact hclock
      · exact hsweep

theorem steps_frame (h : m.Sound p c) (hp : p.Sound) {fuel : Nat}
    (hstep : m.step fuel = .done m' ∨ ∃ f, m.step fuel = .fault m' f) : Steps (.idle m) (.idle m') := by
  obtain ⟨start,heq⟩ := m.step_eq fuel
  have hcomes := comes_passes (h.alike (.beginFrame m)) hp fuel start m.beginFrame.settings.frameDuration.milliseconds fuel
  rw [heq] at hstep
  refine .head (.begin m) ?_
  generalize Machine.passes fuel start _ fuel m.beginFrame = result at hcomes hstep
  cases result with
  | done m₁ =>
    rcases hstep with hdone | ⟨f,hfault⟩
    · cases hdone
      exact .tail hcomes (.draw m₁)
    · cases hfault
  | fault m₁ f =>
    rcases hstep with hdone | ⟨f',hfault⟩
    · cases hdone
    · cases hfault
      exact hcomes
  | outOfFuel => rcases hstep with hdone | ⟨f,hfault⟩ <;> contradiction

theorem steps_detached (h : t.Sound p c none s pc) (hp : p.Sound) (fuel : Nat)
    (hrun : (∃ a, Machine.run fuel t s pc = .done m' a) ∨ ∃ f, Machine.run fuel t s pc = .fault m' f) :
    Steps (.turn t s pc) (.idle m') := by
  induction fuel generalizing t s pc with
  | zero => rcases hrun with ⟨a,hrun⟩ | ⟨f,hrun⟩ <;> cases hrun
  | succ fuel ih =>
    have hslot : t.active.slot = none := by
      obtain ⟨_,hrunning,-⟩ := h
      exact hrunning.placed.slot
    have hsafe := h.advance hp
    unfold Machine.run at hrun
    cases hadvance : Machine.advance t s pc with
    | going u r q =>
      rw [hadvance] at hsafe hrun
      cases hsafe with
      | going hu => exact .head (.advance hadvance) (ih hu hrun)
    | halted halt =>
      rw [hadvance] at hrun
      rcases hrun with ⟨a,hrun⟩ | ⟨f,hrun⟩
      · cases hrun
        exact .single (.finish hadvance hslot)
      · cases hrun
        exact .single (.fault hadvance)

end Phase

theorem Machine.Resumption.steps {m : Machine} {slot n pc : Nat} {P : Turn → Instr → Prop} {t : Turn} {s : Script}
    (h : m.Resumption slot P n t s pc) : Phase.Steps (.frame m) (.turn t s pc) := by
  induction h with
  | load hslot hlive hload hk => exact .single (.take hslot hlive hload hk)
  | advance _ _ _ hadvance ih => exact ih.tail (.advance hadvance)

theorem Machine.Reachable.steps {p : Program} {c : Settings} {first m : Machine} (h : first.Reachable m)
    (hfirst : first.Sound p c) (hp : p.Sound) : Phase.Steps (.idle first) (.idle m) := by
  have hdetached : ∀ {m m' : Machine} {id fuel : Nat} {x : Target} {s : Script}, m.Sound p c →
      m.targets.get? id = some x → s ∈ x.scripts.all →
      (m.runDetached fuel id s = .done m' ∨ ∃ f, m.runDetached fuel id s = .fault m' f) →
      Phase.Steps (.idle m) (.idle m') := by
    intro m m' id fuel x s hm hx hs hrun
    refine .head (.detach hx hs) (Phase.steps_detached ((hm.detached hp hx hs).sound rfl) hp fuel ?_)
    have hactivate : m.activate fuel (.detached id s) = run fuel ⟨m,(Activation.detached id s).begin⟩ s s.entry.pc := rfl
    unfold runDetached at hrun
    rw [hactivate] at hrun
    change (∃ a, run fuel ⟨m,(Activation.detached id s).begin⟩ s s.entry.pc = .done m' a) ∨ _
    split at hrun
    next m₁ a hdone =>
      rcases hrun with heq | ⟨f,heq⟩ <;> cases heq
      exact .inl ⟨a,hdone⟩
    next m₁ f hfault =>
      rcases hrun with heq | ⟨f',heq⟩ <;> cases heq
      exact .inr ⟨f,hfault⟩
    next hnone => rcases hrun with heq | ⟨f',heq⟩ <;> cases heq
  induction h with
  | first => exact .refl
  | host _ a ih => exact .tail ih (.host _ a)
  | frame h hstep ih => exact ih.trans (Phase.steps_frame (h.sound hfirst hp) hp (.inl hstep))
  | fault h hstep ih => exact ih.trans (Phase.steps_frame (h.sound hfirst hp) hp (.inr ⟨_,hstep⟩))
  | startThread _ ht hs restart ih => exact .tail ih (.start ht hs restart)
  | detached h ht hs hrun ih => exact ih.trans (hdetached (h.sound hfirst hp) ht hs (.inl hrun))
  | detachedFault h ht hs hrun ih => exact ih.trans (hdetached (h.sound hfirst hp) ht hs (.inr ⟨_,hrun⟩))

end SpriteMachine
