import SpriteMachine.Proofs.Passages

/-!
Blocks that take their time. Each notes when it began and how long it is to last, and control goes on after it only in a
frame in which that time is over. All but bubbles yield before they look at the time.
-/

namespace SpriteMachine

/-- Whether a duration in seconds that began at a time is over. -/
def Elapsed (start duration now : Float) : Prop :=
  now - (Value.number start).toNumber ≥ (Value.number duration).toNumber * 1000.0

instance (start duration now : Float) : Decidable (Elapsed start duration now) :=
  inferInstanceAs (Decidable (_ ≥ _))

/-- A time and a duration are in the first two locals. -/
structure Turn.Notes (t : Turn) (start duration : Float) : Prop where
  start : t.active.locals.get 0 = .number start
  duration : t.active.locals.get 1 = .number duration

variable {t : Turn} {s : Script} {b : Block} {pauses : Bool} {params : List String}

theorem Turn.Notes.of_agrees {u : Turn} {start duration : Float} (h : t.Notes start duration) (hu : t.active.Agrees u.active) :
    u.Notes start duration := by
  obtain ⟨hstart,hduration⟩ := h
  rw [← hu.locals] at hstart hduration
  exact ⟨hstart,hduration⟩

/-- A thread comes to a wait in the frame in which the block began, and has noted both. -/
structure Spot.Begins (y : Spot) (s : Script) (depth : Nat) (start duration : Float) : Prop where
  script : y.script = s
  depth : y.depth = depth
  notes : y.turn.Notes start duration
  now : y.turn.machine.frameTime = start

/-- The operand names a sound of the running target that can be heard. -/
def Turn.findsSound (t : Turn) : Bool :=
  t.active.stack.head?.any fun v => (t.machine.playSound? t.active.target v).isSome

/-- If a block plays a sound until its end, then the sound that it is given can be heard. -/
def Ground.Heard (g : Ground) (b : Block) (depth : Nat) (l : List Spot) : Prop :=
  b.opcode = "sound_playuntildone" → ∀ first last, g.Between .callSelf first last →
    ∀ y ∈ l, y.isAt depth first = true → y.turn.findsSound = true

/-! What is known on the way -/

/-- How far a block has come that waits. -/
inductive WaitStage where
  | fresh
  | stamped
  | started
  | measured
  | played
  | ready
  | waiting
  | looping
  | tested
  | past
  | never

namespace WaitStage

section

variable (s : Script) (depth : Nat) (start : Float) (pauses : Bool)

/-- The block is in the frame in which it began. -/
def Fresh (k : List Spot) (u : Turn) : Prop :=
  Steady k ∧ u.machine.frameTime = start

/-- The wait has begun, with a yield if it pauses. -/
def Begun (duration : Float) (k : List Spot) : Prop :=
  ∃ l y l', k = l ++ y :: l' ∧ Steady l ∧ y.Begins s depth start duration ∧ (pauses = true → y.Yields)

/-- Nothing is left to be done before the wait begins. -/
def Ready (k : List Spot) (u : Turn) : Prop :=
  Fresh start k u ∧ ∃ duration, u.Notes start duration

def Waits (k : List Spot) (u : Turn) : Prop :=
  ∃ duration, u.Notes start duration ∧ Begun s depth start pauses duration k

/-- What is known at a stage. -/
def Holds : WaitStage → List Spot → Turn → Prop
  | fresh, k, u => Fresh start k u
  | stamped, k, u => Fresh start k u ∧ ∃ rest, u.active.stack = .number start :: rest
  | started, k, u => Fresh start k u ∧ u.active.locals.get 0 = .number start
  | measured, k, u => Fresh start k u ∧ u.active.locals.get 0 = .number start ∧
      ∃ x rest, u.active.stack = .number x :: rest
  | played, k, u => Fresh start k u ∧ (∃ duration, u.Notes start duration) ∧
      ∃ rest, u.active.stack = .bool true :: rest
  | ready, k, u => Ready start k u
  | waiting, k, u => Waits s depth start pauses k u
  | looping, k, u => Ready start k u ∧ pauses = false ∨ Waits s depth start pauses k u
  | tested, k, u => ∃ duration, u.Notes start duration ∧ Begun s depth start pauses duration k ∧
      ∃ rest, u.active.stack = .bool (Elapsed start duration u.machine.frameTime) :: rest
  | past, k, u => ∃ duration, Begun s depth start pauses duration k ∧ Elapsed start duration u.machine.frameTime
  | never, _, _ => False

end

variable {s : Script} {depth : Nat} {start : Float} {pauses : Bool} {k l : List Spot} {t u : Turn} {g : Ground} {n n' : Nat}
  {b : Block}

variable {duration : Float} {d : Directive} {slot : String} {i : Nat} {a : MusicAction} {thinking : Bool}
  {pre : List WaitStage} {st : Step} {stage : Nat → WaitStage}

theorem Begun.append (h : Begun s depth start pauses duration k) (l : List Spot) :
    Begun s depth start pauses duration (k ++ l) := by
  obtain ⟨l₁,y,l₂,rfl,hsteady,hbegins⟩ := h
  exact ⟨l₁,y,l₂ ++ l,by simp,hsteady,hbegins⟩

theorem Fresh.append (h : Fresh start k t) (hsteady : Steady l) (htime : u.machine.frameTime = t.machine.frameTime) :
    Fresh start (k ++ l) u :=
  ⟨h.1.append hsteady,htime.trans h.2⟩

/-- What writes nothing brings a block no further. -/
theorem holds_mark {stage : WaitStage} (h : stage.Holds s depth start pauses k t) (hleads : g.Leads s n t l u (.emit d) n')
    (hd : Step.isMark d = true) : n' = n + 1 ∧ stage.Holds s depth start pauses (k ++ l) u := by
  obtain ⟨rfl,⟨hagrees,htime⟩,hstack,hsteady⟩ := hleads.of_mark hd
  have hfresh : Fresh start k t → Fresh start (k ++ l) u := fun h => h.append hsteady htime
  have hready : Ready start k t → Ready start (k ++ l) u := fun ⟨h,duration,hnotes⟩ =>
    ⟨hfresh h,duration,hnotes.of_agrees hagrees⟩
  have hwaits : Waits s depth start pauses k t → Waits s depth start pauses (k ++ l) u := fun ⟨duration,hnotes,hbegun⟩ =>
    ⟨duration,hnotes.of_agrees hagrees,hbegun.append l⟩
  refine ⟨rfl,?_⟩
  cases stage with
  | fresh => exact hfresh h
  | stamped => exact ⟨hfresh h.1,by rw [hstack]; exact h.2⟩
  | started => exact ⟨hfresh h.1,by rw [hagrees.locals]; exact h.2⟩
  | measured => exact ⟨hfresh h.1,by rw [hagrees.locals,hstack]; exact h.2⟩
  | played => exact ⟨hfresh h.1,(hready ⟨h.1,h.2.1⟩).2,by rw [hstack]; exact h.2.2⟩
  | ready => exact hready h
  | waiting => exact hwaits h
  | looping => exact h.imp (fun h => ⟨hready h.1,h.2⟩) hwaits
  | tested =>
    obtain ⟨duration,hnotes,hbegun,htest⟩ := h
    exact ⟨duration,hnotes.of_agrees hagrees,hbegun.append l,by rw [hstack,htime]; exact htest⟩
  | past =>
    obtain ⟨duration,hbegun,hpast⟩ := h
    exact ⟨duration,hbegun.append l,by rw [htime]; exact hpast⟩
  | never => exact h

theorem holds_inputs (h : fresh.Holds s depth start pauses k t) (hleads : g.Leads s n t l u .inputs n') :
    n' = n + 1 ∧ fresh.Holds s depth start pauses (k ++ l) u := by
  obtain ⟨rfl,hkeeps,hsteady,-⟩ := hleads.of_value rfl
  exact ⟨rfl,h.append hsteady hkeeps.time⟩

theorem holds_save (h : fresh.Holds s depth start pauses k t) (hleads : g.Leads s n t l u (Step.op .save) n') :
    n' = n + 1 ∧ fresh.Holds s depth start pauses (k ++ l) u := by
  obtain ⟨rfl,hperform,-,hsteady⟩ := hleads.of_op
  cases hperform
  exact ⟨rfl,h.append hsteady rfl⟩

theorem holds_pushNow (h : fresh.Holds s depth start pauses k t) (hleads : g.Leads s n t l u (Step.op .pushNow) n') :
    n' = n + 1 ∧ stamped.Holds s depth start pauses (k ++ l) u := by
  obtain ⟨rfl,hperform,-,hsteady⟩ := hleads.of_op
  cases hperform
  exact ⟨rfl,h.append hsteady rfl,t.active.stack,congrArg (fun x => Value.number x :: _) h.2⟩

theorem holds_stamp (h : stamped.Holds s depth start pauses k t) (hleads : g.Leads s n t l u (Step.op .setLocal [0]) n') :
    n' = n + 1 ∧ started.Holds s depth start pauses (k ++ l) u := by
  obtain ⟨rfl,hperform,-,hsteady⟩ := hleads.of_op
  obtain ⟨hfresh,rest,hstack⟩ := h
  obtain ⟨hlocals,hmachine⟩ := Turn.perform_setLocal 0 hstack hperform
  exact ⟨rfl,hfresh.append hsteady (by rw [hmachine]),by rw [hlocals,Locals.get_set]⟩

theorem holds_measure (h : measured.Holds s depth start pauses k t) (hleads : g.Leads s n t l u (Step.op .setLocal [1]) n') :
    n' = n + 1 ∧ ready.Holds s depth start pauses (k ++ l) u := by
  obtain ⟨rfl,hperform,-,hsteady⟩ := hleads.of_op
  obtain ⟨hfresh,hstart,x,rest,hstack⟩ := h
  obtain ⟨hlocals,hmachine⟩ := Turn.perform_setLocal 1 hstack hperform
  refine ⟨rfl,hfresh.append hsteady (by rw [hmachine]),x,?_,?_⟩
  · rw [hlocals,Locals.get_set_of_ne _ (by decide),hstart]
  · rw [hlocals,Locals.get_set]

theorem holds_number (h : started.Holds s depth start pauses k t) (hleads : g.Leads s n t l u (.number slot) n') :
    n' = n + 1 ∧ measured.Holds s depth start pauses (k ++ l) u := by
  obtain ⟨rfl,hkeeps,hsteady,hnumber⟩ := hleads.of_value rfl
  exact ⟨rfl,h.1.append hsteady hkeeps.time,by rw [hkeeps.agrees.locals]; exact h.2,hnumber slot rfl⟩

theorem started_of_measured (h : n' = n + 1 ∧ measured.Holds s depth start pauses k t) :
    n' = n + 1 ∧ started.Holds s depth start pauses k t :=
  ⟨h.1,h.2.1,h.2.2.1⟩

theorem holds_pause (hdepth : t.active.calls.length = depth)
    (h : ready.Holds s depth start pauses k t ∨ waiting.Holds s depth start pauses k t)
    (hleads : g.Leads s n t l u (Step.resume .forceQueue i) n') :
    n' = Step.target g.steps i ∧ waiting.Holds s depth start pauses (k ++ l) u := by
  obtain ⟨rfl,hagrees,l',v,pc,rfl,hsteady,hkeeps,hyields⟩ := hleads.of_resume
  refine ⟨rfl,?_⟩
  rcases h with ⟨⟨hbefore,htime⟩,duration,hnotes⟩ | ⟨duration,hnotes,hbegun⟩
  · refine ⟨duration,hnotes.of_agrees hagrees,k ++ l',⟨v,s,pc⟩,[],by simp,
      hbefore.append hsteady,⟨rfl,?_,hnotes.of_agrees hkeeps.agrees,hkeeps.time.trans htime⟩,fun _ => hyields rfl⟩
    exact (congrArg List.length hkeeps.agrees.calls).trans hdepth
  · exact ⟨duration,hnotes.of_agrees hagrees,hbegun.append _⟩

theorem perform_waitElapsed (hnotes : t.Notes start duration) : Turn.perform s (.waitElapsed 0) t =
    .ok () (t.withStack (.bool (Elapsed start duration t.machine.frameTime) :: t.active.stack)) := by
  have hperform : Turn.perform s (.waitElapsed 0) t = .ok () (t.withStack (.bool (decide (t.machine.frameTime -
      (t.active.locals.get 0).toNumber ≥ (t.active.locals.get 1).toNumber * 1000.0)) :: t.active.stack)) := rfl
  rw [hnotes.start,hnotes.duration] at hperform
  exact hperform

theorem holds_waitElapsed (hdepth : t.active.calls.length = depth) (h : looping.Holds s depth start pauses k t)
    (hleads : g.Leads s n t l u (Step.op .waitElapsed [0]) n') : n' = n + 1 ∧ tested.Holds s depth start pauses (k ++ l) u := by
  obtain ⟨rfl,hperform,hl,hsteady⟩ := hleads.of_op
  refine ⟨rfl,?_⟩
  have htested : ∀ {duration : Float}, t.Notes start duration → Begun s depth start pauses duration (k ++ l) →
      tested.Holds s depth start pauses (k ++ l) u := by
    intro duration hnotes hbegun
    cases (perform_waitElapsed hnotes).symm.trans hperform
    exact ⟨duration,⟨hnotes.start,hnotes.duration⟩,hbegun,t.active.stack,rfl⟩
  rcases h with ⟨⟨⟨hbefore,htime⟩,duration,hnotes⟩,hpauses⟩ | ⟨duration,hnotes,hbegun⟩
  · refine htested hnotes ⟨k,⟨t,s,g.pc n⟩,[],by rw [hl],hbefore,⟨rfl,hdepth,hnotes,htime⟩,?_⟩
    rw [hpauses]
    exact fun hfalse => by cases hfalse
  · exact htested hnotes (hbegun.append l)

theorem holds_test (h : tested.Holds s depth start pauses k t) (hleads : g.Leads s n t l u (Step.jump .jumpIfTrue i) n') :
    n' = Step.target g.steps i ∧ past.Holds s depth start pauses (k ++ l) u ∨
      n' = n + 1 ∧ waiting.Holds s depth start pauses (k ++ l) u := by
  obtain ⟨v,rest,hstack,hkeeps,hsteady,rfl⟩ := hleads.of_branch true rfl
  obtain ⟨duration,hnotes,hbegun,rest',hstack'⟩ := h
  cases hstack.symm.trans hstack'
  by_cases hpast : Elapsed start duration t.machine.frameTime
  · refine .inl ⟨if_pos (decide_eq_true hpast),duration,hbegun.append l,?_⟩
    rw [hkeeps.time]
    exact hpast
  · exact .inr ⟨if_neg fun h => hpast (of_decide_eq_true h),duration,hnotes.of_agrees hkeeps.agrees,hbegun.append l⟩

theorem holds_restore (h : past.Holds s depth start pauses k t) (hleads : g.Leads s n t l u (Step.op .restore) n') :
    n' = n + 1 ∧ past.Holds s depth start pauses (k ++ l) u := by
  obtain ⟨rfl,hperform,-,hsteady⟩ := hleads.of_op
  obtain ⟨duration,hbegun,hpast⟩ := h
  exact ⟨rfl,duration,hbegun.append l,by rw [Turn.frameTime_perform hperform]; exact hpast⟩

/-! Builtins that begin a wait -/

theorem number_of_music (ha : a = .playNote ∨ a = .playDrum ∨ a = .rest) (h : Turn.music a t = .ok () u) :
    ∃ x rest, u.active.stack = .number x :: rest := by
  rcases ha with rfl | rfl | rfl
  · obtain ⟨_,_,-,h⟩ := Turn.bind_eq_ok h
    obtain ⟨_,_,-,h⟩ := Turn.bind_eq_ok h
    cases h
    exact ⟨_,_,rfl⟩
  · obtain ⟨_,_,-,h⟩ := Turn.bind_eq_ok h
    obtain ⟨_,_,-,h⟩ := Turn.bind_eq_ok h
    cases h
    exact ⟨_,_,rfl⟩
  · obtain ⟨_,_,-,h⟩ := Turn.bind_eq_ok h
    cases h
    exact ⟨_,_,rfl⟩

theorem notes_of_sayFor (h : Turn.looks (.sayFor thinking) t = .ok () u) :
    ∃ duration, u.Notes u.machine.frameTime duration := by
  obtain ⟨⟨text,seconds⟩,v,-,h⟩ := Turn.bind_eq_ok h
  obtain ⟨number,v',-,h⟩ := Turn.bind_eq_ok h
  cases h
  refine ⟨seconds.toNumber,?_,?_⟩
  · exact (Locals.get_set_of_ne _ (by decide) _).trans ((Locals.get_set_of_ne _ (by decide) _).trans (Locals.get_set _ _ _))
  · exact (Locals.get_set_of_ne _ (by decide) _).trans (Locals.get_set _ _ _)

theorem notes_of_play (h : Turn.sound .playUntilDone t = .ok () u) (hfinds : t.findsSound = true) :
    (∃ duration, u.Notes u.machine.frameTime duration) ∧ ∃ rest, u.active.stack = .bool true :: rest := by
  obtain ⟨v,hv,hsound⟩ := (Option.any_eq_true _ _).1 hfinds
  obtain ⟨rest,hstack⟩ := List.head?_eq_some_iff.1 hv
  obtain ⟨⟨duration,m⟩,hplay⟩ := Option.isSome_iff_exists.1 hsound
  obtain ⟨v',w,hpop,h⟩ := Turn.bind_eq_ok h
  rw [Turn.pop_cons hstack] at hpop
  cases hpop
  obtain ⟨r,w,hown,h⟩ := Turn.bind_eq_ok h
  have hplayed : Turn.playOwn v (t.withStack rest) = .ok (some duration) ⟨m,(t.withStack rest).active⟩ := by
    have hfound : (t.withStack rest).machine.playSound? (t.withStack rest).active.target v = some (duration,m) := hplay
    simp only [Turn.playOwn,Turn.ownId,Turn.onMachine,bind,EStateM.bind,get,getThe,MonadStateOf.get,EStateM.get,pure,
      EStateM.pure,modifyGet,MonadStateOf.modifyGet,EStateM.modifyGet,hfound]
  cases hplayed.symm.trans hown
  cases h
  refine ⟨⟨duration,?_,?_⟩,_,rfl⟩
  · exact (Locals.get_set_of_ne _ (by decide) _).trans (Locals.get_set _ _ _)
  · exact Locals.get_set _ _ _

theorem holds_music (h : started.Holds s depth start pauses k t) (hleads : g.Leads s n t l u .callSelf n')
    (ha : a = .playNote ∨ a = .playDrum ∨ a = .rest) (hb : g.entry.builtin = some (.music a)) :
    n' = n + 1 ∧ measured.Holds s depth start pauses (k ++ l) u := by
  obtain ⟨rfl,hperform,htime,-,-,hsteady⟩ := hleads.of_call (.inl ⟨rfl,hb⟩)
  have hlocals : u.active.locals = t.active.locals := ((Mild.music (i := .pop) (c := {}) a).kept hperform).locals rfl
  exact ⟨rfl,h.1.append hsteady htime,by rw [hlocals]; exact h.2,number_of_music ha hperform⟩

theorem holds_sayFor (h : fresh.Holds s depth start pauses k t) (hleads : g.Leads s n t l u .callSelf n')
    (hb : g.entry.builtin = some (.looks (.sayFor thinking))) :
    n' = n + 1 ∧ ready.Holds s depth start pauses (k ++ l) u := by
  obtain ⟨rfl,hperform,htime,-,-,hsteady⟩ := hleads.of_call (.inl ⟨rfl,hb⟩)
  obtain ⟨duration,hnotes⟩ := notes_of_sayFor hperform
  rw [htime,h.2] at hnotes
  exact ⟨rfl,h.append hsteady htime,duration,hnotes⟩

theorem holds_play (h : fresh.Holds s depth start pauses k t) (hleads : g.Leads s n t l u .callSelf n')
    (hb : g.entry.builtin = some (.sound .playUntilDone)) (hfinds : t.findsSound = true) :
    n' = n + 1 ∧ played.Holds s depth start pauses (k ++ l) u := by
  obtain ⟨rfl,hperform,htime,-,-,hsteady⟩ := hleads.of_call (.inl ⟨rfl,hb⟩)
  obtain ⟨⟨duration,hnotes⟩,hstack⟩ := notes_of_play hperform hfinds
  rw [htime,h.2] at hnotes
  exact ⟨rfl,h.append hsteady htime,⟨duration,hnotes⟩,hstack⟩

theorem holds_heard (h : played.Holds s depth start pauses k t) (hleads : g.Leads s n t l u (Step.jump .jumpIfFalse i) n') :
    n' = n + 1 ∧ ready.Holds s depth start pauses (k ++ l) u := by
  obtain ⟨v,rest,hstack,hkeeps,hsteady,rfl⟩ := hleads.of_branch false rfl
  obtain ⟨hfresh,⟨duration,hnotes⟩,rest',hstack'⟩ := h
  cases hstack.symm.trans hstack'
  exact ⟨rfl,hfresh.append hsteady hkeeps.time,duration,hnotes.of_agrees hkeeps.agrees⟩

/-! The recipes -/

/-- What is known at the steps of a wait, and after it. -/
def tail : List WaitStage :=
  [ready,ready,ready,never,waiting,tested,waiting,never]

/-- What is known at the steps of a recipe, some of which come before a wait. -/
def stageOf (pre : List WaitStage) (n : Nat) : WaitStage :=
  (pre ++ tail)[n]?.getD past

/-- The steps after some others are those of a wait, and then one that restores the locals. -/
theorem holds_waitElapsed_steps {j : Nat} (hsteps : (SpriteMachine.waitElapsed i)[j]? = some st)
    (hback : Step.target g.steps i = pre.length + 4) (hexit : Step.target g.steps (i + 1) = pre.length + 8)
    (hdepth : t.active.calls.length = depth) (h : (stageOf pre (pre.length + j)).Holds s depth start pauses k t)
    (hleads : g.Leads s (pre.length + j) t l u st n') : (stageOf pre n').Holds s depth start pauses (k ++ l) u := by
  have hstage : ∀ m, stageOf pre (pre.length + m) = tail[m]?.getD past := by
    intro m
    rw [stageOf,List.getElem?_append_right (Nat.le_add_right _ _),Nat.add_sub_cancel_left]
  rw [hstage] at h
  match j, hsteps with
  | 0, rfl | 1, rfl =>
    obtain ⟨rfl,h⟩ := holds_mark h hleads rfl
    rw [Nat.add_assoc,hstage]
    exact h
  | 2, rfl =>
    obtain ⟨rfl,h⟩ := holds_pause hdepth (.inl h) hleads
    rw [hback,hstage]
    exact h
  | 4, rfl =>
    obtain ⟨rfl,h⟩ := holds_waitElapsed hdepth (.inr h) hleads
    rw [Nat.add_assoc,hstage]
    exact h
  | 5, rfl =>
    rcases holds_test h hleads with ⟨rfl,h⟩ | ⟨rfl,h⟩
    · rw [hexit,hstage]
      exact h
    · rw [Nat.add_assoc,hstage]
      exact h
  | 6, rfl =>
    obtain ⟨rfl,h⟩ := holds_pause hdepth (.inr h) hleads
    rw [hback,hstage]
    exact h
  | 3, _ | 7, _ => exact h.elim

/-- What is known at the steps of a recipe that waits between others can be followed through it. -/
theorem holds_steps (before rest : List Step) (i : Nat) (hsteps : g.steps = before ++ (SpriteMachine.waitElapsed i ++ rest))
    (hlength : pre.length = before.length) (hback : Step.target g.steps i = pre.length + 4)
    (hexit : Step.target g.steps (i + 1) = pre.length + 8)
    (hrest : ∀ st ∈ rest, st = .emit (.op .restore []) ∨ ∃ i, st = .emit (.place i)) (hdepth : t.active.calls.length = depth)
    (hst : g.steps[n]? = some st) (h : (stageOf pre n).Holds s depth start pauses k t) (hleads : g.Leads s n t l u st n')
    (hbefore : before[n]? = some st → (stageOf pre n').Holds s depth start pauses (k ++ l) u) :
    (stageOf pre n').Holds s depth start pauses (k ++ l) u := by
  rw [hsteps] at hst
  rcases Nat.lt_or_ge n before.length with hlt | hle
  · exact hbefore (by rwa [List.getElem?_append_left hlt] at hst)
  · obtain ⟨j,rfl⟩ := Nat.exists_eq_add_of_le hle
    rw [← hlength] at h hleads
    rw [List.getElem?_append_right hle,Nat.add_sub_cancel_left] at hst
    rcases Nat.lt_or_ge j 8 with hlt | hle
    · exact holds_waitElapsed_steps (by rwa [List.getElem?_append_left hlt] at hst) hback hexit hdepth h hleads
    · have hpast : ∀ m, 8 ≤ m → stageOf pre (pre.length + m) = past := by
        intro m hm
        rw [stageOf,List.getElem?_append_right (Nat.le_add_right _ _),Nat.add_sub_cancel_left]
        exact congrArg (Option.getD · past) (List.getElem?_eq_none hm)
      rw [hpast j hle] at h
      rw [List.getElem?_append_right hle] at hst
      have hnext : n' = pre.length + j + 1 ∧ past.Holds s depth start pauses (k ++ l) u := by
        rcases hrest st (List.mem_of_getElem? hst) with rfl | ⟨i,rfl⟩
        · exact holds_restore h hleads
        · exact holds_mark h hleads rfl
      obtain ⟨rfl,h⟩ := hnext
      rw [Nat.add_assoc,hpast (j + 1) (Nat.le_add_right_of_le hle)]
      exact h

theorem holds_next {next : WaitStage} (hnext : stage (n + 1) = next) (h : n' = n + 1 ∧ next.Holds s depth start pauses k t) :
    (stage n').Holds s depth start pauses k t := by
  obtain ⟨rfl,h⟩ := h
  rw [hnext]
  exact h

theorem holds_mark_next (h : (stage n).Holds s depth start pauses k t) (hleads : g.Leads s n t l u (.emit d) n')
    (hd : Step.isMark d = true) (hnext : stage (n + 1) = stage n) : (stage n').Holds s depth start pauses (k ++ l) u :=
  holds_next hnext (holds_mark h hleads hd)

/-- What is known can be followed through the steps of a block, if its sounds can be heard. -/
def Followed (stage : Nat → WaitStage) (g : Ground) (s : Script) (b : Block) (depth : Nat) (start : Float) (pauses : Bool) :
    Prop :=
  ∀ {n n' : Nat} {t u : Turn} {st : Step} {l k : List Spot}, t.active.calls.length = depth → g.steps[n]? = some st →
    g.Heard b depth l → (stage n).Holds s depth start pauses k t → g.Leads s n t l u st n' →
      (stage n').Holds s depth start pauses (k ++ l) u

theorem followed_wait (hsteps : g.steps = waitSeconds [.number slot]) :
    Followed (stageOf [fresh,fresh,stamped,started,measured]) g s b depth start pauses := by
  intro n n' t u st l k hdepth hst _ h hleads
  refine holds_steps [Step.op .save,Step.op .pushNow,Step.op .setLocal [0],.number slot,Step.op .setLocal [1]]
    [Step.op .restore] 0 hsteps rfl (by rw [hsteps]; rfl) (by rw [hsteps]; rfl) (by simp [Step.op]) hdepth hst h hleads
    fun hn => ?_
  match n, hn with
  | 0, rfl => exact holds_next rfl (holds_save h hleads)
  | 1, rfl => exact holds_next rfl (holds_pushNow h hleads)
  | 2, rfl => exact holds_next rfl (holds_stamp h hleads)
  | 3, rfl => exact holds_next rfl (holds_number h hleads)
  | 4, rfl => exact holds_next rfl (holds_measure h hleads)

theorem followed_rest (hsteps : g.steps = waitSeconds [.number slot,.callSelf]) (hb : g.entry.builtin = some (.music .rest)) :
    Followed (stageOf [fresh,fresh,stamped,started,started,measured]) g s b depth start pauses := by
  intro n n' t u st l k hdepth hst _ h hleads
  refine holds_steps [Step.op .save,Step.op .pushNow,Step.op .setLocal [0],.number slot,.callSelf,Step.op .setLocal [1]]
    [Step.op .restore] 0 hsteps rfl (by rw [hsteps]; rfl) (by rw [hsteps]; rfl) (by simp [Step.op]) hdepth hst h hleads
    fun hn => ?_
  match n, hn with
  | 0, rfl => exact holds_next rfl (holds_save h hleads)
  | 1, rfl => exact holds_next rfl (holds_pushNow h hleads)
  | 2, rfl => exact holds_next rfl (holds_stamp h hleads)
  | 3, rfl => exact holds_next rfl (started_of_measured (holds_number h hleads))
  | 4, rfl => exact holds_next rfl (holds_music h hleads (.inr (.inr rfl)) hb)
  | 5, rfl => exact holds_next rfl (holds_measure h hleads)

theorem followed_beats (hsteps : g.steps = waitSeconds [.number slot,.number "BEATS",.callSelf])
    (ha : a = .playNote ∨ a = .playDrum ∨ a = .rest) (hb : g.entry.builtin = some (.music a)) :
    Followed (stageOf [fresh,fresh,stamped,started,started,started,measured]) g s b depth start pauses := by
  intro n n' t u st l k hdepth hst _ h hleads
  refine holds_steps
    [Step.op .save,Step.op .pushNow,Step.op .setLocal [0],.number slot,.number "BEATS",.callSelf,Step.op .setLocal [1]]
    [Step.op .restore] 0 hsteps rfl (by rw [hsteps]; rfl) (by rw [hsteps]; rfl) (by simp [Step.op]) hdepth hst h hleads
    fun hn => ?_
  match n, hn with
  | 0, rfl => exact holds_next rfl (holds_save h hleads)
  | 1, rfl => exact holds_next rfl (holds_pushNow h hleads)
  | 2, rfl => exact holds_next rfl (holds_stamp h hleads)
  | 3, rfl | 4, rfl => exact holds_next rfl (started_of_measured (holds_number h hleads))
  | 5, rfl => exact holds_next rfl (holds_music h hleads ha hb)
  | 6, rfl => exact holds_next rfl (holds_measure h hleads)

theorem followed_sound (site : Site) (hsteps : g.steps = Palette.playUntilDone site)
    (hb : g.entry.builtin = some (.sound .playUntilDone)) (hopcode : b.opcode = "sound_playuntildone") :
    Followed (stageOf [fresh,fresh,fresh,played,played]) g s b depth start pauses := by
  intro n n' t u st l k hdepth hst hheard h hleads
  refine holds_steps [Step.op .save,.inputs,.callSelf,Step.label,Step.jump .jumpIfFalse 0]
    [Step.place 0,Step.op .restore] 1 hsteps rfl (by rw [hsteps]; rfl) (by rw [hsteps]; rfl) (by simp [Step.op,Step.place])
    hdepth hst h hleads fun hn => ?_
  match n, hn with
  | 0, rfl => exact holds_next rfl (holds_save h hleads)
  | 1, rfl => exact holds_next rfl (holds_inputs h hleads)
  | 2, rfl =>
    obtain ⟨-,-,-,-,hl,-⟩ := hleads.of_call (.inl ⟨rfl,hb⟩)
    have hfinds := hheard hopcode _ _ ⟨2,hst,rfl,rfl⟩ ⟨t,s,g.pc 2⟩ (by rw [hl]; simp) (Spot.isAt_iff.2 ⟨hdepth,rfl⟩)
    exact holds_next rfl (holds_play h hleads hb hfinds)
  | 3, rfl => exact holds_mark_next h hleads rfl rfl
  | 4, rfl => exact holds_next rfl (holds_heard h hleads)

/-- What is known at the steps of a bubble that is taken down after a while. -/
def bubbleStage (n : Nat) : WaitStage :=
  [fresh,fresh,fresh,ready,ready,looping,looping,tested,waiting,never][n]?.getD past

theorem followed_bubble (site : Site) (hsteps : g.steps = Palette.sayForSeconds site)
    (hb : g.entry.builtin = some (.looks (.sayFor thinking))) : Followed bubbleStage g s b depth start false := by
  intro n n' t u st l k hdepth hst _ h hleads
  rw [hsteps] at hst
  match n, hst with
  | 0, rfl => exact holds_next rfl (holds_save h hleads)
  | 1, rfl => exact holds_next rfl (holds_inputs h hleads)
  | 2, rfl => exact holds_next rfl (holds_sayFor h hleads hb)
  | 3, rfl => exact holds_mark_next h hleads rfl rfl
  | 4, rfl =>
    obtain ⟨rfl,h⟩ := holds_mark h hleads rfl
    exact .inl ⟨h,rfl⟩
  | 5, rfl => exact holds_mark_next h hleads rfl rfl
  | 6, rfl => exact holds_next rfl (holds_waitElapsed hdepth h hleads)
  | 7, rfl =>
    rcases holds_test h hleads with ⟨hn,h⟩ | h
    · rw [hsteps] at hn
      rw [hn]
      exact h
    · exact holds_next rfl h
  | 8, rfl =>
    obtain ⟨hn,h⟩ := holds_pause hdepth (.inr h) hleads
    rw [hsteps] at hn
    rw [hn]
    exact .inr h
  | 9, _ => exact h.elim
  | 10, rfl =>
    obtain ⟨rfl,-,htime,-⟩ := hleads.of_call (b := .looks .endSay) (.inr ⟨_,rfl,rfl⟩)
    obtain ⟨duration,hbegun,hpast⟩ := h
    exact ⟨duration,hbegun.append l,by rw [htime]; exact hpast⟩
  | 11, rfl => exact holds_next rfl (holds_restore h hleads)
  | 12, rfl => exact holds_mark_next h hleads rfl rfl

end WaitStage

/-! Blocks that wait -/

/-- The blocks that take their time. -/
def timedOpcodes : List String :=
  ["control_wait","music_restForBeats","music_playNoteForBeats","music_playDrumForBeats","sound_playuntildone",
    "looks_sayforsecs","looks_thinkforsecs"]

/-- Blocks that put up a bubble look at the time before they yield. -/
def bubbleOpcodes : List String :=
  ["looks_sayforsecs","looks_thinkforsecs"]

/-- The code of a block that takes its time, in which what is known can be followed to the end. -/
structure Ground.Timed (g : Ground) (s : Script) (b : Block) (pauses : Bool) : Prop where
  laid : ∃ after, Laid s g after
  slots : g.slots = expandSlots g.params b.slots
  plain : Step.arePlain g.steps = true
  follows : ∃ stage : Nat → WaitStage, stage 0 = .fresh ∧ stage g.steps.length = .past ∧
    ∀ depth start, WaitStage.Followed stage g s b depth start pauses

theorem Ground.Timed.elapses {g : Ground} (h : g.Timed s b pauses) {p : Program} {c : Settings} (hp : p.Sound)
    {l : List Spot} {z : Spot} (htrail : Trail ⟨t,s,g.start⟩ l z) (hsound : (Phase.turn t s g.start).Sound p c)
    (hdeep : ∀ y ∈ l ++ [z], t.active.calls.length ≤ y.depth)
    (hbefore : ∀ y ∈ l, ¬ y.isAt t.active.calls.length g.stop = true) (hz : z.isAt t.active.calls.length g.stop = true)
    (hheard : g.Heard b t.active.calls.length l) :
    WaitStage.past.Holds s t.active.calls.length t.machine.frameTime pauses l z.turn := by
  obtain ⟨⟨after,hlaid⟩,hslots,hplain,stage,hfresh,hpast,hfollowed⟩ := h
  have hpassage := hlaid.passage hp hplain hslots (Nat.zero_le _) htrail hsound hdeep hbefore
  -- what is known at a stage is the invariant, and nothing has been passed at the start
  rcases hpassage.follow (k := []) (fun hdepth hst hin hI _ _ hleads => hfollowed _ _ hdepth hst
      (fun ho first last hcall y hy => hheard ho first last hcall y (hin y hy)) hI hleads) rfl (fun _ hy => hy)
    (by rw [hfresh]; exact ⟨.nil,rfl⟩) with
    ⟨-,hend⟩ | ⟨n,k,u,l',st,-,-,hn,-,hin⟩
  · rwa [hpast] at hend
  · exact absurd hz (hin.not_ends hn)

theorem Script.Lays.timed {g : Ground} (h : s.Lays params b g) (hsmall : s.code.size < 2 ^ 32) {e : Entry}
    (he : e ∈ Palette.entries.toList) (hopcode : b.opcode = e.opcode) (hreporter : e.reporter = false)
    (hflat : (e.steps ⟨b,params⟩).all Step.isFlat = true) (hplain : Step.arePlain (e.steps ⟨b,params⟩) = true)
    (stage : Nat → WaitStage) (hfresh : stage 0 = .fresh) (hpast : stage (e.steps ⟨b,params⟩).length = .past)
    (hfollowed : g.steps = e.steps ⟨b,params⟩ → g.entry.builtin = e.builtin →
      ∀ depth start, WaitStage.Followed stage g s b depth start pauses) :
    g.Timed s b pauses := by
  have hentry : g.entry = e := by
    obtain ⟨symbols,name,blocks,o,id,symbols',pre,post,e',eid,-,-,-,hfind,rfl⟩ := h
    obtain ⟨id',hfind',-⟩ := Palette.find?_of_mem he
    rw [hopcode,hfind'] at hfind
    cases hfind
    rfl
  obtain ⟨rfl,hslots,hsteps,hlaid⟩ := h.laid hsmall he hopcode hreporter hflat
  exact ⟨hlaid,hslots,hsteps ▸ hplain,stage,hfresh,hsteps ▸ hpast,hfollowed hsteps (congrArg Entry.builtin hentry)⟩

open WaitStage in
theorem Script.Lays.timed_of_mem {g : Ground} (h : s.Lays params b g) (hsmall : s.code.size < 2 ^ 32)
    (hopcode : b.opcode ∈ timedOpcodes) : g.Timed s b (decide (b.opcode ∉ bubbleOpcodes)) := by
  simp only [timedOpcodes,List.mem_cons,List.not_mem_nil,or_false] at hopcode
  rcases hopcode with ho | ho | ho | ho | ho | ho | ho <;> rw [ho]
  · exact h.timed hsmall (Palette.mem_of_group (g := Palette.control) (i := 0) (by simp) rfl) ho rfl rfl rfl
      (stageOf [fresh,fresh,stamped,started,measured]) rfl rfl fun hsteps _ _ _ => followed_wait hsteps
  · exact h.timed hsmall (Palette.mem_of_group (g := Palette.music) (i := 2) (by simp) rfl) ho rfl rfl rfl
      (stageOf [fresh,fresh,stamped,started,started,measured]) rfl rfl fun hsteps hb _ _ => followed_rest hsteps hb
  · exact h.timed hsmall (Palette.mem_of_group (g := Palette.music) (i := 0) (by simp) rfl) ho rfl rfl rfl
      (stageOf [fresh,fresh,stamped,started,started,started,measured]) rfl rfl
      fun hsteps hb _ _ => followed_beats hsteps (.inl rfl) hb
  · exact h.timed hsmall (Palette.mem_of_group (g := Palette.music) (i := 1) (by simp) rfl) ho rfl rfl rfl
      (stageOf [fresh,fresh,stamped,started,started,started,measured]) rfl rfl
      fun hsteps hb _ _ => followed_beats hsteps (.inr (.inl rfl)) hb
  · exact h.timed hsmall (Palette.mem_of_group (g := Palette.sound) (i := 1) (by simp) rfl) ho rfl rfl rfl
      (stageOf [fresh,fresh,fresh,played,played]) rfl rfl fun hsteps hb _ _ => followed_sound ⟨b,params⟩ hsteps hb ho
  · exact h.timed hsmall (Palette.mem_of_group (g := Palette.looks) (i := 2) (by simp) rfl) ho rfl rfl rfl
      bubbleStage rfl rfl fun hsteps hb _ _ => followed_bubble ⟨b,params⟩ hsteps hb
  · exact h.timed hsmall (Palette.mem_of_group (g := Palette.looks) (i := 3) (by simp) rfl) ho rfl rfl rfl
      bubbleStage rfl rfl fun hsteps hb _ _ => followed_bubble ⟨b,params⟩ hsteps hb

/-- A block that takes its time notes in the frame in which it begins when that was and how long it is to last, and control
goes on after it only in a frame in which that time is over. Unless it puts up a bubble, it yields before. -/
theorem elapsed_of_compile {project : Project} {program : Program} (hcompile : compile project = .ok program)
    (hsmall : program.Small) {settings : Settings} {clock : Clock} {t : Turn} {s : Script} {params : List String} {b : Block}
    {g : Ground} (hblock : s.Lays params b g) (hopcode : b.opcode ∈ timedOpcodes)
    (hreach : Phase.Steps (.idle (Machine.ofProgram program settings clock)) (.turn t s g.start)) {l : List Spot} {z : Spot}
    (htrail : Trail ⟨t,s,g.start⟩ l z) (hdeep : ∀ y ∈ l ++ [z], t.active.calls.length ≤ y.depth)
    (hbefore : ∀ y ∈ l, ¬ y.isAt t.active.calls.length g.stop = true) (hz : z.isAt t.active.calls.length g.stop = true)
    (hheard : g.Heard b t.active.calls.length l) :
    ∃ l₁ y l₂ duration, l = l₁ ++ y :: l₂ ∧ Steady l₁ ∧
      y.Begins s t.active.calls.length t.machine.frameTime duration ∧ (b.opcode ∉ bubbleOpcodes → y.Yields) ∧
      Elapsed t.machine.frameTime duration z.turn.machine.frameTime := by
  have hprogram := compile_sound hcompile hsmall
  have hsound := hreach.sound_ofProgram hprogram
  have htimed := hblock.timed_of_mem (Turn.Sound.small hsound hsmall) hopcode
  obtain ⟨duration,⟨l₁,y,l₂,hl,hsteady,hbegins,hyields⟩,helapsed⟩ :=
    htimed.elapses hprogram htrail hsound hdeep hbefore hz hheard
  exact ⟨l₁,y,l₂,duration,hl,hsteady,hbegins,fun hb => hyields (decide_eq_true hb),helapsed⟩

/-! A wait of less than no time -/

def waitBlock : Block :=
  .mk "control_wait" none [.mk "DURATION" [.mk "math_number" none [] [("NUM",⟨"-1",none⟩)]] none] []

def waitProject : Project where
  stage := {
    name := "Stage"
    isStage := true
    scripts := [{ hat := .flag, blocks := [waitBlock] },{ hat := .flag, blocks := [waitBlock] }] }

theorem waitProject_passes : waitProject.Tries waitBlock fun _ _ _ => True := by
  unfold Project.Tries
  decide +kernel

/-- The first script waits, and yields all the same. -/
theorem elapsed_of_compile_waitProject : ∃ p t s g l z l₁ y l₂ duration, compile waitProject = .ok p ∧ s.Lays [] waitBlock g ∧
    Phase.Steps (.idle (Machine.ofProgram p shallow {})) (.turn t s g.start) ∧ Trail ⟨t,s,g.start⟩ l z ∧
    z.isAt t.active.calls.length g.stop = true ∧ l = l₁ ++ y :: l₂ ∧ y.Yields ∧
    y.Begins s t.active.calls.length t.machine.frameTime duration ∧
    Elapsed t.machine.frameTime duration z.turn.machine.frameTime := by
  obtain ⟨p,t,s,g,l,z,h,-⟩ := waitProject_passes.passes (by decide +kernel)
  obtain ⟨l₁,y,l₂,duration,hl,-,hbegins,hyields,helapsed⟩ := elapsed_of_compile h.compiles h.small h.lays (by decide)
    h.reached h.trail h.deep h.before h.ends fun ho => absurd ho (by decide)
  exact ⟨p,t,s,g,l,z,l₁,y,l₂,duration,h.compiles,h.lays,h.reached,h.trail,h.ends,hl,hyields (by decide),
    hbegins,helapsed⟩

end SpriteMachine
