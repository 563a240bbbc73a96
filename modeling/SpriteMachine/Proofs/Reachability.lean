import SpriteMachine.Proofs.Frames

/-!
What a machine can reach: it starts with a program, and is driven from outside by actions of the host and by
frames. In all that it reaches, the only fault of a frame is a call that is too deep, and its queue and its call
stacks are in order.
-/

namespace SpriteMachine

/-- What the host can do between frames. -/
inductive HostAction where
  | start | pause | halt | greenFlag | press | release | stopAll | flushLog | resetTimer | setVisual
  | trigger (e : Event)
  | triggerFor (id : Nat) (e : Event)
  | keyDown (k : Key)
  | keyUp (k : Key)
  | moveMouse (q : Point)
  | beginDrag (id : Nat)
  | endDrag (id : Nat)
  | submitAnswer (text : String)
  | createClone (parent : Nat)
  | deleteClone (id : Nat)
  | adjustClock (f : Clock → Clock)
  | moveTo (id : Nat) (q : Point)
  | moveLayer (id position : Nat)
  | setVariable (id index : Nat) (v : Value)
  | setWatcher (id : Nat) (data : Watched) (visible : Bool)

def HostAction.apply (m : Machine) : HostAction → Machine
  | .start => m.start
  | .pause => m.pause
  | .halt => m.halt
  | .greenFlag => m.greenFlag
  | .press => m.press
  | .release => m.release
  | .stopAll => m.stopAll
  | .flushLog => m.flushLog.2
  | .resetTimer => m.resetTimer
  | .setVisual => m.setVisual
  | .trigger e => (m.trigger e).2
  | .triggerFor id e => (m.triggerFor id e).2
  | .keyDown k => m.keyDown k
  | .keyUp k => m.keyUp k
  | .moveMouse q => m.moveMouse q
  | .beginDrag id => m.beginDrag id
  | .endDrag id => m.endDrag id
  | .submitAnswer text => m.submitAnswer text
  | .createClone parent => (m.createClone parent).2
  | .deleteClone id => m.deleteClone id
  | .adjustClock f => m.adjustClock f
  | .moveTo id q => m.moveTo id q
  | .moveLayer id position => m.moveLayer id position
  | .setVariable id index v => m.setVariableAt id index v
  | .setWatcher id data visible => m.setWatcher id data visible

namespace Machine

/-- What a machine can become by actions of the host, by frames, whether or not they fault, and by scripts that are
run or started by hand. -/
inductive Reachable (first : Machine) : Machine → Prop
  | first : Reachable first first
  | host {m : Machine} (h : Reachable first m) (a : HostAction) : Reachable first (a.apply m)
  | frame {m m' : Machine} {fuel : Nat} (h : Reachable first m) (hstep : m.step fuel = .done m') : Reachable first m'
  | fault {m m' : Machine} {fuel : Nat} {f : Fault} (h : Reachable first m) (hstep : m.step fuel = .fault m' f) :
      Reachable first m'
  | startThread {m : Machine} {id : Nat} {t : Target} {s : Script} (h : Reachable first m)
      (ht : m.targets.get? id = some t) (hs : s ∈ t.scripts.all) (restart : Bool) :
      Reachable first (m.startThread id s restart)
  | detached {m m' : Machine} {id fuel : Nat} {t : Target} {s : Script} (h : Reachable first m)
      (ht : m.targets.get? id = some t) (hs : s ∈ t.scripts.all) (hrun : m.runDetached fuel id s = .done m') :
      Reachable first m'
  | detachedFault {m m' : Machine} {id fuel : Nat} {t : Target} {s : Script} {f : Fault} (h : Reachable first m)
      (ht : m.targets.get? id = some t) (hs : s ∈ t.scripts.all) (hrun : m.runDetached fuel id s = .fault m' f) :
      Reachable first m'

variable {p : Program} {c : Settings} {m m' : Machine}

theorem Nudged.start (m : Machine) : m.Nudged m.start := by
  unfold Machine.start
  split
  · exact .refl m
  · exact .of_eq rfl rfl rfl rfl

theorem Nudged.pause (m : Machine) : m.Nudged m.pause := by
  unfold Machine.pause
  split
  · exact .of_eq rfl rfl rfl rfl
  · exact .refl m

theorem Nudged.resetTimer (m : Machine) : m.Nudged m.resetTimer := .of_eq rfl rfl rfl rfl

theorem Nudged.beginDrag (m : Machine) (id : Nat) : m.Nudged (m.beginDrag id) := 
  .modifyTarget m id (fun _ => rfl) fun _ => rfl

/-! The actions of the host, by what they are made of -/

section Host

variable {P : Machine → Prop} (hnudge : ∀ {m m' : Machine}, m.Nudged m' → P m → P m')
  (hstart : ∀ {m : Machine} {id : Nat} {σ : Shape} {s : Script}, m.shape? id = some σ → s ∈ σ.scripts.all →
    ∀ restart, P m → P (m.startThread id s restart))

include hnudge hstart

theorem endDrag_keeps (id : Nat) (h : P m) : P (m.endDrag id) := by
  unfold endDrag
  split
  · exact h
  · split
    · exact h
    · have hdrop := hnudge (.modifyTarget m id (f := fun t => { t with drag := none }) (fun _ => rfl) fun _ => rfl) h
      dsimp only
      split
      · exact triggerFor_keeps hstart id .clicked hdrop
      · exact hdrop

theorem release_keeps (h : P m) : P m.release := by
  unfold release
  have hpanel : P (m.modifyPanel fun p => { p with mouseDown := false }) := hnudge (m := m) (.of_eq rfl rfl rfl rfl) h
  generalize (m.modifyPanel fun p => { p with mouseDown := false }) = m' at hpanel
  generalize m.children = ids
  induction ids generalizing m' with
  | nil => exact hpanel
  | cons id ids ih => exact ih _ (endDrag_keeps hnudge hstart id hpanel)

theorem press_keeps (h : P m) : P m.press := by
  unfold press
  have hpanel : P (m.modifyPanel fun p => { p with mouseDown := true }) := hnudge (m := m) (.of_eq rfl rfl rfl rfl) h
  dsimp only
  split
  · split
    · exact hnudge (.beginDrag _ _) hpanel
    · exact triggerFor_keeps hstart _ .clicked hpanel
  · exact triggerFor_keeps hstart stageId .clicked hpanel

theorem createClone_keeps (parent : Nat)
    (hinsert : ∀ x, m.targets.get? parent = some x → x.isStage = false → P (m.withClone parent x)) (h : P m) :
    P (m.createClone parent).2 := by
  rcases m.createClone_eq parent with heq | ⟨x,visual,hx,hstage,heq⟩
  · rw [heq]
    exact h
  · rw [heq]
    refine hnudge ?_ (triggerFor_keeps hstart m.targets.nextId .cloned (hinsert x hx hstage))
    exact .of_eq rfl rfl rfl rfl

/-- The host starts threads, makes clones and deletes them, and stops everything; all else leaves shapes and poses. -/
theorem host_keeps (hclone : ∀ parent, P m → P (m.createClone parent).2) (hdelete : ∀ id, P m → P (m.deleteClone id))
    (a : HostAction) (hstop : a = .stopAll → P m → P m.stopAll) (h : P m) : P (a.apply m) := by
  cases a with
  | start => exact hnudge (.start m) h
  | pause => exact hnudge (.pause m) h
  | halt | flushLog | setVisual | keyUp _ | moveMouse _ | submitAnswer _ | adjustClock _ =>
    exact hnudge (m := m) (.of_eq rfl rfl rfl rfl) h
  | greenFlag => exact trigger_keeps hstart .greenFlag (hnudge (.resetTimer m) h)
  | press => exact press_keeps hnudge hstart h
  | release => exact release_keeps hnudge hstart h
  | stopAll => exact hstop rfl h
  | resetTimer => exact hnudge (.resetTimer m) h
  | trigger e => exact trigger_keeps hstart e h
  | triggerFor id e => exact triggerFor_keeps hstart id e h
  | keyDown k =>
    have hpanel : P (m.modifyPanel fun p => { p with keys := if p.keys.contains k then p.keys else p.keys ++ [k] }) :=
      hnudge (m := m) (.of_eq rfl rfl rfl rfl) h
    exact trigger_keeps hstart _ hpanel
  | beginDrag id => exact hnudge (.beginDrag m id) h
  | endDrag id => exact endDrag_keeps hnudge hstart id h
  | createClone parent => exact hclone parent h
  | deleteClone id => exact hdelete id h
  | moveTo id q => exact hnudge (.moveTo m id q) h
  | moveLayer id position => exact hnudge (.moveLayer m id position) h
  | setVariable id index v => exact hnudge (.setVariableAt m id index v) h
  | setWatcher id data visible => exact hnudge (.setWatcher m id data visible) h

end Host

theorem Sound.host (h : m.Sound p c) (hp : p.Sound) (a : HostAction) : (a.apply m).Sound p c :=
  host_keeps (fun ha h => h.alike ha.toAlike) (fun hσ hs restart h => h.startThread hp hσ hs restart)
    (fun parent h => h.createClone hp parent) (fun id h => h.deleteClone hp id) a (fun _ h => h.stopAll hp) h

theorem Sound.detached (h : m.Sound p c) (hp : p.Sound) {id : Nat} {t : Target} (ht : m.targets.get? id = some t)
    {s : Script} (hs : s ∈ t.scripts.all) : Turn.Ready p c none ⟨m,.detached id s⟩ s.entry := by
  have hown : m.shape? id = some t.shape := by rw [shape?,ht]; rfl
  obtain ⟨pc,hpc,hallows⟩ := hp.shape (h.shapes hown).1 s hs
  refine ⟨t.shape,⟨h,hown,rfl,fun hslot => ?_,rfl,Nat.zero_le _,rfl⟩,.root hs rfl rfl rfl rfl,pc,hpc,?_⟩
  · cases hslot
  · exact hallows.more (Nat.zero_le _)

theorem Sound.runDetached (h : m.Sound p c) (hp : p.Sound) {id : Nat} {t : Target} (ht : m.targets.get? id = some t)
    {s : Script} (hs : s ∈ t.scripts.all) (fuel : Nat) : (m.runDetached fuel id s).Safe p c := by
  have hsafe := (h.detached hp ht hs).activate rfl rfl hp fuel
  unfold Machine.runDetached
  generalize m.activate fuel (.detached id s) = result at hsafe
  cases hsafe with
  | fault h => exact .fault h
  | outOfFuel => exact .outOfFuel
  | done h _ =>
    cases h with
    | ended h _ _ => exact .done h
    | atOnce h _ _ | later h _ _ =>
      obtain ⟨σ,hplaced,-⟩ := h
      exact .done hplaced.machine

theorem Reachable.sound {first : Machine} (h : first.Reachable m) (hfirst : first.Sound p c) (hp : p.Sound) :
    m.Sound p c := by
  induction h with
  | first => exact hfirst
  | host _ a ih => exact ih.host hp a
  | @frame m m' fuel _ hstep ih =>
    have hsafe := ih.step hp fuel
    rw [hstep] at hsafe
    cases hsafe with
    | done h => exact h
  | @fault m m' fuel f _ hstep ih =>
    have hsafe := ih.step hp fuel
    rw [hstep] at hsafe
    cases hsafe with
    | fault h => exact h
  | @startThread m id t s _ ht hs restart ih =>
    have hown : m.shape? id = some t.shape := by rw [shape?,ht]; rfl
    exact ih.startThread hp hown hs restart
  | @detached m m' id fuel t s _ ht hs hrun ih =>
    have hsafe := ih.runDetached hp ht hs fuel
    rw [hrun] at hsafe
    cases hsafe with
    | done h => exact h
  | @detachedFault m m' id fuel t s f _ ht hs hrun ih =>
    have hsafe := ih.runDetached hp ht hs fuel
    rw [hrun] at hsafe
    cases hsafe with
    | fault h => exact h

/-! Turns that are met in frames -/

/-- The machines in the course of a frame, between the turns of its threads. -/
inductive Within (m : Machine) : Machine → Prop
  | start : Within m m.beginFrame
  | resume {m₁ m₂ : Machine} {fuel i : Nat} (h : Within m m₁) (hresume : m₁.resume fuel i = .done m₂) : Within m m₂
  | sweep {m₁ : Machine} (h : Within m m₁) : Within m m₁.sweep.readClock.2

/-- The turns that are met: a thread is about to perform the instruction at an offset of a script. -/
inductive Meets (first : Machine) : Turn → Script → Nat → Prop
  | thread {m m₁ : Machine} {i : Nat} {t : Thread} {a : Activation} {k : Continuation} (h : Reachable first m)
      (hwithin : m.Within m₁) (hi : m₁.queue[i]? = some (some t)) (hlive : t.stopped = false)
      (hload : Activation.ofThread i t = .ok a) (hk : a.immediate = some k) :
      Meets first ⟨m₁.setSlot i (some t.shell),{ a with immediate := none, stack := [] }⟩ k.script k.pc
  | detached {m : Machine} {id : Nat} {t : Target} {s : Script} (h : Reachable first m)
      (ht : m.targets.get? id = some t) (hs : s ∈ t.scripts.all) :
      Meets first ⟨m,{ Activation.detached id s with immediate := none, stack := [] }⟩ s s.entry.pc
  | advance {t u : Turn} {s r : Script} {pc q : Nat} (h : Meets first t s pc) (hadvance : advance t s pc = .going u r q) :
      Meets first u r q

theorem Within.sound (h : m.Within m') (hm : m.Sound p c) (hp : p.Sound) : m'.Sound p c := by
  induction h with
  | start => exact hm.alike (.beginFrame m)
  | @resume m₁ m₂ fuel i _ hresume ih =>
    have hsafe := ih.resume hp fuel i
    rw [hresume] at hsafe
    cases hsafe with
    | done h => exact h
  | sweep _ ih => exact ih.sweep.alike (.readClock _)

theorem Reachable.meets {first : Machine} (h : first.Reachable m) (hfirst : first.Sound p c) (hp : p.Sound) {t : Thread}
    (ht : t ∈ m.threads) (hlive : t.stopped = false) :
    ∃ u s pc, first.Meets u s pc ∧ u.active.target = t.target ∧ u.active.base = t.base := by
  obtain ⟨i,hi⟩ := mem_threads.1 ht
  rw [← (Alike.beginFrame m).queue] at hi
  obtain ⟨a,k,hload,hk,-,hready⟩ := ((h.sound hfirst hp).alike (.beginFrame m)).load hi hlive
  refine ⟨_,_,_,.thread h .start hi hlive hload hk,?_⟩
  rw [Activation.ofThread] at hload
  split at hload
  · cases hload
  · split at hload
    · cases hload
    · cases hload
      exact ⟨rfl,rfl⟩

theorem Meets.sound {first : Machine} {t : Turn} {s : Script} {pc : Nat} (h : first.Meets t s pc)
    (hfirst : first.Sound p c) (hp : p.Sound) : ∃ o, t.Sound p c o s pc := by
  induction h with
  | thread h hwithin hi hlive hload hk =>
    obtain ⟨a',k',hload',hk',hrequeue,hready⟩ := (hwithin.sound (h.sound hfirst hp) hp).load hi hlive
    rw [hload] at hload'
    cases hload'
    rw [hk] at hk'
    cases hk'
    exact ⟨_,hready.sound hrequeue⟩
  | detached h ht hs => exact ⟨_,((h.sound hfirst hp).detached hp ht hs).sound rfl⟩
  | advance _ hadvance ih =>
    obtain ⟨o,hsound⟩ := ih
    have hsafe := hsound.advance hp
    rw [hadvance] at hsafe
    cases hsafe with
    | going h => exact ⟨o,h⟩

end Machine

/-! The end of a frame -/

namespace Machine

variable {m m' : Machine}

def Swept (m : Machine) : Prop :=
  ∀ o ∈ m.queue, ∃ t, o = some t ∧ t.stopped = false

theorem swept_sweep (m : Machine) : m.sweep.Swept := by
  intro o ho
  obtain ⟨-,hlive⟩ := Array.mem_filter.1 ho
  cases o with
  | none => cases hlive
  | some t => exact ⟨t,rfl,by simpa using hlive⟩

theorem swept_passes {fuel n : Nat} {start budget : Float} (h : passes fuel start budget n m = .done m') : m'.Swept := by
  induction n generalizing m with
  | zero => cases h
  | succ n ih =>
    unfold passes at h
    cases hpass : m.pass fuel with
    | fault m₁ f | outOfFuel =>
      rw [hpass] at h
      cases h
    | done m₁ =>
      have hswept : m₁.Swept := by
        unfold pass at hpass
        split at hpass
        · cases hpass
          exact swept_sweep _
        next hother => exact (hother m₁ hpass).elim
      rw [hpass] at h
      dsimp only at h
      split at h
      · split at h
        · exact ih h
        · cases h
          exact hswept
      · cases h
        exact hswept

theorem swept_step {fuel : Nat} (h : m.step fuel = .done m') : m'.Swept := by
  obtain ⟨start,hstep⟩ := m.step_eq fuel
  rw [hstep] at h
  split at h
  next m₁ hpasses =>
    cases h
    have hqueue := (Alike.draw m₁).queue
    unfold Swept
    rw [hqueue]
    exact swept_passes hpasses
  next hother => exact absurd h (hother m')

end Machine

/-! Programs that were compiled -/

def Outcome.fault? : Outcome → Option Fault
  | .fault _ f => some f
  | _ => none

/-- The machine after a run, and the fault that ended it if there was one. -/
def Outcome.ended? : Outcome → Option (Machine × Option Fault)
  | .done m => some (m,none)
  | .fault m f => some (m,some f)
  | .outOfFuel => none

theorem Outcome.eq_done {o : Outcome} {m : Machine} (h : (m,none) ∈ o.ended?) : o = .done m := by
  cases o <;> cases h
  rfl

theorem Outcome.eq_fault {o : Outcome} {m : Machine} {f : Fault} (h : (m,some f) ∈ o.ended?) : o = .fault m f := by
  cases o <;> cases h
  rfl

/-- Whether the tables and scripts of a program are small enough, looked at one by one. -/
def Program.isSmall (p : Program) : Bool :=
  (p.stage :: p.sprites).all fun t =>
    t.data.vars.size < 2 ^ 31 && t.data.lists.size < 2 ^ 31 &&
      t.scripts.listeners.entries.all (fun e => e.2.code.size < 2 ^ 32) &&
      t.scripts.procedures.all fun e => e.2.script.code.size < 2 ^ 32

theorem Program.small_of_isSmall {p : Program} (h : p.isSmall = true) : p.Small := by
  intro t ht
  have hall := List.all_eq_true.1 h t ht
  simp only [Bool.and_eq_true,decide_eq_true_eq,Array.all_eq_true',List.all_eq_true] at hall
  obtain ⟨⟨⟨hvars,hlists⟩,hlisteners⟩,hprocedures⟩ := hall
  refine ⟨hvars,hlists,fun s hs => ?_⟩
  rcases Compile.mem_all.1 hs with ⟨e,he⟩ | ⟨n,q,hq,rfl⟩
  · exact hlisteners (e,s) he
  · exact hprocedures (n,q) hq

/-- The flag starts a procedure that runs without yielding; it clears the picture and then calls itself as soon as the
mouse is down. -/
def nestingProject : Project where
  stage := {
    name := "Stage"
    isStage := true
    scripts := [
      { hat := .flag, blocks := [.mk "procedures_call" (some { procedure := "nest" }) [] []] },
      { hat := .procedure { procedure := "nest", warp := true }
        blocks := [
          .mk "pen_clear" none [] [],
          .mk "control_forever" none [.mk "SUBSTACK" [
            .mk "control_if" none [
              .mk "CONDITION" [.mk "sensing_mousedown" none [] []] none,
              .mk "SUBSTACK" [.mk "procedures_call" (some { procedure := "nest" }) [] []] none] []] none] []] }] }

/-- One call is not too deep. -/
def shallow : Settings :=
  { maxCallDepth := 1 }

/-- The first frame goes well and leaves a thread in a call, and the frame after a press of the mouse faults and leaves
that thread without frames. -/
theorem nestingProject_faults : ∃ p ∈ (compile nestingProject).toOption, p.isSmall ∧
    ∃ x ∈ ((Machine.ofProgram p shallow {}).greenFlag.step 40).ended?, x.2 = none ∧
    (∃ t ∈ x.1.threads, t.frames.length = 2 ∧ t.warp = 1 ∧ t.stopped = false) ∧
    ∃ y ∈ (x.1.press.step 40).ended?, y.2 = some (.callDepthExceeded 1) ∧
    ∃ t ∈ y.1.threads, t.frames.length = 0 ∧ t.warp = 1 := by
  decide +kernel

theorem nestingProject_runs : ∃ p m m', compile nestingProject = .ok p ∧ p.Small ∧
    (Machine.ofProgram p shallow {}).Reachable m ∧
    (∃ t ∈ m.threads, t.frames.length = 2 ∧ t.warp = 1 ∧ t.stopped = false) ∧
    (HostAction.press.apply m).step 40 = .fault m' (.callDepthExceeded 1) ∧
    ∃ t ∈ m'.threads, t.frames.length = 0 ∧ t.warp = 1 := by
  obtain ⟨p,hp,hsmall,⟨m,_⟩,hm,rfl,hcalls,⟨m',_⟩,hm',rfl,hshell⟩ := nestingProject_faults
  exact ⟨p,m,m',Except.mem_toOption.1 hp,Program.small_of_isSmall hsmall,
    .frame (.host .first .greenFlag) (Outcome.eq_done hm),hcalls,Outcome.eq_fault hm',hshell⟩

/-- A compiled program can go wrong only by calls that are too deep, whatever the host does. -/
theorem faults_of_compile {project : Project} {program : Program} (hcompile : compile project = .ok program)
    (hsmall : program.Small) {settings : Settings} {clock : Clock} {m : Machine}
    (hreach : (Machine.ofProgram program settings clock).Reachable m) (fuel : Nat) :
    (m.step fuel).fault? = none ∨ (m.step fuel).fault? = some (.callDepthExceeded settings.maxCallDepth) := by
  have hprogram := compile_sound hcompile hsmall
  have hsafe := (hreach.sound (.ofProgram hprogram settings clock) hprogram).step hprogram fuel
  generalize m.step fuel = result at hsafe
  cases hsafe with
  | done _ => exact .inl rfl
  | fault _ => exact .inr rfl
  | outOfFuel => exact .inl rfl

theorem faults_of_compile_nestingProject : ∃ p m, compile nestingProject = .ok p ∧
    (Machine.ofProgram p shallow {}).Reachable m ∧ (m.step 40).fault? = some (.callDepthExceeded 1) ∧
    ((m.step 40).fault? = none ∨ (m.step 40).fault? = some (.callDepthExceeded shallow.maxCallDepth)) := by
  obtain ⟨p,m,m',hcompile,hsmall,hreach,-,hfault,-⟩ := nestingProject_runs
  refine ⟨p,_,hcompile,hreach.host .press,?_,faults_of_compile hcompile hsmall (hreach.host .press) 40⟩
  rw [hfault]
  rfl

/-- The queue of a compiled program is in order, whatever the host does: no two threads run the same script on the
same target, a thread that is not stopped can be resumed, and frames leave no slot empty or stopped. -/
theorem queue_of_compile {project : Project} {program : Program} (hcompile : compile project = .ok program)
    (hsmall : program.Small) {settings : Settings} {clock : Clock} {m : Machine}
    (hreach : (Machine.ofProgram program settings clock).Reachable m) :
    (∀ (i j : Nat) (t u : Thread), m.queue[i]? = some (some t) → m.queue[j]? = some (some u) →
      t.target = u.target → t.base = u.base → i = j) ∧
    (∀ t ∈ m.threads, t.stopped = false → m.targets.contains t.target = true ∧
      (∃ top callers, t.frames = top :: callers ∧ top.saved ≠ []) ∧
      ∃ k, t.resume = some k ∧ k.label.toNat < k.script.labels.size) ∧
    ∀ fuel m', m.step fuel = .done m' → ∀ o ∈ m'.queue, ∃ t, o = some t ∧ t.stopped = false := by
  have hprogram := compile_sound hcompile hsmall
  have hsound := hreach.sound (.ofProgram hprogram settings clock) hprogram
  refine ⟨fun i j t u hi hj => hsound.unique hi hj,fun t ht hlive => ?_,fun fuel m' => Machine.swept_step⟩
  obtain ⟨i,hi⟩ := Machine.mem_threads.1 ht
  rcases hsound.threads hi with ⟨hstopped,-⟩ | ⟨σ,-,ht,htarget⟩
  · rw [hstopped] at hlive
    cases hlive
  obtain ⟨k,top,callers,saves,hresume,hframes,-,hsaved,pc,hpc,-⟩ := ht.resumes
  refine ⟨?_,⟨top,callers,hframes,?_⟩,k,hresume,(Array.getElem?_eq_some_iff.1 hpc).1⟩
  · rcases htarget with hshape | ⟨hstopped,-⟩
    · rw [Machine.shape?,Option.map_eq_some_iff] at hshape
      obtain ⟨x,hx,-⟩ := hshape
      rw [Arena.contains,hx]
      rfl
    · rw [hstopped] at hlive
      cases hlive
  · intro hnil
    rw [hnil] at hsaved
    cases hsaved

theorem queue_of_compile_nestingProject : ∃ p m t, compile nestingProject = .ok p ∧
    (Machine.ofProgram p shallow {}).Reachable m ∧ t ∈ m.threads ∧ t.stopped = false ∧
    m.targets.contains t.target = true ∧ (∃ top callers, t.frames = top :: callers ∧ top.saved ≠ []) ∧
    ∃ k, t.resume = some k ∧ k.label.toNat < k.script.labels.size := by
  obtain ⟨p,m,m',hcompile,hsmall,hreach,⟨t,ht,-,-,hlive⟩,-⟩ := nestingProject_runs
  exact ⟨p,m,t,hcompile,hreach,ht,hlive,(queue_of_compile hcompile hsmall hreach).2.1 t ht hlive⟩

end SpriteMachine
