import SpriteMachine.Proofs.Reachability

/-!
The laws of call stacks: what the frames of a thread are, how many there can be, and how many of them run without
yielding. They hold in all that a machine reaches, also while a thread runs. What stays in the slot of a thread that
runs has no frames; it is swept out, but a fault leaves it there.
-/

namespace SpriteMachine

/-- The frames of a thread, the innermost first, of which the first runs a script: at the bottom the script that was
started, and above it procedures that return to labels of the scripts that called them. -/
inductive Frame.Stacked (scripts : Scripts) (base : Nat) : Script → List Frame → Prop
  | root {s : Script} {f : Frame} (hs : s ∈ scripts.all) (hid : s.id = base) (hbase : f.base = none)
      (hret : f.ret = none) (hwarp : f.warp = false) : Stacked scripts base s [f]
  | call {n : String} {q : Procedure} {f caller : Frame} {callers : List Frame} {k : Continuation}
      (hq : (n,q) ∈ scripts.procedures) (hbase : f.base = some q.script.id) (hret : f.ret = some k)
      (hlabel : k.label.toNat < k.script.labels.size) (hcaller : Stacked scripts base k.script (caller :: callers)) :
      Stacked scripts base q.script (f :: caller :: callers)

/-- The law of a call stack with a count of the calls that run without yielding. -/
structure Frame.Lawful (scripts : Scripts) (limit base : Nat) (frames : List Frame) (count : Nat) : Prop where
  stacked : ∃ s, Frame.Stacked scripts base s frames
  depth : (frames.filter fun f => f.base.isSome).length ≤ limit
  warp : count = Frame.warpDepth frames
  idle : (∀ f ∈ frames, f.warp = false) → count = 0

theorem Frame.warpDepth_eq_zero {frames : List Frame} (h : ∀ f ∈ frames, f.warp = false) :
    Frame.warpDepth frames = 0 := by
  induction frames with
  | nil => rfl
  | cons f frames ih =>
    rw [warpDepth_cons,ih fun g hg => h g (List.mem_cons_of_mem _ hg),h f List.mem_cons_self]
    rfl

namespace Chain

variable {stage σ : Shape} {base : Nat} {s : Script} {frames : List Frame}

theorem stacked (h : Chain stage σ base s frames) : Frame.Stacked σ.scripts base s frames := by
  induction h with
  | root hs hid hbase hret hwarp => exact .root hs hid hbase hret hwarp
  | call hq hbase hret _ _ hk ih =>
    obtain ⟨pc,hpc,-⟩ := hk
    exact .call hq hbase hret (Array.getElem?_eq_some_iff.1 hpc).1 ih

theorem procedures (h : Chain stage σ base s frames) :
    (frames.filter fun f => f.base.isSome).length + 1 = frames.length := by
  induction h with
  | root _ _ hbase => simp [hbase]
  | call _ hbase _ _ _ _ ih =>
    rw [List.filter_cons_of_pos (by simp [hbase]),List.length_cons,List.length_cons,ih]

theorem lawful (h : Chain stage σ base s frames) {limit warp : Nat} (hdepth : frames.length ≤ limit + 1)
    (hwarp : warp = Frame.warpDepth frames) : Frame.Lawful σ.scripts limit base frames warp where
  stacked := ⟨s,h.stacked⟩
  depth := by
    have := h.procedures
    omega
  warp := hwarp
  idle hnone := hwarp.trans (Frame.warpDepth_eq_zero hnone)

end Chain

/-- The call stack of a thread on a target follows the law; the scripts are those of the target, or were while it was
alive. -/
def Program.Lawful (p : Program) (limit : Nat) (m : Machine) (target base : Nat) (frames : List Frame) (count : Nat) :
    Prop :=
  ∃ d ∈ p.stage :: p.sprites, (∀ t, m.targets.get? target = some t → t.scripts = d.scripts) ∧
    Frame.Lawful d.scripts limit base frames count

/-- What is left in its slot of a thread that was taken up. -/
def Thread.IsShell (t : Thread) : Prop :=
  t.stopped = true ∧ t.resume = none ∧ t.frames = []

theorem Shape.Of.lawful {p : Program} {σ : Shape} (h : σ.Of p) {m : Machine} {target : Nat}
    (hshape : m.shape? target = some σ ∨ m.shape? target = none) {limit base count : Nat} {frames : List Frame}
    (hlawful : Frame.Lawful σ.scripts limit base frames count) : p.Lawful limit m target base frames count := by
  obtain ⟨d,hd,heq,-⟩ := h
  have hscripts : d.scripts = σ.scripts := (congrArg Shape.scripts heq).symm
  refine ⟨d,hd,fun t ht => ?_,by rw [hscripts]; exact hlawful⟩
  rw [Machine.shape?,ht,Option.map_some] at hshape
  rcases hshape with hshape | hnone
  · cases hshape
    exact hscripts.symm
  · cases hnone

namespace Machine

variable {p : Program} {c : Settings} {m : Machine}

theorem Sound.lawful (h : m.Sound p c) {t : Thread} (ht : t ∈ m.threads) :
    t.IsShell ∨ p.Lawful c.maxCallDepth m t.target t.base t.frames t.warp := by
  obtain ⟨i,hi⟩ := mem_threads.1 ht
  rcases h.threads hi with hshell | ⟨σ,hof,hsound,htarget⟩
  · exact .inl hshell
  · obtain ⟨k,top,callers,saves,-,hframes,hchain,-,-⟩ := hsound.resumes
    have hdepth := hsound.depth
    rw [h.settings] at hdepth
    rw [← hframes] at hchain
    exact .inr (hof.lawful (htarget.imp_right And.right) (hchain.lawful hdepth hsound.warp))

end Machine

theorem Turn.Sound.lawful {p : Program} {c : Settings} {o : Option Nat} {t : Turn} {s : Script} {pc : Nat}
    (h : t.Sound p c o s pc) : p.Lawful c.maxCallDepth t.machine t.active.target t.active.base
      (t.active.frame :: t.active.calls) t.active.warp := by
  obtain ⟨σ,hrunning,-⟩ := h
  have hplaced := hrunning.placed
  have hdepth := hplaced.depth
  rw [hplaced.machine.settings] at hdepth
  exact (hplaced.machine.shapes hplaced.own).1.lawful (.inl hplaced.own)
    (hrunning.chain.lawful (Nat.succ_le_succ hdepth) hplaced.warp)

/-- The call stacks of a compiled program follow the law, whatever the host does: those of the threads in the queue,
apart from what is left of a thread that was taken up, and those of threads that run. -/
theorem callStacks_of_compile {project : Project} {program : Program} (hcompile : compile project = .ok program)
    (hsmall : program.Small) {settings : Settings} {clock : Clock} :
    (∀ m, (Machine.ofProgram program settings clock).Reachable m → ∀ t ∈ m.threads,
      t.IsShell ∨ program.Lawful settings.maxCallDepth m t.target t.base t.frames t.warp) ∧
    ∀ t s pc, (Machine.ofProgram program settings clock).Meets t s pc →
      program.Lawful settings.maxCallDepth t.machine t.active.target t.active.base
        (t.active.frame :: t.active.calls) t.active.warp := by
  have hprogram := compile_sound hcompile hsmall
  have hfirst := Machine.Sound.ofProgram hprogram settings clock
  refine ⟨fun m hreach t ht => (hreach.sound hfirst hprogram).lawful ht,fun t s pc hmeets => ?_⟩
  obtain ⟨o,hsound⟩ := hmeets.sound hfirst hprogram
  exact hsound.lawful

/-- A thread in the call of a procedure, in the queue and when it is taken up again. -/
theorem callStacks_of_compile_nestingProject : ∃ p m t u s pc, compile nestingProject = .ok p ∧ t ∈ m.threads ∧
    t.frames.length = 2 ∧ t.warp = 1 ∧ p.Lawful 1 m t.target t.base t.frames t.warp ∧
    (Machine.ofProgram p shallow {}).Meets u s pc ∧ u.active.target = t.target ∧
    p.Lawful 1 u.machine u.active.target u.active.base (u.active.frame :: u.active.calls) u.active.warp := by
  obtain ⟨p,m,m',hcompile,hsmall,hreach,⟨t,ht,hlength,hwarp,hlive⟩,-⟩ := nestingProject_runs
  have hprogram := compile_sound hcompile hsmall
  obtain ⟨u,s,pc,hmeets,htarget,-⟩ := hreach.meets (.ofProgram hprogram shallow {}) hprogram ht hlive
  refine ⟨p,m,t,u,s,pc,hcompile,ht,hlength,hwarp,?_,hmeets,htarget,
    (callStacks_of_compile hcompile hsmall).2 u s pc hmeets⟩
  rcases (callStacks_of_compile hcompile hsmall).1 m hreach t ht with ⟨-,-,hnil⟩ | hlawful
  · rw [hnil] at hlength
    cases hlength
  · exact hlawful

/-- A fault in the second frame leaves a thread without frames in its slot that still counts a call. -/
theorem shell_counts_call : ∃ p m t, compile nestingProject = .ok p ∧
    (Machine.ofProgram p shallow {}).Reachable m ∧ t ∈ m.threads ∧ t.frames = [] ∧
    t.warp = 1 ∧ Frame.warpDepth t.frames = 0 := by
  obtain ⟨p,m,m',hcompile,-,hreach,-,hfault,t,ht,hlength,hwarp⟩ := nestingProject_runs
  have hnil : t.frames = [] := List.eq_nil_of_length_eq_zero hlength
  refine ⟨p,m',t,hcompile,(hreach.host .press).fault hfault,ht,hnil,hwarp,?_⟩
  rw [hnil]
  rfl

end SpriteMachine
