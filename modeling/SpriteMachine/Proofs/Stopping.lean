import SpriteMachine.Proofs.Arrivals
import SpriteMachine.Proofs.SpriteList
import SpriteMachine.Proofs.Traces

/-!
The end of all threads. A thread that stops all threads performs nothing after that, and neither does any other thread in
what is left of the frame. The queue is empty when the frame is over, and of the sprites there are those of the program.
-/

namespace SpriteMachine

variable {p : Program} {c : Settings}

namespace Machine

variable {m m' : Machine} {t : Turn} {s : Script} {pc fuel slot : Nat} {a : Act} {pre post : List Act}

theorem advance_stopsAll (h : t.Sound p c (some slot) s pc) {i : Instr} {next : Nat} (hfetch : s.fetch pc = .ok (i,next))
    (hi : i.stopsAll = true) : ∃ a, advance t s pc = .halted (.done t.machine.stopAll a) ∧ a.requeue = none := by
  obtain ⟨σ,hrunning,-⟩ := h
  refine ⟨{ t.active with stopped := true },?_,hrunning.requeue⟩
  have hexec : Turn.exec s next i t =
      .ok .leave { machine := t.machine.stopAll, active := { t.active with stopped := true } } := by
    cases i with
    | stop mode =>
      change Turn.stop (StopMode.ofWord? mode) next t = _
      rw [of_decide_eq_true hi,Turn.stop_all]
    | _ => cases hi
  simp only [advance,hfetch,hexec,hrunning.immediate]

theorem run_stopsAll (h : t.Sound p c (some slot) s pc) (hp : p.Sound) (htrace : runTrace fuel t s pc = pre ++ a :: post)
    (ha : a.instr.stopsAll = true) :
    post = [] ∧ ∃ b, run fuel t s pc = .done a.turn.machine.stopAll b ∧ b.requeue = none := by
  induction fuel generalizing t s pc pre with
  | zero => simp [runTrace] at htrace
  | succ fuel ih =>
    cases hfetch : s.fetch pc with
    | error f => simp [runTrace,hfetch] at htrace
    | ok found =>
      obtain ⟨i,next⟩ := found
      cases hadvance : advance t s pc with
      | halted halt =>
        obtain ⟨hhead,hrun⟩ := runTrace_halted hfetch hadvance fuel
        rw [hhead] at htrace
        cases pre with
        | nil =>
          cases htrace
          obtain ⟨b,hstop,hrequeue⟩ := advance_stopsAll h hfetch ha
          rw [hadvance] at hstop
          cases hstop
          exact ⟨rfl,b,hrun,hrequeue⟩
        | cons x pre => simp at htrace
      | going u r q =>
        obtain ⟨hhead,hrun⟩ := runTrace_going hfetch hadvance fuel
        rw [hhead] at htrace
        cases pre with
        | nil =>
          cases htrace
          obtain ⟨b,hstop,-⟩ := advance_stopsAll h hfetch ha
          rw [hadvance] at hstop
          cases hstop
        | cons x pre =>
          simp only [List.cons_append,List.cons.injEq] at htrace
          have hsafe := h.advance hp
          rw [hadvance] at hsafe
          cases hsafe with
          | going hu =>
            rw [hrun]
            exact ih hu htrace.2

theorem resume_stopsAll (h : m.Sound p c) (hp : p.Sound) (htrace : resumeTrace fuel m slot = pre ++ a :: post)
    (ha : a.instr.stopsAll = true) : post = [] ∧ m.resume fuel slot = .done a.turn.machine.stopAll := by
  rcases m.resume_cases slot fuel with ⟨hnone,-⟩ | ⟨t,s,pc,hload,heq,hresume⟩
  · simp [hnone] at htrace
  · rw [heq] at htrace
    obtain ⟨hpost,b,hrun,hrequeue⟩ := run_stopsAll (hload.sound h hp) hp htrace ha
    refine ⟨hpost,?_⟩
    rw [hresume,hrun]
    simp only [afterHalt,putBack,hrequeue]

/-! Where no thread is live, nothing is performed. -/

theorem resume_idle (hidle : ∀ th, ¬ m.Live th) (fuel slot : Nat) :
    resumeTrace fuel m slot = [] ∧ m.resume fuel slot = .done m := by
  unfold resumeTrace resume
  cases hslot : (m.queue[slot]?).join with
  | none => simp
  | some th =>
    have hstopped : th.stopped = true := by
      by_contra hlive
      exact hidle th ⟨⟨slot,Option.join_eq_some_iff.1 hslot⟩,by simpa using hlive⟩
    simp [hstopped]

theorem resumeFrom_idle (hidle : ∀ th, ¬ m.Live th) {n i : Nat} (hdone : resumeFrom fuel n i m = .done m') :
    resumeFromTrace fuel n i m = [] ∧ m' = m := by
  induction n generalizing i with
  | zero => cases hdone
  | succ n ih =>
    obtain ⟨htrace,hresume⟩ := resume_idle hidle fuel i
    simp only [resumeFrom,resumeFromTrace,htrace,hresume,List.nil_append] at hdone ⊢
    by_cases hi : i < m.queue.size
    · simp only [hi,if_true] at hdone ⊢
      exact ih hdone
    · simp only [hi,if_false] at hdone ⊢
      cases hdone
      exact ⟨trivial,rfl⟩

theorem sweep_idle (hidle : ∀ th, ¬ m.Live th) : m.sweep.queue = #[] := by
  rw [Array.eq_empty_iff_forall_not_mem]
  intro o ho
  obtain ⟨hmem,hlive⟩ := Array.mem_filter.1 ho
  cases o with
  | none => cases hlive
  | some th => exact hidle th ⟨Array.mem_iff_getElem?.1 hmem,by simpa using hlive⟩

/-! The end of all threads in a pass, and in a frame -/

theorem resumeFrom_stopsAll (h : m.Sound p c) (hp : p.Sound) {n i : Nat}
    (htrace : resumeFromTrace fuel n i m = pre ++ a :: post) (ha : a.instr.stopsAll = true)
    (hdone : resumeFrom fuel n i m = .done m') : post = [] ∧ m' = a.turn.machine.stopAll := by
  induction n generalizing m i pre with
  | zero => cases hdone
  | succ n ih =>
    by_cases hi : i < m.queue.size
    · simp only [resumeFrom,resumeFromTrace,hi,if_true] at hdone htrace
      have hsafe := h.resume hp fuel i
      cases hresume : m.resume fuel i with
      | done m₁ =>
        rw [hresume] at hsafe
        cases hsafe with
        | done h₁ =>
          simp only [hresume] at hdone htrace
          rcases append_eq_split htrace with ⟨rest,hhere,hpost⟩ | ⟨rest,-,hlater⟩
          · obtain ⟨hrest,heq⟩ := resume_stopsAll h hp hhere ha
            rw [hresume] at heq
            cases heq
            obtain ⟨hnone,hsame⟩ := resumeFrom_idle (not_live_stopAll _) hdone
            exact ⟨by rw [hpost,hrest,hnone]; rfl,hsame⟩
          · exact ih h₁ hlater hdone
      | fault m₁ f | outOfFuel => simp [hresume] at hdone
    · simp [resumeFromTrace,hi] at htrace

theorem pass_stopsAll (h : m.Sound p c) (hp : p.Sound) (htrace : resumeFromTrace fuel fuel 0 m = pre ++ a :: post)
    (ha : a.instr.stopsAll = true) (hdone : m.pass fuel = .done m') : post = [] ∧ m' = a.turn.machine.stopAll.sweep := by
  unfold pass at hdone
  split at hdone
  next m₁ hfrom =>
    cases hdone
    obtain ⟨hpost,rfl⟩ := resumeFrom_stopsAll h hp htrace ha hfrom
    exact ⟨hpost,rfl⟩
  next hother => exact absurd hdone (hother m')

theorem passes_stopsAll (h : m.Sound p c) (hp : p.Sound) {start budget : Float} {n : Nat}
    (htrace : passesTrace fuel start budget n m = pre ++ a :: post) (ha : a.instr.stopsAll = true)
    (hdone : passes fuel start budget n m = .done m') :
    post = [] ∧ m'.queue = #[] ∧ m'.targets = a.turn.machine.stopAll.targets ∧ m'.children = a.turn.machine.stopAll.children := by
  induction n generalizing m pre with
  | zero => cases hdone
  | succ n ih =>
    unfold passes at hdone
    unfold passesTrace at htrace
    have hsafe := h.pass hp fuel
    cases hpass : m.pass fuel with
    | fault m₁ f | outOfFuel => simp [hpass] at hdone
    | done m₁ =>
      rw [hpass] at hsafe
      cases hsafe with
      | done h₁ =>
        simp only [hpass] at hdone htrace
        by_cases hmore : (m₁.settings.turbo || !m₁.visual) = true
        · by_cases hagain : (m₁.readClock.1 - start < budget && !m₁.readClock.2.queue.isEmpty) = true
          · simp only [hmore,hagain,if_true] at hdone htrace
            rcases append_eq_split htrace with ⟨rest,hhere,-⟩ | ⟨rest,-,hlater⟩
            · -- The queue is empty, so there is no other pass.
              obtain ⟨-,rfl⟩ := pass_stopsAll h hp hhere ha hpass
              have hempty : a.turn.machine.stopAll.sweep.readClock.2.queue = #[] := sweep_idle (not_live_stopAll _)
              simp [hempty] at hagain
            · exact ih (h₁.alike (.readClock _)) hlater hdone
          · simp only [hmore,hagain,if_true,Bool.false_eq_true,if_false,List.append_nil] at hdone htrace
            cases hdone
            obtain ⟨hpost,rfl⟩ := pass_stopsAll h hp htrace ha hpass
            exact ⟨hpost,sweep_idle (not_live_stopAll _),rfl,rfl⟩
        · simp only [hmore,Bool.false_eq_true,if_false,List.append_nil] at hdone htrace
          cases hdone
          obtain ⟨hpost,rfl⟩ := pass_stopsAll h hp htrace ha hpass
          exact ⟨hpost,sweep_idle (not_live_stopAll _),rfl,rfl⟩

end Machine

/-- Stopping all threads stops everything. If in a frame that goes well a thread stops all threads, it is the last that
any thread performs in the frame. Then the queue is empty, the list of sprites has those of the program and no others,
all of them are alive, and no clone is. -/
theorem stopAll_of_compile {project : Project} {program : Program} (hcompile : compile project = .ok program)
    (hsmall : program.Small) {settings : Settings} {clock : Clock} {m m' : Machine}
    (hreach : (Machine.ofProgram program settings clock).Reachable m) {fuel : Nat} (hstep : m.step fuel = .done m')
    {pre post : List Act} {a : Act} (htrace : m.stepTrace fuel = pre ++ a :: post) (ha : a.instr.stopsAll = true) :
    post = [] ∧ m'.queue = #[] ∧ m'.children.Perm (List.range' 1 program.sprites.length) ∧
      (∀ id ∈ m'.children, m'.targets.contains id = true) ∧ ∀ id, m'.isCloneId id = false := by
  have hprogram := compile_sound hcompile hsmall
  have hfirst := Machine.Sound.ofProgram hprogram settings clock
  have hm := hreach.sound hfirst hprogram
  obtain ⟨start,budget,hpasses,hdraw⟩ := m.stepTrace_eq fuel
  obtain ⟨m₁,hdone,rfl⟩ := hdraw m' hstep
  -- The machine of the thread that stops all threads has its sprites listed.
  obtain ⟨hsteps,-⟩ := Machine.steps_of_mem_stepTrace hm hprogram (htrace ▸ List.mem_append_right pre List.mem_cons_self)
  have hlisted : a.turn.machine.Listed program.sprites.length :=
    Phase.Steps.listed ((hreach.steps hfirst hprogram).trans hsteps)
      (Machine.listed_ofProgram hprogram.stage hprogram.sprites settings clock)
  obtain ⟨hstopped,hnone⟩ := hlisted.stopAll
  rw [hpasses] at htrace
  obtain ⟨hpost,hqueue,htargets,hchildren⟩ :=
    Machine.passes_stopsAll (hm.alike (.beginFrame m)) hprogram htrace ha hdone
  have hend : m₁.draw.Listed program.sprites.length := (hstopped.of_eq htargets hchildren).alike (.draw m₁)
  have hclones : ∀ id, m₁.draw.isCloneId id = false := by
    intro id
    rw [Machine.isCloneId_eq,(Machine.Alike.draw m₁).shapes,← Machine.isCloneId_eq,Machine.isCloneId,htargets]
    exact hnone id
  refine ⟨hpost,(Machine.Alike.draw m₁).queue.trans hqueue,hend.perm_of_no_clones hclones,fun id hid => ?_,hclones⟩
  have hlive := ((hend.mem id).1 hid).2
  rwa [Machine.shape?,Option.isSome_map] at hlive

/-! A sprite clones itself, and the clone is about to move when a procedure of the stage stops all threads. -/

def haltingProject : Project where
  stage := {
    name := "Stage"
    isStage := true
    scripts := [
      { hat := .flag, blocks := [.mk "procedures_call" (some { procedure := "halt" }) [] []] },
      { hat := .procedure { procedure := "halt" }
        blocks := [.mk "control_stop" none [] [("STOP_OPTION",⟨"all",none⟩)]] }] }
  sprites := [{
    name := "Cat"
    isStage := false
    scripts := [
      { hat := .flag
        blocks := [.mk "control_create_clone_of" none [.mk "CLONE_OPTION" [
          .mk "control_create_clone_of_menu" none [] [("CLONE_OPTION",⟨"_myself_",none⟩)]] none] []] },
      { hat := .startAsClone, blocks := [.mk "motion_changexby" none [.mk "DX" [] (some (.number "10"))] []] }] }]

/-- The frame after the flag goes well, and a thread stops all threads in it, in a call, while there is a clone and its
thread waits in the queue. -/
theorem haltingProject_halts : ∃ p ∈ (compile haltingProject).toOption, p.isSmall ∧
    ∃ x ∈ ((Machine.ofProgram p shallow {}).greenFlag.step 20).ended?, x.2 = none ∧
    ∃ a ∈ (Machine.ofProgram p shallow {}).greenFlag.stepTrace 20, a.instr.stopsAll = true ∧
      a.turn.active.calls.length = 1 ∧ a.turn.machine.isCloneId 2 = true ∧
      ∃ t ∈ a.turn.machine.threads, t.target = 2 ∧ t.stopped = false := by
  decide +kernel

theorem stopAll_of_compile_haltingProject : ∃ p m pre a, compile haltingProject = .ok p ∧
    (Machine.ofProgram p shallow {}).greenFlag.step 20 = .done m ∧
    (Machine.ofProgram p shallow {}).greenFlag.stepTrace 20 = pre ++ [a] ∧ a.instr.stopsAll = true ∧
    a.turn.active.calls.length = 1 ∧ a.turn.machine.isCloneId 2 = true ∧
    (∃ t ∈ a.turn.machine.threads, t.target = 2 ∧ t.stopped = false) ∧
    m.queue = #[] ∧ m.children.Perm (List.range' 1 p.sprites.length) ∧ m.isCloneId 2 = false := by
  obtain ⟨p,hp,hsmall,⟨m,_⟩,hm,rfl,a,hmem,hstops,hdepth,hclone,hthread⟩ := haltingProject_halts
  have hcompile := Except.mem_toOption.1 hp
  have hstep := Outcome.eq_done hm
  obtain ⟨pre,post,htrace⟩ := List.append_of_mem hmem
  obtain ⟨rfl,hqueue,hlist,-,hclones⟩ :=
    stopAll_of_compile hcompile (Program.small_of_isSmall hsmall) (.host .first .greenFlag) hstep htrace hstops
  exact ⟨p,m,pre,a,hcompile,hstep,htrace,hstops,hdepth,hclone,hthread,hqueue,hlist,hclones 2⟩

end SpriteMachine
