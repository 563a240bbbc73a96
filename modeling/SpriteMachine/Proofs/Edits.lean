import SpriteMachine.Proofs.Assembly
import SpriteMachine.Proofs.Builtins
import SpriteMachine.Proofs.Transfers

/-!
What an instruction can make of the machine. One that falls through edits it. Others raise an event, stop threads, delete
the running clone, or leave the machine as it is. Faults are no exception.
-/

namespace SpriteMachine

namespace Editing

variable {α : Type} {i : Instr}

theorem listAction (action : ListAction) (h : Handle) : Editing i (Turn.listAction action h) := by
  refine (popIf _).bind fun top => (popIf _).bind fun second => withFound (.getList h) fun r t howner => ?_
  refine (machineIs _ t).bind fun random u hu => ?_
  cases hu
  refine Turn.Edited.bind ⟨.target (.aside .refl rfl .refl) howner fun _ => .listAt _ _,rfl,rfl,rfl⟩ fun _ u _ => ?_
  split
  · exact push _ u
  · exact pure _ u

theorem constant (s : Script) (index : UInt32) : Editing i (Turn.constant s index) := by
  unfold Turn.constant
  split
  · exact pure _
  · exact throw _

theorem resumePoint (s : Script) (label : UInt32) : Editing i (Turn.resumePoint s label) := by
  unfold Turn.resumePoint
  split
  · exact pure _
  · exact throw _

theorem restore : Editing i (Turn.onActive fun a => a.restore.map ((),·)) := by
  refine onActive fun {a b v} h => ?_
  unfold Activation.restore at h
  split at h
  · cases h
  · cases h
    exact ⟨rfl,rfl,rfl⟩

theorem visualCheck (tier : UInt32) (hi : i = .visual tier) : Editing i (do
    let id ← Turn.ownId
    Turn.modifyMachine (·.visualCheck id ((VisualTier.ofWord? tier).getD .always))) := by
  refine modifyOwnMachine fun own m => ?_
  unfold Machine.visualCheck
  split
  · exact .visual .refl (.inr ⟨tier,hi⟩)
  · exact .refl

theorem perform (s : Script) (i : Instr) : Editing i (Turn.perform s i) := by
  cases i with
  | pushConstant index => exact (constant s index).bind fun _ => push _
  | pushNumber _ | pushBool _ => exact push _
  | pop => exact pop.bind fun _ => pure _
  | unary f => exact pop.bind fun _ => push _
  | binary f => exact popPair.bind fun _ => push _
  | random => exact popPair.bind fun _ => (onMachine fun _ _ => .aside .refl rfl .refl).bind fun _ => push _
  | pushVar h => exact (finds (.getVariable h)).bind fun _ => push _
  | setVar h =>
    exact pop.bind fun _ => withFound (.getVariable h) fun _ _ howner => ⟨.target .refl howner fun _ => .variableAt _ _,rfl,rfl,rfl⟩
  | changeVar h =>
    exact popNumber.bind fun _ => withFound (.getVariable h) fun _ _ howner =>
      ⟨.target .refl howner fun _ => .variableAt _ _,rfl,rfl,rfl⟩
  | watchVar h visible => exact withFound (.getVariable h) fun _ _ _ => ⟨.setWatcher _ rfl _ _ _,rfl,rfl,rfl⟩
  | list action h => exact listAction action h
  | watchList h visible => exact withFound (.getList h) fun _ _ _ => ⟨.setWatcher _ rfl _ _ _,rfl,rfl,rfl⟩
  | save => exact modifyActive fun _ => ⟨rfl,rfl,rfl⟩
  | restore => exact restore
  | pushLocal slot => exact (getLocal slot).bind fun _ => push _
  | setLocal slot => exact pop.bind fun _ => setLocal slot _
  | decLocal slot => exact (numberIn slot).bind fun _ => setLocal slot _
  | pushArg form index => exact get.bind fun _ => push _
  | running => exact (get.bind fun _ => machineIs _ : Editing _ Turn.isWaiting).bind fun _ => push _
  | waitElapsed slot => exact (machineIs _).bind fun _ => (numberIn slot).bind fun _ => (numberIn _).bind fun _ => push _
  | pushNow => exact (machineIs _).bind fun _ => push _
  | visual tier => exact visualCheck tier rfl
  | builtin id =>
    change Editing _ (Turn.callBuiltin id)
    unfold Turn.callBuiltin
    split
    next b hb => exact (Mild.builtin (i := .builtin id) hb).edits
    · exact throw _
  | _ => exact pure _

/-! Instructions that direct control -/

theorem endCall : Editing i (Turn.onActive fun a => a.endCall.map ((),·)) := by
  refine onActive fun {a b v} h => ?_
  obtain ⟨c,hc,hb⟩ : ∃ c, a.endCall = .ok c ∧ c = b := by
    cases hend : a.endCall with
    | error f =>
      rw [hend] at h
      cases h
    | ok c =>
      rw [hend] at h
      cases h
      exact ⟨_,rfl,rfl⟩
  subst hb
  unfold Activation.endCall at hc
  split at hc
  · cases hc
    exact ⟨rfl,rfl,rfl⟩
  · obtain ⟨⟨b,ret⟩,hb,hc⟩ := Except.bind_eq_ok.1 hc
    cases hc
    unfold Activation.leave at hb
    split at hb
    · cases hb
      exact ⟨rfl,rfl,rfl⟩
    · obtain ⟨b',hb',hb⟩ := Except.bind_eq_ok.1 hb
      cases hb
      unfold Activation.restore at hb'
      split at hb'
      · cases hb'
      · cases hb'
        exact ⟨rfl,rfl,rfl⟩

theorem call (procedure : String) (args : List Value) (ret : Continuation) : Editing i (Turn.call procedure args ret) := by
  refine own.bind fun t => ?_
  split
  · exact modifyActive fun _ => ⟨rfl,rfl,rfl⟩
  next p _ =>
    refine (machineIs _).bind fun settings => get.bind fun _ => ?_
    dsimp only
    split
    refine (throw _).bind fun _ => ?_
    all_goals
      refine bind (modifyActive fun a => ⟨rfl,rfl,rfl⟩) fun _ => (machineIs _).bind fun visual => modifyActive fun a => ?_
      split
      · exact ⟨rfl,rfl,rfl⟩
      · split <;> exact ⟨rfl,rfl,rfl⟩

end Editing

/-! What an instruction makes of the machine -/

namespace Instr

/-- Whether an instruction stops all threads. -/
def stopsAll : Instr → Bool
  | .stop mode => StopMode.ofWord? mode = some .all
  | _ => false

/-- Whether an instruction stops the other threads of the target. -/
def stopsOthers : Instr → Bool
  | .stop mode => StopMode.ofWord? mode = some .otherScripts
  | _ => false

end Instr

namespace Turn

/-- The event that an instruction raises. -/
def raises? (t : Turn) : Instr → Option Event
  | .broadcast | .broadcastAndWait => t.active.stack.head?.map fun v => .ofMessage v.toText
  | .sceneChanged => some (.ofBackdrop t.machine.stage.costumeName)
  | _ => none

/-- What an instruction makes of the machine, whether or not it faults. -/
inductive Effect (t : Turn) (i : Instr) : Machine → Prop
  | edits {m : Machine} (h : t.machine.Edits i t.active.target m) : Effect t i m
  | raises {e : Event} (h : t.raises? i = some e) : Effect t i (t.machine.trigger e).2
  | stopsAll (h : i.stopsAll = true) : Effect t i t.machine.stopAll
  | stopsOthers (h : i.stopsOthers = true) :
      Effect t i (t.machine.dropThreads fun j u => some j != t.active.slot && u.target == t.active.target)
  | deletes (h : i = .deleteClone) (hclone : t.machine.isCloneId t.active.target = true) :
      Effect t i (t.machine.deleteClone t.active.target)

variable {t : Turn} {s : Script} {next : Nat} {i : Instr}

theorem Effect.of_editing {α : Type} {x : Exec α} (h : Editing i x) :
    t.Effect i (after (x t)).machine ∧ t.SameThread (after (x t)) :=
  ⟨.edits (h t).1,(h t).2⟩

/-- An event starts threads, and leaves the running one as it is but for operands and locals. -/
theorem exec_raises {e : Event} (h : t.raises? i = some e) (s : Script) (next : Nat) : ∃ u,
    exec s next i t = .ok (if (t.machine.trigger e).1.contains t.active.base then .leave else .next next) u ∧
      u.machine = (t.machine.trigger e).2 ∧ t.SameThread u ∧ u.active.immediate = t.active.immediate ∧
      u.active.requeue = t.active.requeue := by
  cases i with
  | broadcast =>
    obtain ⟨v,hv,rfl⟩ := Option.map_eq_some_iff.1 h
    obtain ⟨rest,hstack⟩ := List.head?_eq_some_iff.1 hv
    exact ⟨_,exec_broadcast hstack,rfl,⟨rfl,rfl,rfl⟩,rfl,rfl⟩
  | broadcastAndWait =>
    obtain ⟨v,hv,rfl⟩ := Option.map_eq_some_iff.1 h
    obtain ⟨rest,hstack⟩ := List.head?_eq_some_iff.1 hv
    exact ⟨_,exec_broadcastAndWait hstack,rfl,⟨rfl,rfl,rfl⟩,rfl,rfl⟩
  | sceneChanged =>
    cases h
    exact ⟨_,unlessRestarted_eq _,rfl,⟨rfl,rfl,rfl⟩,rfl,rfl⟩
  | _ => cases h

theorem effect_stop (next : Nat) (mode : Option StopMode) (hall : mode = some .all → i.stopsAll = true)
    (hothers : mode = some .otherScripts → i.stopsOthers = true) :
    t.Effect i (after (Turn.stop mode next t)).machine ∧ t.SameThread (after (Turn.stop mode next t)) := by
  cases mode with
  | none => exact ⟨.edits .refl,.refl t⟩
  | some mode =>
    cases mode with
    | all => exact ⟨.stopsAll (hall rfl),rfl,rfl,rfl⟩
    | thisScript => exact Effect.of_editing (Editing.endCall.bind fun _ => .pure _)
    | otherScripts => exact ⟨.stopsOthers (hothers rfl),rfl,rfl,rfl⟩

theorem effect_deleteClone :
    t.Effect .deleteClone (after (exec s next .deleteClone t)).machine ∧ t.SameThread (after (exec s next .deleteClone t)) := by
  cases hx : t.machine.targets.get? t.active.target with
  | some x =>
    rw [exec_deleteClone hx]
    split
    next hclone =>
      refine ⟨.deletes rfl ?_,rfl,rfl,rfl⟩
      rw [Machine.isCloneId,hx]
      exact hclone
    · exact ⟨.edits .refl,.refl t⟩
  | none =>
    change t.Effect _ (after (EStateM.bind own _ t)).machine ∧ t.SameThread (after (EStateM.bind own _ t))
    have hown : own t = .error (.missingTarget t.active.target) t := by
      change Turn.target t.active.target t = _
      unfold Turn.target Machine.target
      rw [hx]
    unfold EStateM.bind
    rw [hown]
    exact ⟨.edits .refl,.refl t⟩

theorem exec_effect (s : Script) (next : Nat) (i : Instr) (t : Turn) :
    t.Effect i (after (exec s next i t)).machine ∧ t.SameThread (after (exec s next i t)) := by
  have hraises : ∀ {e : Event}, t.raises? i = some e →
      t.Effect i (after (exec s next i t)).machine ∧ t.SameThread (after (exec s next i t)) := by
    intro e he
    obtain ⟨u,hexec,hmachine,hsame,-⟩ := exec_raises he s next
    rw [hexec]
    refine ⟨?_,hsame⟩
    change t.Effect i u.machine
    rw [hmachine]
    exact .raises he
  -- Without an operand, a message is not sent.
  have hmessage : t.active.stack = [] → popText t = .error .stackUnderflow t := by
    intro hstack
    change EStateM.bind Turn.pop _ t = _
    unfold EStateM.bind Turn.pop onActive Activation.pop
    rw [hstack]
  cases i with
  | jump offset | finish => exact ⟨.edits .refl,.refl t⟩
  | jumpIf wanted offset =>
    refine Effect.of_editing (Editing.popBool.bind fun b => ?_)
    split <;> exact .pure _
  | queue label =>
    refine Effect.of_editing ((Editing.resumePoint s label).bind fun k => (Editing.modifyActive fun a => ?_).bind fun _ => .pure _)
    split
    · exact ⟨rfl,rfl,rfl⟩
    · unfold Activation.yieldTo
      split <;> exact ⟨rfl,rfl,rfl⟩
  | forceQueue label =>
    refine Effect.of_editing ((Editing.resumePoint s label).bind fun k => (Editing.modifyActive fun a => ?_).bind fun _ => .pure _)
    unfold Activation.yieldTo
    split <;> exact ⟨rfl,rfl,rfl⟩
  | endCall => exact effect_stop next (some .thisScript) (by rintro ⟨⟩) (by rintro ⟨⟩)
  | call procedure argc ret =>
    exact Effect.of_editing ((Editing.constant s procedure).bind fun _ => (Editing.popN _).bind fun _ =>
      (Editing.resumePoint s ret).bind fun _ => (Editing.call _ _ _).bind fun _ => .pure _)
  | broadcast | broadcastAndWait =>
    cases hstack : t.active.stack with
    | nil =>
      change t.Effect _ (after (EStateM.bind popText _ t)).machine ∧ t.SameThread (after (EStateM.bind popText _ t))
      unfold EStateM.bind
      rw [hmessage hstack]
      exact ⟨.edits .refl,.refl t⟩
    | cons v rest => exact hraises (e := .ofMessage v.toText) (by simp [raises?,hstack])
  | sceneChanged => exact hraises rfl
  | stop mode =>
    refine effect_stop next (StopMode.ofWord? mode) (fun hall => ?_) fun hothers => ?_
    · simpa [Instr.stopsAll] using hall
    · simpa [Instr.stopsOthers] using hothers
  | deleteClone => exact effect_deleteClone
  | _ => exact Effect.of_editing ((Editing.perform s _).bind fun _ => .pure _)

theorem effect_of_exec {flow : Flow} {u : Turn} (h : exec s next i t = .ok flow u) :
    t.Effect i u.machine ∧ t.SameThread u := by
  have heffect := exec_effect s next i t
  rw [h] at heffect
  exact heffect

end Turn

end SpriteMachine
