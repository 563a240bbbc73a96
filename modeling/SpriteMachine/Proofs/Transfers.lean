import SpriteMachine.Proofs.Running

/-!
What the instructions do that direct control: one equation each, for a turn in which they find what they need.
-/

namespace SpriteMachine

namespace Turn

variable {s : Script} {t : Turn} {pc : Nat}

def withStack (t : Turn) (stack : List Value) : Turn :=
  { t with active := { t.active with stack } }

def withMachine (t : Turn) (m : Machine) : Turn :=
  { t with machine := m }

def withActive (t : Turn) (a : Activation) : Turn :=
  { t with active := a }

variable {v : Value} {rest : List Value} {label : UInt32} {x : Target}

theorem pop_cons (hs : t.active.stack = v :: rest) : Turn.pop t = .ok v (t.withStack rest) := by
  simp only [Turn.pop,Turn.onActive,Activation.pop,hs]
  rfl

theorem exec_jumpIf (hs : t.active.stack = v :: rest) (wanted : Bool) (offset : UInt32) :
    exec s pc (.jumpIf wanted offset) t =
      .ok (.next (if v.toBool = wanted then offset.toNat else pc)) (t.withStack rest) := by
  change EStateM.bind popBool _ t = _
  simp only [popBool,bind,EStateM.bind,pop_cons hs,pure,EStateM.pure]
  by_cases h : v.toBool = wanted
  · simp [h,EStateM.pure]
  · simp [h,EStateM.pure]

theorem resumePoint_ok (h : label.toNat < s.labels.size) : resumePoint s label t = .ok ⟨s,label⟩ t := by
  simp only [resumePoint,Script.continuation?,h,if_true]
  rfl

theorem constant_ok {index : UInt32} (h : index.toNat < s.constants.size) :
    ∃ text, s.constant? index = some text ∧ constant s index t = .ok text t := by
  have htext : s.constant? index = some s.constants[index.toNat] := Array.getElem?_eq_getElem h
  refine ⟨_,htext,?_⟩
  simp only [constant,htext]
  rfl

theorem exec_queue (h : label.toNat < s.labels.size) :
    exec s pc (.queue label) t = .ok .leave (t.withActive
      (if t.active.warp > 0 then { t.active with immediate := some ⟨s,label⟩ } else t.active.yieldTo ⟨s,label⟩)) := by
  change EStateM.bind (resumePoint s label) _ t = _
  simp only [EStateM.bind,resumePoint_ok h]
  rfl

theorem exec_forceQueue (h : label.toNat < s.labels.size) :
    exec s pc (.forceQueue label) t = .ok .leave (t.withActive (t.active.yieldTo ⟨s,label⟩)) := by
  change EStateM.bind (resumePoint s label) _ t = _
  simp only [EStateM.bind,resumePoint_ok h]
  rfl

theorem exec_finish : exec s pc .finish t = .ok .leave t := rfl

theorem stop_thisScript {a : Activation} (h : t.active.endCall = .ok a) :
    Turn.stop (some .thisScript) pc t = .ok .leave (t.withActive a) := by
  simp only [Turn.stop,bind,EStateM.bind,onActive,h]
  rfl

theorem stop_all : Turn.stop (some .all) pc t =
    .ok .leave { machine := t.machine.stopAll, active := { t.active with stopped := true } } := rfl

theorem unlessRestarted_eq (started : List Nat) :
    unlessRestarted started pc t = .ok (if started.contains t.active.base then .leave else .next pc) t := by
  simp only [unlessRestarted,bind,EStateM.bind,get,getThe,MonadStateOf.get,EStateM.get,pure]
  split <;> rfl

theorem exec_broadcast (hs : t.active.stack = v :: rest) :
    exec s pc .broadcast t = .ok
      (if (t.machine.trigger (.ofMessage v.toText)).1.contains t.active.base then .leave else .next pc)
      ((t.withStack rest).withMachine (t.machine.trigger (.ofMessage v.toText)).2) := by
  change EStateM.bind popText _ t = _
  simp only [popText,bind,EStateM.bind,pop_cons hs,pure,EStateM.pure]
  exact unlessRestarted_eq _

theorem exec_broadcastAndWait (hs : t.active.stack = v :: rest) :
    exec s pc .broadcastAndWait t = .ok
      (if (t.machine.trigger (.ofMessage v.toText)).1.contains t.active.base then .leave else .next pc)
      { machine := (t.machine.trigger (.ofMessage v.toText)).2
        active := { t.active with
          stack := rest
          locals := { t.active.locals with threads := (t.machine.trigger (.ofMessage v.toText)).1 } } } := by
  change EStateM.bind popText _ t = _
  simp only [popText,bind,EStateM.bind,pop_cons hs,pure,EStateM.pure]
  exact unlessRestarted_eq _

theorem own_ok (h : t.machine.targets.get? t.active.target = some x) : own t = .ok x t := by
  simp only [own,ownId,target,Machine.target,bind,EStateM.bind,get,getThe,MonadStateOf.get,EStateM.get,pure,
    EStateM.pure,h]

theorem exec_deleteClone (h : t.machine.targets.get? t.active.target = some x) :
    exec s pc .deleteClone t =
      if x.isClone then .ok .leave (t.withMachine (t.machine.deleteClone t.active.target)) else .ok (.next pc) t := by
  change EStateM.bind own _ t = _
  simp only [EStateM.bind,own_ok h]
  split <;> rfl

theorem popN_ok {n : Nat} (h : n ≤ t.active.stack.length) :
    onActive (·.popN n) t = .ok (t.active.stack.take n).reverse (t.withStack (t.active.stack.drop n)) := by
  simp only [onActive,Activation.popN,h,if_true]
  rfl

def callFrame (q : Procedure) (args : List Value) (ret : Continuation) : Frame where
  base := some q.script.id
  ret := some ret
  warp := q.warp
  args := bindArguments q.arguments.length args

section Call

variable {x : Target} (hx : t.machine.targets.get? t.active.target = some x) {name : String} (args : List Value)
  (ret : Continuation)

include hx

theorem call_unknown (hq : x.scripts.procedure? name = none) :
    Turn.call name args ret t = .ok () (t.withActive { t.active with immediate := some ret }) := by
  simp only [Turn.call,bind,EStateM.bind,own_ok hx,hq]
  rfl

variable {q : Procedure} (hq : x.scripts.procedure? name = some q)

include hq

theorem call_tooDeep (hdeep : t.machine.settings.maxCallDepth ≤ t.active.depth) :
    Turn.call name args ret t = .error (.callDepthExceeded t.machine.settings.maxCallDepth) t := by
  simp only [Turn.call,bind,EStateM.bind,own_ok hx,hq,machineIs,get,getThe,MonadStateOf.get,EStateM.get,pure,
    EStateM.pure,hdeep,if_true]
  rfl

/-- A call enters the procedure, at once or in the next pass. -/
theorem call_enters (hdeep : ¬ t.machine.settings.maxCallDepth ≤ t.active.depth) :
    Turn.call name args ret t =
      let a := t.active.enter (callFrame q args ret)
      .ok () (t.withActive
        (if q.warp || a.warp > 0 then { a with warp := a.warp + 1, immediate := some q.script.entry }
        else if t.machine.visual && a.recurs t.machine.settings.recursionWindow q.script.id then
          { a with requeue := some q.script.entry }
        else { a with immediate := some q.script.entry })) := by
  simp only [Turn.call,bind,EStateM.bind,own_ok hx,hq,machineIs,get,getThe,MonadStateOf.get,EStateM.get,pure,
    EStateM.pure,hdeep,if_false]
  rfl

end Call

theorem exec_call {procedure argc ret : UInt32} (hconstant : procedure.toNat < s.constants.size)
    (hargc : argc.toNat ≤ t.active.stack.length) (hret : ret.toNat < s.labels.size) (pc : Nat) :
    ∃ name, s.constant? procedure = some name ∧ exec s pc (.call procedure argc ret) t = (do
      Turn.call name (t.active.stack.take argc.toNat).reverse ⟨s,ret⟩
      return .leave : Exec Flow) (t.withStack (t.active.stack.drop argc.toNat)) := by
  obtain ⟨name,htext,hname⟩ := constant_ok (t := t) hconstant
  refine ⟨name,htext,?_⟩
  change EStateM.bind (constant s procedure) _ t = _
  simp only [bind,EStateM.bind,hname,popN_ok hargc,resumePoint_ok hret]

theorem exec_restore {l : Locals} {rest : List Locals} (h : t.active.frame.saved = l :: rest) :
    exec s pc .restore t = .ok (.next pc)
      (t.withActive { t.active with frame := { t.active.frame with saved := rest }, locals := l }) := by
  change EStateM.bind (onActive fun a => a.restore.map ((),·)) _ t = _
  simp only [EStateM.bind,onActive,Activation.restore,h]
  rfl

end Turn

end SpriteMachine
