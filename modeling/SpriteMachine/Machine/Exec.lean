import SpriteMachine.Machine.Builtins

/-!
What each instruction does. It goes on at an offset of its script, or leaves the script.
-/

namespace SpriteMachine

inductive Flow where
  | next (pc : Nat)
  | leave
  deriving DecidableEq, Repr

/-- The arguments of a call, cut or filled up with empty texts to the number that a procedure takes. -/
def bindArguments (count : Nat) (args : List Value) : Array Value :=
  (args.take count ++ List.replicate (count - args.length) default).toArray

/-- An argument as code reads it; one that is missing is empty, zero or false. -/
def ArgumentForm.read (form : ArgumentForm) (v : Option Value) : Value :=
  match form, v with
  | .plain, v => v.getD default
  | .number, some v => .number v.toNumber
  | .number, none => .number 0.0
  | .bool, some v => .bool v.toBool
  | .bool, none => .bool false

def Activation.recurs (a : Activation) (window base : Nat) : Bool :=
  (a.calls.take window).any fun f => f.base == some base

namespace Turn

def resumePoint (s : Script) (label : UInt32) : Exec Continuation :=
  match s.continuation? label with
  | some k => pure k
  | none => throw (.badLabel s.name label)

def constant (s : Script) (index : UInt32) : Exec String :=
  match s.constant? index with
  | some c => pure c
  | none => throw (.badConstant s.name index)

/-! Variables and lists -/

def ownerOf (h : Handle) : Exec Nat :=
  if h.isStage then pure Machine.stageId else ownId

def getVariable (h : Handle) : Exec (Nat × Value) := do
  let owner ← ownerOf h
  let t ← target owner
  match t.data.vars.get? h.index with
  | some v => return (owner,v.value)
  | none => throw (.badHandle t.name "variable" h.word)

def getList (h : Handle) : Exec (Nat × Items) := do
  let owner ← ownerOf h
  let t ← target owner
  match t.data.lists.get? h.index with
  | some l => return (owner,l.list)
  | none => throw (.badHandle t.name "list" h.word)

def popIf (b : Bool) : Exec Value :=
  if b then pop else pure default

def listAction (action : ListAction) (h : Handle) : Exec Unit := do
  let top ← popIf (1 ≤ action.operands)
  let second ← popIf (2 ≤ action.operands)
  let (owner,items) ← getList h
  let (items,result,random) := action.apply items top second (← machineIs Machine.random)
  modifyMachine fun m => { m with random }.setListAt owner h.index items
  match result with
  | some v => push v
  | none => pure ()

/-! Control -/

/-- Calls a procedure of the running target; one that is not known does nothing. Calls in a procedure that
does not yield go on at once. Other calls yield if they recur after something visible changed. -/
def call (procedure : String) (args : List Value) (ret : Continuation) : Exec Unit := do
  match (← own).scripts.procedure? procedure with
  | none => modifyActive fun a => { a with immediate := some ret }
  | some p =>
    let settings ← machineIs Machine.settings
    if settings.maxCallDepth ≤ (← get).active.depth then throw (.callDepthExceeded settings.maxCallDepth)
    modifyActive (·.enter {
      base := some p.script.id, ret := some ret, warp := p.warp
      args := bindArguments p.arguments.length args })
    let visual ← machineIs Machine.visual
    modifyActive fun a =>
      if p.warp || a.warp > 0 then { a with warp := a.warp + 1, immediate := some p.script.entry }
      else if visual && a.recurs settings.recursionWindow p.script.id then
        { a with requeue := some p.script.entry }
      else { a with immediate := some p.script.entry }

/-- Goes on unless the script of the running thread was started over. -/
def unlessRestarted (started : List Nat) (pc : Nat) : Exec Flow := do
  if started.contains (← get).active.base then return .leave else return .next pc

def stop (mode : Option StopMode) (pc : Nat) : Exec Flow :=
  match mode with
  | some .all => do
    modifyMachine Machine.stopAll
    modifyActive fun a => { a with stopped := true }
    return .leave
  | some .thisScript => do
    onActive fun a => a.endCall.map ((),·)
    return .leave
  | some .otherScripts => do
    let a := (← get).active
    modifyMachine (·.dropThreads fun i t => some i != a.slot && t.target == a.target)
    return .next pc
  | none => return .next pc

/-- Whether a script that the last message started is in the queue. -/
def isWaiting : Exec Bool := do
  let waited := (← get).active.locals.threads
  machineIs fun m => m.queue.any fun t => t.any fun t => waited.contains t.base

def callBuiltin (id : UInt32) : Exec Unit :=
  match Palette.builtin? id with
  | some b => builtin b
  | none => throw (.unknownBuiltin id)

/-- Performs an instruction after which control goes on with the next one. Other instructions do nothing
here. -/
def perform (s : Script) : Instr → Exec Unit
  | .pushConstant index => do pushText (← constant s index)
  | .pushNumber x => pushNumber x
  | .pushBool b => pushBool b
  | .pop => do
    let _ ← pop
  | .unary f => do push (f.apply (← pop))
  | .binary f => do
    let (x,y) ← popPair
    push (f.apply x y)
  | .random => do
    let (x,y) ← popPair
    pushNumber (← onMachine fun m =>
      let (z,random) := Random.between x y m.random
      (z,{ m with random }))
  | .pushVar h => do push (← getVariable h).2
  | .setVar h => do
    let v ← pop
    let (owner,_) ← getVariable h
    modifyMachine (·.setVariableAt owner h.index v)
  | .changeVar h => do
    let delta ← popNumber
    let (owner,v) ← getVariable h
    modifyMachine (·.setVariableAt owner h.index (.number (v.toNumber + delta)))
  | .watchVar h visible => do
    let (owner,_) ← getVariable h
    modifyMachine (·.setWatcher owner (.variableAt h.index) visible)
  | .list action h => listAction action h
  | .watchList h visible => do
    let (owner,_) ← getList h
    modifyMachine (·.setWatcher owner (.listAt h.index) visible)
  | .save => modifyActive Activation.save
  | .restore => onActive fun a => a.restore.map ((),·)
  | .pushLocal slot => do push (← getLocal slot)
  | .setLocal slot => do setLocal slot (← pop)
  | .decLocal slot => do setNumber slot ((← numberIn slot) - 1.0)
  | .pushArg form index => do push (form.read ((← get).active.frame.args[index.toNat]?))
  | .running => do pushBool (← isWaiting)
  | .waitElapsed slot => do
    let elapsed := (← machineIs Machine.frameTime) - (← numberIn slot)
    pushBool (elapsed >= (← numberIn (slot + 1)) * 1000.0)
  | .pushNow => do pushNumber (← machineIs Machine.frameTime)
  | .visual tier => do
    let id ← ownId
    modifyMachine (·.visualCheck id ((VisualTier.ofWord? tier).getD .always))
  | .builtin id => callBuiltin id
  | _ => pure ()

/-- Performs an instruction of a script; `pc` is the offset after it. -/
def exec (s : Script) (pc : Nat) : Instr → Exec Flow
  | .jump offset => return .next offset.toNat
  | .jumpIf wanted offset => do
    if (← popBool) == wanted then return .next offset.toNat else return .next pc
  | .queue label => do
    let k ← resumePoint s label
    modifyActive fun a => if a.warp > 0 then { a with immediate := some k } else a.yieldTo k
    return .leave
  | .forceQueue label => do
    let k ← resumePoint s label
    modifyActive (·.yieldTo k)
    return .leave
  | .finish => return .leave
  | .endCall => stop (some .thisScript) pc
  | .call procedure argc ret => do
    let procedure ← constant s procedure
    let args ← onActive (·.popN argc.toNat)
    call procedure args (← resumePoint s ret)
    return .leave
  | .broadcast => do
    let name ← popText
    unlessRestarted (← onMachine (·.trigger (.ofMessage name))) pc
  | .broadcastAndWait => do
    let name ← popText
    let started ← onMachine (·.trigger (.ofMessage name))
    modifyActive fun a => { a with locals := { a.locals with threads := started } }
    unlessRestarted started pc
  | .sceneChanged => do
    let name ← machineIs fun m => m.stage.costumeName
    unlessRestarted (← onMachine (·.trigger (.ofBackdrop name))) pc
  | .stop mode => stop (StopMode.ofWord? mode) pc
  | .deleteClone => do
    let id ← ownId
    if (← own).isClone then
      modifyMachine (·.deleteClone id)
      return .leave
    else return .next pc
  | i => do
    perform s i
    return .next pc

end Turn

end SpriteMachine
