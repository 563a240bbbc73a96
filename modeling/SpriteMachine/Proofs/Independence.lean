import SpriteMachine.Proofs.Restarts

/-!
Threads that do not depend on each other. Code that works on the running thread and on the tables of its own target makes
the same of them in every machine that has this target and is at the same time. Two threads of different targets
that run such code one after the other can therefore be exchanged.
-/

namespace SpriteMachine

/-! Code that works on one target -/

/-- Two turns of the same thread, maybe in different slots, on the same target at the same time. -/
structure Turn.Twins (own : Nat) (t u : Turn) : Prop where
  target : t.active.target = own
  active : u.active = { t.active with slot := u.active.slot }
  own : u.machine.targets.get? own = t.machine.targets.get? own
  time : u.machine.frameTime = t.machine.frameTime

/-- A machine goes on in which only one target has changed, and maybe something visible. -/
structure Machine.Spares (own : Nat) (seen : Bool) (m m' : Machine) : Prop where
  size : m'.targets.slots.size = m.targets.slots.size
  others : ∀ id, id ≠ own → m'.targets.get? id = m.targets.get? id
  queue : m'.queue = m.queue
  time : m'.frameTime = m.frameTime
  visual : m'.visual = (m.visual || seen)

namespace Machine.Spares

variable {own : Nat} {seen seen' : Bool} {m m' m'' : Machine}

theorem refl (own : Nat) (m : Machine) : m.Spares own false m :=
  ⟨rfl,fun _ _ => rfl,rfl,rfl,(Bool.or_false _).symm⟩

theorem trans (h : m.Spares own seen m') (h' : m'.Spares own seen' m'') : m.Spares own (seen || seen') m'' where
  size := h'.size.trans h.size
  others id hid := (h'.others id hid).trans (h.others id hid)
  queue := h'.queue.trans h.queue
  time := h'.time.trans h.time
  visual := by rw [h'.visual,h.visual,Bool.or_assoc]

theorem modifyTarget (m : Machine) (own : Nat) (f : Target → Target) : m.Spares own false (m.modifyTarget own f) where
  size := Array.size_modify
  others id hid := by rw [Machine.modifyTarget,Arena.get?_modify,if_neg fun h => hid h.symm]
  queue := rfl
  time := rfl
  visual := (Bool.or_false _).symm

end Machine.Spares

def ParallelAt (own : Nat) {α : Type} (x : Exec α) (t u : Turn) : Prop :=
  ∀ r t', x t = .ok r t' → ∃ u', x u = .ok r u' ∧ Turn.Twins own t' u' ∧
    ∃ seen, t.machine.Spares own seen t'.machine ∧ u.machine.Spares own seen u'.machine

theorem ParallelAt.bind {own : Nat} {α β : Type} {x : Exec α} {f : α → Exec β} {t u : Turn} (hx : ParallelAt own x t u)
    (hf : ∀ r t' u', x t = .ok r t' → Turn.Twins own t' u' → ParallelAt own (f r) t' u') :
    ParallelAt own (x >>= f) t u := by
  intro r t' hexec
  change EStateM.bind x f t = .ok r t' at hexec
  unfold EStateM.bind at hexec
  split at hexec
  next r₁ t₁ hx₁ =>
    obtain ⟨u₁,hu₁,htwins₁,seen₁,ht₁,hspares₁⟩ := hx r₁ t₁ hx₁
    obtain ⟨u',hu',htwins',seen',ht',hspares'⟩ := hf r₁ t₁ u₁ hx₁ htwins₁ r t' hexec
    refine ⟨u',?_,htwins',seen₁ || seen',ht₁.trans ht',hspares₁.trans hspares'⟩
    change EStateM.bind x f u = _
    unfold EStateM.bind
    rw [hu₁]
    exact hu'
  next => cases hexec

def Parallel (own : Nat) {α : Type} (x : Exec α) : Prop :=
  ∀ t u, Turn.Twins own t u → ParallelAt own x t u

namespace Parallel

variable {own : Nat} {α β : Type}

theorem bind {x : Exec α} {f : α → Exec β} (hx : Parallel own x) (hf : ∀ r, Parallel own (f r)) :
    Parallel own (x >>= f) :=
  fun t u htwins => (hx t u htwins).bind fun r t' u' _ htwins' => hf r t' u' htwins'

theorem pure (r : α) : Parallel own (Pure.pure r : Exec α) := by
  intro t u htwins r' t' hexec
  cases hexec
  exact ⟨u,rfl,htwins,false,.refl own _,.refl own _⟩

theorem throw (f : Fault) : Parallel own (MonadExcept.throw f : Exec α) := by
  intro t u _ r t' hexec
  cases hexec

theorem onActive {f : Activation → Except Fault (α × Activation)}
    (hf : ∀ a slot r a', f a = .ok (r,a') → f { a with slot } = .ok (r,{ a' with slot }) ∧ a'.target = a.target) :
    Parallel own (Turn.onActive f) := by
  intro t u htwins r t' hexec
  unfold Turn.onActive at hexec
  split at hexec
  next r₁ a hfa =>
    cases hexec
    obtain ⟨hfb,htarget⟩ := hf t.active u.active.slot _ a hfa
    refine ⟨⟨u.machine,{ a with slot := u.active.slot }⟩,?_,⟨htarget.trans htwins.target,rfl,htwins.own,htwins.time⟩,
      false,.refl own _,.refl own _⟩
    unfold Turn.onActive
    rw [htwins.active,hfb]
  next => cases hexec

theorem modifyActive {f : Activation → Activation}
    (hf : ∀ a slot, f { a with slot } = { f a with slot } ∧ (f a).target = a.target) : Parallel own (Turn.modifyActive f) := by
  intro t u htwins r t' hexec
  cases hexec
  obtain ⟨hfb,htarget⟩ := hf t.active u.active.slot
  refine ⟨⟨u.machine,f u.active⟩,rfl,⟨htarget.trans htwins.target,?_,htwins.own,htwins.time⟩,
    false,.refl own _,.refl own _⟩
  have hactive := htwins.active
  rw [hactive,hfb]

theorem ofActive {f : Activation → α} (hf : ∀ (a : Activation) (slot : Option Nat), f { a with slot } = f a) :
    Parallel own (do return f (← get).active : Exec α) := by
  intro t u htwins r t' hexec
  cases hexec
  refine ⟨u,?_,htwins,false,.refl own _,.refl own _⟩
  change EStateM.Result.ok (f u.active) u = _
  rw [htwins.active,hf]

theorem frameTime : Parallel own (Turn.machineIs Machine.frameTime) := by
  intro t u htwins r t' hexec
  cases hexec
  refine ⟨u,?_,htwins,false,.refl own _,.refl own _⟩
  change EStateM.Result.ok u.machine.frameTime u = _
  rw [htwins.time]

theorem push (v : Value) : Parallel own (Turn.push v) :=
  modifyActive fun _ _ => ⟨rfl,rfl⟩

theorem pop : Parallel own Turn.pop := by
  refine onActive fun a slot r a' h => ?_
  unfold Activation.pop at h ⊢
  split at h
  · cases h
  next hstack =>
    cases h
    rw [hstack]
    exact ⟨rfl,rfl⟩

theorem popIf (b : Bool) : Parallel own (Turn.popIf b) := by
  unfold Turn.popIf
  split
  · exact pop
  · exact pure _

theorem popPair : Parallel own Turn.popPair := by
  refine onActive fun a slot r a' h => ?_
  unfold Activation.pop₂ at h ⊢
  split at h
  next hstack =>
    cases h
    rw [hstack]
    exact ⟨rfl,rfl⟩
  · cases h

theorem popNumber : Parallel own Turn.popNumber := pop.bind fun _ => pure _

theorem popBool : Parallel own Turn.popBool := pop.bind fun _ => pure _

theorem getLocal (slot : UInt32) : Parallel own (Turn.getLocal slot) :=
  ofActive (f := fun a => a.locals.get slot) fun _ _ => rfl

theorem numberIn (slot : UInt32) : Parallel own (Turn.numberIn slot) := (getLocal slot).bind fun _ => pure _

theorem setLocal (slot : UInt32) (v : Value) : Parallel own (Turn.setLocal slot v) :=
  modifyActive fun _ _ => ⟨rfl,rfl⟩

theorem constant (s : Script) (index : UInt32) : Parallel own (Turn.constant s index) := by
  unfold Turn.constant
  split
  · exact pure _
  · exact throw _

theorem resumePoint (s : Script) (label : UInt32) : Parallel own (Turn.resumePoint s label) := by
  unfold Turn.resumePoint
  split
  · exact pure _
  · exact throw _

theorem restore : Parallel own (Turn.onActive fun a => a.restore.map ((),·)) := by
  refine onActive fun a slot r a' h => ?_
  unfold Activation.restore at h ⊢
  split at h
  · cases h
  next hsaved =>
    cases h
    rw [hsaved]
    exact ⟨rfl,rfl⟩

theorem yieldTo (k : Continuation) : Parallel own (Turn.modifyActive (·.yieldTo k)) := by
  refine modifyActive fun a slot => ?_
  unfold Activation.yieldTo
  split <;> exact ⟨rfl,rfl⟩

/-! The running target -/

theorem ownId {f : Nat → Exec α} (hf : Parallel own (f own)) : Parallel own (Turn.ownId >>= f) := by
  intro t u htwins
  refine ParallelAt.bind (ofActive (f := Activation.target) (fun _ _ => rfl) t u htwins) fun r t' u' hr htwins' => ?_
  cases hr
  rw [htwins.target]
  exact hf _ _ htwins'

theorem target : Parallel own (Turn.target own) := by
  intro t u htwins r t' hexec
  unfold Turn.target Machine.target at hexec
  split at hexec
  next x hx =>
    cases hexec
    refine ⟨u,?_,htwins,false,.refl own _,.refl own _⟩
    unfold Turn.target Machine.target
    rw [htwins.own,hx]
  next => cases hexec

theorem modifyMachine {f : Machine → Machine} (seen : Option Target → Bool)
    (hown : ∀ m m' : Machine, m'.targets.get? own = m.targets.get? own →
      (f m').targets.get? own = (f m).targets.get? own)
    (hf : ∀ m : Machine, m.Spares own (seen (m.targets.get? own)) (f m)) : Parallel own (Turn.modifyMachine f) := by
  intro t u htwins r t' hexec
  cases hexec
  refine ⟨⟨f u.machine,u.active⟩,rfl,⟨htwins.target,htwins.active,hown _ _ htwins.own,?_⟩,
    seen (t.machine.targets.get? own),hf _,?_⟩
  · exact ((hf _).time.trans htwins.time).trans (hf _).time.symm
  · rw [← htwins.own]
    exact hf _

theorem modifyOwn (f : Target → Target) : Parallel own (Turn.modifyMachine (·.modifyTarget own f)) := by
  refine modifyMachine (fun _ => false) (fun m m' h => ?_) fun m => .modifyTarget m own f
  simp only [Machine.modifyTarget,Arena.get?_modify,if_true,h]

theorem setWatcher (data : Watched) (visible : Bool) :
    Parallel own (Turn.modifyMachine (·.setWatcher own data visible)) := by
  have hkeeps : ∀ m : Machine, (m.setWatcher own data visible).targets = m.targets ∧
      m.Spares own false (m.setWatcher own data visible) := by
    intro m
    unfold Machine.setWatcher
    dsimp only
    split <;> exact ⟨rfl,rfl,fun _ _ => rfl,rfl,rfl,(Bool.or_false _).symm⟩
  refine modifyMachine (fun _ => false) (fun m m' h => ?_) fun m => (hkeeps m).2
  rw [(hkeeps m).1,(hkeeps m').1,h]

theorem visualCheck (tier : VisualTier) : Parallel own (Turn.modifyMachine (·.visualCheck own tier)) := by
  have hkeeps : ∀ m : Machine, (m.visualCheck own tier).targets = m.targets ∧
      m.Spares own ((m.targets.get? own).any (Machine.isVisualChange · tier)) (m.visualCheck own tier) := by
    intro m
    unfold Machine.visualCheck
    split
    next hseen =>
      rw [hseen]
      exact ⟨rfl,rfl,fun _ _ => rfl,rfl,rfl,(Bool.or_true _).symm⟩
    next hseen =>
      rw [Bool.not_eq_true] at hseen
      rw [hseen]
      exact ⟨rfl,.refl own m⟩
  refine modifyMachine (fun x => x.any (Machine.isVisualChange · tier)) (fun m m' h => ?_) fun m => (hkeeps m).2
  rw [(hkeeps m).1,(hkeeps m').1,h]

/-! Own variables and lists -/

theorem finds {x : Exec (Nat × α)} {h : Handle} {kind : String} {get : Target → Option α} {f : Nat × α → Exec β}
    (hx : Finds x h kind get) (hown : h.isStage = false) (hf : ∀ a, Parallel own (f (own,a))) : Parallel own (x >>= f) := by
  intro t u htwins
  have howner : ∀ own, h.owner own = own := fun own => by simp [Handle.owner,hown]
  refine ParallelAt.bind (x := x) (fun r t' hexec => ?_) fun r t' u' hr htwins' => ?_
  · obtain ⟨rfl,hr,ha⟩ := hx.eq_ok hexec
    obtain ⟨y,hy,ha⟩ := Option.bind_eq_some_iff.1 ha
    rw [howner,htwins.target] at hr
    have htarget : u.active.target = own := by
      rw [htwins.active]
      exact htwins.target
    have hy' : u.machine.targets.get? (h.owner u.active.target) = some y := by
      rw [howner,htarget,htwins.own,← hr,hy]
    refine ⟨u,?_,htwins,false,.refl own _,.refl own _⟩
    rw [hx.ok hy' ha,howner,htarget,← hr]
  · obtain ⟨owner,a⟩ := r
    obtain ⟨-,hr,-⟩ := hx.eq_ok hr
    rw [howner,htwins.target] at hr
    cases hr
    exact hf a t' u' htwins'


end Parallel

/-! List actions -/

/-- A position that is picked at random. -/
def Value.isRandomPlace : Value → Bool
  | .text "random" | .text "any" => true
  | _ => false

/-- The operand that tells where an action works on a list. -/
def ListAction.position? (action : ListAction) (stack : List Value) : Option Value :=
  match action with
  | .delete | .item | .insert => stack[0]?
  | .replace => stack[1]?
  | _ => none

theorem Items.resolve_steady {v : Value} (h : v.isRandomPlace = false) (length : Nat) :
    ∃ place, ∀ r, Items.resolve v length r = (place,r) := by
  refine ⟨(resolve v length ⟨0⟩).1,fun r => ?_⟩
  unfold resolve
  split
  · rfl
  · cases h
  · cases h
  · rfl
  · rfl

variable {action : ListAction} {top second : Value}

theorem ListAction.apply_steady (h : (action.position? [top,second]).any Value.isRandomPlace = false) (l : Items) :
    ∃ items result, ∀ r, action.apply l top second r = (items,result,r) := by
  refine ⟨(action.apply l top second ⟨0⟩).1,(action.apply l top second ⟨0⟩).2.1,fun r => ?_⟩
  cases action with
  | contents | add | clear | itemNumber | length | contains => rfl
  | delete =>
    obtain ⟨place,hplace⟩ := Items.resolve_steady (v := top) h l.length
    simp only [apply,Items.delete,hplace]
    cases place <;> rfl
  | insert =>
    obtain ⟨place,hplace⟩ := Items.resolve_steady (v := top) h (l.length + 1)
    simp only [apply,Items.insert,hplace]
    cases place <;> rfl
  | replace =>
    obtain ⟨place,hplace⟩ := Items.resolve_steady (v := second) h l.length
    simp only [apply,Items.replace,hplace]
    cases place <;> rfl
  | item =>
    obtain ⟨place,hplace⟩ := Items.resolve_steady (v := top) h l.length
    simp only [apply,Items.item,hplace]
    cases place <;> rfl

theorem ListAction.position?_congr {stack : List Value} (htop : 1 ≤ action.operands → stack[0]? = some top)
    (hsecond : 2 ≤ action.operands → stack[1]? = some second) : action.position? [top,second] = action.position? stack := by
  cases action with
  | delete | item | insert => exact (htop (by decide)).symm
  | replace => exact (hsecond (by decide)).symm
  | _ => rfl

namespace Turn

variable {own : Nat} {t u : Turn}

theorem popIf_ok {b : Bool} {v : Value} (h : popIf b t = .ok v u) :
    (b = true → t.active.stack[0]? = some v) ∧ u.active.stack = t.active.stack.drop (if b then 1 else 0) := by
  cases b with
  | false =>
    cases h
    exact ⟨by rintro ⟨⟩,rfl⟩
  | true =>
    change Turn.pop t = .ok v u at h
    unfold Turn.pop onActive Activation.pop at h
    cases hstack : t.active.stack with
    | nil =>
      rw [hstack] at h
      cases h
    | cons w rest =>
      rw [hstack] at h
      cases h
      exact ⟨fun _ => rfl,rfl⟩

theorem parallel_listAction (htwins : Twins own t u) (action : ListAction) {h : Handle} (hown : h.isStage = false)
    (hsteady : (action.position? t.active.stack).any Value.isRandomPlace = false) :
    ParallelAt own (Turn.listAction action h) t u := by
  refine (Parallel.popIf _ t u htwins).bind fun top t₁ u₁ htop htwins₁ => ?_
  refine (Parallel.popIf _ t₁ u₁ htwins₁).bind fun second t₂ u₂ hsecond htwins₂ => ?_
  refine Parallel.finds (.getList h) hown (fun l => ?_) t₂ u₂ htwins₂
  have hplace : action.position? [top,second] = action.position? t.active.stack := by
    obtain ⟨htop,hrest⟩ := popIf_ok htop
    have hsecond := (popIf_ok hsecond).1
    refine ListAction.position?_congr (fun hle => htop (decide_eq_true hle)) fun hle => ?_
    have hone : 1 ≤ action.operands := by omega
    rw [← hsecond (decide_eq_true hle),hrest,if_pos (decide_eq_true hone),List.getElem?_drop]
  rw [← hplace] at hsteady
  obtain ⟨items,result,heq⟩ := ListAction.apply_steady hsteady l
  have hbody : Parallel own (Turn.modifyMachine (·.setListAt own h.index items) >>= fun _ =>
      result.elim (Pure.pure ()) Turn.push) := by
    refine (Parallel.modifyOwn _).bind fun _ => ?_
    cases result with
    | none => exact .pure _
    | some v => exact .push v
  refine Eq.mpr (congrArg (Parallel own) ?_) hbody
  simp only [bind,machineIs,get,getThe,MonadStateOf.get,pure,heq]
  cases result <;> rfl

/-! Instructions -/

/-- An instruction that works on the thread and on the tables of its target, and does not depend on anything else but
the time. -/
def isIndependent (t : Turn) : Instr → Bool
  | .pushConstant _ | .pushNumber _ | .pushBool _ | .pop | .unary _ | .binary _ | .save | .restore | .pushLocal _
  | .setLocal _ | .decLocal _ | .pushArg .. | .jump _ | .jumpIf .. | .queue _ | .forceQueue _ | .finish | .endCall
  | .waitElapsed _ | .pushNow | .visual _ => true
  | .pushVar h | .setVar h | .changeVar h | .watchVar h _ | .watchList h _ => !h.isStage
  | .list action h => !h.isStage && !(action.position? t.active.stack).any Value.isRandomPlace
  | _ => false

theorem parallel_perform (htwins : Twins own t u) (s : Script) {i : Instr} (hi : t.isIndependent i = true) :
    ParallelAt own (Turn.perform s i) t u := by
  have hall : ∀ {x : Exec Unit}, Parallel own x → ParallelAt own x t u := fun hx => hx t u htwins
  have hown : ∀ {h : Handle}, (!h.isStage) = true → h.isStage = false := fun hh => by simpa using hh
  cases i with
  | pushConstant index => exact hall ((Parallel.constant s index).bind fun _ => .push _)
  | pushNumber _ | pushBool _ => exact hall (.push _)
  | pop => exact hall (Parallel.pop.bind fun _ => .pure _)
  | unary f => exact hall (Parallel.pop.bind fun _ => .push _)
  | binary f => exact hall (Parallel.popPair.bind fun _ => .push _)
  | pushVar h => exact hall (.finds (.getVariable h) (hown hi) fun _ => .push _)
  | setVar h => exact hall (Parallel.pop.bind fun _ => .finds (.getVariable h) (hown hi) fun _ => .modifyOwn _)
  | changeVar h => exact hall (Parallel.popNumber.bind fun _ => .finds (.getVariable h) (hown hi) fun _ => .modifyOwn _)
  | watchVar h visible => exact hall (.finds (.getVariable h) (hown hi) fun _ => .setWatcher _ _)
  | list action h =>
    obtain ⟨hh,hsteady⟩ := Bool.and_eq_true_iff.1 hi
    exact parallel_listAction htwins action (hown hh) (by simpa using hsteady)
  | watchList h visible => exact hall (.finds (.getList h) (hown hi) fun _ => .setWatcher _ _)
  | save => exact hall (.modifyActive fun _ _ => ⟨rfl,rfl⟩)
  | restore => exact hall .restore
  | pushLocal slot => exact hall ((Parallel.getLocal slot).bind fun _ => .push _)
  | setLocal slot => exact hall (Parallel.pop.bind fun _ => .setLocal slot _)
  | decLocal slot => exact hall ((Parallel.numberIn slot).bind fun _ => .setLocal slot _)
  | pushArg form index =>
    exact hall ((Parallel.ofActive (f := fun a => form.read (a.frame.args[index.toNat]?)) fun _ _ => rfl).bind fun _ => .push _)
  | waitElapsed slot =>
    exact hall (Parallel.frameTime.bind fun _ => (Parallel.numberIn slot).bind fun _ =>
      (Parallel.numberIn _).bind fun _ => .push _)
  | pushNow => exact hall (Parallel.frameTime.bind fun _ => .push _)
  | visual tier => exact hall (.ownId (.visualCheck _))
  | jump _ | jumpIf _ _ | queue _ | forceQueue _ | finish | endCall => exact hall (.pure _)
  | _ => cases hi

theorem parallel_endCall : Parallel own (Turn.onActive fun a => a.endCall.map ((),·)) := by
  refine Parallel.onActive fun a slot r a' h => ?_
  cases hcalls : a.calls with
  | nil =>
    simp only [Activation.endCall,hcalls,List.isEmpty_nil,if_true] at h ⊢
    cases h
    exact ⟨by rw [hcalls]; rfl,rfl⟩
  | cons caller calls =>
    cases hsaved : caller.saved with
    | nil =>
      simp only [Activation.endCall,Activation.leave,Activation.restore,hcalls,hsaved] at h
      cases h
    | cons l rest =>
      simp only [Activation.endCall,Activation.leave,Activation.restore,hcalls,hsaved] at h ⊢
      cases h
      exact ⟨rfl,rfl⟩

theorem parallel_exec (htwins : Twins own t u) (s : Script) (next : Nat) {i : Instr} (hi : t.isIndependent i = true) :
    ParallelAt own (Turn.exec s next i) t u := by
  have hall : ∀ {x : Exec Flow}, Parallel own x → ParallelAt own x t u := fun hx => hx t u htwins
  have hplain : ParallelAt own (Turn.perform s i >>= fun _ => Pure.pure (Flow.next next)) t u :=
    (parallel_perform htwins s hi).bind fun _ t' u' _ htwins' => Parallel.pure _ t' u' htwins'
  cases i with
  | jump offset | finish => exact hall (.pure _)
  | jumpIf wanted offset =>
    refine hall (Parallel.popBool.bind fun b => ?_)
    split <;> exact .pure _
  | queue label =>
    refine hall ((Parallel.resumePoint s label).bind fun k => (Parallel.modifyActive fun a slot => ?_).bind fun _ => .pure _)
    split
    · exact ⟨rfl,rfl⟩
    · unfold Activation.yieldTo
      split <;> exact ⟨rfl,rfl⟩
  | forceQueue label =>
    exact hall ((Parallel.resumePoint s label).bind fun k => (Parallel.yieldTo k).bind fun _ => .pure _)
  | endCall => exact hall (parallel_endCall.bind fun _ => .pure _)
  | call _ _ _ | broadcast | broadcastAndWait | sceneChanged | stop _ | deleteClone => cases hi
  | _ => exact hplain

end Turn

/-! Resumptions -/

theorem Activation.ofThread_slot {i : Nat} {t : Thread} {a : Activation} (h : Activation.ofThread i t = .ok a) (j : Nat) :
    Activation.ofThread j t = .ok { a with slot := some j } ∧ a.target = t.target := by
  unfold Activation.ofThread at h ⊢
  split at h
  · cases h
  · split at h
    · cases h
    · cases h
      exact ⟨rfl,rfl⟩

namespace Machine

/-- Every instruction that the thread of a slot comes to when it is resumed is independent. -/
def KeepsToItself (m : Machine) (slot : Nat) : Prop :=
  ∀ n t s pc, m.Resumption slot (fun _ _ => True) n t s pc → ∀ i next, s.fetch pc = .ok (i,next) → t.isIndependent i = true

section Twins

variable {own fuel pc : Nat} {t u : Turn} {s : Script} (htwins : Turn.Twins own t u)

include htwins

theorem advance_twins_going (hi : ∀ i next, s.fetch pc = .ok (i,next) → t.isIndependent i = true)
    {t' : Turn} {r : Script} {q : Nat}
    (h : advance t s pc = .going t' r q) : ∃ u', advance u s pc = .going u' r q ∧ Turn.Twins own t' u' ∧
      ∃ seen, t.machine.Spares own seen t'.machine ∧ u.machine.Spares own seen u'.machine := by
  obtain ⟨i,next,hfetch⟩ := fetch_of_going h
  have hexec := Turn.parallel_exec htwins s next (hi i next hfetch)
  rcases advance_going hfetch h with ⟨ht,rfl⟩ | ⟨v,k,ht,hk,rfl,rfl,rfl⟩
  · obtain ⟨u',hu,htwins',hseen⟩ := hexec _ _ ht
    refine ⟨u',?_,htwins',hseen⟩
    unfold advance
    rw [hfetch]
    dsimp only
    rw [hu]
  · obtain ⟨u',hu,htwins',hseen⟩ := hexec _ _ ht
    have hactive := htwins'.active
    refine ⟨u'.withActive { u'.active with immediate := none, stack := [] },?_,⟨htwins'.target,?_,htwins'.own,htwins'.time⟩,
      hseen⟩
    · have hk' : u'.active.immediate = some k := by
        rw [hactive]
        exact hk
      unfold advance
      rw [hfetch]
      dsimp only
      rw [hu]
      dsimp only
      rw [hk']
      rfl
    · change { u'.active with immediate := none, stack := [] } =
      { v.active with slot := u'.active.slot, immediate := none, stack := [] }
      rw [hactive]

theorem advance_twins_done (hi : ∀ i next, s.fetch pc = .ok (i,next) → t.isIndependent i = true) {t' : Turn}
    (h : advance t s pc = .halted (.done t'.machine t'.active)) :
    ∃ u', advance u s pc = .halted (.done u'.machine u'.active) ∧ Turn.Twins own t' u' ∧
      ∃ seen, t.machine.Spares own seen t'.machine ∧ u.machine.Spares own seen u'.machine := by
  have hfetched : ∃ i next, s.fetch pc = .ok (i,next) := by
    cases hfetch : s.fetch pc with
    | error f =>
      unfold advance at h
      rw [hfetch] at h
      cases h
    | ok x => exact ⟨x.1,x.2,rfl⟩
  obtain ⟨i,next,hfetch⟩ := hfetched
  obtain ⟨ht,hk⟩ := advance_done hfetch h
  obtain ⟨u',hu,htwins',hseen⟩ := Turn.parallel_exec htwins s next (hi i next hfetch) _ _ ht
  refine ⟨u',?_,htwins',hseen⟩
  have hk' : u'.active.immediate = none := by
    rw [htwins'.active]
    exact hk
  unfold advance
  rw [hfetch]
  dsimp only
  rw [hu]
  dsimp only
  rw [hk']

omit htwins in
theorem run_twins {m : Machine} {slot n : Nat} (hkeeps : m.KeepsToItself slot) (htwins : Turn.Twins own t u)
    (h : m.Resumption slot (fun _ _ => True) n t s pc) (t' : Turn) (hrun : run fuel t s pc = .done t'.machine t'.active) :
    ∃ u', run fuel u s pc = .done u'.machine u'.active ∧ Turn.Twins own t' u' ∧
      ∃ seen, t.machine.Spares own seen t'.machine ∧ u.machine.Spares own seen u'.machine := by
  induction fuel generalizing n t u s pc with
  | zero => cases hrun
  | succ fuel ih =>
    have hi := hkeeps n t s pc h
    unfold run at hrun ⊢
    cases hadvance : advance t s pc with
    | going t₁ r q =>
      rw [hadvance] at hrun
      obtain ⟨u₁,hu₁,htwins₁,seen₁,ht₁,hspares₁⟩ := advance_twins_going htwins hi hadvance
      obtain ⟨i,next,hfetch⟩ := fetch_of_going hadvance
      obtain ⟨u',hu',htwins',seen',ht',hspares'⟩ := ih htwins₁ (h.advance hfetch trivial hadvance) hrun
      rw [hu₁]
      exact ⟨u',hu',htwins',seen₁ || seen',ht₁.trans ht',hspares₁.trans hspares'⟩
    | halted halt =>
      rw [hadvance] at hrun
      obtain rfl : halt = .done t'.machine t'.active := hrun
      obtain ⟨u',hu',htwins',hseen⟩ := advance_twins_done htwins hi hadvance
      rw [hu']
      exact ⟨u',rfl,htwins',hseen⟩

end Twins

def laidDown (o : Option Thread) (a : Activation) : Option Thread :=
  (a.requeue.map a.toThread).or o

theorem Spares.putBack {m m' : Machine} {own i : Nat} {o : Option Thread} {seen : Bool}
    (h : (m.setSlot i o).Spares own seen m') (a : Activation) :
    (m.setSlot i (laidDown o a)).Spares own seen (m'.putBack i a) := by
  unfold Machine.putBack laidDown
  cases a.requeue with
  | none => exact h
  | some k =>
    refine ⟨h.size,h.others,?_,h.time,h.visual⟩
    change m'.queue.setIfInBounds i _ = m.queue.setIfInBounds i _
    rw [h.queue]
    exact Array.setIfInBounds_setIfInBounds ..

variable {m n : Machine} {i j : Nat} {t : Thread}

/-- A thread that is resumed in slots of two machines makes the same of its target and of its slot. -/
theorem resume_twins {m' : Machine} {fuel : Nat} (hi : m.queue[i]? = some (some t)) (hj : n.queue[j]? = some (some t))
    (hlive : t.stopped = false) (hkeeps : m.KeepsToItself i) (hown : n.targets.get? t.target = m.targets.get? t.target)
    (htime : n.frameTime = m.frameTime) (hresume : m.resume fuel i = .done m') :
    ∃ n' seen o, n.resume fuel j = .done n' ∧
      n'.targets.get? t.target = m'.targets.get? t.target ∧
      (m.setSlot i o).Spares t.target seen m' ∧ (n.setSlot j o).Spares t.target seen n' := by
  have hcontains : n.targets.contains t.target = m.targets.contains t.target := by
    unfold Arena.contains
    rw [hown]
  unfold resume at hresume ⊢
  rw [hi] at hresume
  rw [hj]
  simp only [Option.join_some,hlive,Bool.false_eq_true,if_false] at hresume ⊢
  rw [hcontains]
  split at hresume
  next hlives =>
    rw [if_pos hlives]
    unfold resumeThread at hresume ⊢
    cases hload : Activation.ofThread i t with
    | error f =>
      rw [hload] at hresume
      cases hresume
    | ok a =>
      obtain ⟨hload',htarget⟩ := Activation.ofThread_slot hload j
      rw [hload] at hresume
      rw [hload']
      unfold activate at hresume ⊢
      dsimp only at hresume ⊢
      cases hk : a.immediate with
      | none =>
        rw [hk] at hresume
        cases hresume
        refine ⟨_,false,_,rfl,?_,(Spares.refl _ _).putBack a,(Spares.refl _ _).putBack _⟩
        rw [targets_putBack,targets_putBack]
        exact hown
      | some k =>
        rw [hk] at hresume
        dsimp only at hresume ⊢
        have hfirst : m.Resumption i (fun _ _ => True) 0 _ k.script k.pc := .load hi hlive hload hk
        have htwins : Turn.Twins t.target ⟨m.setSlot i (some t.shell),{ a with immediate := none, stack := [] }⟩
            ⟨n.setSlot j (some t.shell),{ a with slot := some j, immediate := none, stack := [] }⟩ :=
          ⟨htarget,rfl,hown,htime⟩
        split at hresume
        next m₁ a₁ hrun =>
          cases hresume
          obtain ⟨u,hu,htwins',seen,hm,hn⟩ := run_twins hkeeps htwins hfirst ⟨m₁,a₁⟩ hrun
          rw [hu]
          have hlaid : laidDown (some t.shell) u.active = laidDown (some t.shell) a₁ := by
            rw [htwins'.active]
            rfl
          refine ⟨u.machine.putBack j u.active,seen,laidDown (some t.shell) a₁,rfl,?_,hm.putBack a₁,?_⟩
          · rw [targets_putBack,targets_putBack]
            exact htwins'.own
          · rw [← hlaid]
            exact hn.putBack u.active
        · cases hresume
        · cases hresume
  next hgone =>
    cases hresume
    rw [if_neg hgone]
    exact ⟨_,false,some t.stop,rfl,hown,.refl _ _,.refl _ _⟩

theorem KeepsToItself.transfer (h : m.KeepsToItself i) (hi : m.queue[i]? = some (some t)) (hj : n.queue[j]? = some (some t))
    (hown : m.targets.get? t.target = n.targets.get? t.target) (htime : m.frameTime = n.frameTime) : n.KeepsToItself j := by
  have hstack : ∀ {own : Nat} {u v : Turn} {i : Instr}, Turn.Twins own u v → v.isIndependent i = true →
      u.isIndependent i = true := by
    intro own u v i htwins hv
    have hsame : v.active.stack = u.active.stack := by rw [htwins.active]
    cases i with
    | list action h => simpa only [Turn.isIndependent,hsame] using hv
    | _ => exact hv
  have htwin : ∀ {k : Nat} {u : Turn} {s : Script} {pc : Nat}, n.Resumption j (fun _ _ => True) k u s pc →
      ∃ v, m.Resumption i (fun _ _ => True) k v s pc ∧ Turn.Twins t.target u v := by
    intro k u s pc hn
    induction hn with
    | load ht hlive hload hk =>
      rw [hj] at ht
      cases ht
      obtain ⟨hload',htarget⟩ := Activation.ofThread_slot hload i
      exact ⟨_,.load hi hlive hload' hk,htarget,rfl,hown,htime⟩
    | advance _ hfetch _ hadvance ih =>
      obtain ⟨v,hv,htwins⟩ := ih
      have hindependent := fun i next hfetch => hstack htwins (h _ _ _ _ hv i next hfetch)
      obtain ⟨v',hv',htwins',-⟩ := advance_twins_going htwins hindependent hadvance
      exact ⟨v',hv.advance hfetch trivial hv',htwins'⟩
  intro k u s pc hn i' next hfetch
  obtain ⟨v,hv,htwins⟩ := htwin hn
  exact hstack htwins (h k v s pc hv i' next hfetch)

/-! Two threads -/

/-- The threads of a slot and the next one change places. -/
def exchange (m : Machine) (i : Nat) : Machine :=
  { m with queue := m.queue.swapIfInBounds i (i + 1) }

theorem slot_exchange {x y : Option Thread} (hx : m.queue[i]? = some x) (hy : m.queue[i + 1]? = some y) (k : Nat) :
    (m.exchange i).queue[k]? = if k = i then some y else if k = i + 1 then some x else m.queue[k]? := by
  obtain ⟨hi,rfl⟩ := Array.getElem?_eq_some_iff.1 hx
  obtain ⟨hj,rfl⟩ := Array.getElem?_eq_some_iff.1 hy
  simp only [exchange,Array.swapIfInBounds_def,hi,hj,dif_pos,Array.getElem?_swap]
  by_cases hki : k = i
  · rw [if_neg (by omega),if_pos hki.symm,if_pos hki]
  · by_cases hkj : k = i + 1
    · rw [if_pos hkj.symm,if_neg hki,if_pos hkj]
    · rw [if_neg fun h => hkj h.symm,if_neg fun h => hki h.symm,if_neg hki,if_neg hkj]

end Machine

theorem Arena.ext_get? {α : Type} {a b : Arena α} (hsize : a.slots.size = b.slots.size) (h : ∀ id, a.get? id = b.get? id) :
    a = b := by
  have hslots : a.slots = b.slots := by
    refine Array.ext hsize fun k hk hk' => ?_
    have hget := h k
    rwa [Arena.get?,Arena.get?,Array.getElem?_eq_getElem hk,Array.getElem?_eq_getElem hk',Option.join_some,
      Option.join_some] at hget
  cases a
  exact congrArg _ hslots

/-- Threads on different targets that keep to themselves can be resumed in either order. -/
theorem exchange_of_independent {m m₁ m₂ : Machine} {i fuel : Nat} {a b : Thread} (ha : m.queue[i]? = some (some a))
    (hb : m.queue[i + 1]? = some (some b)) (halive : a.stopped = false) (hblive : b.stopped = false)
    (hapart : a.target ≠ b.target) (hkeepsa : m.KeepsToItself i) (hkeepsb : m.KeepsToItself (i + 1))
    (hfirst : m.resume fuel i = .done m₁) (hsecond : m₁.resume fuel (i + 1) = .done m₂) :
    ∃ n₁ n₂, (m.exchange i).resume fuel i = .done n₁ ∧ n₁.resume fuel (i + 1) = .done n₂ ∧
      n₂.targets = m₂.targets ∧ n₂.visual = m₂.visual ∧ n₂.queue = (m₂.exchange i).queue := by
  have hswap := Machine.slot_exchange ha hb
  obtain ⟨_,_,_,-,-,hm₁,-⟩ := Machine.resume_twins ha ha halive hkeepsa rfl rfl hfirst
  -- The second thread is as it was when the first one has run, and the other way round.
  have hb₁ : m₁.queue[i + 1]? = some (some b) := by
    rw [hm₁.queue,Machine.setSlot,Array.getElem?_setIfInBounds,if_neg (by omega),hb]
  have hkeepsb₁ : m₁.KeepsToItself (i + 1) :=
    hkeepsb.transfer hb hb₁ (hm₁.others _ hapart.symm).symm hm₁.time.symm
  obtain ⟨n₁,seenb,ob,hn₁,htargetb,hm₂,hsparesb⟩ := Machine.resume_twins hb₁ (n := m.exchange i) (j := i)
    (by rw [hswap,if_pos rfl]) hblive hkeepsb₁ (hm₁.others _ hapart.symm).symm hm₁.time.symm hsecond
  have ha₁ : n₁.queue[i + 1]? = some (some a) := by
    rw [hsparesb.queue,Machine.setSlot,Array.getElem?_setIfInBounds,if_neg (by omega),hswap,if_neg (by omega),
      if_pos rfl]
  obtain ⟨n₂,seena,oa,hn₂,htargeta,hm₁,hsparesa⟩ := Machine.resume_twins ha ha₁ halive hkeepsa
    (hsparesb.others _ hapart) hsparesb.time hfirst
  refine ⟨n₁,n₂,hn₁,hn₂,Arena.ext_get? ?_ fun id => ?_,?_,?_⟩
  · exact (hsparesa.size.trans hsparesb.size).trans (hm₂.size.trans hm₁.size).symm
  · by_cases hida : id = a.target
    · subst hida
      rw [htargeta,hm₂.others _ hapart]
      rfl
    · rw [hsparesa.others _ hida]
      change n₁.targets.get? id = _
      by_cases hidb : id = b.target
      · rw [hidb,htargetb]
      · rw [hsparesb.others _ hidb,hm₂.others _ hidb]
        exact (hm₁.others _ hida).symm
  · rw [hsparesa.visual,hm₂.visual]
    change (n₁.visual || seena) = (m₁.visual || seenb)
    rw [hsparesb.visual,hm₁.visual]
    exact Bool.or_right_comm ..
  · have hi : i < m.queue.size := (Array.getElem?_eq_some_iff.1 ha).1
    have hj : i + 1 < m.queue.size := (Array.getElem?_eq_some_iff.1 hb).1
    have hqueue : m₂.queue = (m.queue.setIfInBounds i oa).setIfInBounds (i + 1) ob := by
      rw [hm₂.queue,Machine.setSlot,hm₁.queue]
      rfl
    have hslota : m₂.queue[i]? = some oa := by simp [hqueue,hi]
    have hslotb : m₂.queue[i + 1]? = some ob := by simp [hqueue,hj]
    refine Array.ext_getElem? fun k => ?_
    have hsize : (m.exchange i).queue.size = m.queue.size := Array.size_swapIfInBounds
    rw [Machine.slot_exchange hslota hslotb,hsparesa.queue,Machine.setSlot,hsparesb.queue,hqueue]
    simp only [Machine.setSlot,Array.getElem?_setIfInBounds,hswap,Array.size_setIfInBounds,hsize,hi,hj,if_true]
    by_cases hki : k = i
    · subst hki
      simp
    · by_cases hkj : k = i + 1
      · subst hkj
        simp
      · simp [hki,hkj,Ne.symm hki,Ne.symm hkj]

/-! Two sprites that count -/

namespace Machine

theorem Resumption.turnAfter {m : Machine} {slot n pc : Nat} {P : Turn → Instr → Prop} {t : Turn} {s : Script}
    (h : m.Resumption slot P n t s pc) : m.turnAfter? slot n = some (t,s,pc) := by
  induction h with
  | load ht hlive hload hk => simp [turnAfter?,ht,hlive,hload,hk]
  | advance _ _ _ hadvance ih => simp [turnAfter?,ih,hadvance]

/-- A thread keeps to itself if it does so until it leaves off. -/
theorem keepsToItself_of_turnAfter {m : Machine} {slot bound : Nat} (hnone : (m.turnAfter? slot bound).isNone)
    (hall : ∀ n < bound, ∀ x ∈ m.turnAfter? slot n, ∀ y ∈ (x.2.1.fetch x.2.2).toOption, x.1.isIndependent y.1 = true) :
    m.KeepsToItself slot := by
  have hover : ∀ k, m.turnAfter? slot (bound + k) = none := by
    intro k
    induction k with
    | zero => exact Option.isNone_iff_eq_none.1 hnone
    | succ k ih => rw [← Nat.add_assoc,turnAfter?,ih]
  intro n t s pc hn i next hfetch
  have hturn := hn.turnAfter
  by_cases hlt : n < bound
  · exact hall n hlt _ hturn _ (Except.mem_toOption.2 hfetch)
  · have hgone := hover (n - bound)
    rw [Nat.add_sub_cancel' (Nat.le_of_not_lt hlt),hturn] at hgone
    cases hgone

end Machine

def tallySprite (name : String) : Declaration where
  name := name
  isStage := false
  vars := [⟨name,"n",.number 0.0⟩]
  scripts := [{ hat := .flag, blocks := [.mk "control_repeat" none [
    .mk "TIMES" [.mk "math_whole_number" none [] [("NUM",⟨"2",none⟩)]] none,
    .mk "SUBSTACK" [.mk "data_changevariableby" none [.mk "VALUE" [.mk "math_number" none [] [("NUM",⟨"1",none⟩)]] none]
      [("VARIABLE",⟨"n",some name⟩)]] none] []] }]

def tallyProject : Project where
  stage := { name := "Stage", isStage := true }
  sprites := [tallySprite "back",tallySprite "front"]

def tallyFrame (p : Program) : Machine :=
  (Machine.ofProgram p {} {}).greenFlag.beginFrame

/-- The threads of the sprites are next to each other, keep to themselves and are resumed. -/
theorem tallyProject_tallies : ∃ p ∈ (compile tallyProject).toOption,
    (∀ slot < 2, ((tallyFrame p).turnAfter? slot 12).isNone ∧ ∀ n < 12, ∀ x ∈ (tallyFrame p).turnAfter? slot n,
      ∀ y ∈ (x.2.1.fetch x.2.2).toOption, x.1.isIndependent y.1 = true) ∧
    ∃ a ∈ (tallyFrame p).queue[0]?.join, ∃ b ∈ (tallyFrame p).queue[1]?.join,
      a.stopped = false ∧ b.stopped = false ∧ a.target ≠ b.target ∧
      ∃ x ∈ ((tallyFrame p).resume 12 0).ended?, x.2 = none ∧ ∃ y ∈ (x.1.resume 12 1).ended?, y.2 = none ∧
      y.1.threads.length = 2 ∧ ∀ t ∈ y.1.threads, t.stopped = false := by
  decide +kernel

/-- The threads yield in the first iteration of their loops, in either order. -/
theorem exchange_of_independent_tallyProject : ∃ (p : Program) (m₁ m₂ n₁ n₂ : Machine), compile tallyProject = .ok p ∧
    (Machine.ofProgram p {} {}).greenFlag.beginFrame.resume 12 0 = .done m₁ ∧ m₁.resume 12 1 = .done m₂ ∧
    ((Machine.ofProgram p {} {}).greenFlag.beginFrame.exchange 0).resume 12 0 = .done n₁ ∧ n₁.resume 12 1 = .done n₂ ∧
    n₂.targets = m₂.targets ∧ n₂.visual = m₂.visual ∧ n₂.queue = (m₂.exchange 0).queue ∧ m₂.threads.length = 2 ∧
    ∀ t ∈ m₂.threads, t.stopped = false := by
  obtain ⟨p,hp,hkeeps,a,ha,b,hb,halive,hblive,hapart,⟨m₁,_⟩,hm₁,rfl,⟨m₂,_⟩,hm₂,rfl,hthreads⟩ :=
    tallyProject_tallies
  have hfirst := Outcome.eq_done hm₁
  have hsecond := Outcome.eq_done hm₂
  have hself := fun slot hslot => Machine.keepsToItself_of_turnAfter (hkeeps slot hslot).1 (hkeeps slot hslot).2
  obtain ⟨n₁,n₂,hn₁,hn₂,htargets,hvisual,hqueue⟩ := exchange_of_independent (Option.join_eq_some_iff.1 ha)
    (Option.join_eq_some_iff.1 hb) halive hblive hapart (hself 0 (by decide)) (hself 1 (by decide)) hfirst hsecond
  exact ⟨p,m₁,m₂,n₁,n₂,Except.mem_toOption.1 hp,hfirst,hsecond,hn₁,hn₂,htargets,hvisual,hqueue,hthreads⟩

end SpriteMachine
