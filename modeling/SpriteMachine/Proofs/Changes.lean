import SpriteMachine.Machine.Exec
import SpriteMachine.Proofs.Shapes

/-!
What code that falls through can make of the machine. It edits its own target or the stage, or what belongs to no target, or
makes a clone; who may show, draw, ask and take tickets is said here, too.
-/

namespace SpriteMachine

/-- The builtin that an instruction performs. -/
def Instr.builtin? : Instr → Option Builtin
  | .builtin id => Palette.builtin? id
  | _ => none

/-- Whether an instruction shows or hides a monitor. -/
def Instr.watches : Instr → Bool
  | .watchVar .. | .watchList .. => true
  | _ => false

inductive Target.Change (i : Instr) (t : Target) : Target → Prop
  | refl : Change i t t
  | direction (degrees : Float) : Change i t (t.setDirection degrees)
  | towards (p : Point) (hi : i.builtin? = some (.motion .pointTowards)) :
      Change i t { t with direction := directionTo t.position p }
  | bounce (hi : i.builtin? = some (.motion .bounce)) : Change i t t.bounce
  | rotation (style : RotationStyle) : Change i t { t with rotation := style }
  | position (fenced : Bool) (p : Point) :
      Change i t (if fenced then { t with position := p }.keepInView else { t with position := p })
  | bubble (text : String) (thinking : Bool) : Change i t (t.say text thinking)
  | costume (v : Value) : Change i t (t.setCostume v)
  | nextCostume : Change i t t.nextCostume
  | scale (x : Float) : Change i t { t with scale := Double.atLeast 0.0 x }
  | effects (e : Effects) : Change i t { t with effects := e }
  | volume (percent : Float) : Change i t (t.setVolume percent)
  | pitch (x : Float) : Change i t (t.setPitch x)
  | instrument (n : Nat) : Change i t { t with instrument := n }
  | draggable (b : Bool) : Change i t { t with draggable := b }
  | visible (b : Bool) (hi : i.builtin? = some (.looks (if b then .show else .hide))) : Change i t { t with visible := b }
  | pen (p : Pen) (hp : p.down = t.pen.down) : Change i t { t with pen := p }
  | penDown (b : Bool) (hi : i.builtin? = some (.pen (if b then .down else .up))) :
      Change i t { t with pen := { t.pen with down := b } }
  | variableAt (index : Nat) (v : Value) : Change i t { t with data := { t.data with
      vars := t.data.vars.modify index fun x => { x with value := v } } }
  | listAt (index : Nat) (l : Items) : Change i t { t with data := { t.data with
      lists := t.data.lists.modify index fun x => { x with list := l } } }

theorem Target.Change.shape {i : Instr} {t t' : Target} (h : t.Change i t') : t'.shape = t.shape := by
  cases h with
  | direction _ => exact t.shape_setDirection _
  | bounce _ => exact t.shape_bounce
  | position fenced p => cases fenced <;> rfl
  | costume v => exact t.shape_setCostume v
  | nextCostume => exact t.shape_nextCostume
  | variableAt _ _ => simp [Target.shape,Table.names_modify]
  | listAt _ _ => simp [Target.shape,Table.modify,Table.size]
  | _ => rfl

/-- A time of which nothing changes but that its clock is read. -/
inductive ProjectTime.Reads (t : ProjectTime) : ProjectTime → Prop
  | refl : Reads t t
  | read {t' : ProjectTime} (h : Reads t t') : Reads t { t' with clock := t'.clock.read }

/-- What an instruction that falls through can make of a machine, on behalf of a target. -/
inductive Machine.Edits (i : Instr) (own : Nat) (m : Machine) : Machine → Prop
  | refl : Edits i own m m
  | target {m' : Machine} {id : Nat} {f : Target → Target} (h : Edits i own m m') (hid : id = own ∨ id = stageId)
      (hf : ∀ t : Target, t.Change i (f t)) : Edits i own m (m'.modifyTarget id f)
  | layer {m' : Machine} {children : List Nat} (h : Edits i own m m') (hlist : children.Perm m'.children) :
      Edits i own m { m' with children }
  | watcher {m' : Machine} (h : Edits i own m m') (hi : i.watches = true) (watchers : List Watcher) :
      Edits i own m { m' with watchers }
  | clone {m' : Machine} (h : Edits i own m m') (hi : i.builtin? = some (.control .createClone)) (parent : Nat) :
      Edits i own m (m'.createClone parent).2
  | panel {m' : Machine} {f : Panel → Panel} (h : Edits i own m m')
      (hf : ∀ p, f p = { p with tempo := (f p).tempo, counter := (f p).counter }) : Edits i own m (m'.modifyPanel f)
  | prompt {m' : Machine} (h : Edits i own m m') (hi : i.builtin? = some (.sensing .ask)) (question : Option String) :
      Edits i own m (m'.modifyPanel fun p => { p with question, promptVisible := true })
  | ticket {m' : Machine} (h : Edits i own m m') (hi : i.builtin? = some (.sensing .takeTicket)) :
      Edits i own m (m'.modifyPanel fun p => { p with nextTicket := p.nextTicket + 1 })
  | visual {m' : Machine} (h : Edits i own m m') (hi : i.builtin? = some (.sensing .ask) ∨ ∃ tier, i = .visual tier) :
      Edits i own m m'.setVisual
  | aside {m' m'' : Machine} (h : Edits i own m m') (hm : m'' = { m' with
      random := m''.random, time := m''.time, timerStart := m''.timerStart, log := m''.log })
      (htime : m'.time.Reads m''.time) : Edits i own m m''

namespace Machine

variable {i : Instr} {own : Nat} {m m' m'' : Machine}

namespace Edits

theorem trans (h : m.Edits i own m') (h' : m'.Edits i own m'') : m.Edits i own m'' := by
  induction h' with
  | refl => exact h
  | target _ hid hf ih => exact ih.target hid hf
  | layer _ hlist ih => exact ih.layer hlist
  | watcher _ hi watchers ih => exact ih.watcher hi watchers
  | clone _ hi parent ih => exact ih.clone hi parent
  | panel _ hf ih => exact ih.panel hf
  | prompt _ hi question ih => exact ih.prompt hi question
  | ticket _ hi ih => exact ih.ticket hi
  | visual _ hi ih => exact ih.visual hi
  | aside _ hm htime ih => exact ih.aside hm htime

theorem evolves (h : m.Edits i own m') : m.Evolves m' := by
  induction h with
  | refl => exact .refl
  | target _ _ hf ih => exact .alike ih (.modifyTarget _ _ fun t => (hf t).shape)
  | layer _ hlist ih => exact .alike ih ⟨rfl,rfl,fun _ => rfl,rfl,hlist⟩
  | clone _ _ parent ih => exact .clone ih parent
  | watcher _ _ _ ih | panel _ _ ih | prompt _ _ _ ih | ticket _ _ ih | visual _ _ ih => exact .alike ih (.of_eq rfl rfl rfl rfl)
  | aside _ hm _ ih =>
    rw [hm]
    exact .alike ih (.of_eq rfl rfl rfl rfl)

theorem call (m : Machine) (c : HostCall) : m.Edits i own (m.call c) := .aside .refl rfl .refl

theorem moveLayer (m : Machine) (position : Nat) : m.Edits i own (m.moveLayer own position) := by
  obtain ⟨children,hlist,heq⟩ := m.moveLayer_eq own position
  rw [heq]
  exact .layer .refl hlist

theorem setWatcher (m : Machine) (hi : i.watches = true) (id : Nat) (data : Watched) (visible : Bool) :
    m.Edits i own (m.setWatcher id data visible) := by
  obtain ⟨watchers,heq⟩ := m.setWatcher_eq id data visible
  rw [heq]
  exact .watcher .refl hi watchers

theorem moveTo (m : Machine) (p : Point) : m.Edits i own (m.moveTo own p) := by
  unfold Machine.moveTo
  split
  · exact .refl
  · split
    · exact .refl
    · have hmoved : m.Edits i own (m.modifyTarget own fun t =>
          if m.settings.spriteFencing then { t with position := p }.keepInView else { t with position := p }) :=
        .target .refl (.inl rfl) fun t => .position _ p
      dsimp only
      split
      · exact hmoved.trans (.call _ _)
      · exact hmoved

theorem place? (m : Machine) (name : String) : m.Edits i own (m.place? name).2 := by
  unfold Machine.place?
  split
  · exact .refl
  · split
    · rcases m.random.unit with ⟨u,r⟩
      dsimp only
      rcases r.unit with ⟨v,r⟩
      exact .aside .refl rfl .refl
    · exact .refl

theorem playSound? {id : Nat} {v : Value} {d : Float} (h : m.playSound? id v = some (d,m')) : m.Edits i own m' := by
  simp only [Machine.playSound?,Option.bind_eq_bind,Option.bind_eq_some_iff] at h
  obtain ⟨t,-,s,-,h⟩ := h
  split at h
  · cases h
    exact .call _ _
  · cases h

theorem touchingColour (m : Machine) (id : Nat) (colour : UInt32) : m.Edits i own (m.touchingColour id colour).2 := by
  unfold Machine.touchingColour
  split
  · exact .call _ _
  · exact .refl

theorem colourTouchingColour (m : Machine) (id : Nat) (mask colour : UInt32) :
    m.Edits i own (m.colourTouchingColour id mask colour).2 := by
  unfold Machine.colourTouchingColour
  split
  · exact .call _ _
  · exact .refl

end Edits

end Machine

namespace Turn

/-- The turn in which code ends, whether or not it faults. -/
def after {α : Type} : EStateM.Result Fault Turn α → Turn
  | .ok _ t | .error _ t => t

/-- The running thread stays what it is. -/
structure SameThread (t u : Turn) : Prop where
  target : u.active.target = t.active.target
  base : u.active.base = t.active.base
  slot : u.active.slot = t.active.slot

theorem SameThread.refl (t : Turn) : t.SameThread t := ⟨rfl,rfl,rfl⟩

theorem SameThread.trans {t u v : Turn} (h : t.SameThread u) (h' : u.SameThread v) : t.SameThread v :=
  ⟨h'.target.trans h.target,h'.base.trans h.base,h'.slot.trans h.slot⟩

theorem eq_of_target {t u : Turn} {id : Nat} {x : Target} (h : Turn.target id t = .ok x u) : u = t := by
  unfold Turn.target at h
  split at h
  · cases h
    rfl
  · cases h

end Turn

/-- The target that has the variable or list of a handle, for a script of a target. -/
def Handle.owner (h : Handle) (own : Nat) : Nat := if h.isStage then Machine.stageId else own

theorem Handle.owner_eq (h : Handle) (own : Nat) : h.owner own = own ∨ h.owner own = Machine.stageId := by
  unfold owner
  split
  · exact .inr rfl
  · exact .inl rfl

/-- What a handle leads to, and the target that has it. -/
def Machine.datum {α : Type} (m : Machine) (own : Nat) (h : Handle) (kind : String) (get : Target → Option α) :
    Except Fault (Nat × α) :=
  match m.targets.get? (h.owner own) with
  | none => .error (.missingTarget (h.owner own))
  | some t =>
    match get t with
    | none => .error (.badHandle t.name kind h.word)
    | some a => .ok (h.owner own,a)

/-- Code that looks a handle up. -/
def Finds {α : Type} (x : Exec (Nat × α)) (h : Handle) (kind : String) (get : Target → Option α) : Prop :=
  ∀ t : Turn, x t = match t.machine.datum t.active.target h kind get with
    | .ok a => .ok a t
    | .error f => .error f t

namespace Finds

theorem ownerOf (h : Handle) (t : Turn) : Turn.ownerOf h t = .ok (h.owner t.active.target) t := by
  unfold Turn.ownerOf Handle.owner
  split <;> rfl

theorem getVariable (h : Handle) :
    Finds (Turn.getVariable h) h "variable" fun x => (x.data.vars.get? h.index).map Variable.value := by
  intro t
  simp only [Turn.getVariable,bind,EStateM.bind,ownerOf,Turn.target,Machine.target,Machine.datum]
  cases t.machine.targets.get? (h.owner t.active.target) with
  | none => rfl
  | some x =>
    dsimp only
    cases x.data.vars.get? h.index <;> rfl

theorem getList (h : Handle) :
    Finds (Turn.getList h) h "list" fun x => (x.data.lists.get? h.index).map ListVariable.list := by
  intro t
  simp only [Turn.getList,bind,EStateM.bind,ownerOf,Turn.target,Machine.target,Machine.datum]
  cases t.machine.targets.get? (h.owner t.active.target) with
  | none => rfl
  | some x =>
    dsimp only
    cases x.data.lists.get? h.index <;> rfl

variable {α : Type} {x : Exec (Nat × α)} {h : Handle} {kind : String} {get : Target → Option α} {t u : Turn}

theorem eq_ok (hx : Finds x h kind get) {r : Nat × α} (hok : x t = .ok r u) :
    u = t ∧ r.1 = h.owner t.active.target ∧ (t.machine.targets.get? r.1).bind get = some r.2 := by
  rw [hx,Machine.datum] at hok
  cases htarget : t.machine.targets.get? (h.owner t.active.target) with
  | none =>
    rw [htarget] at hok
    cases hok
  | some y =>
    rw [htarget] at hok
    dsimp only at hok
    cases ha : get y with
    | none =>
      rw [ha] at hok
      cases hok
    | some a =>
      rw [ha] at hok
      cases hok
      exact ⟨rfl,rfl,by rw [htarget,Option.bind_some,ha]⟩

theorem ok (hx : Finds x h kind get) {y : Target} (hy : t.machine.targets.get? (h.owner t.active.target) = some y) {a : α}
    (ha : get y = some a) : x t = .ok (h.owner t.active.target,a) t := by
  simp only [hx t,Machine.datum,hy,ha]

end Finds

def Turn.Edited {α : Type} (i : Instr) (t : Turn) (x : Exec α) : Prop :=
  t.machine.Edits i t.active.target (Turn.after (x t)).machine ∧ t.SameThread (Turn.after (x t))

theorem Turn.Edited.bind {α β : Type} {i : Instr} {t : Turn} {x : Exec α} {f : α → Exec β} (hx : t.Edited i x)
    (hf : ∀ a u, x t = .ok a u → u.Edited i (f a)) : t.Edited i (x >>= f) := by
  obtain ⟨hfirst,hsame⟩ := hx
  change t.machine.Edits i _ (Turn.after (EStateM.bind x f t)).machine ∧ t.SameThread (Turn.after (EStateM.bind x f t))
  unfold EStateM.bind
  cases hu : x t with
  | ok a u =>
    rw [hu] at hfirst hsame
    obtain ⟨hsecond,hsame'⟩ := hf a u hu
    have htarget : u.active.target = t.active.target := hsame.target
    rw [htarget] at hsecond
    exact ⟨hfirst.trans hsecond,hsame.trans hsame'⟩
  | error e u =>
    rw [hu] at hfirst hsame
    exact ⟨hfirst,hsame⟩

def Editing {α : Type} (i : Instr) (x : Exec α) : Prop :=
  ∀ t : Turn, t.Edited i x

namespace Editing

variable {α β : Type} {i : Instr} {x : Exec α}

theorem bind {f : α → Exec β} (hx : Editing i x) (hf : ∀ a, Editing i (f a)) : Editing i (x >>= f) :=
  fun t => (hx t).bind fun a u _ => hf a u

theorem pure (a : α) : Editing i (Pure.pure a : Exec α) := fun t => ⟨.refl,.refl t⟩

theorem onActive {f : Activation → Except Fault (α × Activation)}
    (hf : ∀ {a b : Activation} {v : α}, f a = .ok (v,b) → b.target = a.target ∧ b.base = a.base ∧ b.slot = a.slot) :
    Editing i (Turn.onActive f) := by
  intro t
  unfold Turn.Edited Turn.onActive
  cases h : f t.active with
  | ok r =>
    obtain ⟨htarget,hbase,hslot⟩ := hf h
    exact ⟨.refl,htarget,hbase,hslot⟩
  | error e => exact ⟨.refl,.refl t⟩

theorem modifyActive {f : Activation → Activation}
    (hf : ∀ a, (f a).target = a.target ∧ (f a).base = a.base ∧ (f a).slot = a.slot) : Editing i (Turn.modifyActive f) := by
  intro t
  obtain ⟨htarget,hbase,hslot⟩ := hf t.active
  exact ⟨.refl,htarget,hbase,hslot⟩

theorem get : Editing i (MonadState.get : Exec Turn) := fun t => ⟨.refl,.refl t⟩

theorem throw (f : Fault) : Editing i (MonadExcept.throw f : Exec α) := fun t => ⟨.refl,.refl t⟩

theorem onMachine {f : Machine → α × Machine} (hf : ∀ own (m : Machine), m.Edits i own (f m).2) : Editing i (Turn.onMachine f) :=
  fun t => ⟨hf _ t.machine,rfl,rfl,rfl⟩

theorem modifyMachine {f : Machine → Machine} (hf : ∀ own (m : Machine), m.Edits i own (f m)) : Editing i (Turn.modifyMachine f) :=
  fun t => ⟨hf _ t.machine,rfl,rfl,rfl⟩

theorem machineIs (f : Machine → α) : Editing i (Turn.machineIs f) := fun t => ⟨.refl,.refl t⟩

theorem finds {x : Exec (Nat × α)} {h : Handle} {kind : String} {get : Target → Option α} (hx : Finds x h kind get) :
    Editing i x := by
  intro t
  unfold Turn.Edited
  rw [hx]
  split <;> exact ⟨.refl,.refl t⟩

theorem withFound {x : Exec (Nat × α)} {h : Handle} {kind : String} {get : Target → Option α} (hx : Finds x h kind get)
    {f : Nat × α → Exec β}
    (hf : ∀ r (t : Turn), (r.1 = t.active.target ∨ r.1 = Machine.stageId) → t.Edited i (f r)) : Editing i (x >>= f) := by
  refine fun t => (finds hx t).bind fun r u hok => ?_
  obtain ⟨rfl,howner,-⟩ := hx.eq_ok hok
  exact hf r u (howner ▸ h.owner_eq _)

theorem target (id : Nat) : Editing i (Turn.target id) := by
  intro t
  unfold Turn.Edited Turn.target
  split <;> exact ⟨.refl,.refl t⟩

theorem ownId : Editing i Turn.ownId := get.bind fun _ => pure _

theorem withOwn {f : Nat → Exec β} (hf : ∀ t : Turn, t.Edited i (f t.active.target)) : Editing i (Turn.ownId >>= f) :=
  fun t => hf t

theorem modifyOwnMachine {f : Nat → Machine → Machine} (hf : ∀ own (m : Machine), m.Edits i own (f own m)) :
    Editing i (Turn.ownId >>= fun id => Turn.modifyMachine (f id)) :=
  withOwn fun _ => ⟨hf _ _,rfl,rfl,rfl⟩

theorem pop : Editing i Turn.pop := by
  refine onActive fun {a b v} h => ?_
  unfold Activation.pop at h
  split at h
  · cases h
  · cases h
    exact ⟨rfl,rfl,rfl⟩

theorem popNumber : Editing i Turn.popNumber := pop.bind fun _ => pure _

theorem popBool : Editing i Turn.popBool := pop.bind fun _ => pure _

theorem popPair : Editing i Turn.popPair := by
  refine onActive fun {a b v} h => ?_
  unfold Activation.pop₂ at h
  split at h
  · cases h
    exact ⟨rfl,rfl,rfl⟩
  · cases h

theorem popTriple : Editing i Turn.popTriple := by
  refine onActive fun {a b v} h => ?_
  unfold Activation.pop₃ at h
  split at h
  · cases h
    exact ⟨rfl,rfl,rfl⟩
  · cases h

theorem popN (n : Nat) : Editing i (Turn.onActive (·.popN n)) := by
  refine onActive fun {a b v} h => ?_
  unfold Activation.popN at h
  split at h
  · cases h
    exact ⟨rfl,rfl,rfl⟩
  · cases h

theorem push (v : Value) : Editing i (Turn.push v) := modifyActive fun _ => ⟨rfl,rfl,rfl⟩

theorem popIf (b : Bool) : Editing i (Turn.popIf b) := by
  cases b with
  | true => exact pop
  | false => exact pure _

theorem getLocal (slot : UInt32) : Editing i (Turn.getLocal slot) := get.bind fun _ => pure _

theorem numberIn (slot : UInt32) : Editing i (Turn.numberIn slot) := (getLocal slot).bind fun _ => pure _

theorem setLocal (slot : UInt32) (v : Value) : Editing i (Turn.setLocal slot v) := modifyActive fun _ => ⟨rfl,rfl,rfl⟩

theorem own : Editing i Turn.own := ownId.bind fun id => target id

theorem modifyOwn {f : Target → Target} (hf : ∀ t : Target, t.Change i (f t)) : Editing i (Turn.modifyOwn f) := by
  refine withOwn fun t => (target _ t).bind fun x u hu => ?_
  obtain rfl := Turn.eq_of_target hu
  exact ⟨.target .refl (.inl rfl) hf,rfl,rfl,rfl⟩

end Editing

end SpriteMachine
