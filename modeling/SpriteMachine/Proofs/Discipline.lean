import SpriteMachine.Proofs.Changes

/-!
The discipline of code that falls through. Such code takes a number of operands off the stack and puts a
number of results back. It keeps what lies below them, the calls of its thread, and the shapes of all targets;
it does not see what lies below its operands, nor whether something visible changed.
-/

namespace SpriteMachine

namespace Machine

def withVisual (m : Machine) (b : Bool) : Machine :=
  { m with visual := b }

def Blurs (m m' : Machine) : Prop :=
  ∃ b, m' = m.withVisual b

/-- A change of a machine that does not look at whether something visible changed. -/
def Unseeing (f : Machine → Machine) : Prop :=
  ∀ m b, (f m).Blurs (f (m.withVisual b))

namespace Unseeing

theorem modifyTarget (id : Nat) (f : Target → Target) : Unseeing (·.modifyTarget id f) := fun _ b => ⟨b,rfl⟩

theorem modifyPanel (f : Panel → Panel) : Unseeing (·.modifyPanel f) := fun _ b => ⟨b,rfl⟩

theorem call (c : HostCall) : Unseeing (·.call c) := fun _ b => ⟨b,rfl⟩

theorem moveTo (id : Nat) (p : Point) : Unseeing (·.moveTo id p) := by
  intro m b
  have ht : (m.withVisual b).targets = m.targets := rfl
  simp only [Machine.moveTo,ht]
  cases m.targets.get? id with
  | none => exact ⟨b,rfl⟩
  | some t =>
    dsimp only
    split
    · exact ⟨b,rfl⟩
    · split <;> exact ⟨b,rfl⟩

theorem moveLayer (id : Nat) (position : Machine → Nat)
    (hp : ∀ m b, position (m.withVisual b) = position m) :
    Unseeing fun m => m.moveLayer id (position m) := by
  intro m b
  have hc : (m.withVisual b).children = m.children := rfl
  simp only [Machine.moveLayer,hp,hc]
  split <;> exact ⟨b,rfl⟩

theorem visualCheck (id : Nat) (tier : VisualTier) : Unseeing (·.visualCheck id tier) := by
  intro m b
  have ht : (m.withVisual b).targets = m.targets := rfl
  simp only [Machine.visualCheck,ht]
  split <;> exact ⟨_,rfl⟩

end Unseeing

theorem startThread_withVisual (m : Machine) (b : Bool) (id : Nat) (s : Script) (restart : Bool) :
    (m.withVisual b).startThread id s restart = (m.startThread id s restart).withVisual b := by
  have hslot : { m.withVisual b with starts := (m.withVisual b).starts + 1 }.slotOf? id s.id =
    { m with starts := m.starts + 1 }.slotOf? id s.id := rfl
  simp only [startThread,hslot]
  split
  · split <;> rfl
  · rfl

theorem triggerFor_withVisual (m : Machine) (b : Bool) (id : Nat) (e : Event) :
    (m.withVisual b).triggerFor id e = ((m.triggerFor id e).1,(m.triggerFor id e).2.withVisual b) := by
  have ht : (m.withVisual b).targets = m.targets := rfl
  simp only [triggerFor,ht]
  cases m.targets.get? id with
  | none => rfl
  | some t =>
    exact congrArg (Prod.mk _) (List.foldl_hom (withVisual · b) fun m s => startThread_withVisual m b id s _)

theorem Unseeing.createClone (parent : Nat) : Unseeing fun m => (m.createClone parent).2 := by
  intro m b
  have ht : (m.withVisual b).targets = m.targets := rfl
  simp only [Machine.createClone,ht]
  cases m.targets.get? parent with
  | none => exact ⟨b,rfl⟩
  | some t =>
    dsimp only
    split
    · exact ⟨b,rfl⟩
    · have h := triggerFor_withVisual { m with
        targets := m.targets.insert t.makeClone
        children := m.children.insertIdx (m.children.idxOf parent) m.targets.nextId } b m.targets.nextId
        .cloned
      simp only [withVisual] at h ⊢
      rw [h]
      split <;> exact ⟨_,rfl⟩

end Machine

/-- Faults of the code itself. -/
def Fault.isDecoding : Fault → Bool
  | .invalidOpcode .. | .truncated .. | .badLabel .. | .badConstant .. => true
  | _ => false

inductive DataKind where
  | variable | list
  deriving DecidableEq, Repr

def Shape.count (σ : Shape) : DataKind → Nat
  | .variable => σ.vars.length
  | .list => σ.lists

def DataTables.count (d : DataTables) : DataKind → Nat
  | .variable => d.vars.size
  | .list => d.lists.size

theorem Target.count_shape (t : Target) (kind : DataKind) : t.shape.count kind = t.data.count kind := by
  cases kind
  · exact t.data.vars.length_names
  · rfl

/-- Whether a handle in the code of a target leads to a variable or list. -/
def Machine.Resolves (m : Machine) (own : Nat) (kind : DataKind) (h : Handle) : Prop :=
  ∃ σ, m.shape? (h.owner own) = some σ ∧ h.index < σ.count kind

/-- What code may use: locals, and the variables and lists of some handles. -/
structure Access where
  locals : Bool := false
  handles : DataKind → Handle → Prop := fun _ _ => False

structure Turn.Kept (c : Access) (t u : Turn) : Prop where
  active : u.active = { t.active with stack := u.active.stack, locals := u.active.locals }
  locals : c.locals = false → u.active.locals = t.active.locals
  machine : t.machine.Evolves u.machine

structure Turn.Like (c : Access) (n : Nat) (t t' : Turn) : Prop where
  machine : t.machine.Blurs t'.machine
  target : t'.active.target = t.active.target
  args : t'.active.frame.args = t.active.frame.args
  locals : c.locals = true → t'.active.locals = t.active.locals
  stack : ∃ s r r', s.length = n ∧ t.active.stack = s ++ r ∧ t'.active.stack = s ++ r'

/-- The same value with related turns, or the same fault. -/
inductive Matching {α : Type} (R : Turn → Turn → Prop) :
    EStateM.Result Fault Turn α → EStateM.Result Fault Turn α → Prop
  | ok {a : α} {u u' : Turn} (h : R u u') : Matching R (.ok a u) (.ok a u')
  | error {f : Fault} {u u' : Turn} (h : u.machine.Blurs u'.machine) : Matching R (.error f u) (.error f u')

inductive Turn.Blames (c : Access) (n : Nat) (t : Turn) : Fault → Prop
  | underflow (h : t.active.stack.length < n) : Blames c n t .stackUnderflow
  | missing (h : t.machine.shape? t.active.target = none) : Blames c n t (.missingTarget t.active.target)
  | handle {f : Fault} {kind : DataKind} {h : Handle} (hc : c.handles kind h)
      (hbad : ¬t.machine.Resolves t.active.target kind h) (hf : f.isDecoding = false) : Blames c n t f

structure Tame {α : Type} (c : Access) (n k : Nat) (x : Exec α) : Prop where
  kept : ∀ {t a u}, x t = .ok a u → t.Kept c u
  stack : ∀ {t a u s r}, x t = .ok a u → t.active.stack = s ++ r → s.length = n →
    ∃ s', s'.length = k ∧ u.active.stack = s' ++ r
  blames : ∀ {t f u}, x t = .error f u → t.Blames c n f
  like : ∀ {t t'}, t.Like c n t' → Matching (Turn.Like c k) (x t) (x t')

theorem Machine.Evolves.resolves {m m' : Machine} (h : m.Evolves m') {own : Nat} {kind : DataKind}
    {handle : Handle} (hr : m.Resolves own kind handle) : m'.Resolves own kind handle := by
  obtain ⟨σ,hσ,hlt⟩ := hr
  exact ⟨σ,h.shape? hσ,hlt⟩

namespace Turn.Kept

variable {c : Access} {t u v : Turn}

theorem refl (c : Access) (t : Turn) : t.Kept c t := ⟨rfl,fun _ => rfl,.refl⟩

theorem target (h : t.Kept c u) : u.active.target = t.active.target := by rw [h.active]

theorem trans (h : t.Kept c u) (h' : u.Kept c v) : t.Kept c v :=
  ⟨by rw [h'.active,h.active],fun hl => (h'.locals hl).trans (h.locals hl),h.machine.trans h'.machine⟩

end Turn.Kept

namespace Tame

variable {c : Access} {n k j : Nat} {α β : Type} {x : Exec α}

theorem pure (a : α) : Tame c n n (pure a : Exec α) where
  kept h := by
    cases h
    exact .refl c _
  stack h hs hn := by
    cases h
    exact ⟨_,hn,hs⟩
  blames h := nomatch h
  like h := .ok h

theorem bind {f : α → Exec β} (hx : Tame c n k x) (hf : ∀ a, Tame c k j (f a)) : Tame c n j (x >>= f) where
  kept {t b v} h := by
    change EStateM.bind x f t = _ at h
    unfold EStateM.bind at h
    split at h
    next a u hu => exact (hx.kept hu).trans ((hf a).kept h)
    next => cases h
  stack {t b v s r} h hs hn := by
    change EStateM.bind x f t = _ at h
    unfold EStateM.bind at h
    split at h
    next a u hu =>
      obtain ⟨s',hk,hs'⟩ := hx.stack hu hs hn
      exact (hf a).stack h hs' hk
    next => cases h
  blames {t e v} h := by
    change EStateM.bind x f t = _ at h
    unfold EStateM.bind at h
    split at h
    next a u hu =>
      have hkept := hx.kept hu
      cases (hf a).blames h with
      | underflow hlt =>
        refine .underflow (Nat.lt_of_not_le fun hle => ?_)
        obtain ⟨s',hk,hs'⟩ := hx.stack (s := t.active.stack.take n) hu (List.take_append_drop n _).symm
          (by simp [hle])
        rw [hs'] at hlt
        simp at hlt
        omega
      | missing hnone =>
        rw [hkept.target] at hnone ⊢
        exact .missing (hkept.machine.shape?_eq_none hnone)
      | handle hc hbad hf =>
        rw [hkept.target] at hbad
        exact .handle hc (fun hr => hbad (hkept.machine.resolves hr)) hf
    next e' u hu =>
      cases h
      exact hx.blames hu
  like {t t'} h := by
    change Matching _ (EStateM.bind x f t) (EStateM.bind x f t')
    unfold EStateM.bind
    have hm := hx.like h
    revert hm
    generalize x t = p, x t' = q
    intro hm
    cases hm with
    | ok hu => exact (hf _).like hu
    | error hu => exact .error hu

/-! Operands -/

theorem operands (v : List Value → α)
    (htake : ∀ {t : Turn} {s r}, t.active.stack = s ++ r → s.length = j →
      x t = .ok (v s) { t with active := { t.active with stack := r } })
    (hfew : ∀ {t : Turn}, t.active.stack.length < j → x t = .error .stackUnderflow t) :
    Tame c (n + j) n x := by
  have hcases : ∀ t : Turn, t.active.stack.length < j ∨
      ∃ s r, t.active.stack = s ++ r ∧ s.length = j := by
    intro t
    by_cases h : t.active.stack.length < j
    · exact .inl h
    · exact .inr ⟨_,_,(List.take_append_drop j _).symm,by simp; omega⟩
  constructor
  case kept =>
    intro t a u h
    rcases hcases t with hlt | ⟨s,r,hs,hj⟩
    · rw [hfew hlt] at h
      cases h
    · rw [htake hs hj] at h
      cases h
      exact ⟨rfl,fun _ => rfl,.refl⟩
  case stack =>
    intro t a u s r h hs hn
    have hs' : t.active.stack = s.take j ++ (s.drop j ++ r) := by
      rw [← List.append_assoc,List.take_append_drop,hs]
    rw [htake hs' (by simp; omega)] at h
    cases h
    exact ⟨s.drop j,by simp; omega,rfl⟩
  case blames =>
    intro t f u h
    rcases hcases t with hlt | ⟨s,r,hs,hj⟩
    · rw [hfew hlt] at h
      cases h
      exact .underflow (by omega)
    · rw [htake hs hj] at h
      cases h
  case like =>
    intro t t' h
    obtain ⟨s,r,r',hn,hs,hs'⟩ := h.stack
    rw [← List.take_append_drop j s,List.append_assoc] at hs hs'
    rw [htake hs (by simp; omega),htake hs' (by simp; omega)]
    exact .ok ⟨h.machine,h.target,h.args,h.locals,s.drop j,r,r',by simp; omega,rfl,rfl⟩

theorem pop : Tame c (n + 1) n Turn.pop :=
  operands (fun s => s.headD default)
    (by
      intro t s r hs hj
      match s,hj with
      | [v],_ => simp only [Turn.pop,Turn.onActive,Activation.pop,hs]; rfl)
    (by
      intro t h
      have hs : t.active.stack = [] := by simpa using h
      simp only [Turn.pop,Turn.onActive,Activation.pop,hs])

theorem popNumber : Tame c (n + 1) n Turn.popNumber :=
  pop.bind fun _ => .pure _

theorem popText : Tame c (n + 1) n Turn.popText :=
  pop.bind fun _ => .pure _

theorem popPair : Tame c (n + 2) n Turn.popPair :=
  operands (fun s => (s[1]?.getD default,s[0]?.getD default))
    (by
      intro t s r hs hj
      match s,hj with
      | [y,x],_ => simp only [Turn.popPair,Turn.onActive,Activation.pop₂,hs]; rfl)
    (by
      intro t h
      match hs : t.active.stack with
      | [] | [v] => simp only [Turn.popPair,Turn.onActive,Activation.pop₂,hs]; rfl
      | _ :: _ :: s =>
        rw [hs,List.length_cons,List.length_cons] at h
        omega)

theorem popTriple : Tame c (n + 3) n Turn.popTriple :=
  operands (fun s => (s[2]?.getD default,s[1]?.getD default,s[0]?.getD default))
    (by
      intro t s r hs hj
      match s,hj with
      | [z,y,x],_ => simp only [Turn.popTriple,Turn.onActive,Activation.pop₃,hs]; rfl)
    (by
      intro t h
      match hs : t.active.stack with
      | [] | [v] | [v,w] => simp only [Turn.popTriple,Turn.onActive,Activation.pop₃,hs]; rfl
      | _ :: _ :: _ :: s =>
        rw [hs,List.length_cons,List.length_cons,List.length_cons] at h
        omega)

theorem push (v : Value) : Tame c n (n + 1) (Turn.push v) where
  kept h := by
    cases h
    exact ⟨rfl,fun _ => rfl,.refl⟩
  stack {t a u s r} h hs hn := by
    cases h
    exact ⟨v :: s,by simp [hn],by simp [Activation.push,hs]⟩
  blames h := nomatch h
  like {t t'} h := by
    obtain ⟨s,r,r',hn,hs,hs'⟩ := h.stack
    exact .ok ⟨h.machine,h.target,h.args,h.locals,v :: s,r,r',by simp [hn],
      by simp [Activation.push,hs],by simp [Activation.push,hs']⟩

/-! The machine -/

theorem onMachine {f : Machine → α × Machine} (he : ∀ m : Machine, m.Evolves (f m).2)
    (hb : ∀ m b, (f (m.withVisual b)).1 = (f m).1 ∧ (f m).2.Blurs (f (m.withVisual b)).2) :
    Tame c n n (Turn.onMachine f) where
  kept {t a u} h := by
    cases h
    exact ⟨rfl,fun _ => rfl,he _⟩
  stack {t a u s r} h hs hn := by
    cases h
    exact ⟨s,hn,hs⟩
  blames h := nomatch h
  like {t t'} h := by
    obtain ⟨b,hm⟩ := h.machine
    obtain ⟨hv,hblur⟩ := hb t.machine b
    change Matching _ (.ok (f t.machine).1 { t with machine := (f t.machine).2 })
      (.ok (f t'.machine).1 { t' with machine := (f t'.machine).2 })
    rw [hm,hv]
    exact .ok ⟨hblur,h.target,h.args,h.locals,h.stack⟩

theorem machineIs {f : Machine → α} (hf : ∀ m b, f (m.withVisual b) = f m) : Tame c n n (Turn.machineIs f) :=
  onMachine (f := fun m => (f m,m)) (fun _ => .refl) fun m b => ⟨hf m b,b,rfl⟩

theorem modifyMachine {f : Machine → Machine} (he : ∀ m : Machine, m.Evolves (f m)) (hf : Machine.Unseeing f) :
    Tame c n n (Turn.modifyMachine f) :=
  onMachine (f := fun m => ((),f m)) he fun m b => ⟨rfl,hf m b⟩

theorem reads {f : Turn → α} (hf : ∀ {t t'}, t.Like c n t' → f t' = f t) :
    Tame c n n (do return f (← get) : Exec α) where
  kept h := by
    cases h
    exact .refl c _
  stack h hs hn := by
    cases h
    exact ⟨_,hn,hs⟩
  blames h := nomatch h
  like {t t'} h := by
    change Matching _ (.ok (f t) t) (.ok (f t') t')
    rw [hf h]
    exact .ok h

theorem ownId : Tame c n n Turn.ownId :=
  reads fun h => h.target

theorem lookup {g : Machine → Nat → Except Fault α}
    (hx : ∀ t : Turn, x t = match g t.machine t.active.target with
      | .ok a => .ok a t
      | .error f => .error f t)
    (hb : ∀ m b id, g (m.withVisual b) id = g m id)
    (he : ∀ {t : Turn} {f}, g t.machine t.active.target = .error f → t.Blames c n f) : Tame c n n x := by
  constructor
  case kept =>
    intro t a u h
    rw [hx] at h
    split at h <;> cases h
    exact .refl c _
  case stack =>
    intro t a u s r h hs hn
    rw [hx] at h
    split at h <;> cases h
    exact ⟨_,hn,hs⟩
  case blames =>
    intro t f u h
    rw [hx] at h
    split at h <;> cases h
    next hf => exact he hf
  case like =>
    intro t t' h
    obtain ⟨b,hm⟩ := h.machine
    rw [hx,hx,hm,hb,h.target]
    split
    · exact .ok h
    · exact .error h.machine

theorem own : Tame c n n Turn.own := by
  refine lookup (g := Machine.target) (fun t => ?_) (fun m b id => rfl) fun {t f} h => ?_
  · change Turn.target t.active.target t = _
    unfold Turn.target
    cases t.machine.target t.active.target <;> rfl
  · unfold Machine.target at h
    split at h <;> cases h
    next hnone => exact .missing (by simp [Machine.shape?,hnone])

theorem modifyTarget {id : Nat} {f : Target → Target} (hf : ∀ t, (f t).shape = t.shape) :
    Tame c n n (Turn.modifyMachine (·.modifyTarget id f)) :=
  modifyMachine (fun m => .alike .refl (.modifyTarget m id hf)) (.modifyTarget id f)

theorem modifyOwn {f : Target → Target} (hf : ∀ t, (f t).shape = t.shape) :
    Tame c n n (Turn.modifyOwn f) := by
  have hsplit : Turn.modifyOwn f = Turn.own >>= fun _ =>
      Turn.ownId >>= fun id => Turn.modifyMachine (·.modifyTarget id f) := by
    funext t
    change EStateM.bind (Turn.target t.active.target) _ t = EStateM.bind Turn.own _ t
    have ho : Turn.own t = Turn.target t.active.target t := rfl
    unfold EStateM.bind
    rw [ho]
    unfold Turn.target
    cases t.machine.target t.active.target <;> rfl
  rw [hsplit]
  exact own.bind fun _ => ownId.bind fun id => modifyTarget hf

theorem moveOwn (p : Point) : Tame c n n (Turn.moveOwn p) :=
  ownId.bind fun id => modifyMachine (fun m => .nudged .refl (.moveTo m id p)) (.moveTo id p)

/-! Locals -/

theorem getLocal (slot : UInt32) (hc : c.locals = true) : Tame c n n (Turn.getLocal slot) :=
  reads (f := fun t => t.active.locals.get slot) fun h => by rw [h.locals hc]

theorem numberIn (slot : UInt32) (hc : c.locals = true) : Tame c n n (Turn.numberIn slot) :=
  (getLocal slot hc).bind fun _ => .pure _

theorem setLocal (slot : UInt32) (v : Value) (hc : c.locals = true) :
    Tame c n n (Turn.setLocal slot v) where
  kept h := by
    cases h
    exact ⟨rfl,fun hl => by simp [hc] at hl,.refl⟩
  stack h hs hn := by
    cases h
    exact ⟨_,hn,hs⟩
  blames h := nomatch h
  like {t t'} h := .ok ⟨h.machine,h.target,h.args,fun _ => by simp [h.locals hc],h.stack⟩

end Tame

/-- Code that keeps the discipline, and that makes of the machine only what its instruction may. -/
structure Mild {α : Type} (i : Instr) (c : Access) (n k : Nat) (x : Exec α) : Prop extends Tame c n k x where
  edits : Editing i x

namespace Mild

variable {i : Instr} {c : Access} {n k j : Nat} {α β : Type} {x : Exec α}

theorem bind {f : α → Exec β} (hx : Mild i c n k x) (hf : ∀ a, Mild i c k j (f a)) : Mild i c n j (x >>= f) :=
  ⟨hx.toTame.bind fun a => (hf a).toTame,hx.edits.bind fun a => (hf a).edits⟩

theorem pure (a : α) : Mild i c n n (Pure.pure a : Exec α) := ⟨.pure a,.pure a⟩

theorem map (f : α → β) (hx : Mild i c n k x) : Mild i c n k (f <$> x) := hx.bind fun a => .pure (f a)

theorem pop : Mild i c (n + 1) n Turn.pop := ⟨.pop,.pop⟩

theorem popNumber : Mild i c (n + 1) n Turn.popNumber := pop.bind fun _ => .pure _

theorem popText : Mild i c (n + 1) n Turn.popText := pop.bind fun _ => .pure _

theorem popBool : Mild i c (n + 1) n Turn.popBool := pop.bind fun _ => .pure _

theorem popPair : Mild i c (n + 2) n Turn.popPair := ⟨.popPair,.popPair⟩

theorem popTriple : Mild i c (n + 3) n Turn.popTriple := ⟨.popTriple,.popTriple⟩

theorem push (v : Value) : Mild i c n (n + 1) (Turn.push v) := ⟨.push v,.push v⟩

theorem ownId : Mild i c n n Turn.ownId := ⟨.ownId,.ownId⟩

theorem own : Mild i c n n Turn.own := ⟨.own,.own⟩

theorem getLocal (slot : UInt32) (hc : c.locals = true) : Mild i c n n (Turn.getLocal slot) :=
  ⟨.getLocal slot hc,.getLocal slot⟩

theorem numberIn (slot : UInt32) (hc : c.locals = true) : Mild i c n n (Turn.numberIn slot) :=
  (getLocal slot hc).bind fun _ => .pure _

theorem setLocal (slot : UInt32) (v : Value) (hc : c.locals = true) : Mild i c n n (Turn.setLocal slot v) :=
  ⟨.setLocal slot v hc,.setLocal slot v⟩

theorem onMachine {f : Machine → α × Machine} (hf : ∀ own (m : Machine), m.Edits i own (f m).2)
    (hb : ∀ m b, (f (m.withVisual b)).1 = (f m).1 ∧ (f m).2.Blurs (f (m.withVisual b)).2) : Mild i c n n (Turn.onMachine f) :=
  ⟨.onMachine (fun m => (hf 0 m).evolves) hb,.onMachine hf⟩

theorem machineIs (f : Machine → α) (hf : ∀ m b, f (m.withVisual b) = f m) :
    Mild i c n n (Turn.machineIs f) :=
  ⟨.machineIs hf,.machineIs f⟩

theorem modifyMachine {f : Machine → Machine} (hf : ∀ own (m : Machine), m.Edits i own (f m)) (hu : Machine.Unseeing f) :
    Mild i c n n (Turn.modifyMachine f) :=
  ⟨.modifyMachine (fun m => (hf 0 m).evolves) hu,.modifyMachine hf⟩

theorem modifyOwnMachine {f : Nat → Machine → Machine} (hf : ∀ own (m : Machine), m.Edits i own (f own m))
    (hu : ∀ id, Machine.Unseeing (f id)) : Mild i c n n (Turn.ownId >>= fun id => Turn.modifyMachine (f id)) :=
  ⟨Tame.ownId.bind fun id => .modifyMachine (fun m => (hf id m).evolves) (hu id),.modifyOwnMachine hf⟩

theorem modifyOwn {f : Target → Target} (hf : ∀ t : Target, t.Change i (f t)) : Mild i c n n (Turn.modifyOwn f) :=
  ⟨.modifyOwn fun t => (hf t).shape,.modifyOwn hf⟩

theorem modifyStage {f : Target → Target} (hf : ∀ t : Target, t.Change i (f t)) :
    Mild i c n n (Turn.modifyMachine (·.modifyTarget Machine.stageId f)) :=
  modifyMachine (fun _ _ => .target .refl (.inr rfl) hf) (.modifyTarget _ f)

theorem moveOwn (p : Point) : Mild i c n n (Turn.moveOwn p) :=
  modifyOwnMachine (fun _ m => .moveTo m p) fun id => .moveTo id p

theorem hostCall (host : HostCall) : Mild i c n n (Turn.modifyMachine (·.call host)) :=
  modifyMachine (fun _ m => .call m host) (.call host)

theorem modifyPanel {f : Panel → Panel} (hf : ∀ own (m : Machine), m.Edits i own (m.modifyPanel f)) :
    Mild i c n n (Turn.modifyMachine (·.modifyPanel f)) :=
  modifyMachine hf (.modifyPanel f)

end Mild

end SpriteMachine
