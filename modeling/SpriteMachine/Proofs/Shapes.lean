import Mathlib
import SpriteMachine.Machine.Input

/-!
The shape of a target is what its scripts rely on: its name, its kind, its scripts, and how many variables and lists it
has. Machines are alike if their targets have the same shapes and their queues the same threads. Most of what
a script does leaves a machine alike; making clones is the exception.
-/

namespace SpriteMachine

namespace Arena

variable {α : Type}

theorem get?_modify (a : Arena α) (id j : Nat) (f : α → α) :
    (a.modify id f).get? j = if id = j then (a.get? j).map f else a.get? j := by
  unfold get? modify
  rw [Array.getElem?_modify]
  by_cases h : id = j
  · simp only [h,if_true]
    cases a.slots[j]? with
    | none => rfl
    | some v => rfl
  · simp only [h,if_false]

theorem get?_insert (a : Arena α) (v : α) (j : Nat) :
    (a.insert v).get? j = if j = a.nextId then some v else a.get? j := by
  unfold get? insert nextId
  rw [Array.getElem?_push]
  by_cases h : j = a.slots.size
  · simp [h]
  · simp [h]

theorem get?_remove (a : Arena α) (id j : Nat) :
    (a.remove id).get? j = if j = id then none else a.get? j := by
  unfold get? remove
  rw [Array.getElem?_setIfInBounds]
  by_cases h : id = j
  · subst h
    by_cases hlt : id < a.slots.size
    · simp [hlt]
    · simp [hlt]
  · simp [h,Ne.symm h]

theorem get?_eq_none_of_size_le (a : Arena α) {id : Nat} (h : a.slots.size ≤ id) : a.get? id = none := by
  simp [get?,Array.getElem?_eq_none h]

end Arena

/-- The names of variables, in the order of their table. -/
def Table.names (t : Table Variable) : List String :=
  t.entries.toList.map fun e => e.2.name

theorem Table.length_names (t : Table Variable) : t.names.length = t.size := by
  simp [names,size]

theorem Table.names_modify (t : Table Variable) (i : Nat) (v : Value) :
    (t.modify i fun x => { x with value := v }).names = t.names := by
  refine List.ext_getElem? fun j => ?_
  simp only [names,modify,List.getElem?_map,Array.getElem?_toList,Array.getElem?_modify]
  split
  · cases t.entries[j]? <;> rfl
  · rfl

structure Shape where
  name : String
  kind : TargetKind
  scripts : Scripts
  vars : List String
  lists : Nat

def Target.shape (t : Target) : Shape where
  name := t.name
  kind := t.kind
  scripts := t.scripts
  vars := t.data.vars.names
  lists := t.data.lists.size

/-- How a target faces, and what it wears. -/
structure Pose where
  direction : Float
  costume : Nat
  costumes : Array Costume

def Target.pose (t : Target) : Pose where
  direction := t.direction
  costume := t.costume
  costumes := t.costumes

namespace Target

@[simp] theorem shape_makeClone (t : Target) : t.makeClone.shape = { t.shape with kind := .clone } := by
  simp [shape,makeClone,Table.map,Table.size]

@[simp] theorem shape_setDirection (t : Target) (d : Float) : (t.setDirection d).shape = t.shape := by
  unfold setDirection
  split <;> rfl

@[simp] theorem shape_bounce (t : Target) : t.bounce.shape = t.shape := by
  unfold bounce
  simp only
  split <;> rfl

/-- Nothing is new about a target but its costume, and that is one it has. -/
def Redressed (t t' : Target) : Prop :=
  ∃ c, t' = { t with costume := c } ∧ (c = t.costume ∨ c < t.costumes.size)

theorem redressed_nextCostume (t : Target) : t.Redressed t.nextCostume := by
  unfold nextCostume
  split
  · exact ⟨_,rfl,.inl rfl⟩
  next h => exact ⟨_,rfl,.inr (Nat.mod_lt _ (Array.size_pos_iff.2 (mt Array.isEmpty_iff.2 h)))⟩

theorem redressed_previousCostume (t : Target) : t.Redressed t.previousCostume := by
  unfold previousCostume
  split
  · exact ⟨_,rfl,.inl rfl⟩
  next h => exact ⟨_,rfl,.inr (Nat.mod_lt _ (Array.size_pos_iff.2 (mt Array.isEmpty_iff.2 h)))⟩

theorem wrapIndex_lt (x : Float) {size : Nat} (h : 0 < size) : wrapIndex x size < size := by
  unfold wrapIndex
  split
  next n _ =>
    have hlow := Int.emod_nonneg n (show (size : Int) ≠ 0 by omega)
    have hhigh := Int.emod_lt_of_pos n (show (0 : Int) < size by omega)
    omega
  · exact h

theorem redressed_setCostume (t : Target) (v : Value) : t.Redressed (t.setCostume v) := by
  unfold setCostume
  split
  · exact ⟨_,rfl,.inl rfl⟩
  next h =>
    have hnumbered : ∀ n, t.Redressed (t.numberedCostume n) := fun n =>
      ⟨_,rfl,.inr (wrapIndex_lt _ (Array.size_pos_iff.2 (mt Array.isEmpty_iff.2 h)))⟩
    split
    · exact hnumbered _
    · unfold namedCostume
      generalize (if t.isStage then "next backdrop" else "next costume") = next
      generalize (if t.isStage then "previous backdrop" else "previous costume") = previous
      split
      next hfind => exact ⟨_,rfl,.inr (Array.findIdx?_eq_some_iff_getElem.1 hfind).1⟩
      · split
        · exact t.redressed_nextCostume
        · split
          · exact t.redressed_previousCostume
          · dsimp only
            split
            · exact hnumbered _
            · exact ⟨_,rfl,.inl rfl⟩

@[simp] theorem shape_nextCostume (t : Target) : t.nextCostume.shape = t.shape := by
  obtain ⟨_,heq,-⟩ := t.redressed_nextCostume
  rw [heq]
  rfl

@[simp] theorem shape_setCostume (t : Target) (v : Value) : (t.setCostume v).shape = t.shape := by
  obtain ⟨_,heq,-⟩ := t.redressed_setCostume v
  rw [heq]
  rfl

end Target

namespace Machine

/-- The shape of the target with an id, if it is alive. -/
def shape? (m : Machine) (id : Nat) : Option Shape :=
  (m.targets.get? id).map Target.shape

/-- The pose of the target with an id, if it is alive. -/
def pose? (m : Machine) (id : Nat) : Option Pose :=
  (m.targets.get? id).map Target.pose

structure Alike (m m' : Machine) : Prop where
  queue : m'.queue = m.queue
  settings : m'.settings = m.settings
  shapes : ∀ id, m'.shape? id = m.shape? id
  size : m'.targets.slots.size = m.targets.slots.size
  children : m'.children.Perm m.children

namespace Alike

variable {m m' m'' : Machine}

theorem refl (m : Machine) : m.Alike m := ⟨rfl,rfl,fun _ => rfl,rfl,.refl _⟩

theorem trans (h : m.Alike m') (h' : m'.Alike m'') : m.Alike m'' :=
  ⟨h'.queue.trans h.queue,h'.settings.trans h.settings,fun id => (h'.shapes id).trans (h.shapes id),
    h'.size.trans h.size,h'.children.trans h.children⟩

theorem modifyTarget (m : Machine) (id : Nat) {f : Target → Target} (hf : ∀ t, (f t).shape = t.shape) :
    m.Alike (m.modifyTarget id f) := by
  refine ⟨rfl,rfl,fun j => ?_,by simp [Machine.modifyTarget,Arena.modify],.refl _⟩
  unfold shape? Machine.modifyTarget
  rw [Arena.get?_modify]
  split
  · cases m.targets.get? j with
    | none => rfl
    | some t => simp [hf]
  · rfl

theorem of_eq (ht : m'.targets = m.targets) (hc : m'.children = m.children) (hq : m'.queue = m.queue)
    (hs : m'.settings = m.settings) : m.Alike m' :=
  ⟨hq,hs,fun _ => by simp only [shape?,ht],by rw [ht],by rw [hc]⟩

theorem call (m : Machine) (c : HostCall) : m.Alike (m.call c) := .of_eq rfl rfl rfl rfl

theorem random (m : Machine) (r : Random) : m.Alike { m with random := r } := .of_eq rfl rfl rfl rfl

theorem visualCheck (m : Machine) (id : Nat) (tier : VisualTier) : m.Alike (m.visualCheck id tier) := by
  unfold Machine.visualCheck
  split
  · exact .of_eq rfl rfl rfl rfl
  · exact .refl m

theorem setListAt (m : Machine) (id index : Nat) (l : Items) : m.Alike (m.setListAt id index l) :=
  .modifyTarget m id fun t => by simp [Target.shape,Table.modify,Table.size]

end Alike

theorem setWatcher_eq (m : Machine) (id : Nat) (data : Watched) (visible : Bool) :
    ∃ watchers, m.setWatcher id data visible = { m with watchers } := by
  unfold setWatcher
  dsimp only
  split <;> exact ⟨_,rfl⟩

theorem moveLayer_eq (m : Machine) (id position : Nat) :
    ∃ children, children.Perm m.children ∧ m.moveLayer id position = { m with children } := by
  unfold moveLayer
  split
  next h =>
    have hmem : id ∈ m.children := by simpa using h
    have hins : ((m.children.erase id).insertIdx (min position (m.children.erase id).length) id).Perm
        (id :: m.children.erase id) := List.perm_insertIdx _ _ (Nat.min_le_right _ _)
    exact ⟨_,hins.trans (List.perm_cons_erase hmem).symm,rfl⟩
  · exact ⟨_,.refl _,rfl⟩

/-- Machines are alike, and their targets have the same poses. -/
structure Nudged (m m' : Machine) : Prop extends Alike m m' where
  poses : ∀ id, m'.pose? id = m.pose? id

namespace Nudged

variable {m m' m'' : Machine}

theorem of_eq (ht : m'.targets = m.targets) (hc : m'.children = m.children) (hq : m'.queue = m.queue)
    (hs : m'.settings = m.settings) : m.Nudged m' :=
  ⟨.of_eq ht hc hq hs,fun _ => by simp only [pose?,ht]⟩

theorem refl (m : Machine) : m.Nudged m := .of_eq rfl rfl rfl rfl

theorem trans (h : m.Nudged m') (h' : m'.Nudged m'') : m.Nudged m'' :=
  ⟨h.toAlike.trans h'.toAlike,fun id => (h'.poses id).trans (h.poses id)⟩

theorem foldl {α : Type} {f : Machine → α → Machine} (hf : ∀ (m : Machine) (x : α), m.Nudged (f m x)) (l : List α)
    (m : Machine) : m.Nudged (l.foldl f m) := by
  induction l generalizing m with
  | nil => exact .refl m
  | cons x l ih => exact (hf m x).trans (ih _)

theorem modifyTarget (m : Machine) (id : Nat) {f : Target → Target} (hshape : ∀ t, (f t).shape = t.shape)
    (hpose : ∀ t, (f t).pose = t.pose) : m.Nudged (m.modifyTarget id f) := by
  refine ⟨.modifyTarget m id hshape,fun j => ?_⟩
  unfold pose? Machine.modifyTarget
  rw [Arena.get?_modify]
  split
  · cases m.targets.get? j with
    | none => rfl
    | some t => simp [hpose]
  · rfl

theorem call (m : Machine) (c : HostCall) : m.Nudged (m.call c) := .of_eq rfl rfl rfl rfl

theorem setWatcher (m : Machine) (id : Nat) (w : Watched) (visible : Bool) :
    m.Nudged (m.setWatcher id w visible) := by
  obtain ⟨watchers,heq⟩ := m.setWatcher_eq id w visible
  rw [heq]
  exact .of_eq rfl rfl rfl rfl

theorem setVariableAt (m : Machine) (id index : Nat) (v : Value) : m.Nudged (m.setVariableAt id index v) :=
  .modifyTarget m id (fun t => by simp [Target.shape,Table.names_modify]) fun _ => rfl

theorem moveTo (m : Machine) (id : Nat) (p : Point) : m.Nudged (m.moveTo id p) := by
  unfold Machine.moveTo
  split
  · exact .refl m
  · split
    · exact .refl m
    · simp only
      have h := Nudged.modifyTarget m id (f := fun t =>
        if m.settings.spriteFencing then { t with position := p }.keepInView else { t with position := p })
        (fun t => by split <;> rfl) fun t => by split <;> rfl
      split
      · exact h.trans (.call _ _)
      · exact h

theorem moveLayer (m : Machine) (id position : Nat) : m.Nudged (m.moveLayer id position) := by
  obtain ⟨children,hlist,heq⟩ := m.moveLayer_eq id position
  rw [heq]
  exact ⟨⟨rfl,rfl,fun _ => rfl,rfl,hlist⟩,fun _ => rfl⟩

end Nudged

theorem startThread_eq (m : Machine) (id : Nat) (s : Script) (restart : Bool) :
    ∃ queue starts, m.startThread id s restart = { m with queue, starts } := by
  unfold startThread
  dsimp only
  split
  · split <;> exact ⟨_,_,rfl⟩
  · exact ⟨_,_,rfl⟩

theorem triggerFor_eq (m : Machine) (id : Nat) (e : Event) :
    ∃ queue starts, (m.triggerFor id e).2 = { m with queue, starts } := by
  unfold triggerFor
  split
  · exact ⟨_,_,rfl⟩
  · next t ht =>
    clear ht
    dsimp only
    generalize t.scripts.listeners.matching e = scripts
    induction scripts generalizing m with
    | nil => exact ⟨_,_,rfl⟩
    | cons s scripts ih =>
      obtain ⟨queue,starts,h⟩ := m.startThread_eq id s e.restarts
      obtain ⟨queue',starts',h'⟩ := ih (m.startThread id s e.restarts)
      exact ⟨queue',starts',by rw [List.foldl_cons,h',h]⟩

/-- A clone of a target stands just behind it, and its threads are not started yet. -/
def withClone (m : Machine) (parent : Nat) (t : Target) : Machine :=
  { m with
    targets := m.targets.insert t.makeClone
    children := m.children.insertIdx (m.children.idxOf parent) m.targets.nextId }

theorem createClone_eq (m : Machine) (parent : Nat) : (m.createClone parent).2 = m ∨
    ∃ t visual, m.targets.get? parent = some t ∧ t.isStage = false ∧ (m.createClone parent).2 =
      { ((m.withClone parent t).triggerFor m.targets.nextId .cloned).2 with visual } := by
  unfold createClone
  split
  · exact .inl rfl
  next t ht =>
    split
    · exact .inl rfl
    next hstage =>
      dsimp only
      split <;> exact .inr ⟨t,_,ht,eq_false_of_ne_true hstage,rfl⟩

theorem createClone_frame (m : Machine) (parent : Nat) :
    ∃ targets children queue starts visual, (m.createClone parent).2 = { m with targets, children, queue, starts, visual } := by
  rcases m.createClone_eq parent with h | ⟨t,visual,-,-,h⟩
  · exact ⟨_,_,_,_,_,h⟩
  · obtain ⟨queue,starts,htrigger⟩ := (m.withClone parent t).triggerFor_eq m.targets.nextId .cloned
    rw [htrigger] at h
    exact ⟨_,_,_,_,_,h⟩

theorem targets_createClone (m : Machine) (parent : Nat) : (m.createClone parent).2.targets = m.targets ∨
    ∃ t, m.targets.get? parent = some t ∧ t.isStage = false ∧
      (m.createClone parent).2.targets = m.targets.insert t.makeClone := by
  rcases m.createClone_eq parent with h | ⟨t,visual,ht,hstage,h⟩
  · exact .inl (congrArg targets h)
  · obtain ⟨queue,starts,htrigger⟩ := (m.withClone parent t).triggerFor_eq m.targets.nextId .cloned
    exact .inr ⟨t,ht,hstage,by rw [h,htrigger]; rfl⟩

theorem shape?_createClone (m : Machine) (parent id : Nat) :
    (m.createClone parent).2.shape? id = m.shape? id ∨
    id = m.targets.slots.size ∧ ∃ σ, m.shape? parent = some σ ∧ σ.kind ≠ .stage ∧
      (m.createClone parent).2.shape? id = some { σ with kind := .clone } := by
  rcases m.targets_createClone parent with h | ⟨t,ht,hstage,h⟩
  · exact .inl (by simp only [shape?,h])
  · simp only [shape?,h,Arena.get?_insert]
    by_cases hid : id = m.targets.nextId
    · refine .inr ⟨hid,t.shape,by simp [ht],?_,by simp [hid]⟩
      simpa [Target.isStage,Target.shape] using hstage
    · exact .inl (by simp [hid])

/-- How a machine goes on while a script runs: alike, or with new clones. -/
inductive Evolves (m : Machine) : Machine → Prop
  | refl : Evolves m m
  | alike {m₁ m₂ : Machine} (h : Evolves m m₁) (h' : m₁.Alike m₂) : Evolves m m₂
  | clone {m₁ : Machine} (h : Evolves m m₁) (parent : Nat) : Evolves m (m₁.createClone parent).2

theorem Evolves.nudged {m m₁ m₂ : Machine} (h : m.Evolves m₁) (h' : m₁.Nudged m₂) : m.Evolves m₂ :=
  h.alike h'.toAlike

theorem Evolves.trans {m m' m'' : Machine} (h : m.Evolves m') (h' : m'.Evolves m'') : m.Evolves m'' := by
  induction h' with
  | refl => exact h
  | alike _ h' ih => exact ih.alike h'
  | clone _ parent ih => exact ih.clone parent

theorem Evolves.shape? {m m' : Machine} (h : m.Evolves m') {id : Nat} {σ : Shape}
    (hσ : m.shape? id = some σ) : m'.shape? id = some σ := by
  induction h with
  | refl => exact hσ
  | alike _ h' ih => rw [h'.shapes,ih]
  | @clone m₁ _ parent ih =>
    rcases m₁.shape?_createClone parent id with h | ⟨hid,-⟩
    · rw [h,ih]
    · have hnone : m₁.shape? id = none := by
        simp [Machine.shape?,Arena.get?_eq_none_of_size_le _ (Nat.le_of_eq hid.symm)]
      rw [hnone] at ih
      cases ih

theorem Evolves.shape?_eq_none {m m' : Machine} (h : m.Evolves m') {id : Nat}
    (hnone : m'.shape? id = none) : m.shape? id = none := by
  cases hσ : m.shape? id with
  | none => rfl
  | some σ => rw [h.shape? hσ] at hnone; cases hnone

end Machine

end SpriteMachine
