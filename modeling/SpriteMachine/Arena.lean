/-!
An arena hands out ids in order and never uses one again, so an id that was removed stays dead.
-/

namespace SpriteMachine

structure Arena (α : Type) where
  slots : Array (Option α)

namespace Arena

variable {α : Type}

def empty : Arena α := ⟨#[]⟩

def nextId (a : Arena α) : Nat :=
  a.slots.size

def insert (a : Arena α) (v : α) : Arena α :=
  ⟨a.slots.push (some v)⟩

def get? (a : Arena α) (id : Nat) : Option α :=
  (a.slots[id]?).join

def contains (a : Arena α) (id : Nat) : Bool :=
  (a.get? id).isSome

def remove (a : Arena α) (id : Nat) : Arena α :=
  ⟨a.slots.setIfInBounds id none⟩

def modify (a : Arena α) (id : Nat) (f : α → α) : Arena α :=
  ⟨a.slots.modify id (Option.map f)⟩

def map (a : Arena α) (f : α → α) : Arena α :=
  ⟨a.slots.map (Option.map f)⟩

def toList (a : Arena α) : List (Nat × α) :=
  a.slots.toList.zipIdx.filterMap fun (v,id) => v.map (id,·)

def size (a : Arena α) : Nat :=
  a.toList.length

def ofList (vs : List α) : Arena α :=
  vs.foldl insert empty

end Arena

end SpriteMachine
