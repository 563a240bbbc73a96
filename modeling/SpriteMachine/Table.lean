/-!
Tables keyed by ids, in the order in which the ids were first used. An entry keeps its index.
-/

namespace SpriteMachine

structure Table (α : Type) where
  entries : Array (String × α)

namespace Table

variable {α : Type}

def empty : Table α := ⟨#[]⟩

def size (t : Table α) : Nat :=
  t.entries.size

def indexOf? (t : Table α) (id : String) : Option Nat :=
  t.entries.findIdx? fun e => e.1 == id

def findIdx? (t : Table α) (p : α → Bool) : Option Nat :=
  t.entries.findIdx? fun e => p e.2

def find? (t : Table α) (p : α → Bool) : Option α :=
  (t.entries.find? fun e => p e.2).map Prod.snd

def get? (t : Table α) (i : Nat) : Option α :=
  (t.entries[i]?).map Prod.snd

def indexFor (t : Table α) (id : String) : Nat :=
  (t.indexOf? id).getD t.size

def insert (t : Table α) (id : String) (v : α) : Table α :=
  match t.indexOf? id with
  | some i => ⟨t.entries.setIfInBounds i (id,v)⟩
  | none => ⟨t.entries.push (id,v)⟩

def modify (t : Table α) (i : Nat) (f : α → α) : Table α :=
  ⟨t.entries.modify i fun e => (e.1,f e.2)⟩

def map (t : Table α) (f : α → α) : Table α :=
  ⟨t.entries.map fun e => (e.1,f e.2)⟩

def toList (t : Table α) : List (String × α) :=
  t.entries.toList

end Table

end SpriteMachine
