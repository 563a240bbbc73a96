import SpriteMachine.Random
import SpriteMachine.Value.Order

/-!
The items of a list variable. Positions count from one; `last`, `random` or `any`, and `all` are
positions by name. Every change marks the list as modified.
-/

namespace SpriteMachine

structure Items where
  items : Array Value
  modified : Bool := false

inductive Place where
  | at (i : Nat)
  | all
  | invalid
  deriving DecidableEq, Repr

namespace Items

def empty : Items := ⟨#[],false⟩

def ofList (items : List Value) : Items := ⟨items.toArray,false⟩

/-- A position by number among `length` items, which are counted as a double counts them. -/
def numbered (index : Value) (length : Nat) : Place :=
  match Double.trunc? index.toNumber with
  | some n =>
    if 1 ≤ n ∧ n ≤ Double.nearestNat length then .at (Double.toIndex index.toNumber - 1) else .invalid
  | none => .invalid

def resolve (index : Value) (length : Nat) (r : Random) : Place × Random :=
  match index with
  | .text "last" => (if length = 0 then .invalid else .at (length - 1),r)
  | .text "random" | .text "any" =>
    if length = 0 then (.invalid,r)
    else
      let (i,r) := r.below length
      (.at i,r)
  | .text "all" => (.all,r)
  | index => (numbered index length,r)

def length (l : Items) : Nat :=
  l.items.size

def item (l : Items) (index : Value) (r : Random) : Value × Random :=
  match resolve index l.length r with
  | (.at i,r) => (l.items[i]?.getD default,r)
  | (_,r) => (default,r)

def push (l : Items) (v : Value) : Items :=
  ⟨l.items.push v,true⟩

def clear (_ : Items) : Items :=
  ⟨#[],true⟩

def delete (l : Items) (index : Value) (r : Random) : Items × Random :=
  match resolve index l.length r with
  | (.at i,r) => (⟨l.items.eraseIdxIfInBounds i,true⟩,r)
  | (.all,r) => (l.clear,r)
  | (.invalid,r) => (l,r)

/-- Puts a value where it will stand at the given position; one past the end appends. -/
def insert (l : Items) (index v : Value) (r : Random) : Items × Random :=
  match resolve index (l.length + 1) r with
  | (.at i,r) => (⟨l.items.insertIdxIfInBounds i v,true⟩,r)
  | (_,r) => (l,r)

def replace (l : Items) (index v : Value) (r : Random) : Items × Random :=
  match resolve index l.length r with
  | (.at i,r) => (⟨l.items.setIfInBounds i v,true⟩,r)
  | (_,r) => (l,r)

def indexOf (l : Items) (v : Value) : Nat :=
  match l.items.findIdx? (·.equal v) with
  | some i => i + 1
  | none => 0

def contains (l : Items) (v : Value) : Bool :=
  l.items.any (·.equal v)

def contents (l : Items) : String :=
  let texts := l.items.toList.map Value.toText
  String.intercalate (if texts.all (·.length == 1) then "" else " ") texts

def unmodified (l : Items) : Items :=
  { l with modified := false }

end Items

end SpriteMachine
