import SpriteMachine.Decimal.Layout

/-!
JSON documents. Numbers written without fraction and exponent stay integers while they fit 64 bits.
Objects keep their entries as written; of equal keys the last one counts.
-/

namespace SpriteMachine

inductive JsonNumber where
  | integer (n : Int)
  | fraction (x : Float)

inductive Json where
  | null
  | bool (b : Bool)
  | number (n : JsonNumber)
  | string (s : String)
  | array (items : List Json)
  | object (entries : List (String × Json))

def JsonNumber.toFloat : JsonNumber → Float
  | .integer n => Float.ofInt n
  | .fraction x => x

def lastOfEqual {α : Type} : List (String × α) → List (String × α)
  | [] => []
  | e :: es =>
    match es with
    | [] => [e]
    | f :: _ => if e.1 == f.1 then lastOfEqual es else e :: lastOfEqual es

/-- Entries by their keys, in the order of code points, one for each key. -/
def byKey {α : Type} (entries : List (String × α)) : List (String × α) :=
  lastOfEqual (entries.mergeSort fun a b => !decide (b.1 < a.1))

namespace Json

def array? : Json → Option (List Json)
  | .array items => some items
  | _ => none

def string? : Json → Option String
  | .string s => some s
  | _ => none

def bool? : Json → Option Bool
  | .bool b => some b
  | _ => none

def entries? : Json → Option (List (String × Json))
  | .object entries => some (byKey entries)
  | _ => none

def get? (key : String) : Json → Option Json
  | .object entries => (entries.reverse.find? fun e => e.1 == key).map Prod.snd
  | _ => none

def float? : Json → Option Float
  | .number n => some n.toFloat
  | _ => none

def integer? (least greatest : Int) : Json → Option Int
  | .number (.integer n) => if least ≤ n ∧ n ≤ greatest then some n else none
  | _ => none

def natural? (bits : Nat) (j : Json) : Option Nat :=
  (j.integer? 0 (Nat.pow 2 bits - 1 : Nat)).map Int.toNat

def signed? (bits : Nat) (j : Json) : Option Int :=
  let half : Nat := Nat.pow 2 (bits - 1)
  j.integer? (-half) (half - 1)

end Json

end SpriteMachine
