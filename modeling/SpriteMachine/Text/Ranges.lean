/-!
Sets of characters given by lengths of runs of code points: first how many are not in the set, then how many are, and
so on. What comes after the last run is not in the set.
-/

namespace SpriteMachine.Text

def inRuns : List Nat → Nat → Bool
  | gap :: run :: runs, n => gap ≤ n && (n < gap + run || inRuns runs (n - (gap + run)))
  | _, _ => false

def within (runs : List Nat) (c : Char) : Bool :=
  inRuns runs c.toNat

end SpriteMachine.Text
