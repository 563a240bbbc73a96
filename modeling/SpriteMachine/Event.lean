import SpriteMachine.Text.Case

/-!
Events that start scripts. Messages and backdrops are known by their names without regard to case.
-/

namespace SpriteMachine

inductive Key where
  | any
  | code (n : Nat)
  deriving DecidableEq, Repr

/-- The key of a name: a named key, else that of the first character. -/
def Key.ofName? (name : String) : Option Key :=
  match Text.lower name with
  | "space" => some (.code 32)
  | "enter" => some (.code 13)
  | "left arrow" => some (.code 37)
  | "up arrow" => some (.code 38)
  | "right arrow" => some (.code 39)
  | "down arrow" => some (.code 40)
  | "any" => some .any
  | _ => name.toList.head?.map fun c => .code ((Text.upperChar c).headD c).toNat

inductive Event where
  | greenFlag
  | clicked
  | cloned
  | keyPressed (key : Key)
  | broadcast (folded : String)
  | backdropSwitched (folded : String)
  deriving DecidableEq, Repr

namespace Event

def ofMessage (name : String) : Event :=
  .broadcast (Text.lower name)

def ofBackdrop (name : String) : Event :=
  .backdropSwitched (Text.lower name)

/-- Whether the event starts scripts over that are running. A key that is held down does not. -/
def restarts : Event → Bool
  | .keyPressed _ => false
  | _ => true

end Event

end SpriteMachine
