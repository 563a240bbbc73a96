/-!
Handles of variables and lists in code: an index into the tables of the running target or of the stage,
in one word whose top bit says which.
-/

namespace SpriteMachine

structure Handle where
  word : UInt32
  deriving DecidableEq, Repr

namespace Handle

def stageBit : UInt32 := 0x80000000

def make (index : Nat) (stage : Bool) : Handle :=
  ⟨UInt32.ofNat index ||| if stage then stageBit else 0⟩

def isStage (h : Handle) : Bool :=
  h.word &&& stageBit != 0

def index (h : Handle) : Nat :=
  (h.word &&& ~~~stageBit).toNat

end Handle

end SpriteMachine
