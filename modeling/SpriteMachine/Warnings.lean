/-!
Warnings: messages in the order in which they were first given, each with how often it was given.
-/

namespace SpriteMachine

structure Warnings where
  counts : List (String × Nat) := []
  deriving DecidableEq, Repr

namespace Warnings

def bump (message : String) (n : Nat) : List (String × Nat) → List (String × Nat)
  | [] => [(message,n)]
  | e :: es => if e.1 = message then (e.1,e.2 + n) :: es else e :: bump message n es

def add (w : Warnings) (message : String) : Warnings :=
  ⟨bump message 1 w.counts⟩

def addAll (w : Warnings) (messages : List String) : Warnings :=
  messages.foldl add w

def count (w : Warnings) (message : String) : Nat :=
  ((w.counts.find? fun e => e.1 == message).map Prod.snd).getD 0

def extend (w other : Warnings) : Warnings :=
  ⟨other.counts.foldl (fun counts e => bump e.1 e.2 counts) w.counts⟩

def size (w : Warnings) : Nat :=
  w.counts.length

end Warnings

end SpriteMachine
