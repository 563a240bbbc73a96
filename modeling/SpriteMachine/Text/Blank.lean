import SpriteMachine.Text.Ranges

/-!
White space, and what is left of a text when it is cut off at both ends.
-/

namespace SpriteMachine.Text

def blanks : List Nat :=
  [9,5,18,1,100,1,26,1,5599,1,2431,11,29,2,5,1,47,1,4000,1]

def isBlank (c : Char) : Bool :=
  within blanks c

theorem isBlank_of_isWhitespace {c : Char} (h : c.isWhitespace) : isBlank c := by
  simp only [Char.isWhitespace,Bool.or_eq_true,decide_eq_true_eq] at h
  rcases h with ((h | h) | h) | h <;> subst h <;> decide

def strip (p : Char → Bool) (cs : List Char) : List Char :=
  ((cs.dropWhile p).reverse.dropWhile p).reverse

end SpriteMachine.Text
