import Mathlib
import SpriteMachine.Machine.Frame

/-!
Running code in one script, from offset to offset.
-/

namespace SpriteMachine

/-- Whether control always goes on with the next instruction, unless there is a fault. -/
def Instr.isStraight : Instr → Bool
  | .jump _ | .jumpIf .. | .queue _ | .forceQueue _ | .finish | .endCall | .call .. | .broadcast | .broadcastAndWait
  | .sceneChanged | .stop _ | .deleteClone => false
  | _ => true

theorem Turn.exec_of_isStraight {i : Instr} (h : i.isStraight = true) (s : Script) (pc : Nat) :
    Turn.exec s pc i = (do Turn.perform s i; return .next pc) := by
  cases i with
  | jump _ | jumpIf _ _ | queue _ | forceQueue _ | finish | endCall | call _ _ _ | broadcast | broadcastAndWait
  | sceneChanged | stop _ | deleteClone => cases h
  | _ => rfl

namespace Script

/-- A turn in which control goes on in one script. -/
inductive Goes (s : Script) (t : Turn) (pc : Nat) : Turn → Nat → Prop
  | start : Goes s t pc t pc
  | step {u v : Turn} {q r next : Nat} {i : Instr} (h : Goes s t pc u q) (hfetch : s.fetch q = .ok (i,next))
      (hexec : Turn.exec s next i u = .ok (.next r) v) : Goes s t pc v r

namespace Goes

variable {s : Script} {t u v : Turn} {pc q r next : Nat}

theorem trans (h : s.Goes t pc u q) (h' : s.Goes u q v r) : s.Goes t pc v r := by
  induction h' with
  | start => exact h
  | step _ hfetch hexec ih => exact ih.step hfetch hexec

theorem perform {i : Instr} (hfetch : s.fetch pc = .ok (i,next)) (hi : i.isStraight = true)
    (hperform : Turn.perform s i t = .ok () u) : s.Goes t pc u next := by
  refine .step .start hfetch ?_
  rw [Turn.exec_of_isStraight hi]
  change EStateM.bind (Turn.perform s i) _ t = _
  unfold EStateM.bind
  rw [hperform]
  rfl

end Goes

end Script

end SpriteMachine
