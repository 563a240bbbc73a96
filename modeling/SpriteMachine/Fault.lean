/-!
Faults. One kind stops a running machine, the other refuses code that is being assembled.
-/

namespace SpriteMachine

def hexWord (w : UInt32) : String :=
  "0x" ++ String.ofList (Nat.toDigits 16 w.toNat)

inductive Fault where
  | stackUnderflow
  | invalidOpcode (script : String) (pc : Nat) (word : UInt32)
  | truncated (script : String) (pc : Nat)
  | badLabel (script : String) (label : UInt32)
  | badConstant (script : String) (index : UInt32)
  | badHandle (target kind : String) (index : UInt32)
  | missingFrame
  | missingLocalState
  | missingTarget (target : Nat)
  | unknownBuiltin (id : UInt32)
  | callDepthExceeded (limit : Nat)
  deriving DecidableEq, Repr

namespace Fault

def message : Fault → String
  | .stackUnderflow => "operand stack underflow"
  | .invalidOpcode script pc word => s!"invalid opcode {hexWord word} at {pc} in {script}"
  | .truncated script pc => s!"truncated instruction at {pc} in {script}"
  | .badLabel script label => s!"label {label} does not exist in {script}"
  | .badConstant script index => s!"constant {index} does not exist in {script}"
  | .badHandle target kind index => s!"no {kind} slot {index} on {target}"
  | .missingFrame => "thread has no call frame"
  | .missingLocalState => "no saved local state to restore"
  | .missingTarget target => s!"target {target} no longer exists"
  | .unknownBuiltin id => s!"unknown builtin {id}"
  | .callDepthExceeded limit => s!"maximum call depth of {limit} exceeded"

end Fault

inductive BuildFault where
  | invalidOpcode (script : String) (pc : Nat) (word : UInt32)
  | truncated (script : String) (pc : Nat)
  | misalignedLabel (script : String) (label pc : Nat)
  | misalignedJump (script : String) (pc : Nat) (target : UInt32)
  | missingLabel (script : String) (pc : Nat) (label : UInt32)
  | missingConstant (script : String) (pc : Nat) (index : UInt32)
  | unterminated (script : String)
  | missingStage
  deriving DecidableEq, Repr

namespace BuildFault

def message : BuildFault → String
  | .invalidOpcode script pc word => s!"{script}: invalid opcode {hexWord word} at {pc}"
  | .truncated script pc => s!"{script}: instruction at {pc} is missing operands"
  | .misalignedLabel script label pc =>
    s!"{script}: label {label} points into the middle of an instruction ({pc})"
  | .misalignedJump script pc target =>
    s!"{script}: jump at {pc} targets {target}, which is not an instruction"
  | .missingLabel script pc label => s!"{script}: instruction at {pc} references missing label {label}"
  | .missingConstant script pc index =>
    s!"{script}: instruction at {pc} references missing constant {index}"
  | .unterminated script => s!"{script}: control can run past the end of the script"
  | .missingStage => "project has no stage"

end BuildFault

end SpriteMachine
