import SpriteMachine.Fault
import SpriteMachine.Instr

/-!
Scripts: code words, the texts that they name, and labels, which are the points where a script can be
entered. Label zero is its start.
-/

namespace SpriteMachine

structure Script where
  id : Nat
  name : String
  code : Array UInt32
  constants : Array String
  labels : Array Nat

structure Continuation where
  script : Script
  label : UInt32

namespace Script

def constant? (s : Script) (index : UInt32) : Option String :=
  s.constants[index.toNat]?

def entry (s : Script) : Continuation :=
  ⟨s,0⟩

def continuation? (s : Script) (label : UInt32) : Option Continuation :=
  if label.toNat < s.labels.size then some ⟨s,label⟩ else none

def word (s : Script) (pc : Nat) : UInt32 :=
  s.code[pc]?.getD 0

def fetch (s : Script) (pc : Nat) : Except Fault (Instr × Nat) :=
  match s.code[pc]? with
  | none => .error (.truncated s.name pc)
  | some w =>
    match Opcode.ofWord? w with
    | none => .error (.invalidOpcode s.name pc w)
    | some op =>
      if pc + op.operandWords < s.code.size then
        .ok (.ofWords op (s.word (pc + 1)) (s.word (pc + 2)) (s.word (pc + 3)),
          pc + 1 + op.operandWords)
      else .error (.truncated s.name pc)

end Script

def Continuation.pc (k : Continuation) : Nat :=
  k.script.labels[k.label.toNat]?.getD 0

end SpriteMachine
