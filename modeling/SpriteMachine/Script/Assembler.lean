import SpriteMachine.Script

/-!
Assembling scripts. Code is written word by word; labels may be used before they are placed, and jumps
get the offset of their label when the script is built. Building checks that control stays in the code.
-/

namespace SpriteMachine

structure Assembler where
  name : String
  code : Array UInt32 := #[]
  constants : Array String := #[]
  labels : Array (Option Nat) := #[some 0]
  /-- Offsets of jump operands, which hold labels until the script is built. -/
  fixups : Array Nat := #[]

namespace Assembler

def nextLabel (a : Assembler) : Nat :=
  a.labels.size

def newLabel (a : Assembler) : Assembler :=
  { a with labels := a.labels.push none }

def place (a : Assembler) (label : Nat) : Assembler :=
  { a with labels := a.labels.setIfInBounds label (some a.code.size) }

def here (a : Assembler) : Assembler :=
  a.newLabel.place a.nextLabel

def word (a : Assembler) (w : UInt32) : Assembler :=
  { a with code := a.code.push w }

def words (a : Assembler) (ws : List UInt32) : Assembler :=
  ws.foldl word a

def op (a : Assembler) (o : Opcode) (operands : List UInt32 := []) : Assembler :=
  (a.word o.word).words operands

def constantIndex (a : Assembler) (s : String) : Nat :=
  (a.constants.findIdx? (· == s)).getD a.constants.size

def constant (a : Assembler) (s : String) : Assembler :=
  if a.constants.contains s then a else { a with constants := a.constants.push s }

def pushNumber (a : Assembler) (x : Float) : Assembler :=
  a.op .pushNumber [(wordsOfNumber x).1,(wordsOfNumber x).2]

def pushText (a : Assembler) (s : String) : Assembler :=
  (a.constant s).op .pushConstant [UInt32.ofNat (a.constantIndex s)]

def pushBool (a : Assembler) (b : Bool) : Assembler :=
  a.op .pushBool [if b then 1 else 0]

def jump (a : Assembler) (o : Opcode) (label : Nat) : Assembler :=
  let a := a.word o.word
  { a with fixups := a.fixups.push a.code.size }.word (UInt32.ofNat label)

def resumeAt (a : Assembler) (o : Opcode) (label : Nat) : Assembler :=
  a.op o [UInt32.ofNat label]

def call (a : Assembler) (procedure : String) (argc label : Nat) : Assembler :=
  (a.constant procedure).op .call
    [UInt32.ofNat (a.constantIndex procedure),UInt32.ofNat argc,UInt32.ofNat label]

def instructions (name : String) (code : Array UInt32) :
    Nat → Nat → Except BuildFault (List (Nat × Opcode))
  | 0, _ => .ok []
  | fuel + 1, pc =>
    match code[pc]? with
    | none => .ok []
    | some w =>
      match Opcode.ofWord? w with
      | none => .error (.invalidOpcode name pc w)
      | some o =>
        if pc + o.operandWords ≥ code.size then .error (.truncated name pc)
        else do
          let rest ← instructions name code fuel (pc + 1 + o.operandWords)
          return (pc,o) :: rest

/-- The offsets of the labels, each of which has to be placed before an instruction. -/
def placed (a : Assembler) (starts : List Nat) : Except BuildFault (List Nat) :=
  a.labels.toList.zipIdx.mapM fun (offset,label) =>
    match offset with
    | none => .error (.missingLabel a.name 0 (UInt32.ofNat label))
    | some pc => if starts.contains pc then .ok pc else .error (.misalignedLabel a.name label pc)

def patch (name : String) (labels : Array Nat) (code : Array UInt32) (operand : Nat) :
    Except BuildFault (Array UInt32) :=
  let label := code[operand]?.getD 0
  match labels[label.toNat]? with
  | some target => .ok (code.setIfInBounds operand (UInt32.ofNat target))
  | none => .error (.missingLabel name (operand - 1) label)

def check (a : Assembler) (starts : List Nat) (code : Array UInt32) (pc : Nat) :
    Except BuildFault Unit :=
  match (code[pc]?).bind Opcode.ofWord? with
  | none => .ok ()
  | some o =>
    let operand := fun i => code[pc + 1 + i]?.getD 0
    match o.labelOperand?.filter fun i => (operand i).toNat ≥ a.labels.size with
    | some i => .error (.missingLabel a.name pc (operand i))
    | none =>
      if o.isJump && !starts.contains (operand 0).toNat then .error (.misalignedJump a.name pc (operand 0))
      else if (o = .pushConstant || o = .call) && (operand 0).toNat ≥ a.constants.size then
        .error (.missingConstant a.name pc (operand 0))
      else .ok ()

def build (a : Assembler) (id : Nat) : Except BuildFault Script := do
  let instrs ← instructions a.name a.code a.code.size 0
  let starts := instrs.map Prod.fst
  if !((instrs.getLast?).any fun e => e.2.isTerminator) then throw (.unterminated a.name)
  let labels := (← a.placed starts).toArray
  let code ← a.fixups.foldlM (patch a.name labels) a.code
  starts.forM (a.check starts code)
  return { id, name := a.name, code, constants := a.constants, labels }

end Assembler

end SpriteMachine
