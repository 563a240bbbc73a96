import SpriteMachine.Compile.Directive
import SpriteMachine.Compile.Symbols
import SpriteMachine.Script.Assembler

/-!
Emitting code. Directives are worked off one after the other. What is known about changes of the picture
is kept back and written as one instruction before control can leave the straight line.
-/

namespace SpriteMachine

/-- The labels of a block, and the handle that it looked up. -/
structure Scope where
  labels : Array Nat := #[]
  handle : Handle := ⟨0⟩

structure Emitter where
  symbols : Symbols
  code : Assembler
  /-- The change of the picture that is not written yet. -/
  pending : VisualTier := .none
  scope : Scope := {}
  /-- The scopes of the blocks around, the innermost first. -/
  outer : List Scope := []

def Opcode.flushes (o : Opcode) : Bool :=
  o.isTerminator || o.isJump ||
    (o = .broadcast || o = .broadcastAndWait || o = .sceneChanged || o = .stop || o = .deleteClone)

namespace Emitter

def flush (e : Emitter) : Emitter :=
  if e.pending = .none then e
  else { e with code := e.code.op .visual [e.pending.word], pending := .none }

def assemble (e : Emitter) (f : Assembler → Assembler) : Emitter :=
  { e with code := f e.code }

def op (e : Emitter) (o : Opcode) (operands : List UInt32) : Emitter :=
  (if o.flushes then e.flush else e).assemble fun a => a.op o operands

def label (e : Emitter) : Emitter :=
  { e with
    scope.labels := e.scope.labels.push e.code.nextLabel
    code := e.code.newLabel }

def labelAt (e : Emitter) (i : Nat) : Nat :=
  e.scope.labels[i]?.getD 0

def place (e : Emitter) (i : Nat) : Emitter :=
  e.flush.assemble fun a => a.place (e.labelAt i)

def bind (e : Emitter) (found : Handle × Symbols) : Emitter :=
  { e with scope.handle := found.1, symbols := found.2 }

def step (e : Emitter) : Directive → Emitter
  | .op o operands => e.op o operands
  | .pushNumber x => e.assemble fun a => a.pushNumber x
  | .pushText s => e.assemble fun a => a.pushText s
  | .pushBool b => e.assemble fun a => a.pushBool b
  | .pushVariable r =>
    let (h,symbols) := e.symbols.variableHandle r
    { e with symbols }.op .pushVar [h.word]
  | .pushList r =>
    let (h,symbols) := e.symbols.listHandle r
    { e with symbols }.op .pushList [h.word]
  | .enter => { e with scope := {}, outer := e.scope :: e.outer }
  | .leave => { e with scope := e.outer.headD {}, outer := e.outer.tail }
  | .label => e.label
  | .place i => e.place i
  | .here =>
    let e := e.flush.label
    e.assemble fun a => a.place (e.labelAt (e.scope.labels.size - 1))
  | .jump o i => e.flush.assemble fun a => a.jump o (e.labelAt i)
  | .resume o i => e.flush.assemble fun a => a.resumeAt o (e.labelAt i)
  | .bindVariable r => e.bind (e.symbols.variableHandle r)
  | .bindList r => e.bind (e.symbols.listHandle r)
  | .bound o operands => e.op o (e.scope.handle.word :: operands)
  | .call procedure argc =>
    e.flush.assemble fun a =>
      let ret := a.nextLabel
      (a.newLabel.call procedure argc ret).place ret
  | .visual tier => { e with pending := e.pending.max tier }
  | .flush => e.flush
  | .warn message => { e with symbols := e.symbols.warn message }

def run (e : Emitter) (ds : List Directive) : Emitter :=
  ds.foldl step e

end Emitter

end SpriteMachine
