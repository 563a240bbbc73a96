import SpriteMachine.Block
import SpriteMachine.Opcode

/-!
Directives: what a block tree says to the code emitter, in a flat list. Labels are numbered within a scope
in the order in which they are made; every block opens a scope of its own.
-/

namespace SpriteMachine

inductive Directive where
  | op (o : Opcode) (operands : List UInt32)
  | pushNumber (x : Float)
  | pushText (s : String)
  | pushBool (b : Bool)
  | pushVariable (r : Reference)
  | pushList (r : Reference)
  | enter
  | leave
  /-- Makes a label. -/
  | label
  /-- Places a label before what follows. -/
  | place (i : Nat)
  /-- Makes a label and places it. -/
  | here
  | jump (o : Opcode) (i : Nat)
  | resume (o : Opcode) (i : Nat)
  /-- Looks a variable up and keeps its handle for the scope. -/
  | bindVariable (r : Reference)
  | bindList (r : Reference)
  /-- An instruction on the handle that was kept. -/
  | bound (o : Opcode) (operands : List UInt32)
  | call (procedure : String) (argc : Nat)
  /-- What came before may have changed the picture. -/
  | visual (tier : VisualTier)
  /-- Writes out at once what is known about changes of the picture. -/
  | flush
  | warn (message : String)

end SpriteMachine
