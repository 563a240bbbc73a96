import SpriteMachine.Script

/-!
Threads: scripts that are under way. A thread waits in a queue with its call frames; while it runs it is
an activation, which has an operand stack and says how to go on.
-/

namespace SpriteMachine

structure Locals where
  slots : Array Value := #[]
  threads : List Nat := []

namespace Locals

def get (l : Locals) (slot : UInt32) : Value :=
  l.slots[slot.toNat]?.getD default

def set (l : Locals) (slot : UInt32) (v : Value) : Locals :=
  let i := slot.toNat
  if i < l.slots.size then { l with slots := l.slots.setIfInBounds i v }
  else { l with slots := (l.slots ++ Array.replicate (i - l.slots.size) default).push v }

end Locals

/-- The call of a procedure, or the bottom of a thread. -/
structure Frame where
  base : Option Nat := none
  ret : Option Continuation := none
  args : Array Value := #[]
  /-- Saved locals, the innermost first. -/
  saved : List Locals := []
  warp : Bool := false

structure Thread where
  target : Nat
  base : Nat
  resume : Option Continuation
  /-- The innermost frame comes first. -/
  frames : List Frame
  warp : Nat := 0
  stopped : Bool := false

def Thread.start (target : Nat) (s : Script) : Thread where
  target := target
  base := s.id
  resume := some s.entry
  frames := [{ saved := [{}] }]

structure Activation where
  target : Nat
  base : Nat
  slot : Option Nat := none
  calls : List Frame := []
  frame : Frame := {}
  locals : Locals := {}
  /-- How many calls are inside the outermost one that runs without yielding. -/
  warp : Nat := 0
  immediate : Option Continuation := none
  requeue : Option Continuation := none
  stopped : Bool := false
  stack : List Value := []

namespace Activation

def detached (target : Nat) (s : Script) : Activation where
  target := target
  base := s.id
  frame := { saved := [{}] }
  immediate := some s.entry

def ofThread (slot : Nat) (t : Thread) : Except Fault Activation :=
  match t.frames with
  | [] => .error .missingFrame
  | frame :: calls =>
    match frame.saved with
    | [] => .error .missingLocalState
    | locals :: saved => .ok {
        target := t.target
        base := t.base
        slot := some slot
        calls := calls
        frame := { frame with saved := saved }
        locals := locals
        warp := t.warp
        immediate := t.resume
        stopped := t.stopped }

def toThread (a : Activation) (resume : Continuation) : Thread where
  target := a.target
  base := a.base
  resume := some resume
  frames := { a.frame with saved := a.locals :: a.frame.saved } :: a.calls
  warp := a.warp

def depth (a : Activation) : Nat :=
  a.calls.length

def save (a : Activation) : Activation :=
  { a with frame := { a.frame with saved := a.locals :: a.frame.saved }, locals := {} }

def restore (a : Activation) : Except Fault Activation :=
  match a.frame.saved with
  | [] => .error .missingLocalState
  | locals :: saved => .ok { a with frame := { a.frame with saved := saved }, locals := locals }

/-- Enters a frame; the caller's locals are saved in the caller's frame. -/
def enter (a : Activation) (f : Frame) : Activation :=
  let a := a.save
  { a with calls := a.frame :: a.calls, frame := f }

/-- Leaves the innermost frame, and tells where the caller goes on. -/
def leave (a : Activation) : Except Fault (Activation × Option Continuation) :=
  match a.calls with
  | [] => .ok (a,none)
  | caller :: calls => do
    let b ← { a with calls := calls, frame := caller }.restore
    return (b,a.frame.ret)

def push (a : Activation) (v : Value) : Activation :=
  { a with stack := v :: a.stack }

def pop (a : Activation) : Except Fault (Value × Activation) :=
  match a.stack with
  | [] => .error .stackUnderflow
  | v :: rest => .ok (v,{ a with stack := rest })

def popN (a : Activation) (n : Nat) : Except Fault (List Value × Activation) :=
  if n ≤ a.stack.length then
    .ok ((a.stack.take n).reverse,{ a with stack := a.stack.drop n })
  else .error .stackUnderflow

def pop₂ (a : Activation) : Except Fault (Value × Value × Activation) :=
  match a.stack with
  | y :: x :: rest => .ok (x,y,{ a with stack := rest })
  | _ => .error .stackUnderflow

def pop₃ (a : Activation) : Except Fault (Value × Value × Value × Activation) :=
  match a.stack with
  | z :: y :: x :: rest => .ok (x,y,z,{ a with stack := rest })
  | _ => .error .stackUnderflow

/-- Returns from a procedure; at the bottom of the thread this ends it. -/
def endCall (a : Activation) : Except Fault Activation :=
  if a.calls.isEmpty then .ok a
  else do
    let (b,ret) ← { a with warp := a.warp - 1 }.leave
    return { b with immediate := ret }

def yieldTo (a : Activation) (k : Continuation) : Activation :=
  if a.stopped then a else { a with requeue := some k }

end Activation

end SpriteMachine
