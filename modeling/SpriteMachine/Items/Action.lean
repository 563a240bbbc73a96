import SpriteMachine.Items

/-!
What code does with a list. An action takes its operands off the operand stack, whose head is the top,
and may put a result back.
-/

namespace SpriteMachine

inductive ListAction where
  | contents | add | delete | clear | insert | replace | item | itemNumber | length | contains
  deriving DecidableEq, Repr

namespace ListAction

def operands : ListAction → Nat
  | .contents | .clear | .length => 0
  | .insert | .replace => 2
  | .add | .delete | .item | .itemNumber | .contains => 1

/-- The list afterwards, the result if there is one, and the random numbers that are left. `top` is the
operand on top of the stack and `second` the one below it. -/
def apply (action : ListAction) (l : Items) (top second : Value) (r : Random) :
    Items × Option Value × Random :=
  match action with
  | .contents => (l,some (.text l.contents),r)
  | .add => (l.push top,none,r)
  | .delete =>
    let (l,r) := l.delete top r
    (l,none,r)
  | .clear => (l.clear,none,r)
  | .insert =>
    let (l,r) := l.insert top second r
    (l,none,r)
  | .replace =>
    let (l,r) := l.replace second top r
    (l,none,r)
  | .item =>
    let (v,r) := l.item top r
    (l,some v,r)
  | .itemNumber => (l,some (.ofNat (l.indexOf top)),r)
  | .length => (l,some (.ofNat l.length),r)
  | .contains => (l,some (.bool (l.contains top)),r)

end ListAction

end SpriteMachine
