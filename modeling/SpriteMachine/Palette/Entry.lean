import SpriteMachine.Builtin
import SpriteMachine.Compile.Directive

/-!
Entries of the palette: for each kind of block, how it becomes code and which builtin it calls.
-/

namespace SpriteMachine

/-- A step of a recipe: the code of a slot in some form, or directives of the block itself. -/
inductive Step where
  | input (slot : String)
  | number (slot : String)
  | text (slot : String)
  | condition (slot : String)
  | substack (slot : String)
  | inputs
  | callSelf
  | callEntry (opcode : String)
  | emit (d : Directive)

/-- A block that is being compiled, and the names of the parameters it can refer to. -/
structure Site where
  block : Block
  params : List String

def Site.field (s : Site) (name : String) : String :=
  s.block.fieldText name

abbrev Recipe := Site → List Step

/-- Declared slots are pushed and the builtin is called, unless there is a recipe. -/
structure Entry where
  opcode : String
  reporter : Bool := false
  inputs : List String := []
  recipe : Option Recipe := none
  builtin : Option Builtin := none

namespace Step

def op (o : Opcode) (operands : List UInt32 := []) : Step :=
  .emit (.op o operands)

def pushNumber (x : Float) : Step :=
  .emit (.pushNumber x)

def pushText (s : String) : Step :=
  .emit (.pushText s)

def pushBool (b : Bool) : Step :=
  .emit (.pushBool b)

def label : Step := .emit .label

def place (i : Nat) : Step := .emit (.place i)

def here : Step := .emit .here

def jump (o : Opcode) (i : Nat) : Step := .emit (.jump o i)

def resume (o : Opcode) (i : Nat) : Step := .emit (.resume o i)

def visual (t : VisualTier) : Step := .emit (.visual t)

def warn (message : String) : Step := .emit (.warn message)

end Step

open Step

namespace Entry

/-- Pushes the declared slots and calls the builtin, which may change the picture. -/
def visible (opcode : String) (inputs : List String) (tier : VisualTier) (builtin : Builtin) : Entry where
  opcode := opcode
  inputs := inputs
  recipe := some fun _ => [.inputs,.callSelf,visual tier]
  builtin := some builtin

def action (opcode : String) (inputs : List String) (builtin : Builtin) : Entry where
  opcode := opcode
  inputs := inputs
  builtin := some builtin

def query (opcode : String) (inputs : List String) (builtin : Builtin) : Entry where
  opcode := opcode
  reporter := true
  inputs := inputs
  builtin := some builtin

def menu (opcode field : String) : Entry where
  opcode := opcode
  reporter := true
  recipe := some fun s => [pushText (s.field field)]

def inert (opcode : String) : Entry where
  opcode := opcode
  recipe := some fun _ => []

def statement (opcode : String) (recipe : Recipe) (builtin : Option Builtin := none)
    (inputs : List String := []) : Entry where
  opcode := opcode
  inputs := inputs
  recipe := some recipe
  builtin := builtin

def value (opcode : String) (recipe : Recipe) (builtin : Option Builtin := none) : Entry where
  opcode := opcode
  reporter := true
  recipe := some recipe
  builtin := builtin

def ofNumber (opcode slot : String) (builtin : Builtin) : Entry :=
  statement opcode (fun _ => [number slot,.callSelf]) (some builtin)

def visibleNumber (opcode slot : String) (builtin : Builtin) : Entry :=
  statement opcode (fun _ => [number slot,.callSelf,visual .visible]) (some builtin)

end Entry

/-- Yields once, then until the wait is over whose start and duration are in the first two locals. The
labels it makes have the numbers `i` and `i + 1`. -/
def waitElapsed (i : Nat) : List Step :=
  [label,label,resume .forceQueue i,place i,op .waitElapsed [0],jump .jumpIfTrue (i + 1),
    resume .forceQueue i,place (i + 1)]

def waitSeconds (duration : List Step) : List Step :=
  [op .save,op .pushNow,op .setLocal [0]] ++ duration ++ [op .setLocal [1]] ++ waitElapsed 0 ++
    [op .restore]

end SpriteMachine
