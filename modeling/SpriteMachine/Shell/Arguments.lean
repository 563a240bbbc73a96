/-!
Arguments of a command: one operand, and flags with long names that may take a value. They are read from
left to right, and reading stops at the first one that is wrong or asks for help or the version.
-/

namespace SpriteMachine.Shell

/-- Whether a flag takes a value, and whether it may stand more than once. -/
inductive Arity where
  | switch | single | many
  deriving DecidableEq, Repr

structure Flag where
  name : String
  arity : Arity
  accepts : String → Bool := fun _ => true

inductive Stop where
  | help | version | usage
  deriving DecidableEq, Repr

structure Arguments where
  operand : Option String := none
  /-- Flags with their values in the order in which they were given. -/
  given : List (String × String) := []

namespace Arguments

def has (a : Arguments) (name : String) : Bool :=
  a.given.any fun e => e.1 == name

def value? (a : Arguments) (name : String) : Option String :=
  a.given.lookup name

def values (a : Arguments) (name : String) : List String :=
  (a.given.filter fun e => e.1 == name).map Prod.snd

def addOperand (a : Arguments) (s : String) : Except Stop Arguments :=
  if a.operand.isSome || s.isEmpty then .error .usage else .ok { a with operand := some s }

def addFlag (a : Arguments) (f : Flag) (v : String) : Except Stop Arguments :=
  if (f.arity != .many && a.has f.name) || !f.accepts v then .error .usage
  else .ok { a with given := a.given ++ [(f.name,v)] }

end Arguments

inductive Form where
  | operand
  /-- After this all arguments are operands. -/
  | separator
  | long (name : String) (value : Option String)
  | short (letters : List Char)
  deriving DecidableEq, Repr

def Form.ofArgument (s : String) : Form :=
  match s.toList with
  | ['-','-'] => .separator
  | '-' :: '-' :: cs =>
    let name := String.ofList (cs.takeWhile (· != '='))
    match cs.dropWhile (· != '=') with
    | _ :: value => .long name (some (String.ofList value))
    | [] => .long name none
  | '-' :: c :: cs => .short (c :: cs)
  | _ => .operand

def Stop.ofShort : List Char → Stop
  | 'h' :: _ => .help
  | 'V' :: _ => .version
  | _ => .usage

def Stop.ofLong? : String → Option Stop
  | "help" => some .help
  | "version" => some .version
  | _ => none

/-- A flag without its value, which may still be the next argument. -/
inductive Pending where
  | done (a : Arguments)
  | awaiting (f : Flag) (a : Arguments)

def readLong (flags : List Flag) (name : String) (value : Option String) (a : Arguments) :
    Except Stop Pending :=
  match Stop.ofLong? name with
  | some stop => .error (if value.isNone then stop else .usage)
  | none =>
    match flags.find? fun f => f.name == name with
    | none => .error .usage
    | some f =>
      match f.arity, value with
      | .switch, none => return .done (← a.addFlag f "")
      | .switch, some _ => .error .usage
      | _, some v => return .done (← a.addFlag f v)
      | _, none => .ok (.awaiting f a)

/-- Reads one more argument. A value that is awaited must not look like a flag. -/
def readArgument (flags : List Flag) (p : Pending) (s : String) : Except Stop Pending :=
  match p, Form.ofArgument s with
  | .awaiting f a, .operand => return .done (← a.addFlag f s)
  | .awaiting _ _, _ => .error .usage
  | .done a, .long name value => readLong flags name value a
  | .done _, .short letters => .error (.ofShort letters)
  | .done a, .operand => return .done (← a.addOperand s)
  | .done a, .separator => .ok (.done a)

def Pending.finish : Pending → Except Stop Arguments
  | .done a => .ok a
  | .awaiting _ _ => .error .usage

def readArguments (flags : List Flag) (args : List String) : Except Stop Arguments := do
  let named := args.takeWhile (· != "--")
  let p ← named.foldlM (readArgument flags) (.done {})
  (args.drop (named.length + 1)).foldlM Arguments.addOperand (← p.finish)

/-- The number of a text of digits, which may have a plus sign, if it has at most 64 bits. -/
def readNatural? (s : String) : Option Nat :=
  let digits := match s.toList with
    | '+' :: cs => cs
    | cs => cs
  if digits.isEmpty || !digits.all Char.isDigit then none
  else
    let n := digits.foldl (fun n c => 10 * n + (c.toNat - '0'.toNat)) 0
    if n < Nat.pow 2 64 then some n else none

end SpriteMachine.Shell
