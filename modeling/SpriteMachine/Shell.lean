import SpriteMachine.Project.Document
import SpriteMachine.Script.Listing
import SpriteMachine.Shell.Arguments
import SpriteMachine.Shell.Disk
import SpriteMachine.Shell.Player

/-!
The two commands: one plays a project without a screen, the other lists the code of its scripts.
-/

namespace SpriteMachine.Shell

structure Report where
  code : Nat := 0
  output : String := ""
  failure : Option String := none

inductive Tool where
  | player | lister
  deriving DecidableEq, Repr

namespace Tool

def name : Tool → String
  | .player => "scratch-run"
  | .lister => "disasm"

def ofName? (s : String) : Option Tool :=
  [player,lister].find? fun t => t.name == s

def isNatural (s : String) : Bool :=
  (readNatural? s).isSome

def flags : Tool → List Flag
  | .player => [
      ⟨"settings",.single,(!·.isEmpty)⟩,
      ⟨"frames",.single,isNatural⟩,
      ⟨"answer",.many,fun _ => true⟩,
      ⟨"fast",.switch,fun _ => true⟩,
      ⟨"seed",.single,isNatural⟩]
  | .lister => [⟨"target",.single,fun _ => true⟩]

def help : Tool → List String
  | .player => [
      "Runs a Scratch project headless, printing what its sprites say",
      "",
      "Usage: scratch-run [OPTIONS] <PROJECT>",
      "",
      "Arguments:",
      "  <PROJECT>  A `project.json`, or a directory holding an extracted project",
      "",
      "Options:",
      "      --settings <FILE>  JSON file with runtime settings. Missing keys keep their defaults",
      "      --frames <FRAMES>  Stop after this many frames even if scripts are still running [default: 1800]",
      "      --answer <TEXT>    Answers for `ask and wait`, used in order",
      "      --fast             Run frames back to back instead of at the project framerate",
      "      --seed <SEED>      Seed for random numbers",
      "  -h, --help             Print help",
      "  -V, --version          Print version"]
  | .lister => [
      "Prints the bytecode every script of a project compiles to",
      "",
      "Usage: disasm [OPTIONS] <PROJECT>",
      "",
      "Arguments:",
      "  <PROJECT>  Path to a `project.json`",
      "",
      "Options:",
      "      --target <TARGET>  Only show this sprite (or `Stage`)",
      "  -h, --help             Print help",
      "  -V, --version          Print version"]

def version (t : Tool) : String :=
  t.name ++ " 0.1.0"

end Tool

def outputOf (lines : List String) : String :=
  String.join (lines.map (· ++ "\n"))

def Tool.stop (t : Tool) : Stop → Report
  | .help => { output := outputOf t.help }
  | .version => { output := outputOf [t.version] }
  | .usage => { code := 2 }

/-- The arguments of a tool and its operand, which has to be there. -/
def Tool.arguments (t : Tool) (args : List String) : Except Stop (Arguments × String) := do
  let a ← readArguments t.flags args
  match a.operand with
  | some path => return (a,path)
  | none => throw .usage

def fail (message : String) : Report :=
  { code := 1, failure := some message }

section

variable {m : Type → Type} [Monad m]

def readSettings (disk : Disk m) (path : String) : ExceptT String m Settings := do
  match ← disk.read? path with
  | none => throw ("reading settings " ++ path)
  | some text =>
    match Settings.ofText? text with
    | some s => return s
    | none => throw ("parsing settings " ++ path)

/-- Reads and compiles a project; `trouble` is the message if its text is not one. -/
def readProgram (disk : Disk m) (path trouble : String) : ExceptT String m Program := do
  match ← disk.read? path with
  | none => throw ("reading " ++ path)
  | some text =>
    match Project.ofText text with
    | .error _ => throw trouble
    | .ok project =>
      match compile project with
      | .ok program => return program
      | .error f => throw ("compiling project: " ++ f.message)

def projectPath (disk : Disk m) (path : String) : m String := do
  if ← disk.isDirectory path then return joinPath path "project.json" else return path

structure Performance where
  player : Player
  frames : Nat
  fast : Bool

/-- Makes everything ready to play. The settings are read before the project. -/
def prepare (disk : Disk m) (clock : Clock) (a : Arguments) (path : String) :
    ExceptT String m Performance := do
  let settings ← match a.value? "settings" with
    | some path => readSettings disk path
    | none => pure {}
  let settings := match (a.value? "seed").bind readNatural? with
    | some seed => { settings with seed := some seed }
    | none => settings
  let path ← (projectPath disk path : m String)
  let program ← readProgram disk path ("parsing " ++ path)
  return {
    player := .begin (.ofProgram program settings clock) (a.values "answer")
    frames := ((a.value? "frames").bind readNatural?).getD 1800
    fast := a.has "fast" }

def listing (p : Program) (only : Option String) : List String :=
  ((p.stage :: p.sprites).filter fun t => only.all (· == t.name)).flatMap fun t =>
    Text.Paint.on .bold (Text.Paint.on .green ("== " ++ t.name ++ " ==")) ::
      t.scripts.all.map Script.listing

def Player.report (p : Player) : Report :=
  let output := outputOf p.lines.toList
  match p.fault with
  | some f => { code := 1, output, failure := some ("project halted: " ++ f.message) }
  | none => { output }

def Report.ofExcept : Except String Report → Report
  | .ok r => r
  | .error message => fail message

def Tool.run (disk : Disk m) (clock : Clock) (fuel : Nat) (t : Tool) (args : List String) : m Report :=
  match t.arguments args with
  | .error s => return t.stop s
  | .ok (a,path) =>
    match t with
    | .player => do
      let p ← (prepare disk clock a path).run
      return .ofExcept (p.map fun p => (p.player.play p.fast fuel p.frames).report)
    | .lister => do
      let p ← (readProgram disk path "parsing project").run
      return .ofExcept (p.map fun p => { output := outputOf (listing p (a.value? "target")) })

end

end SpriteMachine.Shell
