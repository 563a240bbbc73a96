import SpriteMachine.Palette.Entry

/-!
Blocks that direct control: messages, loops and branches, clones, procedures.
-/

namespace SpriteMachine.Palette

open Step Entry

def broadcastAndWait : Recipe := fun _ =>
  [op .save,text "BROADCAST_INPUT",op .broadcastAndWait,here,label,op .running,jump .jumpIfFalse 1,
    resume .forceQueue 0,place 1,op .restore]

def events : List Entry := [
  statement "event_broadcast" fun _ => [text "BROADCAST_INPUT",op .broadcast],
  statement "event_broadcastandwait" broadcastAndWait,
  menu "event_broadcast_menu" "BROADCAST_OPTION"]

/-- The count is kept in a local and taken down by one before each round. -/
def repeatTimes : Recipe := fun _ =>
  [op .save,number "TIMES",op .setLocal [0],here,label,op .pushLocal [0],pushNumber 0.5,op .lt,
    jump .jumpIfTrue 1,op .decLocal [0],substack "SUBSTACK",resume .queue 0,place 1,op .restore]

/-- Yields in every round, also in a procedure that runs without yielding. -/
def forever : Recipe := fun _ =>
  [here,substack "SUBSTACK",resume .forceQueue 0]

def ifThen : Recipe := fun _ =>
  [label,condition "CONDITION",jump .jumpIfFalse 0,substack "SUBSTACK",place 0]

def ifElse : Recipe := fun _ =>
  [label,label,condition "CONDITION",jump .jumpIfFalse 0,substack "SUBSTACK",jump .jump 1,place 0,
    substack "SUBSTACK2",place 1]

def loopWhile (exit : Opcode) (body : List Step) : Recipe := fun _ =>
  [here,label,condition "CONDITION",jump exit 1] ++ body ++ [resume .queue 0,place 1]

def stopMode? : String → Option StopMode
  | "all" => some .all
  | "this script" => some .thisScript
  | "other scripts in sprite" | "other scripts in stage" => some .otherScripts
  | _ => none

def stop : Recipe := fun s =>
  let option := s.field "STOP_OPTION"
  match stopMode? option with
  | some mode => [op .stop [mode.word]]
  | none => [warn s!"unknown stop option {option}"]

def control : List Entry := [
  statement "control_wait" fun _ => waitSeconds [number "DURATION"],
  statement "control_repeat" repeatTimes,
  statement "control_forever" forever,
  statement "control_if" ifThen,
  statement "control_if_else" ifElse,
  statement "control_wait_until" (loopWhile .jumpIfTrue []),
  statement "control_repeat_until" (loopWhile .jumpIfTrue [substack "SUBSTACK"]),
  statement "control_while" (loopWhile .jumpIfFalse [substack "SUBSTACK"]),
  statement "control_all_at_once" fun _ => [substack "SUBSTACK"],
  statement "control_stop" stop,
  action "control_create_clone_of" ["CLONE_OPTION"] (.control .createClone),
  statement "control_delete_this_clone" fun _ => [op .deleteClone],
  action "control_incr_counter" [] (.control .incrementCounter),
  action "control_clear_counter" [] (.control .clearCounter),
  query "control_get_counter" [] (.control .counter),
  menu "control_create_clone_of_menu" "CLONE_OPTION"]

def callProcedure : Recipe := fun s =>
  match s.block.mutation with
  | none => [warn "procedures_call without a mutation"]
  | some m => m.argumentIds.map input ++ [.emit (.call m.procedure m.argumentIds.length)]

def paramIndex? (params : List String) (name : String) : Option UInt32 :=
  (params.findIdx? (· == name)).map UInt32.ofNat

/-- Outside of a procedure that has the parameter, a fixed value stands for it. -/
def parameter (o : Opcode) (otherwise : Step) : Recipe := fun s =>
  match paramIndex? s.params (s.field "VALUE") with
  | some i => [op o [i]]
  | none => [otherwise]

def procedures : List Entry := [
  statement "procedures_call" callProcedure,
  value "argument_reporter_string_number" (parameter .pushArg (pushNumber 0.0)),
  value "argument_reporter_boolean" (parameter .pushArgBoolean (pushBool false))]

end SpriteMachine.Palette
