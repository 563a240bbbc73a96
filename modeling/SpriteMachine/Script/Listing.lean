import SpriteMachine.Script
import SpriteMachine.Text.Paint
import SpriteMachine.Text.Quoted

/-!
Listings of scripts: a line for each label and each instruction.
-/

namespace SpriteMachine.Script

def offsetText (pc : Nat) : String :=
  let digits := Nat.toDigits 10 pc
  String.ofList (List.replicate (4 - digits.length) '0' ++ digits)

def operandText (s : Script) (op : Opcode) (operands : List UInt32) : String :=
  match op, operands with
  | .pushNumber, [low,high] => Layout.listing.text (numberOfWords low high)
  | .pushConstant, operands =>
    match operands.head?.bind s.constant? with
    | some text => Text.quoted text
    | none => "?"
  | .queue, [label] | .forceQueue, [label] => s!"L{label}"
  | .call, [procedure,argc,ret] =>
    s!"{Text.quotedOption (s.constant? procedure)} argc={argc} ret=L{ret}"
  | _, operands => String.intercalate " " (operands.map fun w => toString w.toNat)

def labelLines (s : Script) (pc : Nat) : List String :=
  s.labels.toList.zipIdx.filterMap fun (offset,label) =>
    if offset == pc then some (Text.Paint.on .yellow s!"L{label}:") else none

def linesFrom (s : Script) : Nat → Nat → List String
  | 0, _ => []
  | fuel + 1, pc =>
    match s.code[pc]? with
    | none => []
    | some w =>
      match Opcode.ofWord? w with
      | none =>
        s.labelLines pc ++ s!"  {offsetText pc} {Text.Paint.on .red (hexWord w)}" ::
          s.linesFrom fuel (pc + 1)
      | some op =>
        let next := pc + 1 + op.operandWords
        let detail := s.operandText op (s.code.extract (pc + 1) next).toList
        let offset := Text.Paint.on .brightBlack (offsetText pc)
        let name := Text.Paint.on .cyan op.name
        s.labelLines pc ++ s!"  {offset} {name} {Text.Paint.on .brightBlack detail}" ::
          s.linesFrom fuel next

def listing (s : Script) : String :=
  let heading := Text.Paint.on .bold "script" ++ " " ++ Text.Paint.on .bold s.name
  String.join ((heading :: s.linesFrom s.code.size 0).map (· ++ "\n"))

end SpriteMachine.Script
