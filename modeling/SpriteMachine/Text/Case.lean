import SpriteMachine.Text.Ranges
import SpriteMachine.Text.CaseTable

/-!
Lower and upper case of texts, with the full mappings of the Unicode standard: a character may become
several, and a capital sigma that ends a word becomes the final small sigma.
-/

namespace SpriteMachine.Text

def runImage? (runs : List (Nat × Nat × Nat × Nat)) (c : Char) : Option Char :=
  let n := c.toNat
  runs.findSome? fun (first,last,step,image) =>
    if first ≤ n && n ≤ last && (n - first) % step == 0 then some (Char.ofNat (image + (n - first)))
    else none

def lowerChar (c : Char) : List Char :=
  if c.toNat < 0x80 then [c.toLower]
  else if c.toNat = 0x130 then ['i',Char.ofNat 0x307]
  else [(runImage? CaseTable.lowerRuns c).getD c]

def upperChar (c : Char) : List Char :=
  if c.toNat < 0x80 then [c.toUpper]
  else match CaseTable.upperExpansions.lookup c.toNat with
    | some cs => cs.map Char.ofNat
    | none => [(runImage? CaseTable.upperRuns c).getD c]

/-- Whether the first character that counts for the case of a word is a letter with a case. -/
def startsCased (cs : List Char) : Bool :=
  match cs.find? fun c => !within CaseTable.caseIgnorable c with
  | some c => within CaseTable.cased c
  | none => false

/-- Lower case of `cs` after the characters `before`, the nearest one first. -/
def lowerFrom : List Char → List Char → List Char
  | _, [] => []
  | before, c :: cs =>
    let image :=
      if c.toNat = 0x3A3 then [Char.ofNat (if startsCased before && !startsCased cs then 0x3C2 else 0x3C3)]
      else lowerChar c
    image ++ lowerFrom (c :: before) cs

def lower (s : String) : String :=
  String.ofList (lowerFrom [] s.toList)

end SpriteMachine.Text
