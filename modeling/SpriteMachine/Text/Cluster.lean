import SpriteMachine.Text.Ranges
import SpriteMachine.Text.ClusterTable

/-!
Extended grapheme clusters: the pieces of a text that a reader takes for one letter, divided by the
rules of the Unicode text segmentation standard.
-/

namespace SpriteMachine.Text

/-- What a character does at the ends of a cluster. -/
inductive ClusterClass where
  | carriageReturn | lineFeed | control | extend | joiner | regional | prepend | spacingMark
  | leading | vowel | trailing | leadingVowel | leadingVowelTrailing | other
  deriving DecidableEq, Repr

def isExtend (c : Char) : Bool :=
  within ClusterTable.extend c || (0x1F3FB ≤ c.toNat && c.toNat ≤ 0x1F3FF)

def clusterClass (c : Char) : ClusterClass :=
  let n := c.toNat
  if n = 0x0D then .carriageReturn
  else if n = 0x0A then .lineFeed
  else if 0x20 ≤ n && n < 0x7F then .other
  else if n = 0x200D then .joiner
  else if isExtend c then .extend
  else if within ClusterTable.control c then .control
  else if 0x1F1E6 ≤ n && n ≤ 0x1F1FF then .regional
  else if within ClusterTable.prepend c then .prepend
  else if within ClusterTable.spacingMark c then .spacingMark
  else if (0x1100 ≤ n && n ≤ 0x115F) || (0xA960 ≤ n && n ≤ 0xA97C) then .leading
  else if within ClusterTable.vowel c then .vowel
  else if (0x11A8 ≤ n && n ≤ 0x11FF) || (0xD7CB ≤ n && n ≤ 0xD7FB) then .trailing
  else if 0xAC00 ≤ n && n ≤ 0xD7A3 then
    if (n - 0xAC00) % 28 = 0 then .leadingVowel else .leadingVowelTrailing
  else .other

def isControl : ClusterClass → Bool
  | .carriageReturn | .lineFeed | .control => true
  | _ => false

/-- What the characters before a possible break leave behind. -/
structure ClusterTail where
  last : ClusterClass
  /-- The number of regional indicators at the end is odd. -/
  oddRegional : Bool
  /-- A pictograph, then marks. -/
  pictograph : Bool
  /-- A pictograph, then marks, then a joiner. -/
  joined : Bool
  /-- A consonant, then marks and linkers. -/
  consonant : Bool
  /-- A consonant, then marks and linkers with a linker among them. -/
  linked : Bool
  deriving DecidableEq, Repr

def isLinker (c : Char) : Bool :=
  within ClusterTable.conjunctLinker c

def isConjunctMark (c : Char) : Bool :=
  c.toNat != 0x200C && (c.toNat == 0x200D || isExtend c)

def ClusterTail.start (c : Char) : ClusterTail where
  last := clusterClass c
  oddRegional := clusterClass c == .regional
  pictograph := within ClusterTable.pictographic c
  joined := false
  consonant := within ClusterTable.conjunctConsonant c
  linked := false

def ClusterTail.push (t : ClusterTail) (c : Char) : ClusterTail :=
  let k := clusterClass c
  let consonant := within ClusterTable.conjunctConsonant c
  let mark := isConjunctMark c || isLinker c
  { last := k
    oddRegional := k == .regional && !t.oddRegional
    pictograph := within ClusterTable.pictographic c || (t.pictograph && k == .extend)
    joined := t.pictograph && k == .joiner
    consonant := consonant || (t.consonant && mark)
    linked := !consonant && t.consonant && mark && (t.linked || isLinker c) }

/-- Whether the next character belongs to the cluster that ends in `t`. -/
def ClusterTail.joins (t : ClusterTail) (c : Char) : Bool :=
  let k := clusterClass c
  if t.last == .carriageReturn && k == .lineFeed then true
  else if isControl t.last || isControl k then false
  else
    match t.last, k with
    | .leading, .leading | .leading, .vowel | .leading, .leadingVowel
    | .leading, .leadingVowelTrailing => true
    | .leadingVowel, .vowel | .leadingVowel, .trailing | .vowel, .vowel | .vowel, .trailing => true
    | .leadingVowelTrailing, .trailing | .trailing, .trailing => true
    | _, .extend | _, .joiner | _, .spacingMark => true
    | .prepend, _ => true
    | _, _ =>
      (t.linked && within ClusterTable.conjunctConsonant c)
        || (t.joined && within ClusterTable.pictographic c)
        || (t.oddRegional && k == .regional)

/-- The clusters of `cs`, the first of which goes on after `taken` (last character first). -/
def clustersFrom : ClusterTail → List Char → List Char → List String
  | _, taken, [] => [String.ofList taken.reverse]
  | t, taken, c :: cs =>
    if t.joins c then clustersFrom (t.push c) (c :: taken) cs
    else String.ofList taken.reverse :: clustersFrom (.start c) [c] cs

def clusters (s : String) : List String :=
  match s.toList with
  | [] => []
  | c :: cs => clustersFrom (.start c) [c] cs

end SpriteMachine.Text
