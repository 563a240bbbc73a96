import SpriteMachine.Proofs.Orderly

/-!
Reading back what was written. Whatever is written into an assembler, in whatever order labels are made, used
and placed, walking over the finished code by the lengths of its instructions meets the instructions that were
written, one after the other, with the operands that were asked for.
-/

namespace SpriteMachine

/-- The operands of the instruction at an offset. -/
def Script.operands (s : Script) (pc : Nat) (o : Opcode) : List UInt32 :=
  (s.code.extract (pc + 1) (pc + 1 + o.operandWords)).toList

theorem Script.Stands.operands_eq {s : Script} {pc : Nat} {o : Opcode} {ws : List UInt32} (h : s.Stands pc o ws)
    (hlen : ws.length = o.operandWords) : s.operands pc o = ws := by
  have hlt := h.lt
  apply List.ext_getElem?
  intro i
  unfold Script.operands
  rw [← hlen,Array.getElem?_toList,Array.getElem?_extract]
  by_cases hi : i < ws.length
  · rw [if_pos (by omega),h.operands i hi]
  · rw [if_neg (by omega),List.getElem?_eq_none (by omega)]

/-- A word stands for an offset or an index, and is that number in code whose offsets are words. -/
def Script.Denotes (s : Script) (w : UInt32) (n : Nat) : Prop :=
  w = UInt32.ofNat n ∧ (s.code.size ≤ 2 ^ 32 → w.toNat = n)

theorem Script.denotes_ofNat {s : Script} {n : Nat} (h : n < s.code.size) : s.Denotes (UInt32.ofNat n) n :=
  ⟨rfl,fun hsize => UInt32.toNat_ofNat_of_lt' (Nat.lt_of_lt_of_le h hsize)⟩

namespace Assembler

/-- What can be written into an assembler. -/
inductive Item
  | op (o : Opcode) (operands : List UInt32)
  | number (x : Float)
  | text (t : String)
  | truth (b : Bool)
  | label
  | place (label : UInt32)
  | here
  | jump (o : Opcode) (label : UInt32)
  | resume (o : Opcode) (label : UInt32)
  | call (procedure : String) (argc label : UInt32)

namespace Item

def write (a : Assembler) : Item → Assembler
  | op o ws => a.op o ws
  | number x => a.pushNumber x
  | text t => a.pushText t
  | truth b => a.pushBool b
  | label => a.newLabel
  | place l => a.place l.toNat
  | here => a.here
  | jump o l => a.jump o l.toNat
  | resume o l => a.resumeAt o l.toNat
  | call procedure argc l => a.call procedure argc.toNat l.toNat

/-- The opcode of an instruction; labels are none. -/
def opcode? : Item → Option Opcode
  | op o _ | jump o _ | resume o _ => some o
  | number _ => some .pushNumber
  | text _ => some .pushConstant
  | truth _ => some .pushBool
  | call .. => some .call
  | label | place _ | here => none

/-- The number of words that are written. -/
def size (x : Item) : Nat :=
  (x.opcode?.map (1 + ·.operandWords)).getD 0

/-- The number of labels that are made. -/
def labels : Item → Nat
  | label | here => 1
  | _ => 0

/-- Whether an instruction has all its operands, and a label that is placed is one of those made so far. -/
def isWhole (made : Nat) : Item → Bool
  | op o ws => ws.length = o.operandWords
  | jump o _ => o.isJump
  | resume o _ => o.operandWords = 1
  | place l => l.toNat < made
  | _ => true

/-- The labels that are placed, with their offsets. -/
def placed (pc made : Nat) : Item → List (Nat × Nat)
  | place l => [(l.toNat,pc)]
  | here => [(made,pc)]
  | _ => []

end Item

def writeAll (a : Assembler) (items : List Item) : Assembler :=
  items.foldl Item.write a

/-- Whether every item is whole where it is written. -/
def allWhole : Nat → List Item → Bool
  | _, [] => true
  | made, x :: items => x.isWhole made && allWhole (made + x.labels) items

def placements : Nat → Nat → List Item → List (Nat × Nat)
  | _, _, [] => []
  | pc, made, x :: items => x.placed pc made ++ placements (pc + x.size) (made + x.labels) items

def lastOffset? (placed : List (Nat × Nat)) (label : Nat) : Option Nat :=
  (placed.filter (·.1 = label)).getLast?.map Prod.snd

/-- The offset at which a label was placed last; label zero is placed at the start. -/
def labelOffset? (items : List Item) (label : UInt32) : Option Nat :=
  lastOffset? ((0,0) :: placements 0 1 items) label.toNat

/-- The offsets of the instructions with their opcodes. -/
def starts : Nat → List Item → List (Nat × Opcode)
  | _, [] => []
  | pc, x :: items => x.opcode?.toList.map (pc,·) ++ starts (pc + x.size) items

/-- The operands that an item has in a script that was built from all the items. -/
def Item.Encodes (items : List Item) (s : Script) (operands : List UInt32) : Item → Prop
  | op _ ws => operands = ws
  | number x => ∃ low high, operands = [low,high] ∧ low.toUInt64 ||| (high.toUInt64 <<< 32) = x.toBits
  | text t => ∃ w i, operands = [w] ∧ s.Denotes w i ∧ s.constants[i]? = some t
  | truth b => operands = [if b then 1 else 0]
  | jump _ l => ∃ w pc, operands = [w] ∧ s.Denotes w pc ∧ labelOffset? items l = some pc
  | resume _ l => operands = [l]
  | call procedure argc l =>
    ∃ w i, operands = [w,argc,l] ∧ s.Denotes w i ∧ s.constants[i]? = some procedure
  | label | place _ | here => False

/-! One item -/

namespace Item

variable {a : Assembler} {x : Item}

theorem write_grows (a : Assembler) (x : Item) : a.Grows (x.write a) := by
  cases x with
  | op o ws | number x | truth b | resume o l => exact .op _ _ _
  | text t => exact (Grows.constant _ _).trans (.op _ _ _)
  | label => exact .newLabel _
  | place l => exact .place _ _
  | here => exact (Grows.newLabel _).trans (.place _ _)
  | jump o l => exact .jump _ _ _
  | call procedure argc l => exact .call _ _ _ _

theorem write_size (hx : x.isWhole a.labels.size = true) :
    (x.write a).code.size = a.code.size + x.size := by
  cases x with
  | op o ws =>
    have hlen : ws.length = o.operandWords := by simpa [isWhole] using hx
    simp [write,op_size,size,opcode?,hlen,Nat.add_assoc]
  | number x => simp [write,pushNumber,op_size,size,opcode?,Opcode.operandWords]
  | text t => simp [write,pushText,op_size,size,opcode?,Opcode.operandWords]
  | truth b => simp [write,pushBool,op_size,size,opcode?,Opcode.operandWords]
  | label => rfl
  | place l => rfl
  | here => rfl
  | jump o l =>
    have ho : o.operandWords = 1 := Opcode.operandWords_of_isJump (by simpa [isWhole] using hx)
    simp [write,Assembler.jump,Assembler.word,size,opcode?,ho]
  | resume o l =>
    have ho : o.operandWords = 1 := by simpa [isWhole] using hx
    simp [write,resumeAt,op_size,size,opcode?,ho]
  | call procedure argc l => simp [write,Assembler.call,op_size,size,opcode?,Opcode.operandWords]

theorem write_labels_size (a : Assembler) (x : Item) : (x.write a).labels.size = a.labels.size + x.labels := by
  cases x <;> simp [write,labels,pushNumber,pushText,pushBool,newLabel,Assembler.place,Assembler.here,
    Assembler.jump,Assembler.word,resumeAt,Assembler.call]

/-- An instruction stands in the script where it was written, with the operands that it asks for. -/
theorem stands {items : List Item} {s : Script} {o : Opcode} (hx : x.isWhole a.labels.size = true)
    (ho : x.opcode? = some o) (ha : a.Neat) (hs : s.Holds (x.write a))
    (hconstants : s.constants.size ≤ s.code.size)
    (hlabels : ∀ (l : UInt32) (pc : Nat), s.labels[l.toNat]? = some pc →
      labelOffset? items l = some pc ∧ pc < s.code.size) :
    ∃ ws, s.Stands a.code.size o ws ∧ ws.length = o.operandWords ∧ x.Encodes items s ws := by
  -- a text is found at the index at which the assembler has it
  have hindex : ∀ {t : String} {o : Opcode} {ws : List UInt32}, s.Holds ((a.constant t).op o ws) →
      s.Denotes (UInt32.ofNat (a.constantIndex t)) (a.constantIndex t) ∧
        s.constants[a.constantIndex t]? = some t ∧ s.Stands a.code.size o ws := by
    intro t o ws h
    have htext : s.constants[a.constantIndex t]? = some t := by
      have hat := a.constants_constantIndex t
      rw [h.constants _ (by simpa using (Array.getElem?_eq_some_iff.1 hat).1),op_constants,hat]
    have hlt := (Array.getElem?_eq_some_iff.1 htext).1
    refine ⟨s.denotes_ofNat (by omega),htext,?_⟩
    have hstands := h.stands_op ((Grows.constant a t).neat ha)
    rwa [constant_code] at hstands
  cases x with
  | op o ws =>
    cases ho
    exact ⟨ws,hs.stands_op ha,by simpa [isWhole] using hx,rfl⟩
  | number x =>
    cases ho
    exact ⟨_,hs.stands_op ha,rfl,_,_,rfl,or_halves _⟩
  | text t =>
    cases ho
    obtain ⟨hdenotes,htext,hstands⟩ := hindex hs
    exact ⟨_,hstands,rfl,_,_,rfl,hdenotes,htext⟩
  | truth b =>
    cases ho
    exact ⟨_,hs.stands_op ha,rfl,rfl⟩
  | label | place l | here => cases ho
  | jump o l =>
    cases ho
    obtain ⟨pc,hpc,hstands⟩ := hs.stands_jump ha l.toNat_lt
    obtain ⟨hoffset,hlt⟩ := hlabels l pc hpc
    exact ⟨_,hstands,(Opcode.operandWords_of_isJump hx).symm,_,pc,rfl,s.denotes_ofNat hlt,hoffset⟩
  | resume o l =>
    cases ho
    exact ⟨_,hs.stands_op ha,by simpa [isWhole,eq_comm] using hx,by simp [Encodes]⟩
  | call procedure argc l =>
    cases ho
    obtain ⟨hdenotes,htext,hstands⟩ := hindex hs
    exact ⟨_,hstands,rfl,_,_,by simp,hdenotes,htext⟩

end Item

/-- The offsets of the labels of an assembler are those of a list of placements. -/
def Records (a : Assembler) (placed : List (Nat × Nat)) : Prop :=
  ∀ label, a.labels[label]?.join = lastOffset? placed label

theorem lastOffset?_append (first second : List (Nat × Nat)) (label : Nat) :
    lastOffset? (first ++ second) label = (lastOffset? second label).or (lastOffset? first label) := by
  simp only [lastOffset?,List.filter_append,List.getLast?_append]
  cases (second.filter (·.1 = label)).getLast? with
  | none | some e => simp

variable {a b : Assembler} {s : Script} {placed : List (Nat × Nat)}

theorem Records.of_labels (h : a.Records placed) (hb : b.labels = a.labels) :
    b.Records (placed ++ []) := by
  rw [List.append_nil]
  intro label
  rw [hb,h label]

theorem Records.newLabel (h : a.Records placed) :
    a.newLabel.Records placed := by
  intro label
  rw [← h label,Assembler.newLabel,Array.getElem?_push]
  split
  next heq => simp [heq]
  · rfl

theorem Records.place (h : a.Records placed) {label : Nat}
    (hlabel : label < a.labels.size) : (a.place label).Records (placed ++ [(label,a.code.size)]) := by
  intro l
  rw [lastOffset?_append,← h l,Assembler.place,Array.getElem?_setIfInBounds]
  by_cases hl : label = l
  · subst hl
    simp [lastOffset?,hlabel]
  · simp [hl,lastOffset?]

theorem Records.write (h : a.Records placed) {x : Item} (hx : x.isWhole a.labels.size = true) :
    (x.write a).Records (placed ++ x.placed a.code.size a.labels.size) := by
  cases x with
  | op o ws | number x | truth b | resume o l => exact h.of_labels (op_labels _ _ _)
  | text t | call procedure argc l => exact h.of_labels ((op_labels _ _ _).trans (constant_labels _ _))
  | label => exact (List.append_nil placed).symm ▸ h.newLabel
  | place l => exact h.place (by simpa [Item.isWhole] using hx)
  | here => exact h.newLabel.place (by simp [Assembler.newLabel,nextLabel])
  | jump o l => exact h.of_labels rfl

/-- Texts are kept once, and each of them is named by an instruction. -/
structure Frugal (a : Assembler) : Prop where
  distinct : a.constants.toList.Nodup
  named : a.constants.size ≤ a.code.size

theorem Frugal.of_constants (h : a.Frugal) (hg : a.Grows b) (hb : b.constants = a.constants) : b.Frugal :=
  ⟨hb ▸ h.distinct,hb ▸ Nat.le_trans h.named hg.size⟩

theorem Frugal.constant (h : a.Frugal) (t : String) (o : Opcode) (ws : List UInt32) :
    ((a.constant t).op o ws).Frugal := by
  have hnamed := h.named
  constructor
  · rw [op_constants,Assembler.constant]
    split
    · exact h.distinct
    next hnew =>
      have hnot : t ∉ a.constants.toList := by simpa using hnew
      rw [Array.toList_push]
      refine List.nodup_append.2 ⟨h.distinct,by simp,?_⟩
      rintro u hu v hv rfl
      exact hnot (List.mem_singleton.1 hv ▸ hu)
  · have hsize : (a.constant t).constants.size ≤ a.constants.size + 1 := by
      unfold Assembler.constant
      split <;> simp
    rw [op_constants,op_size,constant_code]
    omega

theorem Frugal.write (h : a.Frugal) (x : Item) : (x.write a).Frugal := by
  have hg := x.write_grows a
  cases x with
  | op o ws | number x | truth b | resume o l => exact h.of_constants hg (op_constants _ _ _)
  | text t => exact h.constant t _ _
  | label | place l | here | jump o l => exact h.of_constants hg rfl
  | call procedure argc l => exact h.constant procedure _ _

/-! All items -/

theorem writeAll_grows (a : Assembler) (items : List Item) : a.Grows (a.writeAll items) := by
  induction items generalizing a with
  | nil => exact .refl a
  | cons x items ih => exact (x.write_grows a).trans (ih _)

theorem Frugal.writeAll (h : a.Frugal) (items : List Item) : (a.writeAll items).Frugal := by
  induction items generalizing a with
  | nil => exact h
  | cons x items ih => exact ih (h.write x)

theorem Records.writeAll (h : a.Records placed) {items : List Item}
    (hitems : allWhole a.labels.size items = true) :
    (a.writeAll items).Records (placed ++ placements a.code.size a.labels.size items) := by
  induction items generalizing a placed with
  | nil => simpa [placements,Assembler.writeAll] using h
  | cons x items ih =>
    simp only [allWhole,Bool.and_eq_true] at hitems
    have hrest := ih (h.write hitems.1) (by rw [x.write_labels_size]; exact hitems.2)
    rwa [Item.write_size hitems.1,x.write_labels_size,List.append_assoc] at hrest

/-- An item is what is found at an offset of the script that was built from all the items. -/
structure Item.Found (items : List Item) (s : Script) (x : Item) (e : Nat × Opcode) : Prop where
  opcode : x.opcode? = some e.2
  operands : x.Encodes items s (s.operands e.1 e.2)
  fetch : s.fetch e.1 = .ok (.ofOperands e.2 (s.operands e.1 e.2),e.1 + 1 + e.2.operandWords)

theorem reads {all : List Item} (hconstants : s.constants.size ≤ s.code.size)
    (hlabels : ∀ (l : UInt32) (pc : Nat), s.labels[l.toNat]? = some pc → labelOffset? all l = some pc ∧ pc < s.code.size)
    {items : List Item} (hitems : allWhole a.labels.size items = true) (ha : a.Neat) (hs : s.Holds (a.writeAll items))
    (hsize : s.code.size = (a.writeAll items).code.size) :
    Walk s.code a.code.size (starts a.code.size items) ∧
      List.Forall₂ (Item.Found all s) (items.filter (·.opcode?.isSome)) (starts a.code.size items) := by
  induction items generalizing a with
  | nil => exact ⟨.stop (Nat.le_of_eq hsize),.nil⟩
  | cons x items ih =>
    simp only [allWhole,Bool.and_eq_true] at hitems
    obtain ⟨hx,hitems⟩ := hitems
    obtain ⟨hwalk,hread⟩ := @ih (x.write a) (by rw [x.write_labels_size]; exact hitems)
      ((x.write_grows a).neat ha) hs hsize
    rw [Item.write_size hx] at hwalk hread
    cases ho : x.opcode? with
    | none =>
      have hnone : x.size = 0 := by simp [Item.size,ho]
      rw [hnone] at hwalk hread
      simpa [starts,ho,hnone] using And.intro hwalk hread
    | some o =>
      obtain ⟨ws,hstands,hlen,hencodes⟩ := Item.stands hx ho ha (hs.of_grows (writeAll_grows _ items))
        hconstants hlabels
      have hlt := hstands.lt
      have hnext : a.code.size + x.size = a.code.size + 1 + o.operandWords := by simp [Item.size,ho,Nat.add_assoc]
      rw [hnext] at hwalk hread
      have hoperands := hstands.operands_eq hlen
      have hfetch := Script.fetch_eq hstands hlen
      rw [← hoperands] at hencodes
      rw [← hoperands,hoperands,hlen,← hoperands] at hfetch
      have hfound : x.Found all s (a.code.size,o) := ⟨ho,hencodes,hfetch⟩
      have hwalk' : Walk s.code a.code.size ((a.code.size,o) :: starts (a.code.size + 1 + o.operandWords) items) :=
        .step hstands.opcode (Opcode.ofWord?_word o) (by omega) hwalk
      simpa [starts,ho,hnext] using And.intro hwalk' (And.intro hfound hread)

theorem Built.labels_lt {instrs : List (Nat × Opcode)} (h : a.Built instrs s) {l pc : Nat} (hl : s.labels[l]? = some pc) :
    pc < s.code.size := by
  have hmem : pc ∈ s.labels.toList := Array.mem_toList_iff.2 (Array.mem_of_getElem? hl)
  obtain ⟨e,he,rfl⟩ := List.mem_map.1 (h.aligned pc hmem)
  have hlt := (h.walk.mem he).2.1
  rw [(patched_elsewhere h.patched).1]
  omega

/-- Walking over the code that was built from whole items meets exactly the instructions among them, in order,
each with its operands, and a run finds the same instructions there. Texts are kept once. -/
theorem instructions_of_writeAll {name : String} {id : Nat} {items : List Item} {s : Script}
    (hitems : allWhole 1 items = true) (hbuild : (writeAll { name } items).build id = .ok s) :
    ∃ instrs : List (Nat × Opcode),
      instructions s.name s.code s.code.size 0 = .ok instrs ∧
      List.Forall₂ (Item.Found items s) (items.filter (·.opcode?.isSome)) instrs ∧
      s.constants.toList.Nodup := by
  have hneat : ({ name } : Assembler).Neat := ⟨by simp,by simp⟩
  have hfrugal : (writeAll { name } items).Frugal := Frugal.writeAll ⟨by simp,by simp⟩ items
  have hrecords : Records { name } [(0,0)] := by
    intro label
    cases label <;> simp [lastOffset?]
  obtain ⟨instrs,hbuilt⟩ := built_of_build hbuild
  have hsize : s.code.size = (writeAll { name } items).code.size := (patched_elsewhere hbuilt.patched).1
  have hlabels : ∀ (l : UInt32) (pc : Nat), s.labels[l.toNat]? = some pc →
      labelOffset? items l = some pc ∧ pc < s.code.size := by
    intro l pc hl
    have hlabel : (writeAll { name } items).labels[l.toNat]? = some (some pc) := by
      rw [← Array.getElem?_toList,hbuilt.labels,List.getElem?_map,Array.getElem?_toList,hl,Option.map_some]
    have hlast := hrecords.writeAll hitems l.toNat
    rw [hlabel] at hlast
    exact ⟨hlast.symm,hbuilt.labels_lt hl⟩
  have hconstants : s.constants.size ≤ s.code.size := by
    rw [hbuilt.constants,hsize]
    exact hfrugal.named
  have hholds : s.Holds (writeAll { name } items) := .of_build hbuild ((writeAll_grows _ _).neat hneat)
  obtain ⟨hwalk,hfound⟩ := reads (a := { name }) hconstants hlabels hitems hneat hholds hsize
  exact ⟨_,instructions_of_walk (by simp) hwalk,hfound,hbuilt.constants ▸ hfrugal.distinct⟩

/-- A jump ahead over a number, a jump back to a label that was placed twice, and a text that is used twice. -/
def sampleItems : List Item :=
  [.label,.label,.place 1,.truth true,.jump .jumpIfTrue 2,.number 0.5,.text "go",.place 1,.op .pop [],
    .place 2,.text "go",.jump .jumpIfFalse 1,.call "go" 1 1]

def sampleDecoded : Script where
  id := 7
  name := "sample"
  code := #[2,1,53,10,1,0,1071644672,0,0,3,0,0,52,9,58,0,1,1]
  constants := #["go"]
  labels := #[0,9,10]

theorem instructions_of_writeAll_sampleItems :
    allWhole 1 sampleItems = true ∧ (writeAll { name := "sample" } sampleItems).build 7 = .ok sampleDecoded ∧
    ∃ instrs : List (Nat × Opcode),
      instructions sampleDecoded.name sampleDecoded.code sampleDecoded.code.size 0 = .ok instrs ∧
      List.Forall₂ (Item.Found sampleItems sampleDecoded) (sampleItems.filter (·.opcode?.isSome)) instrs ∧
      sampleDecoded.constants.toList.Nodup :=
  have hbuild : (writeAll { name := "sample" } sampleItems).build 7 = .ok sampleDecoded := by
    with_unfolding_all rfl
  ⟨by decide,hbuild,instructions_of_writeAll (by decide) hbuild⟩

end Assembler

end SpriteMachine
