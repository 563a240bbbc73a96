import SpriteMachine.Compile.Emitter
import SpriteMachine.Proofs.Assembly
import SpriteMachine.Proofs.Doubles

/-!
Where directives end up. What an assembler has written stays as it is while it writes on, so a finished script
has the instruction of every directive at the offset where the emitter stood.
-/

namespace SpriteMachine

/-- The instruction of an opcode with its operands. -/
def Instr.ofOperands (o : Opcode) (ws : List UInt32) : Instr :=
  .ofWords o (ws[0]?.getD 0) (ws[1]?.getD 0) (ws[2]?.getD 0)

theorem Instr.ofWords_congr {o : Opcode} {a b c a' b' c' : UInt32} (ha : 0 < o.operandWords → a = a')
    (hb : 1 < o.operandWords → b = b') (hc : 2 < o.operandWords → c = c') :
    Instr.ofWords o a b c = Instr.ofWords o a' b' c' := by
  cases o <;> simp_all [Instr.ofWords,Opcode.operandWords]

structure Script.Stands (s : Script) (pc : Nat) (o : Opcode) (ws : List UInt32) : Prop where
  opcode : s.code[pc]? = some o.word
  operands : ∀ i < ws.length, s.code[pc + 1 + i]? = ws[i]?

theorem Script.Stands.lt {s : Script} {pc : Nat} {o : Opcode} {ws : List UInt32} (h : s.Stands pc o ws) :
    pc + ws.length < s.code.size := by
  cases hn : ws.length with
  | zero => exact (Array.getElem?_eq_some_iff.1 h.opcode).1
  | succ n =>
    have hlast := h.operands n (by omega)
    rw [List.getElem?_eq_getElem (by omega)] at hlast
    have := (Array.getElem?_eq_some_iff.1 hlast).1
    omega

theorem Script.fetch_eq {s : Script} {pc : Nat} {o : Opcode} {ws : List UInt32} (h : s.Stands pc o ws)
    (hlen : ws.length = o.operandWords) : s.fetch pc = .ok (.ofOperands o ws,pc + 1 + ws.length) := by
  have hword : ∀ i < o.operandWords, s.word (pc + 1 + i) = ws[i]?.getD 0 := by
    intro i hi
    rw [Script.word,h.operands i (by omega)]
  unfold Script.fetch
  rw [h.opcode]
  simp only [Opcode.ofWord?_word,if_pos (hlen ▸ h.lt),hlen]
  exact congrArg (fun i => Except.ok (i,_))
    (Instr.ofWords_congr (fun h => hword 0 h) (fun h => hword 1 h) fun h => hword 2 h)

theorem append_eq_split {α : Type} {first second pre post : List α} {x : α} (h : first ++ second = pre ++ x :: post) :
    (∃ rest, first = pre ++ x :: rest ∧ post = rest ++ second) ∨ ∃ rest, pre = first ++ rest ∧ second = rest ++ x :: post := by
  rcases List.append_eq_append_iff.1 h with ⟨rest,hpre,hsecond⟩ | ⟨rest,hfirst,hpost⟩
  · exact .inr ⟨rest,hpre,hsecond⟩
  · cases rest with
    | nil => exact .inr ⟨[],by simpa using hfirst.symm,by simpa using hpost.symm⟩
    | cons y rest =>
      cases hpost
      exact .inl ⟨rest,hfirst,rfl⟩

namespace Assembler

/-- Jump operands are distinct and lie in the code. -/
structure Neat (a : Assembler) : Prop where
  inside : ∀ f ∈ a.fixups, f < a.code.size
  distinct : a.fixups.toList.Nodup

/-- What one assembler has written is the start of what another has written. -/
structure Grows (a b : Assembler) : Prop where
  size : a.code.size ≤ b.code.size
  code : ∀ i < a.code.size, b.code[i]? = a.code[i]?
  constants : ∀ i < a.constants.size, b.constants[i]? = a.constants[i]?
  fixups : ∀ i < a.code.size, (i ∈ b.fixups ↔ i ∈ a.fixups)
  neat : a.Neat → b.Neat

def Settles (a b : Assembler) : Prop :=
  ∀ label pc : Nat, a.labels[label]? = some (some pc) → b.labels[label]? = some (some pc)

theorem Settles.refl (a : Assembler) : a.Settles a := fun _ _ h => h

theorem Settles.trans {a b c : Assembler} (h : a.Settles b) (h' : b.Settles c) : a.Settles c :=
  fun label pc hl => h' label pc (h label pc hl)

theorem Settles.of_eq {a b : Assembler} (h : b.labels = a.labels) : a.Settles b :=
  fun label pc hl => by rw [h,hl]

namespace Grows

theorem refl (a : Assembler) : a.Grows a := ⟨Nat.le_refl _,fun _ _ => rfl,fun _ _ => rfl,fun _ _ => .rfl,id⟩

theorem constants_size {a b : Assembler} (h : a.Grows b) : a.constants.size ≤ b.constants.size := by
  rcases Nat.eq_zero_or_pos a.constants.size with hz | hpos
  · omega
  · have hlast := h.constants (a.constants.size - 1) (by omega)
    rw [Array.getElem?_eq_getElem (show a.constants.size - 1 < a.constants.size by omega)] at hlast
    have := (Array.getElem?_eq_some_iff.1 hlast).1
    omega

theorem trans {a b c : Assembler} (h : a.Grows b) (h' : b.Grows c) : a.Grows c where
  size := Nat.le_trans h.size h'.size
  code i hi := (h'.code i (Nat.lt_of_lt_of_le hi h.size)).trans (h.code i hi)
  constants i hi := (h'.constants i (Nat.lt_of_lt_of_le hi h.constants_size)).trans (h.constants i hi)
  fixups i hi := (h'.fixups i (Nat.lt_of_lt_of_le hi h.size)).trans (h.fixups i hi)
  neat ha := h'.neat (h.neat ha)

theorem of_eq {a b : Assembler} (hcode : b.code = a.code) (hconstants : b.constants = a.constants)
    (hfixups : b.fixups = a.fixups) : a.Grows b where
  size := Nat.le_of_eq (by rw [hcode])
  code i _ := by rw [hcode]
  constants i _ := by rw [hconstants]
  fixups i _ := by rw [hfixups]
  neat h := ⟨by rw [hfixups,hcode]; exact h.inside,by rw [hfixups]; exact h.distinct⟩

theorem word (a : Assembler) (w : UInt32) : a.Grows (a.word w) where
  size := by simp [Assembler.word]
  code i hi := by simp [Assembler.word,Array.getElem?_push,Nat.ne_of_lt hi]
  constants _ _ := rfl
  fixups _ _ := .rfl
  neat h := ⟨fun f hf => by
    have := h.inside f hf
    simp [Assembler.word]
    omega,h.distinct⟩

theorem words (a : Assembler) (ws : List UInt32) : a.Grows (a.words ws) := by
  induction ws generalizing a with
  | nil => exact .refl a
  | cons w ws ih => exact (word a w).trans (ih _)

theorem op (a : Assembler) (o : Opcode) (ws : List UInt32) : a.Grows (a.op o ws) :=
  (word a _).trans (words _ ws)

theorem constant (a : Assembler) (s : String) : a.Grows (a.constant s) := by
  unfold Assembler.constant
  split
  · exact .refl a
  · exact ⟨Nat.le_refl _,fun _ _ => rfl,
      fun i hi => by simp [Array.getElem?_push,Nat.ne_of_lt hi],fun _ _ => .rfl,fun h => ⟨h.inside,h.distinct⟩⟩

theorem newLabel (a : Assembler) : a.Grows a.newLabel := .of_eq rfl rfl rfl

theorem place (a : Assembler) (label : Nat) : a.Grows (a.place label) := .of_eq rfl rfl rfl

theorem call (a : Assembler) (procedure : String) (argc label : Nat) : a.Grows (a.call procedure argc label) :=
  (constant a procedure).trans (op _ _ _)

theorem jump (a : Assembler) (o : Opcode) (label : Nat) : a.Grows (a.jump o label) where
  size := by simp [Assembler.jump,Assembler.word]; omega
  code i hi := by
    simp [Assembler.jump,Assembler.word,Array.getElem?_push,Nat.ne_of_lt hi,
      Nat.ne_of_lt (Nat.lt_succ_of_lt hi)]
  constants _ _ := rfl
  fixups i hi := by
    simp [Assembler.jump,Assembler.word]
    omega
  neat h := by
    constructor
    · intro f hf
      simp only [Assembler.jump,Assembler.word,Array.mem_push,Array.size_push] at hf ⊢
      rcases hf with hf | rfl
      · have := h.inside f hf
        omega
      · omega
    · have hnew : a.code.size + 1 ∉ a.fixups := fun hf => by
        have := h.inside _ hf
        omega
      simp only [Assembler.jump,Assembler.word,Array.toList_push,Array.size_push]
      exact List.nodup_append.2 ⟨h.distinct,by simp,by
        rintro f hf g hg rfl
        rw [List.mem_singleton] at hg
        exact hnew (hg ▸ Array.mem_toList_iff.1 hf)⟩

end Grows

theorem words_code (a : Assembler) (ws : List UInt32) : (a.words ws).code = a.code ++ ws.toArray := by
  induction ws generalizing a with
  | nil => simp [words]
  | cons w ws ih =>
    change ((a.word w).words ws).code = _
    rw [ih]
    simp [word]

theorem words_fixups (a : Assembler) (ws : List UInt32) : (a.words ws).fixups = a.fixups := by
  induction ws generalizing a with
  | nil => rfl
  | cons w ws ih => exact ih (a.word w)

theorem op_code (a : Assembler) (o : Opcode) (ws : List UInt32) :
    (a.op o ws).code = a.code.push o.word ++ ws.toArray :=
  words_code _ ws

theorem op_fixups (a : Assembler) (o : Opcode) (ws : List UInt32) : (a.op o ws).fixups = a.fixups :=
  words_fixups _ ws

theorem words_labels (a : Assembler) (ws : List UInt32) : (a.words ws).labels = a.labels := by
  induction ws generalizing a with
  | nil => rfl
  | cons w ws ih => exact ih (a.word w)

theorem words_constants (a : Assembler) (ws : List UInt32) : (a.words ws).constants = a.constants := by
  induction ws generalizing a with
  | nil => rfl
  | cons w ws ih => exact ih (a.word w)

@[simp] theorem op_labels (a : Assembler) (o : Opcode) (ws : List UInt32) : (a.op o ws).labels = a.labels :=
  words_labels _ ws

@[simp] theorem op_constants (a : Assembler) (o : Opcode) (ws : List UInt32) :
    (a.op o ws).constants = a.constants :=
  words_constants _ ws

@[simp] theorem constant_code (a : Assembler) (s : String) : (a.constant s).code = a.code := by
  unfold constant
  split <;> rfl

@[simp] theorem constant_labels (a : Assembler) (s : String) : (a.constant s).labels = a.labels := by
  unfold constant
  split <;> rfl

@[simp] theorem constant_fixups (a : Assembler) (s : String) : (a.constant s).fixups = a.fixups := by
  unfold constant
  split <;> rfl

theorem op_size (a : Assembler) (o : Opcode) (ws : List UInt32) :
    (a.op o ws).code.size = a.code.size + 1 + ws.length := by
  simp [op_code]
  omega

theorem constants_constantIndex (a : Assembler) (s : String) :
    (a.constant s).constants[a.constantIndex s]? = some s := by
  unfold constant constantIndex
  by_cases h : a.constants.contains s
  · rw [if_pos h]
    obtain ⟨i,hi⟩ : ∃ i, a.constants.findIdx? (· == s) = some i := by
      rw [← Option.isSome_iff_exists,Array.findIdx?_isSome,Array.any_eq_true']
      exact ⟨s,by simpa using h,by simp⟩
    rw [hi,Option.getD_some]
    obtain ⟨hlt,heq,-⟩ := Array.findIdx?_eq_some_iff_getElem.1 hi
    rw [Array.getElem?_eq_getElem hlt]
    simpa using heq
  · rw [if_neg h]
    have hnone : a.constants.findIdx? (· == s) = none := by
      rw [Array.findIdx?_eq_none_iff]
      intro t ht
      have hne : ¬s ∈ a.constants := by simpa using h
      simp only [beq_eq_false_iff_ne]
      rintro rfl
      exact hne ht
    rw [hnone]
    simp

theorem patched_at {name : String} {labels : Array Nat} {fixups : List Nat} {code code' : Array UInt32}
    (h : fixups.foldlM (patch name labels) code = .ok code') (hdistinct : fixups.Nodup) {f : Nat}
    (hf : f ∈ fixups) (hlt : f < code.size) :
    ∃ w t, code[f]? = some w ∧ labels[w.toNat]? = some t ∧ code'[f]? = some (UInt32.ofNat t) := by
  induction fixups generalizing code with
  | nil => cases hf
  | cons g fixups ih =>
    rw [List.foldlM_cons] at h
    obtain ⟨code₁,h₁,h⟩ := Except.bind_eq_ok.1 h
    obtain ⟨target,htarget,rfl⟩ := patch_eq_ok h₁
    obtain ⟨hg,hdistinct⟩ := List.nodup_cons.1 hdistinct
    rcases List.mem_cons.1 hf with rfl | hf
    · refine ⟨code[f],target,Array.getElem?_eq_getElem hlt,?_,?_⟩
      · simpa [Array.getElem?_eq_getElem hlt] using htarget
      · rw [(patched_elsewhere h).2 f hg]
        simp [hlt]
    · obtain ⟨w,t,hw,ht,hcode⟩ := ih h hdistinct hf (by simpa using hlt)
      have hne : g ≠ f := fun heq => hg (heq ▸ hf)
      exact ⟨w,t,by rw [← hw,Array.getElem?_setIfInBounds_ne hne],ht,hcode⟩

end Assembler

open Assembler

/-- A script in which everything stands that an assembler has written. -/
structure Script.Holds (s : Script) (a : Assembler) : Prop where
  code : ∀ i < a.code.size, i ∉ a.fixups → s.code[i]? = a.code[i]?
  jumps : ∀ i < a.code.size, i ∈ a.fixups →
    ∃ w t, a.code[i]? = some w ∧ s.labels[w.toNat]? = some t ∧ s.code[i]? = some (UInt32.ofNat t)
  constants : ∀ i < a.constants.size, s.constants[i]? = a.constants[i]?

namespace Script.Holds

variable {s : Script} {a b : Assembler}

theorem of_build {id : Nat} (h : a.build id = .ok s) (ha : a.Neat) : s.Holds a := by
  obtain ⟨instrs,hbuilt⟩ := built_of_build h
  refine ⟨fun i _ hi => ?_,fun i hlt hi => ?_,fun i _ => by rw [hbuilt.constants]⟩
  · exact (patched_elsewhere hbuilt.patched).2 i fun hmem => hi (Array.mem_toList_iff.1 hmem)
  · exact patched_at hbuilt.patched ha.distinct (Array.mem_toList_iff.2 hi) hlt

theorem of_grows (h : s.Holds b) (hg : a.Grows b) : s.Holds a where
  code i hi hf := by
    rw [h.code i (Nat.lt_of_lt_of_le hi hg.size) fun hb => hf ((hg.fixups i hi).1 hb),hg.code i hi]
  jumps i hi hf := by
    rw [← hg.code i hi]
    exact h.jumps i (Nat.lt_of_lt_of_le hi hg.size) ((hg.fixups i hi).2 hf)
  constants i hi := by rw [h.constants i (Nat.lt_of_lt_of_le hi hg.constants_size),hg.constants i hi]

variable {o : Opcode} {ws : List UInt32} {label : Nat}

theorem stands_op (h : s.Holds (a.op o ws)) (ha : a.Neat) : s.Stands a.code.size o ws := by
  have hnew : ∀ i, a.code.size ≤ i → i ∉ (a.op o ws).fixups := by
    intro i hi hf
    rw [op_fixups] at hf
    have := ha.inside i hf
    omega
  have hsize := op_size a o ws
  constructor
  · rw [h.code _ (by omega) (hnew _ (Nat.le_refl _)),op_code]
    simp
  · intro i hi
    rw [h.code _ (by omega) (hnew _ (by omega)),op_code]
    have hlt : ¬ a.code.size + 1 + i < a.code.size + 1 := by omega
    have hsub : a.code.size + 1 + i - (a.code.size + 1) = i := by omega
    simp only [Array.getElem?_append,Array.size_push,hlt,if_false,hsub,List.getElem?_toArray]

theorem fetch_op (h : s.Holds (a.op o ws)) (ha : a.Neat) (hlen : ws.length = o.operandWords) :
    s.fetch a.code.size = .ok (.ofOperands o ws,(a.op o ws).code.size) := by
  rw [op_size]
  exact fetch_eq (h.stands_op ha) hlen

theorem stands_jump (h : s.Holds (a.jump o label)) (ha : a.Neat) (hlabel : label < 2 ^ 32) :
    ∃ t, s.labels[label]? = some t ∧ s.Stands a.code.size o [UInt32.ofNat t] := by
  have hsize : (a.jump o label).code.size = a.code.size + 2 := by simp [Assembler.jump,Assembler.word]
  have hop : (a.jump o label).code[a.code.size]? = some o.word := by
    simp only [Assembler.jump,Assembler.word]
    rw [Array.getElem?_push,if_neg (by simp),Array.getElem?_push,if_pos rfl]
  have hoperand : (a.jump o label).code[a.code.size + 1]? = some (UInt32.ofNat label) := by
    simp [Assembler.jump,Assembler.word,Array.getElem_push]
  have hfixup : a.code.size ∉ (a.jump o label).fixups := by
    intro hf
    simp only [Assembler.jump,Assembler.word,Array.mem_push,Array.size_push] at hf
    rcases hf with hf | hf
    · have := ha.inside _ hf
      omega
    · omega
  obtain ⟨w,t,hw,ht,hcode⟩ := h.jumps (a.code.size + 1) (by omega)
    (by simp [Assembler.jump,Assembler.word])
  rw [hoperand] at hw
  cases hw
  rw [UInt32.toNat_ofNat_of_lt' hlabel] at ht
  refine ⟨t,ht,?_,?_⟩
  · rw [h.code _ (by omega) hfixup,hop]
  · intro i hi
    obtain rfl : i = 0 := by simpa using hi
    exact hcode

theorem fetch_jump (h : s.Holds (a.jump o label)) (ha : a.Neat) (ho : o.operandWords = 1) (hlabel : label < 2 ^ 32) :
    ∃ t, s.labels[label]? = some t ∧
      s.fetch a.code.size = .ok (.ofOperands o [UInt32.ofNat t],(a.jump o label).code.size) := by
  have hsize : (a.jump o label).code.size = a.code.size + 2 := by simp [Assembler.jump,Assembler.word]
  obtain ⟨t,ht,hstands⟩ := h.stands_jump ha hlabel
  rw [hsize]
  exact ⟨t,ht,fetch_eq hstands ho.symm⟩

end Script.Holds

/-- Whether a directive has all its operands. -/
def Directive.isWhole : Directive → Bool
  | .op o ws => ws.length = o.operandWords
  | .bound o ws => ws.length + 1 = o.operandWords
  | .jump o _ => o.isJump
  | .resume o _ => o = .queue || o = .forceQueue
  | _ => true

/-- Whether a directive writes out first what is known about changes of the picture. -/
def Directive.flushes : Directive → Bool
  | .op o _ | .bound o _ => o.flushes
  | .place _ | .here | .jump .. | .resume .. | .call .. | .flush => true
  | _ => false

namespace Emitter

/-- The offset of what is written next. -/
def pc (e : Emitter) : Nat :=
  e.code.code.size

/-- Where the instruction of a directive goes. -/
def before (e : Emitter) (d : Directive) : Emitter :=
  if d.flushes then e.flush else e

/-- The instruction that a directive becomes in a script. -/
def written (s : Script) (e : Emitter) : Directive → Option Instr
  | .op o ws => some (.ofOperands o ws)
  | .pushNumber x => some (.pushNumber x)
  | .pushText t => some (.pushConstant (UInt32.ofNat (e.code.constantIndex t)))
  | .pushBool b => some (.pushBool b)
  | .pushVariable r => some (.pushVar (e.symbols.variableHandle r).1)
  | .pushList r => some (.list .contents (e.symbols.listHandle r).1)
  | .jump o i => some (.ofOperands o [UInt32.ofNat (s.labels[e.labelAt i]?.getD 0)])
  | .resume o i => some (.ofOperands o [UInt32.ofNat (e.labelAt i)])
  | .bound o ws => some (.ofOperands o (e.scope.handle.word :: ws))
  | .call procedure argc => some (.call (UInt32.ofNat (e.code.constantIndex procedure)) (UInt32.ofNat argc)
      (UInt32.ofNat e.code.nextLabel))
  | _ => none

theorem flush_grows (e : Emitter) : e.code.Grows e.flush.code := by
  unfold flush
  split
  · exact .refl _
  · exact .op _ _ _

theorem before_grows (e : Emitter) (d : Directive) : e.code.Grows (e.before d).code := by
  unfold before
  split
  · exact e.flush_grows
  · exact .refl _

theorem op_grows (e : Emitter) (o : Opcode) (ws : List UInt32) : e.code.Grows (e.op o ws).code := by
  unfold op
  split
  · exact e.flush_grows.trans (.op _ _ _)
  · exact .op _ _ _

theorem step_grows (e : Emitter) (d : Directive) : e.code.Grows (e.step d).code := by
  cases d with
  | op o ws => exact e.op_grows o ws
  | pushNumber x | pushBool b | pushVariable r | pushList r => exact .op _ _ _
  | pushText t => exact (Grows.constant _ _).trans (.op _ _ _)
  | place i => exact e.flush_grows.trans (.place _ _)
  | here => exact e.flush_grows.trans ((Grows.newLabel _).trans (.place _ _))
  | jump o i => exact e.flush_grows.trans (.jump _ _ _)
  | resume o i => exact e.flush_grows.trans (.op _ _ _)
  | bound o ws => exact e.op_grows o _
  | call procedure argc =>
    exact e.flush_grows.trans ((Grows.newLabel _).trans ((Grows.call _ _ _ _).trans (.place _ _)))
  | flush => exact e.flush_grows
  | enter | leave | label | bindVariable r | bindList r | visual tier | warn message => exact .of_eq rfl rfl rfl

theorem run_cons (e : Emitter) (d : Directive) (ds : List Directive) : e.run (d :: ds) = (e.step d).run ds := rfl

theorem run_append (e : Emitter) (ds ds' : List Directive) : e.run (ds ++ ds') = (e.run ds).run ds' :=
  List.foldl_append

theorem run_concat (e : Emitter) (ds : List Directive) (d : Directive) : e.run (ds ++ [d]) = (e.run ds).step d :=
  run_append e ds [d]

theorem run_grows (e : Emitter) (ds : List Directive) : e.code.Grows (e.run ds).code := by
  induction ds generalizing e with
  | nil => exact .refl _
  | cons d ds ih => exact (e.step_grows d).trans (ih _)

theorem flush_of_none {e : Emitter} (h : e.pending = .none) : e.flush = e := by
  rw [flush,if_pos h]

@[simp] theorem flush_scope (e : Emitter) : e.flush.scope = e.scope := by
  unfold flush
  split <;> rfl

@[simp] theorem flush_outer (e : Emitter) : e.flush.outer = e.outer := by
  unfold flush
  split <;> rfl

@[simp] theorem flush_symbols (e : Emitter) : e.flush.symbols = e.symbols := by
  unfold flush
  split <;> rfl

@[simp] theorem flush_pending (e : Emitter) : e.flush.pending = .none := by
  unfold flush
  split
  · assumption
  · rfl

@[simp] theorem flush_labels (e : Emitter) : e.flush.code.labels = e.code.labels := by
  unfold flush
  split
  · rfl
  · exact op_labels _ _ _

@[simp] theorem flush_constants (e : Emitter) : e.flush.code.constants = e.code.constants := by
  unfold flush
  split
  · rfl
  · exact op_constants _ _ _

@[simp] theorem flush_labelAt (e : Emitter) (i : Nat) : e.flush.labelAt i = e.labelAt i := by
  simp [labelAt]

@[simp] theorem op_scope (e : Emitter) (o : Opcode) (ws : List UInt32) : (e.op o ws).scope = e.scope := by
  unfold op
  split <;> simp [assemble]

@[simp] theorem op_outer (e : Emitter) (o : Opcode) (ws : List UInt32) : (e.op o ws).outer = e.outer := by
  unfold op
  split <;> simp [assemble]

@[simp] theorem op_symbols (e : Emitter) (o : Opcode) (ws : List UInt32) : (e.op o ws).symbols = e.symbols := by
  unfold op
  split <;> simp [assemble]

@[simp] theorem op_code_labels (e : Emitter) (o : Opcode) (ws : List UInt32) :
    (e.op o ws).code.labels = e.code.labels := by
  unfold op
  split <;> simp [assemble]

theorem step_call_labels (e : Emitter) (procedure : String) (argc : Nat) :
    (e.step (.call procedure argc)).code.labels =
      e.code.labels.push (some (e.step (.call procedure argc)).pc) := by
  have hset : ∀ (ls : Array (Option Nat)) (x : Option Nat), (ls.push none).setIfInBounds ls.size x = ls.push x := by
    intro ls x
    apply Array.ext_getElem?
    intro i
    rw [Array.getElem?_setIfInBounds,Array.getElem?_push,Array.getElem?_push]
    split
    · simp_all
    · simp_all [eq_comm]
  simp [step,assemble,Assembler.place,Assembler.call,Assembler.newLabel,Assembler.nextLabel,pc,hset]

theorem step_call_pc (e : Emitter) (procedure : String) (argc : Nat) :
    (e.step (.call procedure argc)).pc = e.flush.pc + 4 := by
  simp [step,assemble,Assembler.place,Assembler.call,Assembler.newLabel,pc,op_size]

end Emitter

namespace Script.Holds

variable {s : Script} {e : Emitter} {d : Directive}

theorem fetch_flush (h : s.Holds e.flush.code) (he : e.code.Neat) (hp : e.pending ≠ .none) :
    s.fetch e.pc = .ok (.visual e.pending.word,e.flush.pc) := by
  have hflush : e.flush = { e with code := e.code.op .visual [e.pending.word], pending := .none } := if_neg hp
  rw [hflush] at h ⊢
  exact h.fetch_op he rfl

theorem fetch_written {i : Instr} (h : s.Holds (e.step d).code) (he : e.code.Neat) (hd : d.isWhole = true)
    (hlabel : ∀ o j, d = .jump o j → e.labelAt j < 2 ^ 32) (hi : e.written s d = some i) :
    s.fetch (e.before d).pc = .ok (i,(e.step d).pc) := by
  have hneat := (e.before_grows d).neat he
  have hop : ∀ (o : Opcode) (ws : List UInt32), (e.step d).code = (e.before d).code.op o ws →
      ws.length = o.operandWords → s.fetch (e.before d).pc = .ok (.ofOperands o ws,(e.step d).pc) := by
    intro o ws hstep hlen
    unfold Emitter.pc
    rw [hstep] at h ⊢
    exact h.fetch_op hneat hlen
  cases d with
  | op o ws =>
    cases hi
    exact hop o ws rfl (by simpa [Directive.isWhole] using hd)
  | pushNumber x =>
    cases hi
    rw [hop .pushNumber [_,_] rfl rfl]
    simp [Instr.ofOperands,Instr.ofWords,numberOfWords_wordsOfNumber]
  | pushText t =>
    cases hi
    have hfetch := h.fetch_op (a := e.code.constant t) ((Grows.constant _ t).neat he) rfl
    rwa [constant_code] at hfetch
  | pushBool b =>
    cases hi
    rw [hop .pushBool [_] rfl rfl]
    cases b <;> rfl
  | pushVariable r =>
    cases hi
    exact hop .pushVar [_] rfl rfl
  | pushList r =>
    cases hi
    exact hop .pushList [_] rfl rfl
  | jump o j =>
    cases hi
    have ho : o.operandWords = 1 := by cases o <;> simp_all [Directive.isWhole,Opcode.isJump] <;> rfl
    obtain ⟨t,ht,hfetch⟩ := Script.Holds.fetch_jump (a := e.flush.code) h hneat ho (hlabel o j rfl)
    rw [ht]
    exact hfetch
  | resume o j =>
    cases hi
    have ho : o.operandWords = 1 := by cases o <;> simp_all [Directive.isWhole] <;> rfl
    exact hop o [_] rfl ho.symm
  | bound o ws =>
    cases hi
    exact hop o (_ :: ws) rfl (by simpa [Directive.isWhole] using hd)
  | call procedure argc =>
    cases hi
    have hcall := h.of_grows (Grows.place _ _)
    have hfetch := hcall.fetch_op (a := e.flush.code.newLabel.constant procedure)
      ((Grows.constant _ _).neat ((Grows.newLabel _).neat hneat)) rfl
    rw [constant_code] at hfetch
    have hindex : e.flush.code.newLabel.constantIndex procedure = e.code.constantIndex procedure := by
      simp [Assembler.constantIndex,Assembler.newLabel]
    have hnext : e.flush.code.nextLabel = e.code.nextLabel := by simp [Assembler.nextLabel]
    rw [← hindex,← hnext]
    exact hfetch
  | _ => cases hi

theorem pc_step (hi : e.written s d = none) : (e.step d).pc = (e.before d).pc := by
  cases d with
  | enter | leave | label | place i | here | bindVariable r | bindList r | visual tier | flush | warn message => rfl
  | _ => cases hi

end Script.Holds

end SpriteMachine
