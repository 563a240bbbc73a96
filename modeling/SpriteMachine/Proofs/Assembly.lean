import Mathlib
import SpriteMachine.Script.Assembler

/-!
What building a script comes to: a walk over the instructions of the code, labels that all stand before
one of them, jumps that hold offsets instead of labels, and what each instruction was checked for.
-/

namespace SpriteMachine

variable {ε α β : Type}

theorem Except.bind_eq_ok {x : Except ε α} {f : α → Except ε β} {b : β} :
    (x >>= f) = .ok b ↔ ∃ a, x = .ok a ∧ f a = .ok b := by
  cases x with
  | error e | ok a => simp [bind,Except.bind]

theorem Except.mem_toOption {x : Except ε α} {a : α} : a ∈ x.toOption ↔ x = .ok a := by
  cases x <;> simp [Except.toOption]

theorem Except.throw_or_eq_ok {c : Prop} [Decidable c] {e : ε} {f : α → Except ε β} {x : Except ε β} {b : β} :
    (if c then throw e >>= f else x) = .ok b ↔ ¬c ∧ x = .ok b := by
  by_cases hc : c
  · simp [hc,throw,throwThe,MonadExceptOf.throw,bind,Except.bind]
  · simp [hc]

theorem Opcode.ofWord?_word (o : Opcode) : Opcode.ofWord? o.word = some o := by cases o <;> rfl

namespace Assembler

/-- The instructions of some code from an offset to its end. -/
inductive Walk (code : Array UInt32) : Nat → List (Nat × Opcode) → Prop
  | stop {pc : Nat} (h : code.size ≤ pc) : Walk code pc []
  | step {pc : Nat} {w : UInt32} {o : Opcode} {rest : List (Nat × Opcode)} (hw : code[pc]? = some w)
      (ho : Opcode.ofWord? w = some o) (hlt : pc + o.operandWords < code.size)
      (hrest : Walk code (pc + 1 + o.operandWords) rest) : Walk code pc ((pc,o) :: rest)

variable {name : String} {code code' : Array UInt32} {pc : Nat} {instrs : List (Nat × Opcode)} {o : Opcode} {a : Assembler}
  {starts : List Nat} {labels : Array Nat}

theorem walk_of_instructions {fuel : Nat} (hfuel : code.size ≤ pc + fuel) (h : instructions name code fuel pc = .ok instrs) :
    Walk code pc instrs := by
  induction fuel generalizing pc instrs with
  | zero =>
    cases h
    exact .stop hfuel
  | succ fuel ih =>
    unfold instructions at h
    split at h
    next hw =>
      cases h
      exact .stop (by simpa using hw)
    next w hw =>
      split at h
      · cases h
      next o ho =>
        split at h
        · cases h
        next hlt =>
          obtain ⟨rest,hrest,hr⟩ := Except.bind_eq_ok.1 h
          cases hr
          exact .step hw ho (by omega) (ih (by omega) hrest)

/-- An instruction of a walk is whole, and the next one follows it unless it is the last. -/
theorem Walk.mem {q : Nat} (h : Walk code pc instrs) (hq : (q,o) ∈ instrs) :
    (code[q]?).bind Opcode.ofWord? = some o ∧ q + o.operandWords < code.size ∧
      (q + 1 + o.operandWords ∈ instrs.map Prod.fst ∨ instrs.getLast? = some (q,o)) := by
  induction h with
  | stop h => cases hq
  | @step pc w o' rest hw ho hlt hrest ih =>
    rcases List.mem_cons.1 hq with heq | hq
    · cases heq
      refine ⟨by simp [hw,ho],hlt,?_⟩
      cases hrest with
      | stop h => exact .inr rfl
      | step hw' ho' hlt' hrest' => exact .inl (by simp)
    · obtain ⟨hd,hl,hn⟩ := ih hq
      refine ⟨hd,hl,?_⟩
      rcases hn with hn | hn
      · exact .inl (List.mem_cons_of_mem _ hn)
      · refine .inr ?_
        cases rest with
        | nil => cases hq
        | cons e rest => simpa using hn

theorem placed_eq_ok {labels : List Nat} (h : a.placed starts = .ok labels) :
    a.labels.toList = labels.map some ∧ ∀ pc ∈ labels, pc ∈ starts := by
  unfold placed at h
  generalize a.labels.toList = offsets at h
  obtain ⟨k,hk⟩ : ∃ k, offsets.zipIdx = offsets.zipIdx k := ⟨0,rfl⟩
  rw [hk] at h
  clear hk
  induction offsets generalizing k labels with
  | nil =>
    cases h
    simp
  | cons offset offsets ih =>
    rw [List.zipIdx_cons,List.mapM_cons] at h
    obtain ⟨pc,hpc,h⟩ := Except.bind_eq_ok.1 h
    obtain ⟨rest,hrest,h⟩ := Except.bind_eq_ok.1 h
    cases h
    obtain ⟨hlabels,hmem⟩ := ih (k + 1) hrest
    cases offset with
    | none => cases hpc
    | some offset =>
      simp only at hpc
      split at hpc
      next hin =>
        cases hpc
        refine ⟨by simp [hlabels],?_⟩
        intro q hq
        rcases List.mem_cons.1 hq with rfl | hq
        · simpa using hin
        · exact hmem q hq
      · cases hpc

theorem patch_eq_ok {operand : Nat} (h : patch name labels code operand = .ok code') :
    ∃ target, labels[(code[operand]?.getD 0).toNat]? = some target ∧
      code' = code.setIfInBounds operand (UInt32.ofNat target) := by
  unfold patch at h
  simp only at h
  split at h
  next target ht =>
    cases h
    exact ⟨target,ht,rfl⟩
  · cases h

theorem patched_elsewhere {fixups : List Nat} (h : fixups.foldlM (patch name labels) code = .ok code') :
    code'.size = code.size ∧ ∀ i, i ∉ fixups → code'[i]? = code[i]? := by
  induction fixups generalizing code with
  | nil =>
    cases h
    simp
  | cons f fixups ih =>
    rw [List.foldlM_cons] at h
    obtain ⟨code₁,h₁,h⟩ := Except.bind_eq_ok.1 h
    obtain ⟨target,-,rfl⟩ := patch_eq_ok h₁
    obtain ⟨hsize,hrest⟩ := ih h
    refine ⟨by simpa using hsize,?_⟩
    intro i hi
    simp only [List.mem_cons,not_or] at hi
    rw [hrest i hi.2,Array.getElem?_setIfInBounds_ne (Ne.symm hi.1)]

theorem check_eq_ok (h : a.check starts code pc = .ok ()) (ho : (code[pc]?).bind Opcode.ofWord? = some o) :
    (∀ i, o.labelOperand? = some i → (code[pc + 1 + i]?.getD 0).toNat < a.labels.size) ∧
    (o.isJump = true → (code[pc + 1]?.getD 0).toNat ∈ starts) ∧
    (o = .pushConstant ∨ o = .call → (code[pc + 1]?.getD 0).toNat < a.constants.size) := by
  unfold check at h
  rw [ho] at h
  simp only [Nat.add_zero] at h
  split at h
  · cases h
  next hl =>
    split at h
    · cases h
    next hj =>
      split at h
      · cases h
      next hc =>
        refine ⟨?_,?_,?_⟩
        · intro i hi
          simpa [hi] using hl
        · intro ho
          simpa [ho] using hj
        · intro ho
          have hd : decide (o = .pushConstant) || decide (o = .call) := by simpa using ho
          simpa [hd] using hc

/-- A script that was built from an assembler, with the instructions that were walked over. -/
structure Built (a : Assembler) (instrs : List (Nat × Opcode)) (s : Script) : Prop where
  walk : Walk a.code 0 instrs
  ends : ∃ e, instrs.getLast? = some e ∧ e.2.isTerminator = true
  constants : s.constants = a.constants
  labels : a.labels.toList = s.labels.toList.map some
  aligned : ∀ pc ∈ s.labels.toList, pc ∈ instrs.map Prod.fst
  patched : a.fixups.toList.foldlM (patch a.name s.labels) a.code = .ok s.code
  checked : ∀ pc ∈ instrs.map Prod.fst, a.check (instrs.map Prod.fst) s.code pc = .ok ()

theorem forM_eq_ok {ε α : Type} {f : α → Except ε Unit} {l : List α} (h : l.forM f = .ok ()) :
    ∀ x ∈ l, f x = .ok () := by
  induction l with
  | nil => simp
  | cons y l ih =>
    rw [List.forM_eq_forM,List.forM_cons] at h
    obtain ⟨u,hu,h⟩ := Except.bind_eq_ok.1 h
    intro x hx
    rcases List.mem_cons.1 hx with rfl | hx
    · exact hu
    · exact ih h x hx

theorem built_of_build {id : Nat} {s : Script} (h : a.build id = .ok s) : ∃ instrs, a.Built instrs s := by
  unfold build at h
  obtain ⟨instrs,hinstrs,h⟩ := Except.bind_eq_ok.1 h
  obtain ⟨hends,h⟩ := Except.throw_or_eq_ok.1 h
  obtain ⟨labels,hlabels,h⟩ := Except.bind_eq_ok.1 h
  obtain ⟨code,hcode,h⟩ := Except.bind_eq_ok.1 h
  obtain ⟨u',hchecked,h⟩ := Except.bind_eq_ok.1 h
  cases h
  obtain ⟨hplaced,haligned⟩ := placed_eq_ok hlabels
  refine ⟨instrs,walk_of_instructions (by simp) hinstrs,?_,rfl,by simpa using hplaced,
    by simpa using haligned,?_,?_⟩
  · cases hlast : instrs.getLast? with
    | none => simp [hlast] at hends
    | some e => exact ⟨e,rfl,by simpa [hlast] using hends⟩
  · simpa using hcode
  · exact forM_eq_ok hchecked

end Assembler

end SpriteMachine
