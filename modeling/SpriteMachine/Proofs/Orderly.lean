import SpriteMachine.Proofs.Tally

/-!
Code in order: whole instructions one after the other, whose labels and constants exist, and labels that stand
before them. Directives that pass the tally keep an emitter's code in order, and a script can be built from it.
-/

namespace SpriteMachine

def Opcode.isPlain (o : Opcode) : Bool :=
  !(o.isJump || o.labelOperand?.isSome || o = .pushConstant || o = .call)

variable {o : Opcode} {ws : List UInt32}

theorem Opcode.lt_of_labelOperand? {i : Nat} (h : o.labelOperand? = some i) : i < o.operandWords := by
  cases o <;> cases h <;> decide

theorem Opcode.labelOperand?_of_isJump (h : o.isJump = true) : o.labelOperand? = none := by
  cases o <;> first | rfl | cases h

theorem Opcode.operandWords_of_isJump (h : o.isJump = true) : o.operandWords = 1 := by
  cases o <;> first | rfl | cases h

namespace Assembler

/-- Whether the labels and constants exist to which an instruction that was written at an offset refers. A
jump holds a label until the script is built. -/
structure Refers (a : Assembler) (pc : Nat) (o : Opcode) : Prop where
  label : ∀ i, o.labelOperand? = some i → (a.code[pc + 1 + i]?.getD 0).toNat < a.labels.size
  jump : o.isJump = true → pc + 1 ∈ a.fixups ∧ (a.code[pc + 1]?.getD 0).toNat < a.labels.size
  constant : o = .pushConstant ∨ o = .call → (a.code[pc + 1]?.getD 0).toNat < a.constants.size

/-- The code is made of instructions, which are given with their offsets. -/
structure Orderly (a : Assembler) (instrs : List (Nat × Opcode)) : Prop where
  walk : Walk a.code 0 instrs
  labels : ∀ {label pc : Nat}, a.labels[label]? = some (some pc) → pc ∈ instrs.map Prod.fst ∨ pc = a.code.size
  fixups : ∀ f ∈ a.fixups, ∃ pc o, f = pc + 1 ∧ (pc,o) ∈ instrs ∧ o.isJump = true
  refers : ∀ {pc : Nat} {o : Opcode}, (pc,o) ∈ instrs → a.Refers pc o

variable {code : Array UInt32} {pc q : Nat} {o : Opcode} {labels : Array Nat} {starts : List Nat}

theorem Walk.write {instrs : List (Nat × Opcode)} (h : Walk code pc instrs) (hpc : pc ≤ code.size) {ws : List UInt32}
    (hlen : ws.length = o.operandWords) : Walk (code.push o.word ++ ws.toArray) pc (instrs ++ [(code.size,o)]) := by
  have hsize : (code.push o.word ++ ws.toArray).size = code.size + 1 + o.operandWords := by
    simp only [Array.size_append,Array.size_push,List.size_toArray,hlen]
  induction h with
  | @stop pc h =>
    obtain rfl : pc = code.size := by omega
    refine .step ?_ (Opcode.ofWord?_word o) (by omega) (.stop (by omega))
    simp
  | @step pc w o' rest hw ho hlt _ ih =>
    refine .step ?_ ho (by omega) (ih (by omega))
    have hlt' : pc < code.size := by omega
    rw [Array.getElem?_append_left (by simp; omega),Array.getElem?_push,if_neg (by omega),hw]

variable {a b : Assembler} {instrs : List (Nat × Opcode)}

theorem Refers.mono (h : a.Refers pc o) (hin : pc + o.operandWords < a.code.size) (hg : a.Grows b)
    (hlabels : a.labels.size ≤ b.labels.size) : b.Refers pc o where
  label i hi := by
    have hlt := Opcode.lt_of_labelOperand? hi
    rw [hg.code _ (by omega)]
    exact Nat.lt_of_lt_of_le (h.label i hi) hlabels
  jump ho := by
    have hwords := Opcode.operandWords_of_isJump ho
    obtain ⟨hfix,hlabel⟩ := h.jump ho
    rw [hg.fixups _ (by omega),hg.code _ (by omega)]
    exact ⟨hfix,Nat.lt_of_lt_of_le hlabel hlabels⟩
  constant ho := by
    have hwords : 1 ≤ o.operandWords := by rcases ho with rfl | rfl <;> decide
    rw [hg.code _ (by omega)]
    exact Nat.lt_of_lt_of_le (h.constant ho) hg.constants_size

namespace Orderly

theorem inside (h : a.Orderly instrs) (hpc : (pc,o) ∈ instrs) :
    pc + o.operandWords < a.code.size :=
  (h.walk.mem hpc).2.1

theorem start_lt (h : a.Orderly instrs) (hpc : pc ∈ instrs.map Prod.fst) : pc < a.code.size := by
  obtain ⟨⟨pc,o⟩,hmem,rfl⟩ := List.mem_map.1 hpc
  have hin := h.inside hmem
  omega

theorem relabel (h : a.Orderly instrs) (hg : a.Grows b) (hcode : b.code = a.code) (hfix : b.fixups = a.fixups)
    (hsize : a.labels.size ≤ b.labels.size)
    (hlabels : ∀ {label pc : Nat}, b.labels[label]? = some (some pc) →
      a.labels[label]? = some (some pc) ∨ pc = a.code.size) : b.Orderly instrs where
  walk := by
    rw [hcode]
    exact h.walk
  labels hl := by
    rw [hcode]
    rcases hlabels hl with hold | hnew
    · exact h.labels hold
    · exact .inr hnew
  fixups := by
    rw [hfix]
    exact h.fixups
  refers hpc := (h.refers hpc).mono (h.inside hpc) hg hsize

theorem write (h : a.Orderly instrs) (hg : a.Grows b)
    (hlen : ws.length = o.operandWords) (hcode : b.code = a.code.push o.word ++ ws.toArray)
    (hlabels : b.labels = a.labels)
    (hfix : ∀ f ∈ b.fixups, f ∈ a.fixups ∨ f = a.code.size + 1 ∧ o.isJump = true)
    (hrefers : b.Refers a.code.size o) :
    b.Orderly (instrs ++ [(a.code.size,o)]) ∧
      ∀ {label pc : Nat}, b.labels[label]? = some (some pc) →
        pc ∈ (instrs ++ [(a.code.size,o)]).map Prod.fst := by
  have hstarts : ∀ {label pc : Nat}, b.labels[label]? = some (some pc) →
      pc ∈ (instrs ++ [(a.code.size,o)]).map Prod.fst := by
    intro label pc hl
    rw [hlabels] at hl
    rw [List.map_append,List.mem_append]
    rcases h.labels hl with hold | rfl
    · exact .inl hold
    · exact .inr (by simp)
  refine ⟨⟨?_,fun hl => .inl (hstarts hl),?_,?_⟩,hstarts⟩
  · rw [hcode]
    exact h.walk.write (Nat.zero_le _) hlen
  · intro f hf
    rcases hfix f hf with hold | ⟨rfl,ho⟩
    · obtain ⟨pc,o',hpc,hmem,hjump⟩ := h.fixups f hold
      exact ⟨pc,o',hpc,List.mem_append_left _ hmem,hjump⟩
    · exact ⟨_,o,rfl,by simp,ho⟩
  · intro pc o' hmem
    rcases List.mem_append.1 hmem with hold | hnew
    · exact (h.refers hold).mono (h.inside hold) hg (Nat.le_of_eq (by rw [hlabels]))
    · cases List.mem_singleton.1 hnew
      exact hrefers

theorem op (h : a.Orderly instrs) (hlen : ws.length = o.operandWords)
    (hjump : o.isJump = false)
    (hlabel : ∀ i, o.labelOperand? = some i → (ws[i]?.getD 0).toNat < a.labels.size)
    (hconstant : o = .pushConstant ∨ o = .call → (ws[0]?.getD 0).toNat < a.constants.size) :
    (a.op o ws).Orderly (instrs ++ [(a.code.size,o)]) ∧
      ∀ {label pc : Nat}, (a.op o ws).labels[label]? = some (some pc) →
        pc ∈ (instrs ++ [(a.code.size,o)]).map Prod.fst := by
  have hword : ∀ i, (a.op o ws).code[a.code.size + 1 + i]? = ws[i]? := by
    intro i
    rw [op_code,Array.getElem?_append_right (by simp)]
    simp
  refine h.write (.op a o ws) hlen (op_code a o ws) (op_labels a o ws) (fun f hf => .inl ?_) ⟨?_,?_,?_⟩
  · rwa [op_fixups] at hf
  · intro i hi
    rw [hword,op_labels]
    exact hlabel i hi
  · intro ho
    rw [hjump] at ho
    cases ho
  · intro ho
    have h0 := hword 0
    rw [Nat.add_zero] at h0
    rw [h0,op_constants]
    exact hconstant ho

theorem plain (h : a.Orderly instrs) (hlen : ws.length = o.operandWords)
    (ho : o.isPlain = true) :
    (a.op o ws).Orderly (instrs ++ [(a.code.size,o)]) ∧
      ∀ {label pc : Nat}, (a.op o ws).labels[label]? = some (some pc) →
        pc ∈ (instrs ++ [(a.code.size,o)]).map Prod.fst := by
  simp only [Opcode.isPlain,Bool.not_eq_true',Bool.or_eq_false_iff,decide_eq_false_iff_not,
    Option.isSome_eq_false_iff,Option.isNone_iff_eq_none] at ho
  obtain ⟨⟨⟨hjump,hlabel⟩,hconstant⟩,hcall⟩ := ho
  refine h.op hlen hjump (fun i hi => ?_) fun hc => (hc.elim hconstant hcall).elim
  rw [hlabel] at hi
  cases hi

theorem jump (h : a.Orderly instrs) {label : Nat} (ho : o.isJump = true)
    (hlabel : label < a.labels.size) (hsize : a.labels.size ≤ 2 ^ 32) :
    (a.jump o label).Orderly (instrs ++ [(a.code.size,o)]) := by
  have hwords := Opcode.operandWords_of_isJump ho
  have hword : (a.jump o label).code[a.code.size + 1]? = some (UInt32.ofNat label) := by
    simp [Assembler.jump,Assembler.word,Array.getElem_push]
  have hlen : [UInt32.ofNat label].length = o.operandWords := hwords.symm
  refine (h.write (.jump a o label) hlen ?_ rfl ?_ ⟨?_,?_,?_⟩).1
  · simp [Assembler.jump,Assembler.word]
  · intro f hf
    simp only [Assembler.jump,Assembler.word,Array.mem_push,Array.size_push] at hf
    exact hf.imp_right fun hf => ⟨hf,ho⟩
  · intro i hi
    rw [Opcode.labelOperand?_of_isJump ho] at hi
    cases hi
  · intro _
    rw [hword,Option.getD_some,UInt32.toNat_ofNat_of_lt' (Nat.lt_of_lt_of_le hlabel hsize)]
    exact ⟨by simp [Assembler.jump,Assembler.word],hlabel⟩
  · intro hc
    rcases hc with rfl | rfl <;> cases ho

theorem newLabel (h : a.Orderly instrs) : a.newLabel.Orderly instrs := by
  refine h.relabel (.newLabel a) rfl rfl (by simp [Assembler.newLabel]) fun {label pc} hl => .inl ?_
  simp only [Assembler.newLabel,Array.getElem?_push] at hl
  split at hl
  · cases hl
  · exact hl

theorem place (h : a.Orderly instrs) (label : Nat) : (a.place label).Orderly instrs := by
  refine h.relabel (.place a label) rfl rfl (by simp [Assembler.place]) fun {l pc} hl => ?_
  simp only [Assembler.place,Array.getElem?_setIfInBounds] at hl
  split at hl
  · split at hl
    · cases hl
      exact .inr rfl
    · cases hl
  · exact .inl hl

theorem constant (h : a.Orderly instrs) (s : String) : (a.constant s).Orderly instrs :=
  h.relabel (.constant a s) (constant_code a s) (constant_fixups a s) (Nat.le_of_eq (by rw [constant_labels]))
    fun hl => .inl (by rwa [constant_labels] at hl)

end Orderly

/-! Building -/

theorem Walk.le_of_mem (h : Walk code pc instrs) (hq : (q,o) ∈ instrs) : pc ≤ q := by
  induction h with
  | stop _ => cases hq
  | step _ _ _ _ ih =>
    rcases List.mem_cons.1 hq with heq | hq
    · cases heq
      exact Nat.le_refl _
    · have := ih hq
      omega

theorem Walk.apart {r : Nat} {o' : Opcode} (h : Walk code pc instrs) (hq : (q,o) ∈ instrs) (hr : (r,o') ∈ instrs) :
    (q,o) = (r,o') ∨ q + o.operandWords < r ∨ r + o'.operandWords < q := by
  induction h with
  | stop _ => cases hq
  | step _ _ _ hrest ih =>
    rcases List.mem_cons.1 hq with heq | hq' <;> rcases List.mem_cons.1 hr with heq' | hr'
    · exact .inl (heq.trans heq'.symm)
    · cases heq
      have := hrest.le_of_mem hr'
      exact .inr (.inl (by omega))
    · cases heq'
      have := hrest.le_of_mem hq'
      exact .inr (.inr (by omega))
    · exact ih hq' hr'

theorem Orderly.patched_word (h : a.Orderly instrs) {i : Nat} (hpc : (pc,o) ∈ instrs) (hi : i ≤ o.operandWords)
    (hf : pc + i ∈ a.fixups) : i = 1 ∧ o.isJump = true := by
  obtain ⟨q,o',hq,hmem,hjump⟩ := h.fixups _ hf
  have hwords := Opcode.operandWords_of_isJump hjump
  rcases h.walk.apart hpc hmem with heq | hlt | hlt
  · cases heq
    exact ⟨by omega,hjump⟩
  · omega
  · omega

theorem patch_ok (name : String) {fixups : List Nat} (hdistinct : fixups.Nodup)
    (h : ∀ f ∈ fixups, (code[f]?.getD 0).toNat < labels.size) :
    ∃ code', fixups.foldlM (patch name labels) code = .ok code' := by
  induction fixups generalizing code with
  | nil => exact ⟨code,rfl⟩
  | cons f fixups ih =>
    obtain ⟨hf,hdistinct⟩ := List.nodup_cons.1 hdistinct
    have hlabel := h f List.mem_cons_self
    have hpatch : patch name labels code f = .ok (code.setIfInBounds f
        (UInt32.ofNat labels[(code[f]?.getD 0).toNat])) := by
      simp only [patch,Array.getElem?_eq_getElem hlabel]
    rw [List.foldlM_cons,hpatch]
    refine ih hdistinct fun g hg => ?_
    have hne : f ≠ g := fun heq => hf (heq ▸ hg)
    rw [Array.getElem?_setIfInBounds_ne hne]
    exact h g (List.mem_cons_of_mem _ hg)

theorem instructions_of_walk {name : String} {fuel : Nat} (hfuel : code.size ≤ pc + fuel) (h : Walk code pc instrs) :
    instructions name code fuel pc = .ok instrs := by
  induction fuel generalizing pc instrs with
  | zero =>
    cases h with
    | stop _ => rfl
    | step _ _ hlt _ => omega
  | succ fuel ih =>
    unfold instructions
    cases h with
    | stop hle => rw [Array.getElem?_eq_none hle]
    | @step _ w o rest hw ho hlt hrest =>
      have hge : ¬pc + o.operandWords ≥ code.size := by omega
      simp only [hw,ho,if_neg hge,ih (by omega) hrest]
      rfl

theorem placed_ok (h : ∀ x ∈ a.labels.toList, ∃ pc ∈ starts, x = some pc) : ∃ labels, a.placed starts = .ok labels := by
  unfold placed
  generalize a.labels.toList = offsets at h
  obtain ⟨k,hk⟩ : ∃ k, offsets.zipIdx = offsets.zipIdx k := ⟨0,rfl⟩
  rw [hk]
  clear hk
  induction offsets generalizing k with
  | nil => exact ⟨[],rfl⟩
  | cons x offsets ih =>
    obtain ⟨pc,hpc,rfl⟩ := h x List.mem_cons_self
    obtain ⟨labels,hlabels⟩ := ih (fun y hy => h y (List.mem_cons_of_mem _ hy)) (k + 1)
    refine ⟨pc :: labels,?_⟩
    rw [List.zipIdx_cons,List.mapM_cons,hlabels]
    simp [hpc,bind,Except.bind,pure,Except.pure]

theorem forM_ok {ε α : Type} {f : α → Except ε Unit} {l : List α} (h : ∀ x ∈ l, f x = .ok ()) :
    l.forM f = .ok () := by
  induction l with
  | nil => rfl
  | cons y l ih =>
    rw [List.forM_eq_forM,List.forM_cons,h y List.mem_cons_self]
    exact ih fun x hx => h x (List.mem_cons_of_mem _ hx)

theorem check_ok (ho : (code[pc]?).bind Opcode.ofWord? = some o)
    (hlabel : ∀ i, o.labelOperand? = some i → (code[pc + 1 + i]?.getD 0).toNat < a.labels.size)
    (hjump : o.isJump = true → (code[pc + 1]?.getD 0).toNat ∈ starts)
    (hconstant : o = .pushConstant ∨ o = .call → (code[pc + 1]?.getD 0).toNat < a.constants.size) :
    a.check starts code pc = .ok () := by
  have hfilter : (o.labelOperand?.filter fun i => (code[pc + 1 + i]?.getD 0).toNat ≥ a.labels.size) = none := by
    rw [Option.filter_eq_none_iff]
    intro i hi
    simpa using hlabel i hi
  have hj : ¬(o.isJump && !starts.contains (code[pc + 1]?.getD 0).toNat) = true := by
    cases hjumps : o.isJump with
    | false => simp
    | true => simpa using hjump hjumps
  have hc : ¬((decide (o = .pushConstant) || decide (o = .call)) &&
      decide ((code[pc + 1]?.getD 0).toNat ≥ a.constants.size)) = true := by
    intro hboth
    simp only [Bool.and_eq_true,Bool.or_eq_true,decide_eq_true_eq] at hboth
    have := hconstant hboth.1
    omega
  unfold check
  rw [ho]
  simp only [hfilter,Nat.add_zero,if_neg hj,if_neg hc]

theorem Orderly.check (h : a.Orderly instrs) (hneat : a.Neat) (hsize : a.code.size ≤ 2 ^ 32)
    (hstarts : ∀ pc ∈ labels, pc ∈ instrs.map Prod.fst)
    (hcode : a.fixups.toList.foldlM (patch a.name labels) a.code = .ok code) (hpc : pc ∈ instrs.map Prod.fst) :
    a.check (instrs.map Prod.fst) code pc = .ok () := by
  obtain ⟨⟨pc,o⟩,hmem,rfl⟩ := List.mem_map.1 hpc
  obtain ⟨hword,hin,-⟩ := h.walk.mem hmem
  have hrefers := h.refers hmem
  have hsame : ∀ i ≤ o.operandWords, ¬(i = 1 ∧ o.isJump = true) → code[pc + i]? = a.code[pc + i]? := by
    intro i hi hplain
    exact (patched_elsewhere hcode).2 _ fun hf => hplain (h.patched_word hmem hi (Array.mem_toList_iff.1 hf))
  refine check_ok (o := o) ?_ ?_ ?_ ?_
  · have h0 := hsame 0 (Nat.zero_le _) (by simp)
    rw [Nat.add_zero] at h0
    rw [h0,hword]
  · intro i hi
    have hlt := Opcode.lt_of_labelOperand? hi
    have hplain : ¬(1 + i = 1 ∧ o.isJump = true) := by
      rintro ⟨-,hjump⟩
      rw [Opcode.labelOperand?_of_isJump hjump] at hi
      cases hi
    rw [Nat.add_assoc,hsame _ (by omega) hplain,← Nat.add_assoc]
    exact hrefers.label i hi
  · -- The operand of a jump is now the offset of a label.
    intro hjump
    obtain ⟨hf,-⟩ := hrefers.jump hjump
    obtain ⟨w,target,-,htarget,hpatched⟩ :=
      patched_at hcode hneat.distinct (Array.mem_toList_iff.2 hf) (hneat.inside _ hf)
    have hstart := hstarts target (Array.mem_of_getElem? htarget)
    have hlt : target < 2 ^ 32 := Nat.lt_of_lt_of_le (h.start_lt hstart) hsize
    rw [hpatched,Option.getD_some,UInt32.toNat_ofNat_of_lt' hlt]
    exact hstart
  · intro hc
    have hplain : o.isJump = false := by rcases hc with rfl | rfl <;> rfl
    have hwords : 1 ≤ o.operandWords := by rcases hc with rfl | rfl <;> decide
    rw [hsame 1 hwords (by simp [hplain])]
    exact hrefers.constant hc

/-- Code in order can be built if all its labels are placed before instructions and it ends in one that does
not go on. -/
theorem Orderly.build (h : a.Orderly instrs) (hneat : a.Neat) (hsize : a.code.size ≤ 2 ^ 32)
    (hends : ∃ e, instrs.getLast? = some e ∧ e.2.isTerminator = true)
    (hlabels : ∀ x ∈ a.labels.toList, ∃ pc ∈ instrs.map Prod.fst, x = some pc) (id : Nat) :
    ∃ s, a.build id = .ok s := by
  have hinstrs : instructions a.name a.code a.code.size 0 = .ok instrs := instructions_of_walk (by omega) h.walk
  obtain ⟨offsets,hplaced⟩ := placed_ok hlabels
  obtain ⟨hoffsets,hstarts⟩ := placed_eq_ok hplaced
  have hcount : offsets.toArray.size = a.labels.size := by
    simpa using (congrArg List.length hoffsets).symm
  have hfixups : ∀ f ∈ a.fixups.toList, (a.code[f]?.getD 0).toNat < offsets.toArray.size := by
    intro f hf
    obtain ⟨pc,o,rfl,hmem,ho⟩ := h.fixups f (Array.mem_toList_iff.1 hf)
    rw [hcount]
    exact ((h.refers hmem).jump ho).2
  obtain ⟨code,hcode⟩ := patch_ok a.name hneat.distinct hfixups
  have hchecks : (instrs.map Prod.fst).forM (a.check (instrs.map Prod.fst) code) = .ok () :=
    forM_ok fun pc hpc => h.check hneat hsize (by simpa using hstarts) hcode hpc
  have hlast : ((instrs.getLast?).any fun e => e.2.isTerminator) = true := by
    obtain ⟨e,he,hterm⟩ := hends
    simp [he,hterm]
  refine ⟨{ id, name := a.name, code, constants := a.constants, labels := offsets.toArray },?_⟩
  have hfold : a.fixups.foldlM (patch a.name offsets.toArray) a.code = .ok code := by
    rw [← Array.foldlM_toList]
    exact hcode
  simp only [Assembler.build,hinstrs,hplaced,hfold,hchecks,hlast,bind,Except.bind,pure,Except.pure,
    Bool.not_true,Bool.false_eq_true,if_false]

end Assembler

/-! Emitting -/

def Directive.makesLabel : Directive → Bool
  | .label | .here | .call .. => true
  | _ => false

theorem Tally.isPlain_of_perform {t u : Tally} (h : t.perform (.ofOperands o ws) = some u) : o.isPlain = true := by
  cases o <;> first | rfl | cases h

theorem Instr.isPlain_of_handle? (h : (ofOperands o ws).handle?.isSome = true) : o.isPlain = true := by
  cases o <;> first | rfl | cases h

namespace Emitter

variable {e : Emitter} {t u : Tally} {d : Directive}

/-- Labels that are not placed yet belong to blocks that are not left yet. -/
def Tidy (e : Emitter) : Prop :=
  ∀ label : Nat, e.code.labels[label]? = some none →
    label ∈ (e.scope :: e.outer).flatMap fun sc => sc.labels.toList

def Orderly (e : Emitter) : Prop :=
  ∃ instrs, e.code.Orderly instrs

theorem labels_size_step (e : Emitter) (d : Directive) :
    (e.step d).code.labels.size = e.code.labels.size + if d.makesLabel then 1 else 0 := by
  cases d with
  | enter | leave | bindVariable r | bindList r => rfl
  | label => simp [step,label,Assembler.newLabel,Directive.makesLabel]
  | place i => simp [step,place,assemble,Assembler.place,Directive.makesLabel]
  | here => simp [step,label,assemble,Assembler.place,Assembler.newLabel,Directive.makesLabel]
  | call procedure argc => simp [e.step_call_labels,Directive.makesLabel]
  | _ => exact congrArg Array.size (e.step_keepsScope rfl).2.2.1

theorem labels_size_le_step (e : Emitter) (d : Directive) : e.code.labels.size ≤ (e.step d).code.labels.size := by
  rw [e.labels_size_step d]
  exact Nat.le_add_right _ _

theorem labels_size_le_run (e : Emitter) (ds : List Directive) :
    e.code.labels.size ≤ (e.run ds).code.labels.size := by
  induction ds generalizing e with
  | nil => exact Nat.le_refl _
  | cons d ds ih => exact Nat.le_trans (e.labels_size_le_step d) (ih _)

@[simp] theorem op_code_constants (e : Emitter) (o : Opcode) (ws : List UInt32) :
    (e.op o ws).code.constants = e.code.constants := by
  unfold op
  split <;> simp [assemble]

theorem constant_size_le (a : Assembler) (s : String) : (a.constant s).constants.size ≤ a.constants.size + 1 := by
  unfold Assembler.constant
  split
  · omega
  · simp

theorem constants_size_le_step (h : e.code.constants.size ≤ e.pc) (d : Directive) :
    (e.step d).code.constants.size ≤ (e.step d).pc := by
  have hle : e.pc ≤ (e.step d).pc := (e.step_grows d).size
  have hflush : e.pc ≤ e.flush.pc := e.flush_grows.size
  cases d with
  | pushText s =>
    have hnew := constant_size_le e.code s
    have hpc : (e.step (.pushText s)).pc = e.pc + 2 := by
      simp [step,assemble,Assembler.pushText,pc,Assembler.op_size]
    have hconstants : (e.step (.pushText s)).code.constants = (e.code.constant s).constants := by
      simp [step,assemble,Assembler.pushText]
    rw [hconstants]
    omega
  | call procedure argc =>
    have hnew := constant_size_le e.flush.code.newLabel procedure
    have hpc := e.step_call_pc procedure argc
    have hconstants : (e.step (.call procedure argc)).code.constants =
        (e.flush.code.newLabel.constant procedure).constants := by
      simp [step,assemble,Assembler.call,Assembler.place]
    have hold : e.flush.code.newLabel.constants.size = e.code.constants.size := by simp [Assembler.newLabel]
    rw [hconstants]
    omega
  | _ =>
    refine Nat.le_trans (Nat.le_of_eq (congrArg Array.size ?_)) (Nat.le_trans h hle)
    simp [step,place,label,bind,assemble,Assembler.pushNumber,Assembler.pushBool,Assembler.newLabel,
      Assembler.place,Assembler.jump,Assembler.word,Assembler.resumeAt]

theorem constants_size_le_run (h : e.code.constants.size ≤ e.pc) (ds : List Directive) :
    (e.run ds).code.constants.size ≤ (e.run ds).pc := by
  induction ds generalizing e with
  | nil => exact h
  | cons d ds ih => exact ih (constants_size_le_step h d)

namespace Orderly

theorem flush (h : e.Orderly) : e.flush.Orderly := by
  unfold Emitter.flush
  split
  · exact h
  · obtain ⟨instrs,h⟩ := h
    exact ⟨_,(h.plain rfl rfl).1⟩

theorem op_last (h : e.Orderly) (hlen : ws.length = o.operandWords)
    (ho : o.isPlain = true) :
    ∃ instrs, (e.op o ws).code.Orderly instrs ∧ (∃ pc, instrs.getLast? = some (pc,o)) ∧
      ∀ {label pc : Nat}, (e.op o ws).code.labels[label]? = some (some pc) → pc ∈ instrs.map Prod.fst := by
  have hbefore : Orderly (if o.flushes then e.flush else e) := by
    split
    · exact h.flush
    · exact h
  obtain ⟨instrs,h⟩ := hbefore
  obtain ⟨hop,hlabels⟩ := h.plain hlen ho
  exact ⟨_,hop,⟨_,List.getLast?_concat⟩,hlabels⟩

theorem op (h : e.Orderly) (hlen : ws.length = o.operandWords)
    (ho : o.isPlain = true) : (e.op o ws).Orderly := by
  obtain ⟨instrs,hop,-⟩ := h.op_last hlen ho
  exact ⟨instrs,hop⟩

end Orderly

namespace Tidy

theorem same (h : e.Tidy) {e' : Emitter} (hlabels : e'.code.labels = e.code.labels)
    (hscope : e'.scope.labels = e.scope.labels) (houter : e'.outer = e.outer) : e'.Tidy := by
  intro label hlabel
  rw [hlabels] at hlabel
  rw [List.flatMap_cons,hscope,houter]
  exact h label hlabel

theorem label (h : e.Tidy) : e.label.Tidy := by
  intro label hlabel
  simp only [Emitter.label,Assembler.newLabel,Array.getElem?_push] at hlabel
  simp only [Emitter.label,Assembler.nextLabel,List.flatMap_cons,Array.toList_push,List.mem_append,
    List.mem_singleton]
  split at hlabel
  next heq => exact .inl (.inr heq)
  next =>
    have hmem := h label hlabel
    rw [List.flatMap_cons,List.mem_append] at hmem
    exact hmem.imp_left .inl

theorem place (h : e.Tidy) (placed : Nat) : (e.assemble (·.place placed)).Tidy := by
  intro label hlabel
  simp only [assemble,Assembler.place,Array.getElem?_setIfInBounds] at hlabel
  split at hlabel
  · split at hlabel <;> cases hlabel
  · exact h label hlabel

end Tidy

end Emitter

namespace Tally.Fits

variable {e : Emitter} {t u : Tally} {d : Directive}

theorem labelAt_lt (h : t.Fits e) {i : Nat} {m : Mark} (hm : t.mark? i = some m) :
    e.labelAt i < e.code.labels.size := by
  have hlt : i < e.scope.labels.size := by
    rw [h.level.size]
    exact (List.getElem?_eq_some_iff.1 (mark?_eq_some.1 hm).1).1
  rw [Emitter.labelAt,Array.getElem?_eq_getElem hlt,Option.getD_some]
  exact h.level.mem_labels (Array.getElem_mem hlt)

theorem orderly_step (h : t.Fits e) (ho : e.Orderly) (hd : t.step d = some u)
    (hlabels : (e.step d).code.labels.size ≤ 2 ^ 32) (hconstants : (e.step d).code.constants.size ≤ 2 ^ 32) :
    (e.step d).Orderly := by
  have hold := Nat.le_trans (e.labels_size_le_step d) hlabels
  cases d with
  | op o ws =>
    obtain ⟨hlen,hperform⟩ := step_op.1 hd
    exact ho.op hlen (isPlain_of_perform hperform)
  | bound o ws =>
    obtain ⟨⟨hlen,hbound,hkind⟩,-⟩ := step_bound.1 hd
    rw [← hkind,Option.isSome_map] at hbound
    exact ho.op hlen (Instr.isPlain_of_handle? hbound)
  | pushNumber x | pushBool b =>
    obtain ⟨instrs,ho⟩ := ho
    exact ⟨_,(ho.plain rfl rfl).1⟩
  | pushVariable r =>
    exact Emitter.Orderly.op (e := { e with symbols := (e.symbols.variableHandle r).2 }) ho rfl rfl
  | pushList r =>
    exact Emitter.Orderly.op (e := { e with symbols := (e.symbols.listHandle r).2 }) ho rfl rfl
  | pushText s =>
    obtain ⟨instrs,ho⟩ := ho
    have hfound := Assembler.constants_constantIndex e.code s
    have hlt := (Array.getElem?_eq_some_iff.1 hfound).1
    refine ⟨_,((ho.constant s).op rfl rfl (fun i hi => by cases hi) fun _ => ?_).1⟩
    have hle : (e.code.constant s).constants.size ≤ 2 ^ 32 := by
      simpa [Emitter.step,Emitter.assemble,Assembler.pushText] using hconstants
    exact Nat.lt_of_le_of_lt (Nat.le_of_eq (UInt32.toNat_ofNat_of_lt' (Nat.lt_of_lt_of_le hlt hle))) hlt
  | enter | leave | bindVariable r | bindList r | visual tier | warn message => exact ho
  | flush => exact ho.flush
  | label =>
    obtain ⟨instrs,ho⟩ := ho
    exact ⟨instrs,ho.newLabel⟩
  | place i =>
    obtain ⟨instrs,ho⟩ := ho.flush
    exact ⟨instrs,ho.place _⟩
  | here =>
    obtain ⟨instrs,ho⟩ := ho.flush
    exact ⟨instrs,ho.newLabel.place _⟩
  | jump o i =>
    obtain ⟨⟨m,hm⟩,hkind⟩ := step_jump.1 hd
    have hjump : o.isJump = true := by rcases hkind with ⟨rfl,-⟩ | ⟨rfl | rfl,-⟩ <;> rfl
    obtain ⟨instrs,ho⟩ := ho.flush
    refine ⟨_,ho.jump hjump ?_ (by rwa [e.flush_labels])⟩
    rw [e.flush_labels]
    exact h.labelAt_lt hm
  | resume o i =>
    obtain ⟨⟨m,hm⟩,hkind,-⟩ := step_resume.1 hd
    have hlt := h.labelAt_lt hm
    obtain ⟨instrs,ho⟩ := ho.flush
    refine ⟨_,(ho.op ?_ ?_ (fun j hj => ?_) ?_).1⟩
    · rcases hkind with rfl | rfl <;> rfl
    · rcases hkind with rfl | rfl <;> rfl
    · obtain rfl : j = 0 := by rcases hkind with rfl | rfl <;> exact (Option.some.inj hj).symm
      rw [e.flush_labels]
      exact Nat.lt_of_le_of_lt (Nat.le_of_eq (UInt32.toNat_ofNat_of_lt' (Nat.lt_of_lt_of_le hlt hold))) hlt
    · rintro (rfl | rfl) <;> rcases hkind with hkind | hkind <;> cases hkind
  | call procedure argc =>
    obtain ⟨instrs,ho⟩ := ho.flush
    have hfound := Assembler.constants_constantIndex e.flush.code.newLabel procedure
    have hlt := (Array.getElem?_eq_some_iff.1 hfound).1
    have hle : (e.flush.code.newLabel.constant procedure).constants.size ≤ 2 ^ 32 := by
      simpa [Emitter.step,Emitter.assemble,Assembler.call,Assembler.place] using hconstants
    have hret : e.flush.code.nextLabel < UInt32.size := by
      rw [e.step_call_labels,Array.size_push] at hlabels
      rw [Assembler.nextLabel,e.flush_labels]
      exact hlabels
    refine ⟨_,Assembler.Orderly.place ((ho.newLabel.constant procedure).op rfl rfl (fun i hi => ?_) fun _ => ?_).1 _⟩
    · cases hi
      exact Nat.lt_of_le_of_lt (Nat.le_of_eq (UInt32.toNat_ofNat_of_lt' hret)) (by simp [Assembler.newLabel,Assembler.nextLabel])
    · exact Nat.lt_of_le_of_lt (Nat.le_of_eq (UInt32.toNat_ofNat_of_lt' (Nat.lt_of_lt_of_le hlt hle))) hlt

theorem tidy_leave (h : t.Fits e) (ht : e.Tidy) (hdone : t.level.isDone = true) : (e.step .leave).Tidy := by
  intro label hlabel
  have hmem := ht label hlabel
  rw [List.flatMap_cons,List.mem_append] at hmem
  rcases hmem with hmem | hmem
  · obtain ⟨i,hi,hget⟩ := Array.mem_iff_getElem.1 (Array.mem_toList_iff.1 hmem)
    have hlt : i < t.level.marks.length := by
      rw [← h.level.size]
      exact hi
    obtain ⟨x,hx,hplaced⟩ := h.level.placed (List.getElem?_eq_getElem hlt)
      ((Array.getElem?_eq_getElem hi).trans (congrArg some hget))
    change e.code.labels[label]? = some none at hlabel
    rw [hlabel] at hx
    cases hx
    simp only [Level.isDone,Bool.and_eq_true,List.all_eq_true] at hdone
    have hall := hdone.1.2 _ (List.getElem_mem hlt)
    rw [← hplaced] at hall
    cases hall
  · cases hscopes : e.outer with
    | nil => simp [hscopes] at hmem
    | cons sc scs => simpa [Emitter.step,hscopes] using hmem

theorem tidy_step (h : t.Fits e) (ht : e.Tidy) (hd : t.step d = some u) : (e.step d).Tidy := by
  have hflush : e.flush.Tidy := ht.same e.flush_labels (by rw [e.flush_scope]) e.flush_outer
  have hkeeps : d.keepsScope = true → (e.step d).Tidy := by
    intro hk
    obtain ⟨hscope,houter,hlabels,-⟩ := e.step_keepsScope hk
    exact ht.same hlabels (by rw [hscope]) houter
  cases d with
  | enter =>
    intro label hlabel
    simpa [Emitter.step] using ht label hlabel
  | leave =>
    obtain ⟨l,rest,-,hdone,-⟩ := step_leave.1 hd
    exact h.tidy_leave ht hdone
  | label => exact ht.label
  | place i => exact hflush.place _
  | here => exact hflush.label.place _
  | bindVariable r | bindList r => exact ht
  | call procedure argc =>
    intro label hlabel
    have hscopes : (e.step (.call procedure argc)).scope :: (e.step (.call procedure argc)).outer =
        e.scope :: e.outer := by simp [Emitter.step,Emitter.assemble]
    rw [e.step_call_labels,Array.getElem?_push] at hlabel
    rw [hscopes]
    split at hlabel
    · cases hlabel
    · exact ht label hlabel
  | _ => exact hkeeps rfl

theorem tidy_run (h : t.Fits e) (ht : e.Tidy) {ds : List Directive} (hd : t.run ds = some u) : (e.run ds).Tidy := by
  induction ds generalizing t e with
  | nil => exact ht
  | cons d ds ih =>
    rw [run_cons] at hd
    obtain ⟨v,hv,hd⟩ := Option.bind_eq_some_iff.1 hd
    exact ih (h.step hv).1 (h.tidy_step ht hv) hd

theorem orderly_run (h : t.Fits e) (ho : e.Orderly) {ds : List Directive} (hd : t.run ds = some u)
    (hlabels : (e.run ds).code.labels.size ≤ 2 ^ 32) (hconstants : (e.run ds).code.constants.size ≤ 2 ^ 32) :
    (e.run ds).Orderly := by
  induction ds generalizing t e with
  | nil => exact ho
  | cons d ds ih =>
    rw [run_cons] at hd
    obtain ⟨v,hv,hd⟩ := Option.bind_eq_some_iff.1 hd
    have hstep := h.orderly_step ho hv (Nat.le_trans (Emitter.labels_size_le_run _ ds) hlabels)
      (Nat.le_trans ((Emitter.run_grows _ ds).constants_size) hconstants)
    exact ih (h.step hv).1 hstep hd hlabels hconstants

end Tally.Fits

end SpriteMachine
