import SpriteMachine.Proofs.Magnitudes

/-!
Whole numbers as doubles. Below 2 ^ 53 they are exact, so doubles and values that stand for them are compared as the
numbers are.
-/

namespace SpriteMachine.Double

open Float.Model UnpackedFloat

variable {a b n : Nat}

theorem parts?_toFloat (hn : n < 2 ^ 53) :
    ∃ m e, parts? n.toUInt64.toFloat = some ⟨false,m,e⟩ ∧ Fits m e ∧ e ≤ 0 ∧ (m : ℚ) * 2 ^ e = n := by
  obtain ⟨m,e,hfits,he,hvalue⟩ := exists_fits hn (by decide : -1074 ≤ (0 : Int))
  have hword : n.toUInt64.toNat = n := UInt64.toNat_ofNat_of_lt' (Nat.lt_trans hn (by decide))
  refine ⟨m,e,?_,hfits,he,by simpa using hvalue⟩
  change parts? (.ofModel (Float.Model.pack (UnpackedFloat.normalize Format.binary64 (n.toUInt64.toNat : Int) 0 .positive))) = _
  rw [hword,normalize_exact (n := (n : Int)) hfits hvalue,decide_eq_false (by omega)]
  exact parts?_pack hfits (by omega)

theorem parts?_ofNat (hn : n < 2 ^ 53) :
    ∃ m e, parts? (Float.ofNat n) = some ⟨false,m,e⟩ ∧ Fits m e ∧ e ≤ 0 ∧ (m : ℚ) * 2 ^ e = n := by
  obtain ⟨m,e,hparts,hfits,he,hvalue⟩ := parts?_toFloat hn
  have hone : parts? 1.0 = some ⟨false,2 ^ 52,-52⟩ := by decide +kernel
  have hmul : Float.ofNat n = n.toUInt64.toFloat * 1.0 := by
    change Float.ofScientific n false 0 = _
    unfold Float.ofScientific
    rw [dif_pos ⟨hn,by decide⟩]
    rfl
  refine ⟨m,e,?_,hfits,he,hvalue⟩
  rw [hmul]
  exact parts?_mul hparts hone hfits (by omega) (by norm_num)

theorem toRat_ofNat (hn : n < 2 ^ 53) : (Float.ofNat n).isFinite = true ∧ toRat (Float.ofNat n) = n := by
  obtain ⟨m,e,hparts,-,-,hvalue⟩ := parts?_ofNat hn
  exact ⟨isFinite_of_parts hparts,(toRat_of_parts hparts).trans hvalue⟩

theorem compare_ofNat (ha : a < 2 ^ 53) (hb : b < 2 ^ 53) :
    (Float.ofNat a).toModel.unpack.compare (Float.ofNat b).toModel.unpack = some (compare a b) := by
  rw [compare_toRat (toRat_ofNat ha).1 (toRat_ofNat hb).1,(toRat_ofNat ha).2,(toRat_ofNat hb).2,Option.some.injEq]
  rcases lt_trichotomy a b with h | rfl | h
  · rw [compare_lt_iff_lt.2 h,compare_lt_iff_lt.2 (by exact_mod_cast h)]
  · rw [compare_eq_iff_eq.2 rfl,compare_eq_iff_eq.2 rfl]
  · rw [compare_gt_iff_gt.2 h,compare_gt_iff_gt.2 (by exact_mod_cast h)]

theorem ofNat_lt_ofNat (ha : a < 2 ^ 53) (hb : b < 2 ^ 53) : Float.ofNat a < Float.ofNat b ↔ a < b := by
  rw [lt_iff,compare_ofNat ha hb,Option.some.injEq,Nat.compare_eq_lt]

theorem ofNat_beq_ofNat (ha : a < 2 ^ 53) (hb : b < 2 ^ 53) : (Float.ofNat a == Float.ofNat b) = decide (a = b) := by
  rw [Bool.eq_iff_iff,beq_iff,compare_ofNat ha hb,Option.some.injEq,Nat.compare_eq_eq,decide_eq_true_iff]

theorem ofNat_inj (ha : a < 2 ^ 53) (hb : b < 2 ^ 53) (h : Float.ofNat a = Float.ofNat b) : a = b := by
  have hcompare := compare_ofNat ha hb
  rw [h,compare_ofNat hb hb,Option.some.injEq,Nat.compare_eq_eq.2 rfl] at hcompare
  exact Nat.compare_eq_eq.1 hcompare.symm

end SpriteMachine.Double

namespace SpriteMachine.Value

variable {a b : Nat}

theorem ofNat_inj (ha : a < 2 ^ 53) (hb : b < 2 ^ 53) (h : ofNat a = ofNat b) : a = b :=
  Double.ofNat_inj ha hb (Value.number.inj h)

theorem numericPair?_ofNat (a b : Nat) : numericPair? (ofNat a) (ofNat b) = some (Float.ofNat a,Float.ofNat b) := by
  simp only [numericPair?,ofNat,toRawNumber,isNumeric,Double.isNaN_ofNat,Bool.not_false,Bool.and_self,if_true]

theorem compare_ofNat (ha : a < 2 ^ 53) (hb : b < 2 ^ 53) :
    ((ofNat a).compare (ofNat b) == .lt) = decide (a < b) := by
  simp only [Value.compare,numericPair?_ofNat,compareNumbers,Double.ofNat_lt_ofNat ha hb]
  by_cases hab : a < b
  · simp [hab]
  · rw [if_neg hab]
    split <;> simp [hab]

theorem equal_ofNat (ha : a < 2 ^ 53) (hb : b < 2 ^ 53) : (ofNat a).equal (ofNat b) = decide (a = b) := by
  simp only [Value.equal,numericPair?_ofNat,Double.ofNat_beq_ofNat ha hb]

end SpriteMachine.Value
