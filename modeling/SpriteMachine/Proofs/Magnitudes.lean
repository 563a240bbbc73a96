import SpriteMachine.Proofs.Doubles

/-!
The rational number that a finite double stands for. Comparing doubles compares the numbers, and a sum or a product that is
a double is exact.
-/

namespace SpriteMachine.Double

open Float.Model UnpackedFloat

/-- The number an unpacked double stands for, zero where it stands for none. -/
def rational : UnpackedFloat → ℚ
  | .finite s m e _ => s.apply m * 2 ^ e
  | _ => 0

/-- The number a double stands for, zero where it stands for none. -/
def toRat (x : Float) : ℚ :=
  rational x.toModel.unpack

variable {x y : Float} {p : Parts} {s s' : Sign} {m m' : Nat} {e e' : Int}

theorem rational_signed (s : Sign) (m : Nat) (e : Int) : rational (signed s m e) = s.apply m * 2 ^ e := by
  unfold signed
  split
  next h => cases s <;> simp [h,rational,Sign.apply]
  next => rfl

theorem toRat_of_parts (h : parts? x = some p) : toRat x = (signOf p.neg).apply p.mantissa * 2 ^ p.exponent := by
  rw [toRat,(unpack_of_parts h).1,rational_signed]

theorem isFinite_of_parts (h : parts? x = some p) : x.isFinite = true := by
  change x.toModel.unpack.isFinite = true
  rw [(unpack_of_parts h).1,signed]
  split <;> rfl

theorem parts_of_isFinite (hx : x.isFinite = true) : ∃ p, parts? x = some p := by
  rw [← Option.ne_none_iff_exists']
  intro h
  change x.toModel.unpack.isFinite = true at hx
  rcases unpack_of_none h with hu | ⟨s,hu⟩ <;> rw [hu] at hx <;> cases hx

/-! Mantissas and exponents -/

theorem mul_zpow_eq_zero : (m : ℚ) * 2 ^ e = 0 ↔ m = 0 := by
  rw [mul_eq_zero,Nat.cast_eq_zero,or_iff_left (by positivity)]

theorem mul_zpow_pos : 0 < (m : ℚ) * 2 ^ e ↔ 0 < m := by
  rw [mul_pos_iff_of_pos_right (by positivity),Nat.cast_pos]

theorem mul_zpow_eq (m : Nat) (h : e ≤ e') : (m : ℚ) * 2 ^ e' = ((m * 2 ^ (e' - e).toNat : Nat) : ℚ) * 2 ^ e := by
  obtain ⟨k,rfl⟩ : ∃ k : Nat, e' = e + k := ⟨(e' - e).toNat,by omega⟩
  rw [zpow_add₀ (by norm_num),zpow_natCast]
  simp
  ring

/-- Smaller exponents belong to smaller numbers. -/
theorem Fits.lt_of_exponent_lt (h : Fits m e) (h' : Fits m' e') (hlt : e < e') : (m : ℚ) * 2 ^ e < m' * 2 ^ e' := by
  have hfull : 2 ^ 52 ≤ m' := h'.full.resolve_right (by have := h.least; omega)
  have hstep : 2 ^ 1 ≤ 2 ^ (e' - e).toNat := Nat.pow_le_pow_right (by decide) (by omega)
  have hnat : m < m' * 2 ^ (e' - e).toNat :=
    calc m < 2 ^ 52 * 2 ^ 1 := h.lt
      _ ≤ m' * 2 ^ (e' - e).toNat := Nat.mul_le_mul hfull hstep
  rw [mul_zpow_eq m' hlt.le]
  exact mul_lt_mul_of_pos_right (by exact_mod_cast hnat) (by positivity)

/-- A number from a power of two on has a full mantissa and an exponent to match. -/
theorem Fits.of_le {a : Int} (h : Fits m e) (ha : -1074 < a) (hle : (2 : ℚ) ^ (a + 52) ≤ m * 2 ^ e) : 2 ^ 52 ≤ m ∧ a ≤ e := by
  have hpower : ((2 ^ 52 : Nat) : ℚ) * 2 ^ a = 2 ^ (a + 52) := by
    rw [zpow_add₀ (by norm_num)]
    norm_num
    ring
  have hexponent : a ≤ e := by
    by_contra hnot
    have hpower' : Fits (2 ^ 52) a := ⟨by decide,ha.le,.inl le_rfl⟩
    have hlt := h.lt_of_exponent_lt hpower' (by omega)
    rw [hpower] at hlt
    exact absurd hle (not_le.2 hlt)
  exact ⟨h.full.resolve_right (by omega),hexponent⟩

variable {n : Nat} {h : 0 < m} {h' : 0 < m'}

/-- A number of 53 bits has a mantissa and an exponent of a double. -/
theorem exists_fits (hn : n < 2 ^ 53) (he : -1074 ≤ e) : ∃ m e', Fits m e' ∧ e' ≤ e ∧ (m : ℚ) * 2 ^ e' = n * 2 ^ e := by
  by_cases hzero : n = 0
  · exact ⟨0,-1074,⟨by decide,by decide,.inr rfl⟩,he,by simp [hzero]⟩
  · have hlog : n.log2 < 53 := (Nat.log2_lt hzero).2 hn
    -- the bits that are missing are filled up as far as the least exponent allows
    obtain ⟨k,hk⟩ : ∃ k : Nat, k = min (52 - n.log2) (e + 1074).toNat := ⟨_,rfl⟩
    refine ⟨n * 2 ^ k,e - k,⟨?_,by omega,?_⟩,by omega,?_⟩
    · calc n * 2 ^ k < 2 ^ (n.log2 + 1) * 2 ^ k := Nat.mul_lt_mul_of_pos_right Nat.lt_log2_self (Nat.two_pow_pos k)
        _ = 2 ^ (n.log2 + 1 + k) := (Nat.pow_add ..).symm
        _ ≤ 2 ^ 53 := Nat.pow_le_pow_right (by decide) (by omega)
    · by_cases hfull : k = 52 - n.log2
      · left
        calc 2 ^ 52 = 2 ^ n.log2 * 2 ^ k := by rw [← Nat.pow_add]; congr 1; omega
          _ ≤ n * 2 ^ k := Nat.mul_le_mul_right _ (Nat.log2_self_le hzero)
      · exact .inr (by omega)
    · rw [mul_zpow_eq n (show e - k ≤ e by omega),show (e - (e - k)).toNat = k by omega]

/-! Comparison -/

theorem compare_magnitudes (h : Fits m e) (h' : Fits m' e') :
    (compare e e').then (compare m m') = compare ((m : ℚ) * 2 ^ e) (m' * 2 ^ e') := by
  rcases lt_trichotomy e e' with hlt | rfl | hlt
  · rw [compare_lt_iff_lt.2 hlt,compare_lt_iff_lt.2 (h.lt_of_exponent_lt h' hlt)]
    rfl
  · have hpos : (0 : ℚ) < 2 ^ e := by positivity
    rw [compare_eq_iff_eq.2 rfl,Ordering.then]
    rcases lt_trichotomy m m' with hm | rfl | hm
    · rw [compare_lt_iff_lt.2 hm,compare_lt_iff_lt.2 (mul_lt_mul_of_pos_right (by exact_mod_cast hm) hpos)]
    · rw [compare_eq_iff_eq.2 rfl,compare_eq_iff_eq.2 rfl]
    · rw [compare_gt_iff_gt.2 hm,compare_gt_iff_gt.2 (mul_lt_mul_of_pos_right (by exact_mod_cast hm) hpos)]
  · rw [compare_gt_iff_gt.2 hlt,compare_gt_iff_gt.2 (h'.lt_of_exponent_lt h hlt)]
    rfl

theorem compare_signed (h : Fits m e) (h' : Fits m' e') :
    (signed s m e).compare (signed s' m' e') = some (compare (rational (signed s m e)) (rational (signed s' m' e'))) := by
  rw [rational_signed,rational_signed]
  rcases Nat.eq_zero_or_pos m with rfl | hm <;> rcases Nat.eq_zero_or_pos m' with rfl | hm'
  · rw [compare_eq_iff_eq.2 (by cases s <;> cases s' <;> simp [Sign.apply])]
    rfl
  · have hlt := (mul_zpow_pos (e := e')).2 hm'
    rw [signed_zero,signed_of_pos hm']
    cases s' with
    | negative => rw [compare_gt_iff_gt.2 (by cases s <;> simpa [Sign.apply] using hlt)]; rfl
    | positive => rw [compare_lt_iff_lt.2 (by cases s <;> simpa [Sign.apply] using hlt)]; rfl
  · have hlt := (mul_zpow_pos (e := e)).2 hm
    rw [signed_zero,signed_of_pos hm]
    cases s with
    | negative => rw [compare_lt_iff_lt.2 (by cases s' <;> simpa [Sign.apply] using hlt)]; rfl
    | positive => rw [compare_gt_iff_gt.2 (by cases s' <;> simpa [Sign.apply] using hlt)]; rfl
  · have hlt := (mul_zpow_pos (e := e)).2 hm
    have hlt' := (mul_zpow_pos (e := e')).2 hm'
    rw [signed_of_pos hm,signed_of_pos hm']
    cases s <;> cases s' <;> simp only [Sign.apply,Int.cast_neg,Int.cast_natCast,neg_mul]
    · change some ((compare e e').then (compare m m')).swap = _
      rw [compare_magnitudes h h']
      rcases lt_trichotomy ((m : ℚ) * 2 ^ e) (m' * 2 ^ e') with hless | heq | hgreater
      · rw [compare_lt_iff_lt.2 hless,compare_gt_iff_gt.2 (neg_lt_neg hless)]
        rfl
      · rw [heq,compare_eq_iff_eq.2 rfl,compare_eq_iff_eq.2 rfl]
        rfl
      · rw [compare_gt_iff_gt.2 hgreater,compare_lt_iff_lt.2 (neg_lt_neg hgreater)]
        rfl
    · rw [compare_lt_iff_lt.2 (by linarith)]
      rfl
    · rw [compare_gt_iff_gt.2 (by linarith)]
      rfl
    · rw [← compare_magnitudes h h']
      rfl

/-- Finite doubles are compared as the numbers are. -/
theorem compare_toRat (hx : x.isFinite = true) (hy : y.isFinite = true) :
    x.toModel.unpack.compare y.toModel.unpack = some (compare (toRat x) (toRat y)) := by
  obtain ⟨p,hp⟩ := parts_of_isFinite hx
  obtain ⟨p',hp'⟩ := parts_of_isFinite hy
  rw [toRat,toRat,(unpack_of_parts hp).1,(unpack_of_parts hp').1]
  exact compare_signed (unpack_of_parts hp).2.1 (unpack_of_parts hp').2.1

theorem lt_iff_toRat (hx : x.isFinite = true) (hy : y.isFinite = true) : x < y ↔ toRat x < toRat y := by
  rw [lt_iff,compare_toRat hx hy,Option.some.injEq,compare_lt_iff_lt]

/-! Rounding that drops no bits -/

theorem shiftRight_exact (m k : Nat) :
    (ExtendedMantissa.mk (m * 2 ^ k) false false >>> k) = ExtendedMantissa.mk m false false := by
  induction k generalizing m with
  | zero => simp [HShiftRight.hShiftRight,Nat.repeat]
  | succ k ih =>
    have hsplit : m * 2 ^ (k + 1) = (m * 2) * 2 ^ k := by rw [Nat.pow_succ]; ac_rfl
    change ((ExtendedMantissa.mk (m * 2 ^ (k + 1)) false false) >>> k).shiftRightOne = _
    rw [hsplit,ih]
    simp [ExtendedMantissa.shiftRightOne]

theorem log2_mul_two_pow (hm : 0 < m) (k : Nat) : (m * 2 ^ k).log2 = m.log2 + k := by
  obtain ⟨hlow,hhigh⟩ := (Nat.log2_eq_iff hm.ne').1 rfl
  rw [Nat.log2_eq_iff (Nat.mul_ne_zero hm.ne' (Nat.two_pow_pos k).ne'),Nat.pow_add,Nat.add_right_comm,Nat.pow_add]
  exact ⟨Nat.mul_le_mul_right _ hlow,Nat.mul_lt_mul_of_pos_right hhigh (Nat.two_pow_pos k)⟩

theorem Fits.target (h : Fits m e) (hm : 0 < m) (k : Nat) :
    Format.binary64.targetExponent (totalExponent (m * 2 ^ k) (e - k)) = e := by
  obtain ⟨hlt,hleast,hfull⟩ := h
  have hlog : m.log2 < 53 := (Nat.log2_lt hm.ne').2 hlt
  have hlog' : 52 ≤ m.log2 ∨ e = -1074 := hfull.imp_left (Nat.le_log2 hm.ne').2
  simp only [Format.targetExponent,totalExponent,log2_mul_two_pow hm,Format.mantissaBits,Format.minExponent]
  omega

theorem round_exact (h : Fits m e) (hm : 0 < m) (s : Sign) (k : Nat) :
    roundWithAccuracy Format.binary64 s (m * 2 ^ k) (e - k) .exact = signed s m e := by
  have hshift : ∀ k : Nat, shiftToTargetExponent Format.binary64 (m * 2 ^ k) (e - k) .exact =
      (ExtendedMantissa.mk m false false,e) := by
    intro k
    have hamount : (e - (e - (k : Int))).toNat = k := by omega
    simp only [shiftToTargetExponent,h.target hm,shiftToExponent,hamount,ExtendedMantissa.ofMantissaAndAccuracy,
      shiftRight_exact,Int.sub_add_cancel]
  have hzero := hshift 0
  rw [Nat.pow_zero,Nat.mul_one,Int.natCast_zero,Int.sub_zero] at hzero
  simp only [roundWithAccuracy,hshift k,ExtendedMantissa.roundedMantissa,ExtendedMantissa.accuracy,
    Accuracy.roundToNearestEven,hzero,signed]

theorem normalize_exact {n : Int} (h : Fits m e') (hvalue : (m : ℚ) * 2 ^ e' = n.natAbs * 2 ^ e) :
    UnpackedFloat.normalize Format.binary64 n e .positive = signed (signOf (n < 0)) m e' := by
  have hround : 0 < n.natAbs → ∀ s, UnpackedFloat.round Format.binary64 s n.natAbs e = signed s m e' := by
    intro hn s
    have hm : 0 < m := (mul_zpow_pos (m := m)).1 (by rw [hvalue]; exact mul_zpow_pos.2 hn)
    -- the larger of the two exponents is lowered to the other
    rcases le_total e' e with hle | hle
    · obtain ⟨k,rfl⟩ : ∃ k : Nat, e' = e - k := ⟨(e - e').toNat,by omega⟩
      rw [mul_zpow_eq n.natAbs hle,show (e - (e - k)).toNat = k by omega] at hvalue
      have hnat : m = n.natAbs * 2 ^ k := by exact_mod_cast mul_right_cancel₀ (by positivity) hvalue
      have htarget : Format.binary64.targetExponent (totalExponent n.natAbs e) = e - k := by
        rw [← h.target hm 0,hnat]
        simp only [totalExponent,Nat.pow_zero,Nat.mul_one,log2_mul_two_pow hn]
        congr 1
        omega
      have hexact := round_exact h hm s 0
      rw [Nat.pow_zero,Nat.mul_one,Int.natCast_zero,Int.sub_zero] at hexact
      simp only [UnpackedFloat.round,htarget,decreaseExponent,Nat.shiftLeft_eq,Int.sub_sub_self,Int.toNat_natCast]
      rw [← hnat,hexact]
    · obtain ⟨k,rfl⟩ : ∃ k : Nat, e = e' - k := ⟨(e' - e).toNat,by omega⟩
      rw [mul_zpow_eq m hle,show (e' - (e' - k)).toNat = k by omega] at hvalue
      have hnat : m * 2 ^ k = n.natAbs := by exact_mod_cast mul_right_cancel₀ (by positivity) hvalue
      have hamount : (e' - (k : Int) - e').toNat = 0 := by omega
      simp only [UnpackedFloat.round,← hnat,h.target hm,decreaseExponent,hamount,Nat.shiftLeft_zero,
        Int.natCast_zero,Int.sub_zero]
      exact round_exact h hm s k
  unfold UnpackedFloat.normalize
  rcases lt_trichotomy n 0 with hlt | rfl | hgt
  · rw [Int.compare_eq_lt.2 hlt,decide_eq_true hlt,show (-n).toNat = n.natAbs by omega]
    exact hround (by omega) _
  · have hm : m = 0 := mul_zpow_eq_zero.1 (by rw [hvalue]; simp)
    subst hm
    rfl
  · rw [Int.compare_eq_gt.2 hgt,decide_eq_false (by omega),show n.toNat = n.natAbs by omega]
    exact hround (by omega) _

/-! Sums and products -/

/-- A sum of 53 bits is exact. -/
theorem toRat_add {n f : Int} (hx : x.toModel.unpack = .finite s m e h) (hy : y.toModel.unpack = .finite s' m' e' h')
    (hsum : toRat x + toRat y = n * 2 ^ f) (hn : n.natAbs < 2 ^ 53) (hlow : -1074 ≤ f) (hhigh : f ≤ 971) :
    (x + y).isFinite = true ∧ toRat (x + y) = toRat x + toRat y := by
  obtain ⟨k,d,hfits,hd,hvalue⟩ := exists_fits hn hlow
  have hadd : x + y = .ofModel (Float.Model.pack (UnpackedFloat.normalize Format.binary64
      (s.apply (m <<< (e - min e e').toNat : Nat) + s'.apply (m' <<< (e' - min e e').toNat : Nat)) (min e e') .positive)) := by
    change Float.ofModel (Float.Model.pack (UnpackedFloat.add Format.binary64 x.toModel.unpack y.toModel.unpack)) = _
    rw [hx,hy]
    rfl
  have happly : ∀ (s : Sign) (m : Nat), ((s.apply m : Int) : ℚ) = s.apply 1 * m := by
    intro s m
    cases s <;> simp [Sign.apply]
  have hexact : ((s.apply (m <<< (e - min e e').toNat : Nat) + s'.apply (m' <<< (e' - min e e').toNat : Nat) : Int) : ℚ) *
      2 ^ min e e' = n * 2 ^ f := by
    rw [← hsum,toRat,toRat,hx,hy,rational,rational,Int.cast_add,add_mul,happly,happly,happly s m,happly s' m',
      mul_assoc,mul_assoc,mul_assoc,mul_assoc,Nat.shiftLeft_eq,Nat.shiftLeft_eq,← mul_zpow_eq m (min_le_left _ _),
      ← mul_zpow_eq m' (min_le_right _ _)]
  rw [hsum,hadd]
  generalize s.apply (m <<< (e - min e e').toNat : Nat) + s'.apply (m' <<< (e' - min e e').toNat : Nat) = t at hexact ⊢
  have hpos : (0 : ℚ) < 2 ^ min e e' := by positivity
  have habs : (k : ℚ) * 2 ^ d = t.natAbs * 2 ^ min e e' := by
    rw [hvalue,Nat.cast_natAbs,Nat.cast_natAbs,Int.cast_abs,Int.cast_abs,← abs_of_pos hpos,← abs_mul,hexact,abs_mul,
      abs_of_pos (show (0 : ℚ) < 2 ^ f by positivity)]
  have hparts := parts?_pack (s := signOf (t < 0)) hfits (hd.trans hhigh)
  rw [normalize_exact hfits habs]
  refine ⟨isFinite_of_parts hparts,?_⟩
  rw [toRat_of_parts hparts,← hexact]
  rcases lt_or_ge t 0 with hlt | hge
  · rw [Nat.cast_natAbs,abs_of_neg hlt] at habs
    rw [decide_eq_true hlt]
    change ((-(k : Int) : Int) : ℚ) * 2 ^ d = _
    push_cast at habs ⊢
    linarith
  · rw [Nat.cast_natAbs,abs_of_nonneg hge] at habs
    rw [decide_eq_false (by omega)]
    exact habs

/-- A number of at least one half and below 2 ^ 53 has a fraction of at most 53 bits. -/
theorem unpack_of_between (hlow : 1 / 2 ≤ |toRat x|) (hhigh : |toRat x| < 2 ^ 53) :
    ∃ s m k h, x.toModel.unpack = .finite s m (-(k : Nat)) h ∧ k ≤ 53 ∧ m < 2 ^ 53 ∧ |toRat x| = m * 2 ^ (-(k : Int)) := by
  cases hp : parts? x with
  | none =>
    have hzero : toRat x = 0 := by
      rw [toRat]
      rcases unpack_of_none hp with hu | ⟨s,hu⟩ <;> rw [hu] <;> rfl
    rw [hzero] at hlow
    norm_num at hlow
  | some p =>
    obtain ⟨hunpack,hfits,-⟩ := unpack_of_parts hp
    have habs : |toRat x| = p.mantissa * 2 ^ p.exponent := by
      have hpos : (0 : ℚ) ≤ p.mantissa * 2 ^ p.exponent := by positivity
      rw [toRat_of_parts hp]
      cases p.neg <;> simp [signOf,Sign.apply,abs_of_nonneg hpos]
    rw [habs] at hlow hhigh ⊢
    obtain ⟨hfull,hleast⟩ := hfits.of_le (a := -53) (by decide) (by norm_num at hlow ⊢; exact hlow)
    have hmost : p.exponent ≤ 0 := by
      by_contra hnot
      have hle : ((2 ^ 52 : Nat) : ℚ) * 2 ^ (1 : ℤ) ≤ p.mantissa * 2 ^ p.exponent := by
        gcongr
        · norm_num
        · omega
      norm_num at hle hhigh
      linarith
    obtain ⟨k,hk⟩ : ∃ k : Nat, p.exponent = -k := ⟨(-p.exponent).toNat,by omega⟩
    rw [hk] at hunpack ⊢
    exact ⟨_,_,k,by omega,hunpack.trans (signed_of_pos (by omega) _ _),by omega,hfits.lt,rfl⟩

/-- Adding a whole number is exact where it does not take a number farther from zero. -/
theorem toRat_add_whole {c : Int} (hlow : 1 / 2 ≤ |toRat x|) (hhigh : |toRat x| < 2 ^ 53)
    (hy : y.toModel.unpack = .finite s' m' e' h') (hc : toRat y = c) (hle : |toRat x + c| ≤ |toRat x|) :
    (x + y).isFinite = true ∧ toRat (x + y) = toRat x + c := by
  obtain ⟨s,m,k,h,hx,hk,hm,habs⟩ := unpack_of_between hlow hhigh
  have hpos : (0 : ℚ) < 2 ^ (-(k : Int)) := by positivity
  have hsum : toRat x + c = ((s.apply m + c * 2 ^ k : Int) : ℚ) * 2 ^ (-(k : Int)) := by
    rw [toRat,hx,rational,zpow_neg,zpow_natCast]
    push_cast
    field_simp
  rw [← hc] at hsum ⊢
  refine toRat_add hx hy hsum ?_ (by omega) (by omega)
  rw [← hc,hsum,habs,abs_mul,abs_of_pos hpos] at hle
  have hnat := le_of_mul_le_mul_right hle hpos
  rw [← Int.cast_abs,← Nat.cast_natAbs] at hnat
  exact Nat.lt_of_le_of_lt (by exact_mod_cast hnat) hm

/-- Taking away a number adds its opposite. -/
theorem sub_eq_add {z : Float} (hx : x.toModel.unpack = .finite s m e h) (hy : y.toModel.unpack = .finite .positive m' e' h')
    (hz : z.toModel.unpack = .finite .negative m' e' h') : x - y = x + z := by
  change Float.ofModel (Float.Model.pack (UnpackedFloat.sub Format.binary64 x.toModel.unpack y.toModel.unpack)) =
    .ofModel (Float.Model.pack (UnpackedFloat.add Format.binary64 x.toModel.unpack z.toModel.unpack))
  rw [hx,hy,hz]
  rfl

/-- From one half up to 2 ^ 53 taking away one is exact. -/
theorem toRat_sub_one (hlow : 1 / 2 ≤ toRat x) (hhigh : toRat x < 2 ^ 53) :
    (x - 1.0).isFinite = true ∧ toRat (x - 1.0) = toRat x - 1 := by
  have habs : toRat x = |toRat x| := (abs_of_nonneg (by linarith)).symm
  have hone : toRat (-1.0) = (-1 : Int) := by
    rw [toRat,show (-1.0 : Float).toModel.unpack = .finite .negative (2 ^ 52) (-52) (by decide) from rfl,rational]
    norm_num [Sign.apply]
  have hlow' := hlow.trans (le_abs_self _)
  obtain ⟨s,m,k,h,hx,-⟩ := unpack_of_between hlow' (habs ▸ hhigh)
  rw [sub_eq_add hx (z := -1.0) rfl rfl,sub_eq_add_neg]
  exact_mod_cast toRat_add_whole hlow' (habs ▸ hhigh) (y := -1.0) rfl hone
    (by rw [abs_le,← habs]; push_cast; constructor <;> linarith)

/-- A product of 53 bits is exact. -/
theorem parts?_mul {n' : Nat} {k k' : Int} (hx : parts? x = some ⟨false,n,k⟩) (hy : parts? y = some ⟨false,n',k'⟩)
    (h : Fits m e) (he : e ≤ 971) (hvalue : (m : ℚ) * 2 ^ e = n * 2 ^ k * (n' * 2 ^ k')) :
    parts? (x * y) = some ⟨false,m,e⟩ := by
  obtain ⟨hunpack,⟨-,hleast,hfull⟩,-⟩ := unpack_of_parts hx
  obtain ⟨hunpack',⟨-,hleast',hfull'⟩,-⟩ := unpack_of_parts hy
  dsimp only at hleast hfull hleast' hfull'
  rw [mul_mul_mul_comm,← zpow_add₀ (by norm_num),← Nat.cast_mul] at hvalue
  have hmul : UnpackedFloat.mul Format.binary64 (signed .positive n k) (signed .positive n' k') = signed .positive m e := by
    by_cases hzero : n * n' = 0
    · rw [hzero,Nat.cast_zero,zero_mul,mul_zpow_eq_zero] at hvalue
      rw [hvalue,signed_zero _ e]
      rcases Nat.mul_eq_zero.1 hzero with rfl | rfl
      · rw [signed_zero,signed]
        split <;> rfl
      · rw [signed_zero,signed]
        split <;> rfl
    · have hn : 0 < n := Nat.pos_of_ne_zero fun heq => hzero (by rw [heq,Nat.zero_mul])
      have hn' : 0 < n' := Nat.pos_of_ne_zero fun heq => hzero (by rw [heq,Nat.mul_zero])
      have hm : 0 < m := mul_zpow_pos.1 (hvalue ▸ mul_zpow_pos.2 (Nat.mul_pos hn hn'))
      -- the product has no fewer bits than a mantissa may have
      have hle : k + k' ≤ e := by
        by_contra hnot
        rw [mul_zpow_eq (n * n') (show e ≤ k + k' by omega)] at hvalue
        have hnat : m = n * n' * 2 ^ (k + k' - e).toNat := by exact_mod_cast mul_right_cancel₀ (by positivity) hvalue
        have hstep : 2 ^ 1 ≤ 2 ^ (k + k' - e).toNat := Nat.pow_le_pow_right (by decide) (by omega)
        have hbits : 2 ^ 52 ≤ n * n' := by
          rcases hfull with hfull | hfull
          · exact hfull.trans (Nat.le_mul_of_pos_right n hn')
          · exact (hfull'.resolve_right (by have := h.least; omega)).trans (Nat.le_mul_of_pos_left n' hn)
        have := Nat.mul_le_mul hbits hstep
        have := h.lt
        omega
      rw [mul_zpow_eq m hle] at hvalue
      have hnat : m * 2 ^ (e - (k + k')).toNat = n * n' := by exact_mod_cast mul_right_cancel₀ (by positivity) hvalue
      have hexact := round_exact h hm .positive (e - (k + k')).toNat
      rw [hnat,show e - ((e - (k + k')).toNat : Int) = k + k' by omega] at hexact
      rw [signed_of_pos hn,signed_of_pos hn']
      exact hexact
  change parts? (.ofModel (Float.Model.pack (UnpackedFloat.mul Format.binary64 x.toModel.unpack y.toModel.unpack))) = _
  rw [hunpack,hunpack']
  exact hmul ▸ parts?_pack h he

end SpriteMachine.Double
