import Mathlib
import SpriteMachine.Instr

/-!
Doubles as bit patterns: a sign, a mantissa and an exponent, infinity or NaN. A number is read back from its two words, and
the number that a text stands for is never NaN.
-/

namespace SpriteMachine.Double

open Float.Model UnpackedFloat

/-! The parts of a double -/

/-- A mantissa and an exponent as doubles have them: a full mantissa, or any at the least exponent. -/
structure Fits (m : Nat) (e : Int) : Prop where
  lt : m < 2 ^ 53
  least : -1074 ≤ e
  full : 2 ^ 52 ≤ m ∨ e = -1074

/-- A mantissa and an exponent with a sign. -/
def signed (s : Sign) (m : Nat) (e : Int) : UnpackedFloat :=
  if h : m = 0 then .zero s else .finite s m e (Nat.pos_of_ne_zero h)

def signOf (neg : Bool) : Sign :=
  if neg then .negative else .positive

variable {x y : Float} {p : Parts} {s : Sign} {m : Nat} {e : Int}

theorem signed_zero (s : Sign) (e : Int) : signed s 0 e = .zero s := rfl

theorem signed_of_pos (h : 0 < m) (s : Sign) (e : Int) : signed s m e = .finite s m e h :=
  dif_neg h.ne'

theorem isNaN_signed (s : Sign) (m : Nat) (e : Int) : (signed s m e).isNaN = false := by
  unfold signed
  split <;> rfl

theorem toNat_packComponents (s : Sign) (e : BitVec 11) (m : BitVec 52) :
    (packComponents Format.binary64 s e m).toNat = s.toBitVec.toNat * 2 ^ 63 + e.toNat * 2 ^ 52 + m.toNat := by
  change ((s.toBitVec ++ e) ++ m).toNat = _
  rw [BitVec.toNat_append,← Nat.shiftLeft_add_eq_or_of_lt m.isLt,BitVec.toNat_append,
    ← Nat.shiftLeft_add_eq_or_of_lt e.isLt,Nat.shiftLeft_eq,Nat.shiftLeft_eq]
  omega

theorem pack_parts (b : BitVec 64) :
    packComponents Format.binary64 (.ofBitVec (@unpackSign Format.binary64 b)) (@unpackExponent Format.binary64 b)
      (@unpackMantissa Format.binary64 b) = b := by
  have hsign : ∀ x : BitVec 1, (Sign.ofBitVec x).toBitVec = x := by decide
  have hlt : b.toNat < 2 ^ 64 := b.isLt
  apply BitVec.eq_of_toNat_eq
  rw [toNat_packComponents,hsign]
  simp only [unpackSign,unpackExponent,unpackMantissa,BitVec.toNat_cast,BitVec.extractLsb_toNat,
    Nat.shiftRight_eq_div_pow]
  change b.toNat / 2 ^ 63 % 2 ^ 1 * 2 ^ 63 + b.toNat / 2 ^ 52 % 2 ^ 11 * 2 ^ 52 + b.toNat / 2 ^ 0 % 2 ^ 52 = b.toNat
  omega

/-- The bits of a double, and what it is by its field for the exponent. -/
theorem unpack_cases (x : Float) : ∃ (s : Sign) (e : BitVec 11) (m : BitVec 52),
    x.toModel.toBits.toBitVec = packComponents Format.binary64 s e m ∧ x.toModel.unpack =
      if e.toNat = 2047 then (if m = 0#52 then .infinity s else .notANumber)
      else if e.toNat = 0 then signed s m.toNat (-1074) else signed s (2 ^ 52 + m.toNat) (e.toNat - 1075) := by
  refine ⟨_,_,_,(pack_parts x.toModel.toBits.toBitVec).symm,?_⟩
  change UnpackedFloat.unpack Format.binary64 x.toModel.toBits.toBitVec = _
  generalize hs : Sign.ofBitVec (@unpackSign Format.binary64 x.toModel.toBits.toBitVec) = s
  generalize he : @unpackExponent Format.binary64 x.toModel.toBits.toBitVec = e
  generalize hm : @unpackMantissa Format.binary64 x.toModel.toBits.toBitVec = m
  unfold UnpackedFloat.unpack
  simp only [hs,he,hm]
  have hfield : ∀ f : BitVec 11, e = f ↔ e.toNat = f.toNat := fun f => BitVec.toNat_inj.symm
  have htop : e = -1#11 ↔ e.toNat = 2047 := hfield _
  have hzero : e = 0#11 ↔ e.toNat = 0 := hfield _
  have hmantissa : (1#1 ++ m).toNat = 2 ^ 52 + m.toNat := by
    rw [BitVec.toNat_append,← Nat.shiftLeft_add_eq_or_of_lt m.isLt]
    rfl
  split
  next h => rw [if_pos (htop.1 h)]
  next h =>
    rw [if_neg (mt htop.2 h)]
    split
    next h0 =>
      rw [if_pos (hzero.1 h0),signed]
      subst h0
      by_cases hm : m = 0#52
      · subst hm
        rfl
      · have hm' : m.toNat ≠ 0 := fun heq => hm (BitVec.eq_of_toNat_eq heq)
        rw [dif_neg hm,dif_neg hm']
        rfl
    next h0 =>
      rw [if_neg (mt hzero.2 h0),signed,dif_neg (by omega)]
      simp only [hmantissa]
      rfl

theorem parts?_packed {e : BitVec 11} {m : BitVec 52}
    (h : x.toModel.toBits.toBitVec = packComponents Format.binary64 s e m) :
    parts? x = if e.toNat = 2047 then none
      else if e.toNat = 0 then some ⟨s == .negative,m.toNat,-1074⟩
      else some ⟨s == .negative,2 ^ 52 + m.toNat,e.toNat - 1075⟩ := by
  have hnat : x.toBits.toNat = s.toBitVec.toNat * 2 ^ 63 + e.toNat * 2 ^ 52 + m.toNat := by
    rw [← toNat_packComponents,← h]
    rfl
  have hm : m.toNat < 2 ^ 52 := m.isLt
  have he : e.toNat < 2 ^ 11 := e.isLt
  have hs : s.toBitVec.toNat < 2 := s.toBitVec.isLt
  have hfield : x.toBits.toNat / 2 ^ 52 % 2048 = e.toNat := by omega
  have hfraction : x.toBits.toNat % 2 ^ 52 = m.toNat := by omega
  have hsign : x.toBits.toNat / 2 ^ 63 = s.toBitVec.toNat := by omega
  have hneg : (s.toBitVec.toNat == 1) = (s == .negative) := by cases s <;> rfl
  simp only [parts?,Nat.pow_eq,hfield,hfraction,hsign,hneg]

theorem unpack_of_parts (h : parts? x = some p) :
    x.toModel.unpack = signed (signOf p.neg) p.mantissa p.exponent ∧ Fits p.mantissa p.exponent ∧ p.exponent ≤ 971 := by
  obtain ⟨s,e,m,hbits,hunpack⟩ := unpack_cases x
  have hm : m.toNat < 2 ^ 52 := m.isLt
  have he : e.toNat < 2 ^ 11 := e.isLt
  have hsign : signOf (s == .negative) = s := by cases s <;> rfl
  rw [parts?_packed hbits] at h
  rw [hunpack]
  split at h
  · cases h
  next htop =>
    rw [if_neg htop]
    split at h
    next hzero =>
      cases h
      rw [if_pos hzero,hsign]
      exact ⟨rfl,⟨by dsimp only; omega,by dsimp only; omega,.inr rfl⟩,by dsimp only; omega⟩
    next hzero =>
      cases h
      rw [if_neg hzero,hsign]
      exact ⟨rfl,⟨by dsimp only; omega,by dsimp only; omega,.inl (Nat.le_add_right _ _)⟩,by dsimp only; omega⟩

theorem isNaN_of_parts (h : parts? x = some p) : x.isNaN = false := by
  change x.toModel.unpack.isNaN = false
  rw [(unpack_of_parts h).1,isNaN_signed]

theorem unpack_of_none (h : parts? x = none) : x.toModel.unpack = .notANumber ∨ ∃ s, x.toModel.unpack = .infinity s := by
  obtain ⟨s,e,m,hbits,hunpack⟩ := unpack_cases x
  rw [parts?_packed hbits] at h
  split at h
  next htop =>
    rw [if_pos htop] at hunpack
    split at hunpack
    · exact .inr ⟨s,hunpack⟩
    · exact .inl hunpack
  · split at h <;> cases h

/-- The bits of a double are made up of its parts. -/
theorem toBits_of_parts (h : parts? x = some p) :
    x.toBits.toNat = p.neg.toNat * 2 ^ 63 + (p.exponent + 1074).toNat * 2 ^ 52 + p.mantissa := by
  obtain ⟨s,e,m,hbits,-⟩ := unpack_cases x
  have hnat : x.toBits.toNat = s.toBitVec.toNat * 2 ^ 63 + e.toNat * 2 ^ 52 + m.toNat := by
    rw [← toNat_packComponents,← hbits]
    rfl
  have hsign : (s == .negative).toNat = s.toBitVec.toNat := by cases s <;> rfl
  rw [parts?_packed hbits] at h
  split at h
  · cases h
  · split at h
    next hzero =>
      cases h
      dsimp only
      rw [hnat,hsign,hzero]
      rfl
    next =>
      cases h
      dsimp only
      rw [hnat,hsign]
      generalize s.toBitVec.toNat = k
      omega

theorem eq_of_parts (hx : parts? x = some p) (hy : parts? y = some p) : x = y := by
  have hbits : x.toBits = y.toBits := UInt64.toNat_inj.1 ((toBits_of_parts hx).trans (toBits_of_parts hy).symm)
  obtain ⟨⟨bits,valid⟩⟩ := x
  obtain ⟨⟨bits',valid'⟩⟩ := y
  obtain rfl : bits = bits' := hbits
  rfl

theorem parts?_pack (h : Fits m e) (he : e ≤ 971) :
    parts? (.ofModel (Float.Model.pack (signed s m e))) = some ⟨s == .negative,m,e⟩ := by
  obtain ⟨hlt,hleast,hfull⟩ := h
  unfold signed
  split
  next hzero =>
    subst hzero
    obtain rfl : e = -1074 := hfull.resolve_left (by decide)
    exact parts?_packed (s := s) (e := 0) (m := 0) rfl
  next hzero =>
    have hroom : ¬ 2 ^ Format.binary64.exponentBits ≤
        (e + Format.binary64.exponentBias + Format.binary64.mantissaBitsWithoutImplicit).toNat + 1 := by
      change ¬ 2 ^ 11 ≤ (e + (1023 : Nat) + (52 : Nat)).toNat + 1
      omega
    have hlog := Nat.log2_eq_iff (n := m) (k := 52) hzero
    by_cases hnormal : 2 ^ 52 ≤ m
    · have hpack : UnpackedFloat.pack Format.binary64 (.finite s m e (Nat.pos_of_ne_zero hzero)) =
          packComponents Format.binary64 s (BitVec.ofNat 11 (e + 1075).toNat) (BitVec.ofNat 52 m) := by
        simp only [UnpackedFloat.pack]
        rw [if_neg hroom,if_pos (by rw [hlog.2 ⟨hnormal,hlt⟩]; rfl)]
        congr 3
        change e + (1023 : Nat) + (52 : Nat) = _
        omega
      have hfield : (BitVec.ofNat 11 (e + 1075).toNat).toNat = (e + 1075).toNat := by
        rw [BitVec.toNat_ofNat]
        exact Nat.mod_eq_of_lt (by omega)
      have hfraction : 2 ^ 52 + (BitVec.ofNat 52 m).toNat = m := by
        rw [BitVec.toNat_ofNat]
        omega
      rw [parts?_packed hpack,hfield,hfraction,if_neg (by omega),if_neg (by omega)]
      congr 2
      omega
    · have hpack : UnpackedFloat.pack Format.binary64 (.finite s m e (Nat.pos_of_ne_zero hzero)) =
          packComponents Format.binary64 s 0#11 (BitVec.ofNat 52 m) := by
        simp only [UnpackedFloat.pack]
        rw [if_neg hroom,if_neg]
        intro heq
        exact hnormal (hlog.1 (by simp only [Format.mantissaBits] at heq; omega)).1
      have hfraction : (BitVec.ofNat 52 m).toNat = m := by
        rw [BitVec.toNat_ofNat]
        exact Nat.mod_eq_of_lt (by omega)
      rw [parts?_packed hpack,hfraction,hfull.resolve_left hnormal]
      rfl

/-! Numbers that are not NaN -/

variable {f a b : UnpackedFloat} {spec : Format}

theorem isNaN_unpack_pack (hf : f.isNaN = false) :
    (UnpackedFloat.unpack Format.binary64 (f.pack Format.binary64)).isNaN = false := by
  cases f with
  | notANumber => cases hf
  | infinity s | zero s => cases s <;> decide
  | finite s m e h =>
    unfold UnpackedFloat.pack
    dsimp only
    split
    · cases s <;> decide
    next hlt =>
      have hne : ∀ (exponent : BitVec 11) (mantissa : BitVec 52), exponent ≠ -1#11 →
          (UnpackedFloat.unpack Format.binary64
            (packComponents Format.binary64 s exponent mantissa)).isNaN = false := by
        intro exponent mantissa hne
        unfold UnpackedFloat.unpack
        simp only [unpackExponent_packComponents,unpackMantissa_packComponents,
          if_neg hne]
        split
        · split <;> rfl
        · rfl
      split
      · refine hne _ _ fun heq => hlt ?_
        have hnat := congrArg BitVec.toNat heq
        simp at hnat
        omega
      · exact hne _ _ (by decide)

theorem isNaN_ofModel_pack (hf : f.isNaN = false) : (Float.ofModel (pack f)).isNaN = false :=
  isNaN_unpack_pack hf

theorem isNaN_roundWithAccuracy (spec : Format) (s : Sign) (m : Nat) (e : Int)
    (a : Accuracy) : (roundWithAccuracy spec s m e a).isNaN = false := by
  unfold roundWithAccuracy
  dsimp only
  split <;> rfl

theorem isNaN_normalize (spec : Format) (m e : Int) (s : Sign) :
    (UnpackedFloat.normalize spec m e s).isNaN = false := by
  unfold UnpackedFloat.normalize
  split
  · exact isNaN_roundWithAccuracy _ _ _ _ _
  · rfl
  · exact isNaN_roundWithAccuracy _ _ _ _ _

def isOrdinary : UnpackedFloat → Bool
  | .finite .. => true
  | _ => false

theorem isNaN_mul (ha : a.isNaN = false) (hb : isOrdinary b = true) : (a.mul spec b).isNaN = false := by
  cases b with
  | finite s m e h =>
    cases a with
    | notANumber => cases ha
    | infinity s => rfl
    | zero s => rfl
    | finite s m e h => exact isNaN_roundWithAccuracy _ _ _ _ _
  | _ => cases hb

theorem isNaN_div (ha : a.isNaN = false) (hb : isOrdinary b = true) : (a.div spec b).isNaN = false := by
  cases b with
  | finite s m e h =>
    cases a with
    | notANumber => cases ha
    | infinity s => rfl
    | zero s => rfl
    | finite s m e h => exact isNaN_roundWithAccuracy _ _ _ _ _
  | _ => cases hb

theorem isNaN_ofScientific_model (m : Nat) (e : Int) :
    (Float.ofModel (Float.Model.ofScientific m e)).isNaN = false := by
  refine isNaN_ofModel_pack ?_
  unfold UnpackedFloat.ofScientific
  split
  · rfl
  · split
    · rfl
    · split
      · rfl
      · split
        · exact isNaN_mul rfl rfl
        · exact isNaN_div rfl rfl

theorem isNaN_toFloat (w : UInt64) : w.toFloat.isNaN = false :=
  isNaN_ofModel_pack (isNaN_normalize _ _ _ _)

theorem isNaN_ofScientific (m : Nat) (s : Bool) (e : Nat) : (Float.ofScientific m s e).isNaN = false := by
  have hpowers : ∀ x ∈ Float.exactlyRepresentablePowersOfTen, isOrdinary x.toModel.unpack = true := by decide
  unfold Float.ofScientific
  split
  · dsimp only
    split
    · exact isNaN_ofModel_pack (isNaN_div (isNaN_toFloat _) (hpowers _ (Array.getElem_mem _)))
    · exact isNaN_ofModel_pack (isNaN_mul (isNaN_toFloat _) (hpowers _ (Array.getElem_mem _)))
  · exact isNaN_ofScientific_model _ _

theorem isNaN_neg_one_mul {x : Float} (hx : x.isNaN = false) : (-1.0 * x).isNaN = false := by
  have hone : ∃ s m e h, (-1.0 : Float).toModel.unpack = .finite s m e h := ⟨_,_,_,_,rfl⟩
  obtain ⟨s,m,e,h,hone⟩ := hone
  refine isNaN_ofModel_pack ?_
  rw [hone]
  cases hu : x.toModel.unpack with
  | notANumber =>
    have hnan : x.toModel.unpack.isNaN = false := hx
    rw [hu] at hnan
    cases hnan
  | infinity s => rfl
  | zero s => rfl
  | finite s m e h => exact isNaN_roundWithAccuracy _ _ _ _ _

/-! Reading back -/

theorem ofBits_toBits (x : Float) : Float.ofBits x.toBits = x := by
  change .ofModel (Float.Model.pack x.toModel.unpack) = x
  cases h : parts? x with
  | some p =>
    obtain ⟨hunpack,hfits,hmax⟩ := unpack_of_parts h
    refine eq_of_parts ?_ h
    rw [hunpack,parts?_pack hfits hmax]
    obtain ⟨neg,m,e⟩ := p
    cases neg <;> rfl
  | none =>
    obtain ⟨s,e,m,hbits,hunpack⟩ := unpack_cases x
    rw [parts?_packed hbits] at h
    obtain ⟨⟨⟨bits⟩,valid⟩⟩ := x
    change bits = _ at hbits
    rw [hunpack]
    split at h
    next htop =>
      obtain rfl : e = -1#11 := BitVec.eq_of_toNat_eq htop
      subst hbits
      refine congrArg Float.ofModel ?_
      rw [Float.Model.pack,Float.Model.mk.injEq,if_pos htop]
      split
      next hzero => rw [hzero]; rfl
      next hzero =>
        exact congrArg UInt64.ofBitVec (valid.eq_packedNaN unpackExponent_packComponents
          (by rw [unpackMantissa_packComponents]; exact hzero)).symm
    · split at h <;> cases h

theorem isNaN_ofNat (n : Nat) : (Float.ofNat n).isNaN = false :=
  isNaN_ofScientific n false 0

theorem isNaN_infinity : infinity.isNaN = false := by
  decide +kernel

end SpriteMachine.Double

namespace SpriteMachine

theorem or_halves (w : UInt64) : w.toUInt32.toUInt64 ||| ((w >>> 32).toUInt32.toUInt64 <<< 32) = w := by
  have hlow : w.toNat % 2 ^ 32 < 2 ^ 32 := Nat.mod_lt _ (by decide)
  have hhigh : w.toNat / 2 ^ 32 < 2 ^ 32 := Nat.div_lt_of_lt_mul (by simpa using w.toNat_lt)
  have hor := Nat.shiftLeft_add_eq_or_of_lt hlow (w.toNat / 2 ^ 32)
  apply UInt64.toNat_inj.1
  simp [Nat.shiftRight_eq_div_pow,Nat.shiftLeft_eq] at hor hhigh ⊢
  rw [Nat.or_comm,Nat.mod_eq_of_lt hhigh,Nat.mod_eq_of_lt (by omega)]
  omega

theorem numberOfWords_wordsOfNumber (x : Float) :
    numberOfWords (wordsOfNumber x).1 (wordsOfNumber x).2 = x := by
  unfold numberOfWords wordsOfNumber
  rw [or_halves,Double.ofBits_toBits]

/-! Texts that stand for numbers -/

theorem Decimal.isNaN_toFloat (d : Decimal) : d.toFloat.isNaN = false := by
  unfold Decimal.toFloat
  dsimp only
  split
  · exact Double.isNaN_ofScientific _ _ _
  · split
    · exact Double.isNaN_infinity
    · split
      · exact Double.isNaN_ofScientific _ _ _
      · exact Double.isNaN_ofScientific _ _ _

variable {cs : List Char} {x : Float}

theorem Numeral.isNaN_unsigned (h : Numeral.unsigned? cs = some x) : x.isNaN = false := by
  unfold Numeral.unsigned? at h
  split at h
  · cases h
    exact Double.isNaN_infinity
  · obtain ⟨d,-,rfl⟩ := Option.map_eq_some_iff.1 h
    exact d.isNaN_toFloat

theorem Numeral.isNaN_ofChars (h : Numeral.ofChars? cs = some x) : x.isNaN = false := by
  unfold Numeral.ofChars? at h
  split at h
  · cases h
    exact Double.isNaN_ofScientific _ _ _
  · obtain ⟨y,hy,rfl⟩ := Option.map_eq_some_iff.1 h
    exact Double.isNaN_neg_one_mul (isNaN_unsigned hy)
  · exact isNaN_unsigned h
  · split at h
    · obtain ⟨n,-,rfl⟩ := Option.map_eq_some_iff.1 h
      exact Double.isNaN_ofNat n
    · exact isNaN_unsigned h
  · exact isNaN_unsigned h

theorem isNaN_literalNumber {s : String} (h : literalNumber? s = some x) : x.isNaN = false := by
  unfold literalNumber? at h
  split at h
  · cases h
  · exact Numeral.isNaN_ofChars h

/-! Comparison -/

theorem Double.lt_iff (x y : Float) : x < y ↔ x.toModel.unpack.compare y.toModel.unpack = some .lt := by
  change (decide (x.toModel < y.toModel) = true) ↔ _
  rw [decide_eq_true_iff]
  change (x.toModel.unpack.compare y.toModel.unpack == some .lt) = true ↔ _
  rw [beq_iff_eq]

theorem Double.beq_iff (x y : Float) : (x == y) = true ↔ x.toModel.unpack.compare y.toModel.unpack = some .eq := by
  change (x.toModel.unpack.compare y.toModel.unpack == some .eq) = true ↔ _
  rw [beq_iff_eq]

/-! Values as numbers -/

theorem Value.toNumber_number (h : x.isNaN = false) : (Value.number x).toNumber = x := by
  rw [toNumber,toRawNumber,zeroIfNaN,h]
  rfl

theorem Value.isNaN_toNumber (v : Value) : v.toNumber.isNaN = false := by
  unfold toNumber zeroIfNaN
  split
  next => decide
  next h => exact eq_false_of_ne_true h

end SpriteMachine
