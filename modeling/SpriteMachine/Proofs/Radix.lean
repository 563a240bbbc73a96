import Mathlib
import SpriteMachine.Value

/-!
Digits in a radix and the number they write. A colour is read from six hexadecimal digits, the first of which a plus
sign may replace.
-/

namespace SpriteMachine.Numeral

/-- The digits of the radices up to sixteen in their order. -/
def smallDigits : List Char :=
  ['0','1','2','3','4','5','6','7','8','9','a','b','c','d','e','f']

def capitalDigits : List Char :=
  ['0','1','2','3','4','5','6','7','8','9','A','B','C','D','E','F']

def IsDigit (radix : Nat) (c : Char) (d : Nat) : Prop :=
  d < radix ∧ (smallDigits[d]? = some c ∨ capitalDigits[d]? = some c)

/-- At least one digit, and the value of all. -/
inductive Digits (radix : Nat) : List Char → Nat → Prop where
  | single {c : Char} {d : Nat} : IsDigit radix c d → Digits radix [c] d
  | snoc {cs : List Char} {n : Nat} {c : Char} {d : Nat} :
      Digits radix cs n → IsDigit radix c d → Digits radix (cs ++ [c]) (n * radix + d)

theorem smallDigits_get : (∀ d < 10, smallDigits[d]? = some (Char.ofNat (d + 0x30))) ∧
    ∀ d < 16, 10 ≤ d → smallDigits[d]? = some (Char.ofNat (d + 0x57)) ∧ capitalDigits[d]? = some (Char.ofNat (d + 0x37)) := by
  decide

theorem digitValue?_of_mem : ∀ p ∈ smallDigits.zipIdx ++ capitalDigits.zipIdx, digitValue? p.1 = some p.2 := by
  decide

variable {radix n : Nat} {cs : List Char}

theorem isDigit_iff {d : Nat} {c : Char} (hradix : radix ≤ 16) : IsDigit radix c d ↔ digitValue? c = some d ∧ d < radix := by
  constructor
  · rintro ⟨hd,hc⟩
    refine ⟨digitValue?_of_mem (c,d) (List.mem_append.2 ?_),hd⟩
    rwa [List.mem_zipIdx_iff_getElem?,List.mem_zipIdx_iff_getElem?]
  · rintro ⟨hc,hd⟩
    refine ⟨hd,?_⟩
    rw [← Char.ofNat_toNat c]
    unfold digitValue? at hc
    split at hc
    next hrange =>
      have hge : 0x30 ≤ c.toNat := UInt32.le_iff_toNat_le.1 hrange.1
      have hle : c.toNat ≤ 0x39 := UInt32.le_iff_toNat_le.1 hrange.2
      cases hc
      left
      rw [smallDigits_get.1 _ (by omega),Nat.sub_add_cancel hge]
    next =>
      split at hc
      next hrange =>
        have hge : 0x61 ≤ c.toNat := UInt32.le_iff_toNat_le.1 hrange.1
        cases hc
        left
        rw [(smallDigits_get.2 _ (by omega) (by omega)).1,Nat.sub_add_cancel (by omega)]
      next =>
        split at hc
        next hrange =>
          have hge : 0x41 ≤ c.toNat := UInt32.le_iff_toNat_le.1 hrange.1
          cases hc
          right
          rw [(smallDigits_get.2 _ (by omega) (by omega)).2,Nat.sub_add_cancel (by omega)]
        next => cases hc

theorem Digits.ne_nil (h : Digits radix cs n) : cs ≠ [] := by
  cases h <;> simp

theorem radixValue?_append (radix : Nat) (cs : List Char) (c : Char) :
    radixValue? radix (cs ++ [c]) = (if cs = [] then some 0 else radixValue? radix cs).bind fun n =>
      (digitValue? c).bind fun d => if d < radix then some (n * radix + d) else none := by
  unfold radixValue?
  rw [if_neg (by simp),List.foldlM_append]
  by_cases hcs : cs = []
  · subst hcs
    simp
  · rw [if_neg hcs,if_neg (by simpa using hcs)]
    simp

theorem radixValue?_eq_some_iff (hradix : radix ≤ 16) : radixValue? radix cs = some n ↔ Digits radix cs n := by
  constructor
  · intro h
    induction cs using List.reverseRecOn generalizing n with
    | nil => cases h
    | append_singleton cs c ih =>
      rw [radixValue?_append] at h
      obtain ⟨m,hm,h⟩ := Option.bind_eq_some_iff.1 h
      obtain ⟨d,hd,h⟩ := Option.bind_eq_some_iff.1 h
      split at h
      next hlt =>
        cases h
        have hdigit := (isDigit_iff hradix).2 ⟨hd,hlt⟩
        by_cases hcs : cs = []
        · subst hcs
          obtain rfl : 0 = m := by simpa using hm
          simpa using Digits.single hdigit
        · rw [if_neg hcs] at hm
          exact .snoc (ih hm) hdigit
      next => cases h
  · intro h
    induction h with
    | @single c d hc =>
      obtain ⟨hd,hlt⟩ := (isDigit_iff hradix).1 hc
      have happend := radixValue?_append radix [] c
      simpa [hd,hlt] using happend
    | @snoc cs n c d hcs hc ih =>
      obtain ⟨hd,hlt⟩ := (isDigit_iff hradix).1 hc
      rw [radixValue?_append,if_neg hcs.ne_nil,ih]
      simp [hd,hlt]

theorem Digits.lt_pow (h : Digits radix cs n) : n < radix ^ cs.length := by
  induction h with
  | single hc => simpa using hc.1
  | @snoc cs n c d _ hc ih =>
    calc n * radix + d < n * radix + radix := Nat.add_lt_add_left hc.1 _
      _ = (n + 1) * radix := (Nat.succ_mul n radix).symm
      _ ≤ radix ^ cs.length * radix := Nat.mul_le_mul_right radix ih
      _ = radix ^ (cs ++ [c]).length := by rw [List.length_append,List.length_singleton,Nat.pow_succ]

/-- A word is written by its digits, with a plus sign or without. -/
theorem word?_eq_some_iff {bits : Nat} (hradix : radix ≤ 16) :
    word? bits radix cs = some n ↔ n < 2 ^ bits ∧ (Digits radix cs n ∨ ∃ ds, cs = '+' :: ds ∧ Digits radix ds n) := by
  unfold word?
  rw [Option.filter_eq_some_iff,decide_eq_true_eq,and_comm,← radixValue?_eq_some_iff hradix]
  refine and_congr_right fun _ => ?_
  split
  next ds =>
    have hsign : radixValue? radix ('+' :: ds) = none := rfl
    simp [hsign,radixValue?_eq_some_iff hradix]
  next ds hsign =>
    refine ⟨.inl,?_⟩
    rintro (h | ⟨ds',rfl,-⟩)
    · exact h
    · exact absurd rfl (hsign ds')

end SpriteMachine.Numeral

namespace SpriteMachine

open Numeral

/-- A text is `#` and six hexadecimal digits, which write a number. -/
def WritesColour (s : String) (n : Nat) : Prop :=
  ∃ ds, s.toList = '#' :: ds ∧ ds.length = 6 ∧ Digits 16 ds n

theorem literalColour?_eq_some {s : String} {v : UInt32} : literalColour? s = some v ↔
    ∃ hex, s.toList = '#' :: hex ∧ hex.length = 6 ∧ word? 32 16 hex = some v.toNat := by
  unfold literalColour?
  split
  next hex hs =>
    have hword : (word? 32 16 hex).map UInt32.ofNat = some v ↔ word? 32 16 hex = some v.toNat := by
      rw [Option.map_eq_some_iff]
      constructor
      · rintro ⟨n,hn,rfl⟩
        rw [hn,UInt32.toNat_ofNat_of_lt' ((word?_eq_some_iff (by decide)).1 hn).1]
      · intro h
        exact ⟨v.toNat,h,UInt32.ofNat_toNat⟩
    rw [hs]
    by_cases hlength : hex.length = 6
    · simp [hlength,hword]
    · simp [hlength]
  next hs =>
    simp only [reduceCtorEq,false_iff,not_exists,not_and]
    exact fun hex hhex => absurd hhex (hs hex)

/-- A colour literal is `#` and six hexadecimal digits, or a plus sign and five; it is below 2 ^ 24, and as a value the
text is the same colour. -/
theorem literalColour?_iff_writes (s : String) (v : UInt32) :
    (literalColour? s = some v ↔
      WritesColour s v.toNat ∨ ∃ ds, s.toList = '#' :: '+' :: ds ∧ ds.length = 5 ∧ Digits 16 ds v.toNat) ∧
    (literalColour? s = some v → v.toNat < 2 ^ 24 ∧ (Value.text s).toColour = v) := by
  simp only [literalColour?_eq_some,word?_eq_some_iff (Nat.le_refl 16)]
  constructor
  · constructor
    · rintro ⟨hex,hs,hlength,-,hdigits | ⟨ds,rfl,hdigits⟩⟩
      · exact .inl ⟨hex,hs,hlength,hdigits⟩
      · exact .inr ⟨ds,hs,Nat.succ.inj hlength,hdigits⟩
    · rintro (⟨ds,hs,hlength,hdigits⟩ | ⟨ds,hs,hlength,hdigits⟩)
      · exact ⟨ds,hs,hlength,v.toNat_lt,.inl hdigits⟩
      · exact ⟨'+' :: ds,hs,by rw [List.length_cons,hlength],v.toNat_lt,.inr ⟨ds,rfl,hdigits⟩⟩
  · rintro ⟨hex,hs,hlength,hlt,hdigits⟩
    have hword : word? 32 16 hex = some v.toNat := (word?_eq_some_iff (Nat.le_refl 16)).2 ⟨hlt,hdigits⟩
    refine ⟨?_,?_⟩
    · rcases hdigits with hdigits | ⟨ds,rfl,hdigits⟩
      · have hpow := hdigits.lt_pow
        rwa [hlength] at hpow
      · have hpow := hdigits.lt_pow
        rw [Nat.succ.inj hlength] at hpow
        exact Nat.lt_trans hpow (by decide)
    · simp only [Value.toColour,hs,hword,Option.getD_some,UInt32.ofNat_toNat]

theorem literalColour?_plus : literalColour? "#+fffff" = some 0xFFFFF ∧ ¬ WritesColour "#+fffff" 0xFFFFF := by
  refine ⟨by decide +kernel,?_⟩
  rintro ⟨ds,hs,-,hdigits⟩
  obtain rfl : "+fffff".toList = ds := List.cons.inj hs |>.2
  exact absurd ((radixValue?_eq_some_iff (by decide)).2 hdigits) (by decide +kernel)

end SpriteMachine
