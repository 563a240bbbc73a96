import SpriteMachine.Proofs.Literals

/-!
The order of values. Whether two values are compared as numbers or as texts, exchanging them reverses the answer, and
they are equal exactly if neither is less. So exactly one of the three comparison operators is true of a pair.
-/

namespace SpriteMachine

namespace Double

open Float.Model

theorem isSome_compare {a b : UnpackedFloat} (ha : a.isNaN = false) (hb : b.isNaN = false) :
    (a.compare b).isSome = true := by
  cases a with
  | notANumber => cases ha
  | infinity s => cases b with
    | notANumber => cases hb
    | _ => cases s <;> rfl
  | zero s => cases b with
    | notANumber => cases hb
    | zero t => rfl
    | infinity t | finite t m e h => cases t <;> rfl
  | finite s m e h => cases b with
    | notANumber => cases hb
    | zero t => cases s <;> rfl
    | infinity t => cases t <;> rfl
    | finite t n f k => cases s <;> cases t <;> rfl

end Double

namespace Value

/-! Numbers -/

section Numbers

variable {x y : Float} (hx : x.isNaN = false) (hy : y.isNaN = false)
include hx hy

theorem compare_eq_compareNumbers : x.toModel.unpack.compare y.toModel.unpack = some (compareNumbers x y) := by
  obtain ⟨o,ho⟩ := Option.isSome_iff_exists.1 (Double.isSome_compare hx hy)
  have hback : y.toModel.unpack.compare x.toModel.unpack = some o.swap := by rw [Double.compare_swap,ho,Option.map_some]
  have hless : x < y ↔ o = .lt := by rw [Double.lt_iff,ho,Option.some.injEq]
  have hgreater : x > y ↔ o = .gt := by
    rw [gt_iff_lt,Double.lt_iff,hback,Option.some.injEq,← Ordering.swap_inj,Ordering.swap_swap]
    rfl
  rw [ho,compareNumbers]
  simp only [hless,hgreater]
  cases o <;> rfl

theorem compareNumbers_swap : compareNumbers y x = (compareNumbers x y).swap := by
  apply Option.some.inj
  rw [← compare_eq_compareNumbers hy hx,Double.compare_swap,compare_eq_compareNumbers hx hy,Option.map_some]

theorem beq_iff_compareNumbers : (x == y) = true ↔ compareNumbers x y = .eq := by
  rw [Double.beq_iff,compare_eq_compareNumbers hx hy,Option.some.injEq]

end Numbers

/-! Texts -/

theorem compareTexts_swap (s t : String) : compareTexts t s = (compareTexts s t).swap := by
  unfold compareTexts
  rcases lt_trichotomy s t with h | rfl | h
  · rw [if_neg (lt_asymm h),if_neg (ne_of_gt h),if_pos h]
    rfl
  · rw [if_neg (lt_irrefl s),if_pos rfl]
    rfl
  · rw [if_pos h,if_neg (lt_asymm h),if_neg (ne_of_gt h)]
    rfl

theorem compareTexts_eq_iff (s t : String) : compareTexts s t = .eq ↔ s = t := by
  unfold compareTexts
  rcases lt_trichotomy s t with h | rfl | h
  · simp [h,ne_of_lt h]
  · simp
  · simp [lt_asymm h,ne_of_gt h]

/-! Values -/

theorem numericPair?_swap (x y : Value) : numericPair? y x = (numericPair? x y).map Prod.swap := by
  unfold numericPair?
  dsimp only
  cases x.isNumeric <;> cases y.isNumeric <;> cases x.toRawNumber.isNaN <;> cases y.toRawNumber.isNaN <;> rfl

theorem isNaN_of_numericPair? {x y : Value} {nx ny : Float} (h : numericPair? x y = some (nx,ny)) :
    nx.isNaN = false ∧ ny.isNaN = false := by
  simp only [numericPair?,Option.ite_none_right_eq_some,Bool.and_eq_true,Bool.not_eq_true',Option.some.injEq,
    Prod.mk.injEq] at h
  obtain ⟨⟨⟨-,hx⟩,hy⟩,rfl,rfl⟩ := h
  exact ⟨hx,hy⟩

theorem compare_swap (x y : Value) : y.compare x = (x.compare y).swap := by
  unfold compare
  rw [numericPair?_swap x y]
  cases h : numericPair? x y with
  | none => exact compareTexts_swap _ _
  | some pair =>
    obtain ⟨hx,hy⟩ := isNaN_of_numericPair? h
    exact compareNumbers_swap hx hy

theorem equal_iff_compare (x y : Value) : x.equal y = true ↔ x.compare y = .eq := by
  unfold equal compare
  cases h : numericPair? x y with
  | none => rw [beq_iff_eq,compareTexts_eq_iff]
  | some pair =>
    obtain ⟨hx,hy⟩ := isNaN_of_numericPair? h
    exact beq_iff_compareNumbers hx hy

theorem compare_self (x : Value) : x.compare x = .eq := by
  have hswap := compare_swap x x
  cases h : x.compare x <;> rw [h] at hswap <;> first | rfl | cases hswap

end Value

/-- Comparing two values the other way round reverses the answer; they are equal exactly if they compare as equal, in
either order, and every value is equal to itself, NaN included. So exactly one of less, equal and greater is true. -/
theorem comparison_trichotomy (x y : Value) :
    y.compare x = (x.compare y).swap ∧ (x.equal y = true ↔ x.compare y = .eq) ∧ x.equal y = y.equal x ∧
      x.equal x = true ∧ ∃! o, o ∈ [BinaryOperator.less,.equals,.greater] ∧ o.apply x y = .bool true := by
  have hequal : x.equal y = (x.compare y == .eq) := by
    rw [Bool.eq_iff_iff,Value.equal_iff_compare,beq_iff_eq]
  refine ⟨Value.compare_swap x y,Value.equal_iff_compare x y,?_,?_,?_⟩
  · rw [Bool.eq_iff_iff,Value.equal_iff_compare,Value.equal_iff_compare,Value.compare_swap x y]
    cases x.compare y <;> decide
  · rw [Value.equal_iff_compare,Value.compare_self]
  · have happly : ∀ o ∈ [BinaryOperator.less,.equals,.greater], o.apply x y = .bool true ↔
        x.compare y = if o = .less then .lt else if o = .equals then .eq else .gt := by
      simp [BinaryOperator.apply,hequal]
    cases h : x.compare y with
    | lt => exact ⟨.less,by simp [happly,h],fun o ho => by grind⟩
    | eq => exact ⟨.equals,by simp [happly,h],fun o ho => by grind⟩
    | gt => exact ⟨.greater,by simp [happly,h],fun o ho => by grind⟩

end SpriteMachine
