import SpriteMachine.Proofs.Literals
import SpriteMachine.Proofs.Passages

/-!
How often a block that repeats others enters them: as often as its count says when it is rounded to a whole number. The
count is kept in a local that nothing else can reach before the block is over, whatever the repeated blocks do.
-/

namespace SpriteMachine

/-! Coming into a stretch of code -/

/-- A thread comes to the start of a stretch of code from outside of it, in a frame that is so many calls deep. -/
def Spot.Enters (depth first last : Nat) (x y : Spot) : Prop :=
  (x.depth = depth ∧ ¬ (first ≤ x.pc ∧ x.pc < last)) ∧ y.depth = depth ∧ y.pc = first

instance (depth first last : Nat) (x y : Spot) : Decidable (x.Enters depth first last y) :=
  inferInstanceAs (Decidable ((_ ∧ ¬ (_ ∧ _)) ∧ _ ∧ _))

/-- How often a thread comes into a stretch of code. -/
def entries (depth first last : Nat) : List Spot → Nat
  | [] => 0
  | [_] => 0
  | x :: y :: l => (if x.Enters depth first last y then 1 else 0) + entries depth first last (y :: l)

section Entries

variable {depth first last : Nat} {x y z : Spot} {l k : List Spot}

theorem entries_cons (h : ¬ x.Enters depth first last y) (l : List Spot) :
    entries depth first last (x :: y :: l) = entries depth first last (y :: l) := by
  rw [entries,if_neg h,Nat.zero_add]

theorem entries_append (depth first last : Nat) (k l : List Spot) (x : Spot) :
    entries depth first last (k ++ x :: l) = entries depth first last (k ++ [x]) + entries depth first last (x :: l) := by
  induction k with
  | nil => exact (Nat.zero_add _).symm
  | cons y k ih =>
    cases k with
    | nil => simp [entries]
    | cons y' k =>
      simp only [List.cons_append,entries] at ih ⊢
      omega

theorem entries_inside (h : ∀ x ∈ l, x.depth = depth → first ≤ x.pc ∧ x.pc < last) (z : Spot) :
    entries depth first last (l ++ [z]) = 0 := by
  induction l with
  | nil => rfl
  | cons x l ih =>
    obtain ⟨hx,hl⟩ := List.forall_mem_cons.1 h
    have hne : ∀ {y : Spot}, ¬ x.Enters depth first last y := by
      rintro y ⟨⟨hdepth,hout⟩,-⟩
      exact hout (hx hdepth)
    cases l with
    | nil => exact entries_cons hne []
    | cons y l => exact (entries_cons hne _).trans (ih hl)

theorem entries_apart (h : ∀ y ∈ l.tail, y.depth = depth → y.pc ≠ first) : entries depth first last l = 0 := by
  induction l with
  | nil => rfl
  | cons x l ih =>
    cases l with
    | nil => rfl
    | cons y l =>
      obtain ⟨hy,hl⟩ := List.forall_mem_cons.1 h
      exact (entries_cons (fun henters => hy henters.2.1 henters.2.2) l).trans (ih hl)

theorem Trail.entries_eq (h : Trail x l y) (k : List Spot) : entries depth first last (k ++ l ++ [y]) =
    entries depth first last (k ++ [x]) + entries depth first last (l ++ [y]) := by
  obtain ⟨m,hm⟩ := h.cons_eq []
  rw [List.append_assoc,hm,entries_append]

end Entries

/-! Counting down -/

theorem Double.isNaN_of_isFinite {x : Float} (h : x.isFinite = true) : x.isNaN = false := by
  obtain ⟨p,hp⟩ := parts_of_isFinite h
  exact isNaN_of_parts hp

theorem Double.toRat_half : toRat 0.5 = 1 / 2 := by
  have hunpack : (0.5 : Float).toModel.unpack = .finite .positive (2 ^ 52) (-53) (by decide) := rfl
  rw [toRat,hunpack,rational]
  norm_num [Float.Model.UnpackedFloat.Sign.apply]

def isOver (v : Value) : Bool :=
  (BinaryOperator.less.apply v (.number 0.5)).toBool

theorem isOver_iff {c : Float} (hc : c.isFinite = true) : isOver (.number c) = true ↔ Double.toRat c < 1 / 2 := by
  have hnan := Double.isNaN_of_isFinite hc
  have hhalf : (0.5 : Float).isNaN = false := by rfl
  have hpair : Value.numericPair? (.number c) (.number 0.5) = some (c,0.5) := by
    simp only [Value.numericPair?,Value.toRawNumber,Value.isNumeric,hnan,hhalf,Bool.not_false,Bool.and_self,if_true]
  have hless : isOver (.number c) = decide (c < 0.5) := by
    change (Value.compare (.number c) (.number 0.5) == .lt) = _
    rw [Value.compare,hpair]
    exact Value.compareNumbers_lt c 0.5
  rw [hless,decide_eq_true_iff,Double.lt_iff_toRat hc rfl,Double.toRat_half]

theorem rounds_of_over {c : ℚ} (h : c < 1 / 2) : ⌊c + 1 / 2⌋.toNat = 0 := by
  have hlt : ⌊c + 1 / 2⌋ < 1 := Int.floor_lt.2 (by push_cast; linarith)
  omega

theorem rounds_of_not_over {c : ℚ} (h : 1 / 2 ≤ c) : ⌊c + 1 / 2⌋.toNat = 1 + ⌊c - 1 + 1 / 2⌋.toNat := by
  have hshift : c + 1 / 2 = c - 1 + 1 / 2 + 1 := by ring
  have hpos : 0 ≤ ⌊c - 1 + 1 / 2⌋ := Int.floor_nonneg.2 (by linarith)
  rw [hshift,Int.floor_add_one]
  omega

/-- The count is computed in one place of the code, and the repeated blocks stand in one. -/
theorem Palette.index_repeatTimes {site : Site} {n : Nat} {st : Step} (h : (Palette.repeatTimes site)[n]? = some st) :
    (st = .number "TIMES" → n = 1) ∧ ∀ slot, st = .substack slot → n = 10 := by
  have hn : n < 14 := (List.getElem?_eq_some_iff.1 h).1
  constructor
  · rintro rfl
    interval_cases n <;> first | rfl | cases h
  · rintro slot rfl
    interval_cases n <;> first | rfl | cases h

/-! What is known on the way -/

/-- The rounds that a count stands for. -/
def rounds (x : Float) : Nat :=
  ⌊Double.toRat x + 1 / 2⌋.toNat

/-- A count can be counted down. -/
def Countable (x : Float) : Prop :=
  x.isFinite = true ∧ Double.toRat x < 2 ^ 53

theorem rounds_of_isOver {c : Float} (hc : Countable c) (h : isOver (.number c) = true) : rounds c = 0 :=
  rounds_of_over ((isOver_iff hc.1).1 h)

theorem rounds_sub_one {c : Float} (hc : Countable c) (h : isOver (.number c) = false) :
    Countable ((Value.number c).toNumber - 1.0) ∧ rounds c = 1 + rounds ((Value.number c).toNumber - 1.0) := by
  have hle : 1 / 2 ≤ Double.toRat c := not_lt.1 fun hlt => by
    rw [(isOver_iff hc.1).2 hlt] at h
    cases h
  obtain ⟨hfinite,hsub⟩ := Double.toRat_sub_one hle hc.2
  rw [Value.toNumber_number (Double.isNaN_of_isFinite hc.1)]
  refine ⟨⟨hfinite,by linarith [hc.2]⟩,?_⟩
  rw [rounds,rounds,hsub]
  exact rounds_of_not_over hle

/-- The code of a block that repeats others. -/
structure Ground.Repeats (g : Ground) : Prop where
  steps : ∃ site, g.steps = Palette.repeatTimes site
  times : g.pc 2 < g.pc 3
  enters : g.pc 9 < g.pc 10
  again : g.pc 11 < g.pc 12

theorem Laid.repeats {s : Script} {g : Ground} {after : List Directive} (h : Laid s g after) (site : Site)
    (hsteps : g.steps = Palette.repeatTimes site) : g.Repeats := by
  have hstep : ∀ {n : Nat} {st : Step}, (Palette.repeatTimes site)[n]? = some st → g.steps[n]? = some st :=
    fun hn => by rw [hsteps]; exact hn
  have hmade : g.made 3 = 0 ∧ g.made 11 = 2 := by
    rw [Ground.made,Ground.made,hsteps]
    exact ⟨rfl,rfl⟩
  have hback := h.labels_here (hstep (n := 3) rfl)
  rw [hmade.1] at hback
  obtain ⟨label,hqueue,-⟩ := h.fetch_resume_before (hstep (n := 11) rfl) (by rw [hmade.2]; decide) hback
  exact ⟨⟨site,hsteps⟩,Script.lt_of_fetch (h.fetch (hstep (n := 2) rfl) (.inl rfl) rfl),
    Script.lt_of_fetch (h.fetch (hstep (n := 9) rfl) (.inl rfl) rfl),
    Nat.lt_of_le_of_lt (Emitter.before_grows _ (.resume .queue 0)).size (Script.lt_of_fetch hqueue)⟩

namespace Ground

section

variable (g : Ground) (s : Script) (depth n : Nat) (k : List Spot) (t : Turn)

/-- How often the repeated blocks were entered, with a thread at a step now. -/
def entered : Nat :=
  entries depth (g.pc 10) (g.pc 11) (k ++ [⟨t,s,g.pc n⟩])

/-- The count is not known yet. -/
def Uncounted : Prop :=
  g.entered s depth n k t = 0 ∧ k.filter (·.isAt depth (g.pc 2)) = []

/-- The count was computed once. -/
def Counted (x : Float) : Prop :=
  ∃ v, k.filter (·.isAt depth (g.pc 2)) = [v] ∧ v.turn.active.stack.head? = some (.number x)

/-- What is left of the count is in a local. -/
def Counts (x c : Float) : Prop :=
  g.Counted depth k x ∧ t.active.locals.get 0 = .number c ∧
    (Countable x → Countable c ∧ g.entered s depth n k t + rounds c = rounds x)

/-- What is known at a step. -/
def CountsAt : Prop :=
  match n with
  | 0 | 1 => g.Uncounted s depth n k t
  | 2 => g.Uncounted s depth n k t ∧ ∃ x rest, t.active.stack = .number x :: rest
  | 3 | 4 | 5 | 10 | 11 => ∃ x c, g.Counts s depth n k t x c
  | 6 => ∃ x c, g.Counts s depth n k t x c ∧ ∃ rest, t.active.stack = .number c :: rest
  | 7 => ∃ x c, g.Counts s depth n k t x c ∧ ∃ rest, t.active.stack = .number 0.5 :: .number c :: rest
  | 8 => ∃ x c, g.Counts s depth n k t x c ∧
      ∃ rest, t.active.stack = BinaryOperator.less.apply (.number c) (.number 0.5) :: rest
  | 9 => ∃ x c, g.Counts s depth n k t x c ∧ isOver (.number c) = false
  | 12 => False
  | _ => ∃ x, g.Counted depth k x ∧ (Countable x → g.entered s depth n k t = rounds x)

end

namespace Repeats

variable {g : Ground} {s : Script} {depth n n' : Nat} {k l : List Spot} {t u : Turn} {z : Spot} {st : Step} {x c : Float}

/-- In a step the repeated blocks are not entered. -/
theorem entries_spans (h : g.Repeats) (hst : g.steps[n]? = some st) (hin : g.Spans depth n st l) :
    (n = 10 → ∀ y ∈ l, y.depth = depth → g.pc 10 ≤ y.pc ∧ y.pc < g.pc 11) ∧
      (n ≠ 10 → ∀ y ∈ l.tail, y.depth = depth → y.pc ≠ g.pc 10) := by
  refine ⟨?_,fun hn y hy hdepth => ?_⟩
  · rintro rfl
    exact hin.1
  · obtain ⟨site,hsteps⟩ := h.steps
    rw [hsteps] at hst
    have hbound := hin.1 y (List.mem_of_mem_tail hy) hdepth
    rcases Nat.lt_or_ge n 10 with hlt | hge
    · have hle : g.pc (n + 1) ≤ g.pc 10 := g.pc_le hlt
      omega
    · have hlow := hin.2 (by rintro slot rfl; exact hn ((Palette.index_repeatTimes hst).2 slot rfl)) y hy
      have hle : g.pc 10 ≤ g.pc n := g.pc_le hge
      omega

theorem entries_within (h : g.Repeats) (hst : g.steps[n]? = some st) (hin : g.Spans depth n st (l ++ [z]))
    (htrail : Trail ⟨t,s,g.pc n⟩ l z) : entries depth (g.pc 10) (g.pc 11) (k ++ l ++ [z]) = g.entered s depth n k t := by
  obtain ⟨hbody,hother⟩ := h.entries_spans hst hin
  rw [htrail.entries_eq,entered,Nat.add_eq_left]
  by_cases hn : n = 10
  · exact entries_inside (fun y hy => hbody hn y (List.mem_append_left _ hy)) z
  · exact entries_apart (hother hn)

theorem entered_eq (h : g.Repeats) (hst : g.steps[n]? = some st) (hin : g.Spans depth n st l)
    (htrail : Trail ⟨t,s,g.pc n⟩ l ⟨u,s,g.pc n'⟩) (hn' : n = 10 ∨ n' < 10 ∨ 12 ≤ n') :
    g.entered s depth n' (k ++ l) u = g.entered s depth n k t := by
  obtain ⟨hbody,hother⟩ := h.entries_spans hst hin
  rw [entered,htrail.entries_eq,entered,Nat.add_eq_left]
  by_cases hn : n = 10
  · exact entries_inside (hbody hn) _
  · refine entries_apart fun y hy hdepth => ?_
    cases l with
    | nil => cases hy
    | cons x l =>
      rcases List.mem_append.1 hy with hy | hy
      · exact hother hn y hy hdepth
      · rw [List.mem_singleton.1 hy]
        rcases hn'.resolve_left hn with hlt | hge
        · have hle : g.pc n' ≤ g.pc 9 := g.pc_le (Nat.le_of_lt_succ hlt)
          have hlt := h.enters
          simp only
          omega
        · have hle : g.pc 12 ≤ g.pc n' := g.pc_le hge
          have hle' : g.pc 10 ≤ g.pc 11 := g.pc_le (Nat.le_succ 10)
          have hlt := h.again
          simp only
          omega

theorem filter_eq_nil (h : g.Repeats) (hin : g.Spans depth n st l) (hn : n ≠ 2) : l.filter (·.isAt depth (g.pc 2)) = [] := by
  refine List.filter_eq_nil_iff.2 fun y hy hat => ?_
  obtain ⟨hdepth,hpc⟩ := Spot.isAt_iff.1 hat
  have hbound := hin.1 y hy hdepth
  rcases Nat.lt_or_gt_of_ne hn with hlt | hgt
  · have hle : g.pc (n + 1) ≤ g.pc 2 := g.pc_le hlt
    omega
  · have hle : g.pc 3 ≤ g.pc n := g.pc_le hgt
    have hlt := h.times
    omega

theorem counted (h : g.Repeats) (hk : g.Counted depth k x) (hin : g.Spans depth n st l) (hn : n ≠ 2) :
    g.Counted depth (k ++ l) x := by
  obtain ⟨v,hv,hx⟩ := hk
  refine ⟨v,?_,hx⟩
  rw [List.filter_append,hv,h.filter_eq_nil hin hn,List.append_nil]

theorem counts (h : g.Repeats) (hst : g.steps[n]? = some st) (hk : g.Counts s depth n k t x c)
    (hin : g.Spans depth n st l) (htrail : Trail ⟨t,s,g.pc n⟩ l ⟨u,s,g.pc n'⟩) (hn : n ≠ 2)
    (hn' : n = 10 ∨ n' < 10 ∨ 12 ≤ n') (hlocals : u.active.locals.get 0 = t.active.locals.get 0) :
    g.Counts s depth n' (k ++ l) u x c := by
  obtain ⟨hcounted,hc,hleft⟩ := hk
  refine ⟨h.counted hcounted hin hn,hlocals.trans hc,?_⟩
  rw [h.entered_eq hst hin htrail hn']
  exact hleft

theorem uncounted (h : g.Repeats) (hst : g.steps[n]? = some st) (hk : g.Uncounted s depth n k t)
    (hin : g.Spans depth n st l) (htrail : Trail ⟨t,s,g.pc n⟩ l ⟨u,s,g.pc n'⟩) (hn : n ≠ 2) (hn' : n' < 10) :
    g.Uncounted s depth n' (k ++ l) u := by
  obtain ⟨hzero,hnone⟩ := hk
  refine ⟨?_,?_⟩
  · rw [h.entered_eq hst hin htrail (.inr (.inl hn')),hzero]
  · rw [List.filter_append,hnone,h.filter_eq_nil hin hn,List.append_nil]

/-- Each step keeps what is known. -/
theorem countsAt (h : g.Repeats) (hdepth : t.active.calls.length = depth) (hst : g.steps[n]? = some st)
    (hk : g.CountsAt s depth n k t)
    (htrail : Trail ⟨t,s,g.pc n⟩ l ⟨u,s,g.pc n'⟩) (hin : g.Spans depth n st l) (hleads : g.Leads s n t l u st n') :
    g.CountsAt s depth n' (k ++ l) u := by
  obtain ⟨site,hsteps⟩ := h.steps
  have hget := hst
  rw [hsteps] at hst
  match n, hst with
  | 0, rfl =>
    obtain ⟨rfl,-⟩ := hleads.of_op
    exact h.uncounted hget hk hin htrail (by decide) (by decide)
  | 1, rfl =>
    obtain ⟨rfl,-,-,hnumber⟩ := hleads.of_value rfl
    exact ⟨h.uncounted hget hk hin htrail (by decide) (by decide),hnumber _ rfl⟩
  | 2, rfl =>
    obtain ⟨rfl,hperform,hl,-⟩ := hleads.of_op
    obtain ⟨⟨hzero,hnone⟩,x,rest,hstack⟩ := hk
    obtain ⟨hlocals,-⟩ := Turn.perform_setLocal 0 hstack hperform
    have hat : Spot.isAt ⟨t,s,g.pc 2⟩ depth (g.pc 2) = true := Spot.isAt_iff.2 ⟨hdepth,rfl⟩
    refine ⟨x,x,⟨⟨t,s,g.pc 2⟩,?_,by rw [hstack]; rfl⟩,?_,fun hx => ⟨hx,?_⟩⟩
    · rw [List.filter_append,hnone,hl]
      simp [hat]
    · rw [hlocals,Locals.get_set]
    · rw [h.entered_eq hget hin htrail (.inr (.inl (by decide))),hzero,Nat.zero_add]
  | 3, rfl | 4, rfl =>
    obtain ⟨rfl,hkeeps,-⟩ := hleads.of_mark rfl
    obtain ⟨x,c,hcounts⟩ := hk
    exact ⟨x,c,h.counts hget hcounts hin htrail (by decide) (.inr (.inl (by decide))) (by rw [hkeeps.agrees.locals])⟩
  | 5, rfl =>
    obtain ⟨rfl,hperform,-⟩ := hleads.of_op
    obtain ⟨x,c,hcounts⟩ := hk
    cases hperform
    exact ⟨x,c,h.counts hget hcounts hin htrail (by decide) (.inr (.inl (by decide))) rfl,t.active.stack,
      congrArg (· :: _) hcounts.2.1⟩
  | 6, rfl =>
    obtain ⟨rfl,hperform,-⟩ := hleads.of_written rfl rfl
    obtain ⟨x,c,hcounts,rest,hstack⟩ := hk
    cases hperform
    exact ⟨x,c,h.counts hget hcounts hin htrail (by decide) (.inr (.inl (by decide))) rfl,rest,
      congrArg (Value.number 0.5 :: ·) hstack⟩
  | 7, rfl =>
    obtain ⟨rfl,hperform,-⟩ := hleads.of_op
    obtain ⟨x,c,hcounts,rest,hstack⟩ := hk
    rw [show Instr.ofOperands .lt [] = .binary .less from rfl,Turn.perform_binary hstack] at hperform
    cases hperform
    exact ⟨x,c,h.counts hget hcounts hin htrail (by decide) (.inr (.inl (by decide))) rfl,rest,rfl⟩
  | 8, rfl =>
    obtain ⟨v,rest,hstack,hkeeps,-,hn'⟩ := hleads.of_branch true rfl
    obtain ⟨x,c,hcounts,rest',hstack'⟩ := hk
    cases hstack.symm.trans hstack'
    have htarget : Step.target g.steps 1 = 13 := by rw [hsteps]; rfl
    rw [htarget] at hn'
    by_cases hover : isOver (.number c) = true
    · obtain rfl : n' = 13 := hn'.trans (if_pos hover)
      refine ⟨x,h.counted hcounts.1 hin (by decide),fun hx => ?_⟩
      obtain ⟨hc,hleft⟩ := hcounts.2.2 hx
      rw [h.entered_eq hget hin htrail (.inr (.inr (by decide))),← hleft,rounds_of_isOver hc hover,Nat.add_zero]
    · obtain rfl : n' = 9 := hn'.trans (if_neg hover)
      exact ⟨x,c,h.counts hget hcounts hin htrail (by decide) (.inr (.inl (by decide))) (by rw [hkeeps.agrees.locals]),
        Bool.eq_false_iff.2 hover⟩
  | 9, rfl =>
    obtain ⟨rfl,hperform,hl,-⟩ := hleads.of_op
    obtain ⟨x,c,⟨hcounted,hlocal,hleft⟩,hover⟩ := hk
    have hlocals : u.active.locals.get 0 = .number ((Value.number c).toNumber - 1.0) := by
      cases hperform
      rw [← hlocal]
      exact Locals.get_set _ _ _
    refine ⟨x,_,h.counted hcounted hin (by decide),hlocals,fun hx => ?_⟩
    obtain ⟨hc,hleft⟩ := hleft hx
    obtain ⟨hc',hrounds⟩ := rounds_sub_one hc hover
    have henters : Spot.Enters depth (g.pc 10) (g.pc 11) ⟨t,s,g.pc 9⟩ ⟨u,s,g.pc 10⟩ :=
      ⟨⟨hdepth,by have := h.enters; simp only; omega⟩,(congrArg List.length hleads.calls).trans hdepth,rfl⟩
    have hentered : g.entered s depth (9 + 1) (k ++ l) u = g.entered s depth 9 k t + 1 := by
      rw [entered,htrail.entries_eq,hl,entered]
      exact congrArg (_ + ·) (if_pos henters)
    exact ⟨hc',by omega⟩
  | 10, rfl =>
    obtain ⟨rfl,hagrees⟩ := hleads.of_substack
    obtain ⟨x,c,hcounts⟩ := hk
    exact ⟨x,c,h.counts hget hcounts hin htrail (by decide) (.inl rfl) (by rw [hagrees.locals])⟩
  | 11, rfl =>
    obtain ⟨hn',hagrees,-⟩ := hleads.of_resume
    obtain ⟨x,c,hcounts⟩ := hk
    obtain rfl : n' = 4 := hn'.trans (by rw [hsteps]; rfl)
    exact ⟨x,c,h.counts hget hcounts hin htrail (by decide) (.inr (.inl (by decide))) (by rw [hagrees.locals])⟩
  | 12, _ => exact hk.elim
  | 13, rfl =>
    obtain ⟨rfl,-⟩ := hleads.of_op
    obtain ⟨x,hcounted,hrounds⟩ := hk
    refine ⟨x,h.counted hcounted hin (by decide),fun hx => ?_⟩
    rw [h.entered_eq hget hin htrail (.inr (.inr (by decide))),hrounds hx]

/-- Where the count is known, it bounds how often the repeated blocks were entered. -/
theorem entered_le (hk : g.CountsAt s depth n k t) {v : Spot} (hv : v ∈ k) (hat : v.isAt depth (g.pc 2) = true) :
    ∃ x, v.turn.active.stack.head? = some (.number x) ∧ (Countable x → g.entered s depth n k t ≤ rounds x) := by
  have hmem : v ∈ k.filter (·.isAt depth (g.pc 2)) := List.mem_filter.2 ⟨hv,hat⟩
  have hnone : ¬ g.Uncounted s depth n k t := fun hk => by
    rw [hk.2] at hmem
    cases hmem
  have hcounted : ∀ {x : Float}, g.Counted depth k x → v.turn.active.stack.head? = some (.number x) := by
    rintro x ⟨v',hv',hx⟩
    rw [hv'] at hmem
    rwa [List.mem_singleton.1 hmem]
  have hcounts : ∀ {x c : Float}, g.Counts s depth n k t x c →
      ∃ x, v.turn.active.stack.head? = some (.number x) ∧ (Countable x → g.entered s depth n k t ≤ rounds x) :=
    fun ⟨hx,_,hleft⟩ => ⟨_,hcounted hx,fun hcount => (hleft hcount).2 ▸ Nat.le_add_right _ _⟩
  match n, hk with
  | 0, hk | 1, hk | 2, ⟨hk,_⟩ => exact absurd hk hnone
  | 3, ⟨_,_,hk⟩ => exact hcounts hk
  | 4, ⟨_,_,hk⟩ | 5, ⟨_,_,hk⟩ | 6, ⟨_,_,hk,_⟩ | 7, ⟨_,_,hk,_⟩ | 8, ⟨_,_,hk,_⟩ | 9, ⟨_,_,hk,_⟩ | 10, ⟨_,_,hk⟩ | 11, ⟨_,_,hk⟩ =>
    exact hcounts hk
  | _ + 13, ⟨_,hk,hrounds⟩ => exact ⟨_,hcounted hk,fun hcount => (hrounds hcount).le⟩

theorem entries_le (h : g.Repeats) (hst : g.steps[n]? = some st) (hk : g.CountsAt s depth n k t)
    (hin : g.Spans depth n st (l ++ [z])) (htrail : Trail ⟨t,s,g.pc n⟩ l z) {v : Spot} (hv : v ∈ k ++ l)
    (hat : v.isAt depth (g.pc 2) = true) : ∃ x, v.turn.active.stack.head? = some (.number x) ∧
      (Countable x → entries depth (g.pc 10) (g.pc 11) (k ++ l ++ [z]) ≤ rounds x) := by
  rw [h.entries_within hst hin htrail]
  rcases List.mem_append.1 hv with hv | hv
  · exact entered_le hk hv hat
  · -- the thread is at the end of the code of the count
    have hv' : v ∈ l ++ [z] := List.mem_append_left _ hv
    obtain rfl : n = 2 := by
      by_contra hn
      have hmem : v ∈ (l ++ [z]).filter (·.isAt depth (g.pc 2)) := List.mem_filter.2 ⟨hv',hat⟩
      rw [h.filter_eq_nil hin hn] at hmem
      cases hmem
    obtain ⟨⟨hzero,-⟩,x,rest,hstack⟩ := hk
    obtain ⟨m,hm⟩ := htrail.cons_eq []
    obtain ⟨site,hsteps⟩ := h.steps
    have htail := hin.2 (by rintro slot rfl; rw [hsteps] at hst; cases hst)
    rw [hm] at hv' htail
    rcases List.mem_cons.1 hv' with rfl | hv'
    · refine ⟨x,by rw [hstack]; rfl,fun _ => ?_⟩
      rw [hzero]
      exact Nat.zero_le _
    · have hlt := htail v hv'
      have hpc := (Spot.isAt_iff.1 hat).2
      omega

end Repeats

end Ground

/-- A block that repeats others enters them as often as its count says, rounded to a whole number, before control goes on
after it. The count is computed once, and before control goes on the others are not entered more often. -/
theorem entries_of_compile {project : Project} {program : Program} (hcompile : compile project = .ok program)
    (hsmall : program.Small) {settings : Settings} {clock : Clock} {t : Turn} {s : Script} {params : List String} {b : Block}
    {g : Ground} (hblock : s.Lays params b g) (hopcode : b.opcode = "control_repeat")
    (hreach : Phase.Steps (.idle (Machine.ofProgram program settings clock)) (.turn t s g.start))
    {count times first last : Nat} (htimes : g.Between (.number "TIMES") count times)
    (hbody : g.Between (.substack "SUBSTACK") first last) {l : List Spot} {z : Spot} (htrail : Trail ⟨t,s,g.start⟩ l z)
    (hdeep : ∀ y ∈ l ++ [z], t.active.calls.length ≤ y.depth)
    (hbefore : ∀ y ∈ l, ¬ y.isAt t.active.calls.length g.stop = true) :
    (z.isAt t.active.calls.length g.stop → ∃ v, l.filter (·.isAt t.active.calls.length times) = [v]) ∧
      ∀ v ∈ l, v.isAt t.active.calls.length times → ∃ x, v.turn.active.stack.head? = some (.number x) ∧
        (x.isFinite = true → Double.toRat x < 2 ^ 53 →
          (entries t.active.calls.length first last (l ++ [z]) : Int) ≤ max 0 ⌊Double.toRat x + 1 / 2⌋ ∧
          (z.isAt t.active.calls.length g.stop →
            (entries t.active.calls.length first last (l ++ [z]) : Int) = max 0 ⌊Double.toRat x + 1 / 2⌋)) := by
  have hprogram := compile_sound hcompile hsmall
  have hsound := hreach.sound_ofProgram hprogram
  obtain ⟨rfl,hslots,hsteps,after,hlaid⟩ := hblock.laid (Turn.Sound.small hsound hsmall)
    (Palette.mem_of_group (g := Palette.control) (i := 1) (by simp) rfl) hopcode rfl rfl
  have hrepeats := hlaid.repeats ⟨b,g.params⟩ hsteps
  obtain rfl : times = g.pc 2 := by
    obtain ⟨n,hn,-,rfl⟩ := htimes
    rw [hsteps] at hn
    obtain rfl := (Palette.index_repeatTimes (show (Palette.repeatTimes ⟨b,g.params⟩)[n]? = _ from hn)).1 rfl
    rfl
  obtain ⟨rfl,rfl⟩ : first = g.pc 10 ∧ last = g.pc 11 := by
    obtain ⟨n,hn,rfl,rfl⟩ := hbody
    rw [hsteps] at hn
    obtain rfl := (Palette.index_repeatTimes (show (Palette.repeatTimes ⟨b,g.params⟩)[n]? = _ from hn)).2 _ rfl
    exact ⟨rfl,rfl⟩
  have hplain : Step.arePlain g.steps = true := by rw [hsteps]; rfl
  have hpassage := hlaid.passage hprogram hplain hslots (Nat.zero_le _) htrail hsound hdeep hbefore
  rcases hpassage.follow (k := []) (fun hdepth hst _ hI htrail hin hleads => hrepeats.countsAt hdepth hst hI htrail hin hleads)
    rfl (fun _ hy => hy) (show g.CountsAt s t.active.calls.length 0 [] t from ⟨rfl,rfl⟩) with
    ⟨hz,hend⟩ | ⟨n,k,u,l',st,hl,hknown,hn,hwithin,hin⟩
  · rw [List.nil_append] at hend
    obtain ⟨x,⟨v,hv,hx⟩,hrounds⟩ : g.CountsAt s t.active.calls.length 14 l z.turn := by
      rw [hsteps] at hend
      exact hend
    have hentries : entries t.active.calls.length (g.pc 10) (g.pc 11) (l ++ [z]) =
        g.entered s t.active.calls.length 14 l z.turn := by
      rw [hz,Ground.stop,hsteps]
      rfl
    refine ⟨fun _ => ⟨v,hv⟩,fun v' hv' hat => ?_⟩
    have hmem : v' ∈ l.filter (·.isAt t.active.calls.length (g.pc 2)) := List.mem_filter.2 ⟨hv',hat⟩
    rw [hv] at hmem
    rw [List.mem_singleton.1 hmem,hentries]
    refine ⟨x,hx,fun hfinite hlt => ?_⟩
    rw [hrounds ⟨hfinite,hlt⟩,rounds]
    exact ⟨by omega,fun _ => by omega⟩
  · have hnot := hin.not_ends hn
    rw [List.nil_append] at hl
    refine ⟨fun hz => absurd hz hnot,fun v hv hat => ?_⟩
    rw [hl] at hv ⊢
    obtain ⟨x,hx,hle⟩ := hrepeats.entries_le hn hknown hin hwithin hv hat
    refine ⟨x,hx,fun hfinite hlt => ⟨?_,fun hz => absurd hz hnot⟩⟩
    have hle := hle ⟨hfinite,hlt⟩
    rw [rounds] at hle
    omega

/-! Two and a half rounds of a procedure that yields -/

def turnsBlock : Block :=
  .mk "control_repeat" none [
    .mk "TIMES" [.mk "math_number" none [] [("NUM",⟨"2.5",none⟩)]] none,
    .mk "SUBSTACK" [.mk "procedures_call" (some { procedure := "count" }) [] []] none] []

def turnsProject : Project where
  stage := {
    name := "Stage"
    isStage := true
    scripts := [
      { hat := .flag, blocks := [turnsBlock] },
      { hat := .flag, blocks := [.mk "control_forever" none [.mk "SUBSTACK" [] none] []] },
      { hat := .procedure { procedure := "count" }, blocks := [onceBlock []] }] }

/-- The first thread comes to the end of the block, with a count of two and a half. -/
theorem turnsProject_passes : turnsProject.Tries turnsBlock fun t g l => ∃ v ∈ l,
    v.isAt t.active.calls.length (g.pc 2) = true ∧ v.turn.active.stack.head? = some (.number 2.5) := by
  unfold Project.Tries
  decide +kernel

theorem Double.toRat_two_and_a_half : Double.toRat 2.5 = 5 / 2 := by
  have hunpack : (2.5 : Float).toModel.unpack = .finite .positive (5 * 2 ^ 50) (-51) (by decide) := rfl
  rw [toRat,hunpack,rational]
  norm_num [Float.Model.UnpackedFloat.Sign.apply]

/-- The procedure is called three times. -/
theorem entries_of_compile_turnsProject : ∃ p t s g l z, compile turnsProject = .ok p ∧ s.Lays [] turnsBlock g ∧
    Phase.Steps (.idle (Machine.ofProgram p shallow {})) (.turn t s g.start) ∧ Trail ⟨t,s,g.start⟩ l z ∧
    z.isAt t.active.calls.length g.stop = true ∧ entries t.active.calls.length (g.pc 10) (g.pc 11) (l ++ [z]) = 3 := by
  obtain ⟨p,t,s,g,l,z,h,v,hv,hat,htop⟩ := turnsProject_passes.passes (by decide +kernel)
  have hsound := h.reached.sound_ofProgram (compile_sound h.compiles h.small)
  have hsteps : g.steps = Palette.repeatTimes ⟨turnsBlock,[]⟩ :=
    (h.lays.laid (Turn.Sound.small hsound h.small) (Palette.mem_of_group (g := Palette.control) (i := 1) (by simp) rfl) rfl rfl
      rfl).2.2.1
  obtain ⟨x,hx,hentries⟩ := (entries_of_compile h.compiles h.small h.lays rfl h.reached ⟨1,by rw [hsteps]; rfl,rfl,rfl⟩
    ⟨10,by rw [hsteps]; rfl,rfl,rfl⟩ h.trail h.deep h.before).2 v hv hat
  obtain rfl : x = 2.5 := by
    rw [htop] at hx
    cases hx
    rfl
  have hfloor : ⌊Double.toRat 2.5 + 1 / 2⌋ = 3 := by
    rw [Double.toRat_two_and_a_half]
    norm_num
  have hthree := (hentries rfl (by rw [Double.toRat_two_and_a_half]; norm_num)).2 h.ends
  rw [hfloor] at hthree
  exact ⟨p,t,s,g,l,z,h.compiles,h.lays,h.reached,h.trail,h.ends,by exact_mod_cast hthree⟩

end SpriteMachine
