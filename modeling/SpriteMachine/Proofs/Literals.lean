import SpriteMachine.Proofs.Doubles

/-!
Comparison with a number written on the left side. The text of a finite number is decimal notation, which lower case
leaves alone, and a text that differs from it in case only reads as a number too. So the comparison of its own that
such a number has agrees with the general one, but for truth values and for the text of infinity.
-/

namespace SpriteMachine.Text

/-! Lower case of decimal notation -/

def isNotation (c : Char) : Bool :=
  c.isDigit || ['.','e','+','-'].contains c

variable {c d : Char} {cs : List Char}

theorem isNotation_cases (h : isNotation c = true) : c.isDigit = true ∨ c = '.' ∨ c = 'e' ∨ c = '+' ∨ c = '-' := by
  simpa [isNotation] using h

theorem toNat_of_isDigit (h : c.isDigit = true) : 48 ≤ c.toNat ∧ c.toNat ≤ 57 := by
  simp only [Char.isDigit,Bool.and_eq_true,decide_eq_true_eq] at h
  exact ⟨UInt32.le_iff_toNat_le.1 h.1,UInt32.le_iff_toNat_le.1 h.2⟩

theorem toNat_of_isNotation (h : isNotation c = true) : 43 ≤ c.toNat ∧ c.toNat ≤ 57 ∨ c.toNat = 101 := by
  rcases isNotation_cases h with h | rfl | rfl | rfl | rfl
  · have := toNat_of_isDigit h
    omega
  all_goals decide

theorem toLower_cases (c : Char) : c.toLower = c ∨ 97 ≤ c.toLower.toNat := by
  unfold Char.toLower
  split
  next h =>
    right
    obtain ⟨hlow,hhigh⟩ := h
    have hlow := UInt32.le_iff_toNat_le.1 hlow
    have hhigh := UInt32.le_iff_toNat_le.1 hhigh
    change 97 ≤ (c.val + 32).toNat
    rw [UInt32.toNat_add]
    simp at hlow hhigh ⊢
    omega
  · exact .inl rfl

theorem eq_of_toLower_lt (h : c.toLower = d) (hd : d.toNat < 97) : c = d := by
  rcases toLower_cases c with hc | hc
  · exact hc.symm.trans h
  · rw [h] at hc
    omega

theorem lowerChar_of_isNotation (h : isNotation c = true) : lowerChar c = [c] := by
  have hrange := toNat_of_isNotation h
  have hlower : c.toLower = c := by
    rcases isNotation_cases h with hdigit | rfl | rfl | rfl | rfl
    · have := toNat_of_isDigit hdigit
      unfold Char.toLower
      rw [dif_neg]
      intro ⟨hlow,_⟩
      have : 65 ≤ c.toNat := UInt32.le_iff_toNat_le.1 hlow
      omega
    all_goals decide
  rw [lowerChar,if_pos (by omega),hlower]

theorem lowerFrom_of_isNotation (before : List Char) (h : ∀ c ∈ cs, isNotation c = true) : lowerFrom before cs = cs := by
  induction cs generalizing before with
  | nil => rfl
  | cons c cs ih =>
    have hc := h c List.mem_cons_self
    have hsigma : c.toNat ≠ 0x3A3 := by
      have := toNat_of_isNotation hc
      omega
    simp only [lowerFrom,if_neg hsigma,lowerChar_of_isNotation hc,List.singleton_append,
      ih (c :: before) fun d hd => h d (List.mem_cons_of_mem c hd)]

theorem image_of_mem_lowerRuns :
    ∀ run ∈ CaseTable.lowerRuns, run.1 = 0x41 ∧ run.2.1 < 0x80 ∨ run.1 = 0x212A ∧ run.2.1 = 0x212A ∧ run.2.2.2 = 0x6B ∨
      0x80 ≤ run.2.2.2 := by
  decide +kernel

theorem isNotation_ofNat {n : Nat} (h : n = 0x6B ∨ 0x80 ≤ n) : isNotation (Char.ofNat n) = false := by
  rw [Bool.eq_false_iff]
  intro hnotation
  have hrange := toNat_of_isNotation hnotation
  by_cases hvalid : n.isValidChar
  · have hnat : (Char.ofNat n).toNat = n := by
      rw [Char.ofNat,dif_pos hvalid]
      exact Char.toNat_ofNatAux hvalid
    omega
  · have hzero : (Char.ofNat n).toNat = 0 := by
      rw [Char.ofNat,dif_neg hvalid]
      rfl
    omega

theorem lt_of_mem_lowerChar (hd : d ∈ lowerChar c) (h : isNotation d = true) : c.toNat < 0x80 := by
  by_contra hc
  rw [lowerChar,if_neg hc] at hd
  split at hd
  · rcases List.mem_pair.1 hd with rfl | rfl <;> revert h <;> decide
  · obtain rfl := List.mem_singleton.1 hd
    cases himage : runImage? CaseTable.lowerRuns c with
    | none =>
      rw [himage] at h
      have := toNat_of_isNotation h
      simp only [Option.getD_none] at this
      omega
    | some image =>
      rw [himage,Option.getD_some] at h
      obtain ⟨⟨first,last,step,start⟩,hmem,hrun⟩ := List.exists_of_findSome?_eq_some himage
      have htable := image_of_mem_lowerRuns _ hmem
      dsimp only at hrun htable
      split at hrun
      next hin =>
        simp only [Bool.and_eq_true,decide_eq_true_eq] at hin
        cases hrun
        rw [isNotation_ofNat (by omega)] at h
        cases h
      · cases hrun

theorem lowerChar_ne_nil (c : Char) : lowerChar c ≠ [] := by
  unfold lowerChar
  split
  · exact List.cons_ne_nil _ _
  · split <;> exact List.cons_ne_nil _ _

theorem lowerFrom_eq_map {before : List Char} (h : ∀ d ∈ lowerFrom before cs, isNotation d = true) :
    lowerFrom before cs = cs.map Char.toLower := by
  induction cs generalizing before with
  | nil => rfl
  | cons c cs ih =>
    simp only [lowerFrom] at h ⊢
    rw [ih fun d hd => h d (List.mem_append_right _ hd)]
    by_cases hsigma : c.toNat = 0x3A3
    · rw [if_pos hsigma] at h
      have hnot := h _ (List.mem_append_left _ List.mem_cons_self)
      rw [isNotation_ofNat (by split <;> omega)] at hnot
      cases hnot
    · rw [if_neg hsigma] at h ⊢
      have hascii : c.toNat < 0x80 := by
        obtain ⟨d,hd⟩ := List.exists_mem_of_ne_nil _ (lowerChar_ne_nil c)
        exact lt_of_mem_lowerChar hd (h d (List.mem_append_left _ hd))
      rw [lowerChar,if_pos hascii]
      rfl

end SpriteMachine.Text

namespace SpriteMachine.Decimal

/-! Decimal notation -/

def AllDigits (cs : List Char) : Prop :=
  ∀ c ∈ cs, c.isDigit = true

def IsPlaces (cs : List Char) : Prop :=
  cs = [] ∨ ∃ ds, cs = '.' :: ds ∧ AllDigits ds

def IsExponent (cs : List Char) : Prop :=
  cs = [] ∨ ∃ sign ds, cs = 'e' :: sign :: ds ∧ (sign = '-' ∨ sign = '+') ∧ ds ≠ [] ∧ AllDigits ds

/-- Digits, then perhaps a point and digits, then perhaps a signed exponent. -/
structure Spelled (cs : List Char) : Prop where
  split : ∃ whole places exponent, cs = whole ++ (places ++ exponent) ∧ whole ≠ [] ∧ AllDigits whole ∧
    IsPlaces places ∧ IsExponent exponent

theorem allDigits_toDigits (n : Nat) : AllDigits (Nat.toDigits 10 n) :=
  fun _ hc => Nat.isDigit_of_mem_toDigits (by decide) (by decide) hc

variable {cs ds rest : List Char} {c : Char}

theorem AllDigits.append (hcs : AllDigits cs) (hds : AllDigits ds) : AllDigits (cs ++ ds) := by
  intro c hc
  exact (List.mem_append.1 hc).elim (hcs c) (hds c)

theorem allDigits_zeros (n : Nat) : AllDigits (Layout.zeros n) := by
  intro c hc
  obtain rfl := List.eq_of_mem_replicate hc
  rfl

theorem spelled_inPositions (d : Decimal) : Spelled (Layout.inPositions false d) := by
  have hdigits := allDigits_toDigits d.coefficient
  have hlength : 0 < (Nat.toDigits 10 d.coefficient).length := Nat.length_toDigits_pos
  unfold Layout.inPositions
  dsimp only
  generalize Nat.toDigits 10 d.coefficient = digits at hdigits hlength
  split
  · split
    next hlt =>
      refine ⟨digits.take (digits.length - d.exponent.natAbs),'.' :: digits.drop (digits.length - d.exponent.natAbs),[],
        by rw [List.append_nil],?_,fun c hc => hdigits c (List.mem_of_mem_take hc),
        .inr ⟨_,rfl,fun c hc => hdigits c (List.mem_of_mem_drop hc)⟩,.inl rfl⟩
      rw [ne_eq,List.take_eq_nil_iff]
      rintro (h | h)
      · omega
      · rw [h] at hlength
        exact Nat.lt_irrefl 0 hlength
    · exact ⟨['0'],'.' :: (Layout.zeros (d.exponent.natAbs - digits.length) ++ digits),[],by simp,
        List.cons_ne_nil _ _,by simp [AllDigits],.inr ⟨_,rfl,(allDigits_zeros _).append hdigits⟩,.inl rfl⟩
  · refine ⟨digits ++ Layout.zeros d.exponent.toNat,[],[],by simp,?_,hdigits.append (allDigits_zeros _),.inl rfl,
      .inl rfl⟩
    intro h
    rw [(List.append_eq_nil_iff.1 h).1] at hlength
    exact Nat.lt_irrefl 0 hlength

theorem spelled_withExponent (lead : Int) (d : Decimal) : Spelled (Layout.withExponent lead d) := by
  have hdigits := allDigits_toDigits d.coefficient
  have hexponent : IsExponent (if lead < 0 then 'e' :: '-' :: Nat.toDigits 10 lead.natAbs
      else 'e' :: '+' :: Nat.toDigits 10 lead.natAbs) := by
    right
    split
    · exact ⟨_,_,rfl,.inl rfl,Nat.toDigits_ne_nil,allDigits_toDigits _⟩
    · exact ⟨_,_,rfl,.inr rfl,Nat.toDigits_ne_nil,allDigits_toDigits _⟩
  unfold Layout.withExponent
  dsimp only
  generalize (if lead < 0 then 'e' :: '-' :: Nat.toDigits 10 lead.natAbs
    else 'e' :: '+' :: Nat.toDigits 10 lead.natAbs) = mark at hexponent ⊢
  cases hds : Nat.toDigits 10 d.coefficient with
  | nil => exact absurd hds Nat.toDigits_ne_nil
  | cons c cs =>
    rw [hds] at hdigits
    have hc : AllDigits [c] := fun x hx => hdigits x (by rw [List.mem_singleton.1 hx]; exact List.mem_cons_self)
    cases cs with
    | nil => exact ⟨[c],[],mark,rfl,List.cons_ne_nil _ _,hc,.inl rfl,hexponent⟩
    | cons c' cs =>
      exact ⟨[c],'.' :: c' :: cs,mark,rfl,List.cons_ne_nil _ _,hc,
        .inr ⟨_,rfl,fun x hx => hdigits x (List.mem_cons_of_mem c hx)⟩,hexponent⟩

theorem Spelled.isNotation {cs : List Char} (h : Spelled cs) : ∀ c ∈ cs, Text.isNotation c = true := by
  obtain ⟨whole,places,exponent,rfl,-,hwhole,hplaces,hexponent⟩ := h.split
  have hdigit : ∀ {ds : List Char}, AllDigits ds → ∀ c ∈ ds, Text.isNotation c = true := by
    intro ds hds c hc
    rw [Text.isNotation,hds c hc,Bool.true_or]
  simp only [List.forall_mem_append]
  refine ⟨hdigit hwhole,?_,?_⟩
  · rcases hplaces with rfl | ⟨ds,rfl,hds⟩
    · exact List.forall_mem_nil _
    · exact List.forall_mem_cons.2 ⟨by decide,hdigit hds⟩
  · rcases hexponent with rfl | ⟨sign,ds,rfl,hsign,-,hds⟩
    · exact List.forall_mem_nil _
    · refine List.forall_mem_cons.2 ⟨by decide,List.forall_mem_cons.2 ⟨?_,hdigit hds⟩⟩
      rcases hsign with rfl | rfl <;> decide

/-! Reading notation back, in either case -/

/-- What follows a run of digits does not go on with it. -/
def Ends (rest : List Char) : Prop :=
  rest.takeWhile Char.isDigit = [] ∧ rest.dropWhile Char.isDigit = rest

theorem ends_nil : Ends [] :=
  ⟨rfl,rfl⟩

theorem ends_cons (rest : List Char) (h : c.isDigit = false) : Ends (c :: rest) := by
  simp [Ends,h]

theorem takeWhile_append (hds : AllDigits ds) (hrest : Ends rest) : (ds ++ rest).takeWhile Char.isDigit = ds := by
  rw [List.takeWhile_append_of_pos hds,hrest.1,List.append_nil]

theorem dropWhile_append (hds : AllDigits ds) (hrest : Ends rest) : (ds ++ rest).dropWhile Char.isDigit = rest := by
  rw [List.dropWhile_append_of_pos hds,hrest.2]

theorem map_toLower_eq (h : cs.map Char.toLower = ds) (hds : AllDigits ds) : cs = ds := by
  induction cs generalizing ds with
  | nil => exact h
  | cons c cs ih =>
    subst h
    have hc := Text.toNat_of_isDigit (hds _ List.mem_cons_self)
    rw [List.map_cons,← Text.eq_of_toLower_lt rfl (by omega),← ih rfl fun d hd => hds d (List.mem_cons_of_mem _ hd)]

theorem eq_of_toLower_eq_e (h : c.toLower = 'e') : c = 'e' ∨ c = 'E' := by
  unfold Char.toLower at h
  split at h
  next hupper =>
    right
    have hval := congrArg Char.toNat h
    have hhigh : c.toNat ≤ 90 := UInt32.le_iff_toNat_le.1 hupper.2
    apply Char.toNat_inj.1
    change (c.val + 32).toNat = 101 at hval
    rw [UInt32.toNat_add] at hval
    change (c.toNat + 32) % 2 ^ 32 = 101 at hval
    change c.toNat = 69
    omega
  · exact .inl h

theorem exponentPart_of_map_toLower {exponent : List Char} (h : cs.map Char.toLower = exponent)
    (hexponent : IsExponent exponent) : Ends cs ∧ placesPart cs = ([],cs) ∧ ∃ n, exponentPart cs = some (n,[]) := by
  rcases hexponent with rfl | ⟨sign,ds,rfl,hsign,hne,hds⟩
  · obtain rfl := List.map_eq_nil_iff.1 h
    exact ⟨ends_nil,rfl,none,rfl⟩
  · obtain ⟨mark,tail,rfl,hmark,htail⟩ := List.map_eq_cons_iff.1 h
    obtain ⟨sign',digits,rfl,hsign',hdigits⟩ := List.map_eq_cons_iff.1 htail
    obtain rfl := Text.eq_of_toLower_lt hsign' (by rcases hsign with rfl | rfl <;> decide)
    obtain rfl := map_toLower_eq hdigits hds
    have htake := takeWhile_append hds ends_nil
    have hdrop := dropWhile_append hds ends_nil
    rw [List.append_nil] at htake hdrop
    obtain ⟨d,ds,rfl⟩ := List.exists_cons_of_ne_nil hne
    rcases eq_of_toLower_eq_e hmark with rfl | rfl <;> rcases hsign with rfl | rfl <;>
      exact ⟨ends_cons _ (by decide),rfl,by simp [exponentPart,htake,hdrop]⟩

theorem isSome_ofChars? (h : Spelled (cs.map Char.toLower)) : (ofChars? cs).isSome = true := by
  obtain ⟨whole,places,exponent,hcs,hne,hwhole,hplaces,hexponent⟩ := h.split
  obtain ⟨w,rest,rfl,hw,hrest⟩ := List.map_eq_append_iff.1 hcs
  obtain ⟨p,e,rfl,hp,he⟩ := List.map_eq_append_iff.1 hrest
  obtain rfl := map_toLower_eq hw hwhole
  obtain ⟨hends,hnone,n,hn⟩ := exponentPart_of_map_toLower he hexponent
  have hfront : w.isEmpty = false := by simpa using hne
  -- The places are absent, or a point that ends the whole digits and digits that the exponent ends.
  have hsome : Ends (p ++ e) ∧ ∃ ds, placesPart (p ++ e) = (ds,e) := by
    rcases hplaces with rfl | ⟨ds,rfl,hds⟩
    · obtain rfl := List.map_eq_nil_iff.1 hp
      exact ⟨hends,[],hnone⟩
    · obtain ⟨point,digits,rfl,hpoint,hdigits⟩ := List.map_eq_cons_iff.1 hp
      obtain rfl := Text.eq_of_toLower_lt hpoint (by decide)
      obtain rfl := map_toLower_eq hdigits hds
      refine ⟨ends_cons _ (by decide),digits,?_⟩
      simp only [List.cons_append,placesPart,takeWhile_append hds hends,dropWhile_append hds hends]
  obtain ⟨hends',ds,hds⟩ := hsome
  simp [ofChars?,takeWhile_append hwhole hends',dropWhile_append hwhole hends',hds,hfront,hn]

end SpriteMachine.Decimal

namespace SpriteMachine

/-! Texts of numbers -/

def IsNumberText (cs : List Char) : Prop :=
  Decimal.Spelled cs ∨ ∃ ds, cs = '-' :: ds ∧ Decimal.Spelled ds

variable {x : Float} {c : Char} {cs : List Char} {s : String}

theorem isNumberText_of_parts {p : Double.Parts} (h : Double.parts? x = some p) : IsNumberText (numberText x).toList := by
  have hbody : Decimal.Spelled (Layout.project.magnitude (Decimal.shortest Layout.project.tie p)) := by
    unfold Layout.magnitude
    dsimp only
    split
    · exact Decimal.spelled_inPositions _
    · exact Decimal.spelled_withExponent _ _
  unfold numberText Layout.text
  rw [h]
  dsimp only
  split
  · exact .inr ⟨_,by simp,hbody⟩
  · exact .inl (by rwa [String.toList_ofList])

theorem numberText_of_infinite (hx : x.isNaN = false) (h : Double.parts? x = none) :
    numberText x = "Infinity" ∨ numberText x = "-Infinity" := by
  unfold numberText Layout.text
  rw [h]
  simp only [hx,Bool.false_eq_true,if_false]
  split
  · exact .inr rfl
  · exact .inl rfl

theorem IsNumberText.isNotation {cs : List Char} (h : IsNumberText cs) : ∀ c ∈ cs, Text.isNotation c = true := by
  rcases h with h | ⟨ds,rfl,h⟩
  · exact h.isNotation
  · exact List.forall_mem_cons.2 ⟨by decide,h.isNotation⟩

theorem IsNumberText.lower {s : String} (h : IsNumberText s.toList) : Text.lower s = s := by
  rw [Text.lower,Text.lowerFrom_of_isNotation [] h.isNotation,String.ofList_toList]

/-! Texts that differ from a number's in case only -/

theorem Text.toNat_of_toLower (h : isNotation c.toLower = true) :
    43 ≤ c.toNat ∧ c.toNat ≤ 57 ∨ c.toNat = 69 ∨ c.toNat = 101 := by
  rcases toNat_of_isNotation h with hlow | he
  · rw [← eq_of_toLower_lt rfl (by omega)] at hlow
    exact .inl hlow
  · rcases Decimal.eq_of_toLower_eq_e (Char.toNat_inj.1 he) with rfl | rfl <;> decide

theorem Text.strip_eq {p : Char → Bool} (h : ∀ c ∈ cs, p c = false) : strip p cs = cs := by
  have hdrop : ∀ {cs : List Char}, (∀ c ∈ cs, p c = false) → cs.dropWhile p = cs := by
    intro cs h
    cases cs with
    | nil => rfl
    | cons c cs => rw [List.dropWhile_cons_of_neg (by rw [h c List.mem_cons_self]; decide)]
  rw [strip,hdrop h,hdrop fun c hc => h c (List.mem_reverse.1 hc),List.reverse_reverse]

theorem Numeral.isBlank_of_toLower (h : Text.isNotation c.toLower = true) : isBlank c = false := by
  have hrange := Text.toNat_of_toLower h
  simp only [isBlank,Text.isBlank,Text.within,Text.blanks,Text.inRuns,Bool.or_eq_false_iff,Bool.and_eq_false_iff,
    decide_eq_false_iff_not,beq_eq_false_iff_ne]
  omega

theorem Numeral.radixOf?_of_toLower (h : Text.isNotation c.toLower = true) : radixOf? c = none := by
  unfold radixOf?
  split <;> first | rfl | (revert h; decide)

theorem Numeral.isSome_unsigned? (h : Decimal.Spelled (cs.map Char.toLower)) : (unsigned? cs).isSome = true := by
  unfold unsigned?
  split
  · rfl
  · rw [Option.isSome_map]
    exact Decimal.isSome_ofChars? h

theorem Decimal.Spelled.head (h : Spelled cs) : ∃ c ds, cs = c :: ds ∧ c.isDigit = true := by
  obtain ⟨whole,places,exponent,rfl,hne,hwhole,-,-⟩ := h.split
  obtain ⟨c,ds,rfl⟩ := List.exists_cons_of_ne_nil hne
  exact ⟨c,_,rfl,hwhole c List.mem_cons_self⟩

theorem Numeral.isSome_ofChars? (h : IsNumberText (cs.map Char.toLower)) : (ofChars? cs).isSome = true := by
  rcases h with h | ⟨ds,hds,h⟩
  · obtain ⟨c,ds,hcons,hdigit⟩ := h.head
    obtain ⟨c',cs,rfl,hc,-⟩ := List.map_eq_cons_iff.1 hcons
    have hnot := h.isNotation
    unfold ofChars?
    split
    next heq => cases heq
    next heq =>
      cases heq
      subst hc
      exact absurd hdigit (by decide)
    next heq =>
      cases heq
      subst hc
      exact absurd hdigit (by decide)
    next mark rest heq =>
      cases heq
      rw [radixOf?_of_toLower (hnot mark.toLower (by simp))]
      exact isSome_unsigned? h
    · exact isSome_unsigned? h
  · obtain ⟨c,cs,rfl,hc,rfl⟩ := List.map_eq_cons_iff.1 hds
    obtain rfl := Text.eq_of_toLower_lt hc (by decide)
    change ((unsigned? cs).map _).isSome = true
    rw [Option.isSome_map]
    exact isSome_unsigned? h

theorem hasDigit_of_toLower (h : IsNumberText (s.toList.map Char.toLower)) : hasDigit s = true := by
  have hmem : ∃ d ∈ s.toList.map Char.toLower, d.isDigit = true := by
    rcases h with h | ⟨ds,hds,h⟩
    · obtain ⟨c,ds,hcs,hc⟩ := h.head
      exact ⟨c,by rw [hcs]; exact List.mem_cons_self,hc⟩
    · obtain ⟨c,ds',hcs,hc⟩ := h.head
      exact ⟨c,by rw [hds,hcs]; simp,hc⟩
  obtain ⟨d,hd,hdigit⟩ := hmem
  obtain ⟨c,hc,rfl⟩ := List.mem_map.1 hd
  rw [← Text.eq_of_toLower_lt rfl (by have := Text.toNat_of_isDigit hdigit; omega)] at hdigit
  exact List.any_eq_true.2 ⟨c,hc,hdigit⟩

theorem Value.isSome_operand? {t : String} (hlower : Text.lower s = t) (ht : IsNumberText t.toList) :
    (operand? (.text s)).isSome = true := by
  have hlist : Text.lowerFrom [] s.toList = t.toList := by
    rw [← hlower,Text.lower,String.toList_ofList]
  have hmap : Text.lowerFrom [] s.toList = s.toList.map Char.toLower :=
    Text.lowerFrom_eq_map (by rw [hlist]; exact ht.isNotation)
  rw [← hlist,hmap] at ht
  have hblank : ∀ c ∈ s.toList, Numeral.isBlank c = false := fun c hc =>
    Numeral.isBlank_of_toLower (ht.isNotation _ (List.mem_map_of_mem hc))
  obtain ⟨x,hx⟩ := Option.isSome_iff_exists.1 (Numeral.isSome_ofChars? ht)
  have hread : readNumber s = x := by rw [readNumber,numeral?,Text.strip_eq hblank,hx,Option.getD_some]
  simp only [operand?,isNumeric,toRawNumber,hread,hasDigit_of_toLower ht,Numeral.isNaN_ofChars hx,Bool.not_false,
    Bool.and_self,if_true,Option.isSome_some]

/-! The order of doubles -/

namespace Double

open Float.Model

theorem compare_swap (a b : UnpackedFloat) : b.compare a = (a.compare b).map Ordering.swap := by
  have hsign : ∀ s t : UnpackedFloat.Sign, compare t s = (compare s t).swap := by decide
  cases a with
  | notANumber => cases b <;> rfl
  | infinity s =>
    cases b with
    | notANumber => rfl
    | infinity t => exact congrArg some (hsign s t)
    | zero t | finite t m e h => cases s <;> rfl
  | zero s =>
    cases b with
    | notANumber => rfl
    | infinity t | finite t m e h => cases t <;> rfl
    | zero t => rfl
  | finite s m e h =>
    cases b with
    | notANumber => rfl
    | infinity t => cases t <;> rfl
    | zero t => cases s <;> rfl
    | finite t n f k =>
      have hthen : (compare f e).then (compare n m) = ((compare e f).then (compare m n)).swap := by
        rw [Ordering.swap_then,Int.compare_swap,Nat.compare_swap]
      cases s <;> cases t
      · exact congrArg (fun o => some (Ordering.swap o)) hthen
      · rfl
      · rfl
      · exact congrArg some hthen

variable {x y : Float}

theorem lt_asymm (h : x < y) : ¬ y < x := by
  rw [lt_iff] at h ⊢
  rw [compare_swap,h]
  decide

theorem beq_of_lt (h : x < y) : (x == y) = false := by
  rw [Bool.eq_false_iff,ne_eq,beq_iff,(lt_iff x y).1 h]
  decide

theorem parts?_eq_none_iff (x : Float) :
    parts? x = none ↔ @UnpackedFloat.unpackExponent Format.binary64 x.toModel.toBits.toBitVec = -1#11 := by
  have hnat : (@UnpackedFloat.unpackExponent Format.binary64 x.toModel.toBits.toBitVec).toNat =
      x.toBits.toNat / Nat.pow 2 52 % 2048 := by
    simp only [UnpackedFloat.unpackExponent,BitVec.toNat_cast,BitVec.extractLsb_toNat]
    rw [Nat.shiftRight_eq_div_pow]
    rfl
  rw [← BitVec.toNat_inj,hnat]
  change _ ↔ x.toBits.toNat / Nat.pow 2 52 % 2048 = 2047
  unfold parts?
  dsimp only
  by_cases hfull : x.toBits.toNat / Nat.pow 2 52 % 2048 = 2047
  · rw [if_pos hfull]
    exact ⟨fun _ => hfull,fun _ => rfl⟩
  · rw [if_neg hfull]
    refine ⟨fun h => ?_,fun h => absurd h hfull⟩
    split at h <;> cases h

theorem isInf_of_parts (hx : x.isNaN = false) (h : parts? x = none) : x.isInf = true := by
  have htop := (parts?_eq_none_iff x).1 h
  change x.toModel.unpack.isNaN = false at hx
  change x.toModel.unpack.isInf = true
  unfold Float.Model.unpack UnpackedFloat.unpack at hx ⊢
  simp only [htop,if_true] at hx ⊢
  by_cases hzero : @UnpackedFloat.unpackMantissa Format.binary64 x.toModel.toBits.toBitVec = 0#52
  · rw [if_pos hzero]
    rfl
  · rw [if_neg hzero] at hx
    cases hx

theorem parts?_of_isNaN (hx : x.isNaN = true) : parts? x = none := by
  rw [parts?_eq_none_iff]
  by_contra htop
  change x.toModel.unpack.isNaN = true at hx
  unfold Float.Model.unpack UnpackedFloat.unpack at hx
  simp only [if_neg htop] at hx
  split at hx
  · split at hx <;> cases hx
  · cases hx

end Double

namespace Value

/-! Comparison with a written number -/

/-- The comparison of a written number reports what the general one does. -/
structure ComparedAlike (x : Float) (y : Value) : Prop where
  less : numberLess x y = (compare (.number x) y == .lt)
  greater : numberGreater x y = (compare (.number x) y == .gt)
  equal : numberEqual x y = Value.equal (.number x) y

/-- Numbers, truth values that stand for a greater number, texts that stand for a number, and other texts that are
not between the text of the number and its lower case. -/
def IsRegular (x : Float) : Value → Prop
  | .number _ => True
  | .bool b => x < toRawNumber (.bool b)
  | .text s => (operand? (.text s)).isSome = true ∨ Text.lower s < numberText x ∨ Text.lower (numberText x) < Text.lower s

theorem compareNumbers_lt (x y : Float) : (compareNumbers x y == .lt) = decide (x < y) := by
  unfold compareNumbers
  by_cases h : x < y
  · simp [h]
  · rw [if_neg h,decide_eq_false h]
    split <;> rfl

theorem compareNumbers_gt (x y : Float) : (compareNumbers x y == .gt) = decide (x > y) := by
  unfold compareNumbers
  by_cases h : x < y
  · rw [if_pos h,decide_eq_false (Double.lt_asymm h)]
    rfl
  · rw [if_neg h]
    by_cases h' : x > y <;> simp [h']

theorem compareTexts_lt (s t : String) : (compareTexts s t == .lt) = decide (s < t) := by
  unfold compareTexts
  by_cases h : s < t
  · simp [h]
  · rw [if_neg h,decide_eq_false h]
    split <;> rfl

theorem compareTexts_gt (s t : String) : (compareTexts s t == .gt) = decide (t < s) := by
  unfold compareTexts
  rcases lt_trichotomy s t with h | rfl | h
  · rw [if_pos h,decide_eq_false (lt_asymm h)]
    rfl
  · rw [if_neg (lt_irrefl s),if_pos rfl,decide_eq_false (lt_irrefl s)]
    rfl
  · rw [if_neg (lt_asymm h),if_neg (ne_of_gt h),decide_eq_true h]
    rfl

variable {x : Float} {y : Value}

theorem numericPair?_number (hx : x.isNaN = false) (hy : ∀ b, y ≠ .bool b) :
    numericPair? (.number x) y = y.operand?.map fun ny => (x,ny) := by
  have hpair : numericPair? (.number x) y =
      if (y.isNumeric && !y.toRawNumber.isNaN) = true then some (x,y.toRawNumber) else none := by
    have hx' : (toRawNumber (.number x)).isNaN = false := hx
    simp only [numericPair?,hx',isNumeric,Bool.not_false,Bool.true_and,Bool.and_true]
    rfl
  have hoperand : y.operand? = if (y.isNumeric && !y.toRawNumber.isNaN) = true then some y.toRawNumber else none := by
    cases y with
    | bool b => exact absurd rfl (hy b)
    | number n => rfl
    | text s => rfl
  rw [hpair,hoperand]
  split <;> rfl

theorem comparedAlike_of_operand {ny : Float} (hx : x.isNaN = false) (h : y.operand? = some ny) : ComparedAlike x y := by
  have hpair : numericPair? (.number x) y = some (x,ny) := by
    rw [numericPair?_number hx (by rintro b rfl; cases h),h,Option.map_some]
  refine ⟨?_,?_,?_⟩
  · simp only [numberLess,h,compare,hpair,compareNumbers_lt]
  · simp only [numberGreater,h,compare,hpair,compareNumbers_gt]
  · simp only [numberEqual,h,equal,hpair]

/-- Other texts and NaN are compared as texts, where only the general comparison brings the number to lower case. -/
theorem comparedAlike_iff_of_text (hx : x.isNaN = false) (hy : ∀ b, y ≠ .bool b) (h : y.operand? = none) :
    ComparedAlike x y ↔ (numberText x < y.folded ↔ Text.lower (numberText x) < y.folded) ∧
      (y.folded < numberText x ↔ y.folded < Text.lower (numberText x)) ∧ Text.lower (numberText x) ≠ y.folded := by
  have hfold : folded (.number x) = Text.lower (numberText x) := rfl
  have hpair : numericPair? (.number x) y = none := by rw [numericPair?_number hx hy,h,Option.map_none]
  constructor
  · rintro ⟨hless,hgreater,hequal⟩
    simp only [numberLess,numberGreater,numberEqual,h,compare,equal,hpair,compareTexts_lt,compareTexts_gt,hfold,
      decide_eq_decide] at hless hgreater hequal
    exact ⟨hless,hgreater,beq_eq_false_iff_ne.1 hequal.symm⟩
  · rintro ⟨hless,hgreater,hequal⟩
    refine ⟨?_,?_,?_⟩
    · simp only [numberLess,h,compare,hpair,compareTexts_lt,hfold,decide_eq_decide]
      exact hless
    · simp only [numberGreater,h,compare,hpair,compareTexts_gt,hfold,decide_eq_decide]
      exact hgreater
    · simp only [numberEqual,h,equal,hpair,hfold]
      exact (beq_eq_false_iff_ne.2 hequal).symm

theorem numberText_lt (hx : x.isNaN = false) {c : Char} {cs : List Char} (hc : 97 ≤ c.toNat) :
    numberText x < String.ofList (c :: cs) := by
  have hhead : ∃ d ds, (numberText x).toList = d :: ds ∧ d.toNat < 97 := by
    cases hparts : Double.parts? x with
    | none =>
      rcases numberText_of_infinite hx hparts with h | h <;> rw [h]
      · exact ⟨'I',"nfinity".toList,by decide,by decide⟩
      · exact ⟨'-',"Infinity".toList,by decide,by decide⟩
    | some p =>
      rcases isNumberText_of_parts hparts with h | ⟨ds,h,-⟩
      · obtain ⟨d,ds,h,hd⟩ := h.head
        exact ⟨d,ds,h,by have := Text.toNat_of_isDigit hd; omega⟩
      · exact ⟨'-',ds,h,by decide⟩
  obtain ⟨d,ds,hd,hlt⟩ := hhead
  rw [String.lt_iff_toList_lt,hd,String.toList_ofList]
  exact List.Lex.rel (by rw [Char.lt_def,UInt32.lt_iff_toNat_lt]; exact Nat.lt_of_lt_of_le hlt hc)

theorem comparedAlike_number (hx : x.isNaN = false) (n : Float) : ComparedAlike x (.number n) := by
  by_cases hn : n.isNaN = true
  · have hfold : folded (.number n) = "nan" := by
      change Text.lower (numberText n) = "nan"
      unfold numberText Layout.text
      rw [Double.parts?_of_isNaN hn]
      simp only [hn,if_true]
      decide +kernel
    have hoperand : operand? (.number n) = none := by
      simp only [operand?,toRawNumber,hn,Bool.not_true,Bool.and_false,Bool.false_eq_true,if_false]
    rw [comparedAlike_iff_of_text hx (fun _ => Value.noConfusion) hoperand,hfold]
    cases hparts : Double.parts? x with
    | none => rcases numberText_of_infinite hx hparts with h | h <;> rw [h] <;> decide +kernel
    | some p =>
      have htext := isNumberText_of_parts hparts
      rw [htext.lower]
      refine ⟨Iff.rfl,Iff.rfl,fun h => ?_⟩
      rw [h] at htext
      exact absurd (htext.isNotation 'n' (by decide)) (by decide)
  · rw [Bool.not_eq_true] at hn
    have hoperand : operand? (.number n) = some n := by
      simp only [operand?,isNumeric,toRawNumber,hn,Bool.not_false,Bool.and_self,if_true]
    exact comparedAlike_of_operand hx hoperand

theorem comparedAlike_bool_iff (hx : x.isNaN = false) (b : Bool) : ComparedAlike x (.bool b) ↔ IsRegular x (.bool b) := by
  have hlt : numberText x < folded (.bool b) := by
    cases b
    · exact numberText_lt hx (by decide)
    · exact numberText_lt hx (by decide)
  have hraw : (toRawNumber (.bool b)).isNaN = false := by cases b <;> decide +kernel
  have hpair : numericPair? (.number x) (.bool b) = some (x,toRawNumber (.bool b)) := by
    have hx' : (toRawNumber (.number x)).isNaN = false := hx
    simp only [numericPair?,isNumeric,hx',hraw,Bool.not_false,Bool.and_self,if_true]
    rfl
  constructor
  · intro h
    have hless := h.less
    simp only [numberLess,operand?,hlt,compare,hpair,compareNumbers_lt,decide_true] at hless
    change x < toRawNumber (.bool b)
    exact of_decide_eq_true hless.symm
  · intro h
    change x < toRawNumber (.bool b) at h
    refine ⟨?_,?_,?_⟩
    · simp only [numberLess,operand?,hlt,compare,hpair,compareNumbers_lt,h]
    · simp only [numberGreater,operand?,lt_asymm hlt,compare,hpair,compareNumbers_gt]
      rw [decide_eq_false (Double.lt_asymm h),decide_eq_false id]
    · simp only [numberEqual,operand?,equal,hpair,Double.beq_of_lt h]

theorem le_lower_numberText (hx : x.isNaN = false) : numberText x ≤ Text.lower (numberText x) := by
  cases hparts : Double.parts? x with
  | none => rcases numberText_of_infinite hx hparts with h | h <;> rw [h] <;> decide +kernel
  | some p => rw [(isNumberText_of_parts hparts).lower]

theorem apart_iff {t l u : String} (hle : t ≤ l) :
    (t < u ↔ l < u) ∧ (u < t ↔ u < l) ∧ l ≠ u ↔ u < t ∨ l < u := by
  constructor
  · rintro ⟨-,hgreater,hne⟩
    rcases lt_trichotomy u l with h | h | h
    · exact .inl (hgreater.2 h)
    · exact absurd h.symm hne
    · exact .inr h
  · rintro (h | h)
    · have hlt := lt_of_lt_of_le h hle
      exact ⟨iff_of_false (lt_asymm h) (lt_asymm hlt),iff_of_true h hlt,ne_of_gt hlt⟩
    · have hlt := lt_of_le_of_lt hle h
      exact ⟨iff_of_true hlt h,iff_of_false (lt_asymm hlt) (lt_asymm h),ne_of_lt h⟩

theorem comparedAlike_text_iff (hx : x.isNaN = false) (s : String) : ComparedAlike x (.text s) ↔ IsRegular x (.text s) := by
  change _ ↔ (operand? (.text s)).isSome = true ∨ _ ∨ _
  cases hoperand : operand? (.text s) with
  | some ny => exact iff_of_true (comparedAlike_of_operand hx hoperand) (.inl rfl)
  | none =>
    rw [comparedAlike_iff_of_text hx (fun _ => Value.noConfusion) hoperand,apart_iff (le_lower_numberText hx)]
    exact (or_iff_right Bool.false_ne_true).symm

theorem comparedAlike_iff (hx : x.isNaN = false) (y : Value) : ComparedAlike x y ↔ IsRegular x y := by
  cases y with
  | number n => exact iff_of_true (comparedAlike_number hx n) trivial
  | bool b => exact comparedAlike_bool_iff hx b
  | text s => exact comparedAlike_text_iff hx s

theorem isRegular_text (hx : x.isNaN = false) (hfinite : x.isInf = false) (s : String) : IsRegular x (.text s) := by
  obtain ⟨p,hp⟩ : ∃ p, Double.parts? x = some p := by
    rw [← Option.ne_none_iff_exists']
    intro h
    rw [Double.isInf_of_parts hx h] at hfinite
    cases hfinite
  have htext := isNumberText_of_parts hp
  change _ ∨ _ ∨ _
  rw [htext.lower]
  rcases lt_trichotomy (Text.lower s) (numberText x) with h | h | h
  · exact .inr (.inl h)
  · exact .inl (isSome_operand? h htext)
  · exact .inr (.inr h)

end Value

/-- A number written on the left side, be it infinite, is compared as any other value with every number, with the truth
values that stand for a greater number, with the texts that stand for a number and with the other texts that do not lie
between its text and the lower case of it. The operators agree on these right sides and no others. With a finite number
that is every right side but the truth values. -/
theorem literal_comparison_iff {x : Float} (hx : x.isNaN = false) (y : Value) :
    (Value.ComparedAlike x y ↔ Value.IsRegular x y) ∧
    ((BinaryOperator.apply .numberLess (.number x) y = BinaryOperator.apply .less (.number x) y ∧
      BinaryOperator.apply .numberGreater (.number x) y = BinaryOperator.apply .greater (.number x) y ∧
      BinaryOperator.apply .numberEquals (.number x) y = BinaryOperator.apply .equals (.number x) y) ↔
        Value.IsRegular x y) ∧
    (x.isInf = false → (∀ b, y ≠ .bool b) → Value.ComparedAlike x y) := by
  refine ⟨Value.comparedAlike_iff hx y,?_,?_⟩
  · rw [← Value.comparedAlike_iff hx y]
    simp only [BinaryOperator.apply,Value.toNumber_number hx,Value.bool.injEq]
    exact ⟨fun ⟨hless,hgreater,hequal⟩ => ⟨hless,hgreater,hequal⟩,fun h => ⟨h.less,h.greater,h.equal⟩⟩
  · intro hfinite hy
    rw [Value.comparedAlike_iff hx]
    cases y with
    | number n => exact trivial
    | bool b => exact absurd rfl (hy b)
    | text s => exact Value.isRegular_text hx hfinite s

/-- A written one is not compared alike with `true`, nor a written infinity with its text in small letters. -/
theorem literal_comparison_iff_one :
    ¬ Value.ComparedAlike 1.0 (.bool true) ∧ ¬ Value.ComparedAlike Double.infinity (.text "infinity") ∧
      Value.ComparedAlike 1.0 (.text "1E0x") ∧ Value.ComparedAlike Double.infinity (.text "1e999") := by
  have hone : (1.0 : Float).isNaN = false := by decide +kernel
  have hnumeral : (Value.operand? (.text "1e999")).isSome = true := by decide +kernel
  have htrue : ¬ Value.IsRegular 1.0 (.bool true) := by
    change ¬ (1.0 : Float) < 1.0
    decide +kernel
  have hinfinity : ¬ Value.IsRegular Double.infinity (.text "infinity") := by
    change ¬ (_ ∨ _ ∨ _)
    decide +kernel
  exact ⟨fun h => htrue ((literal_comparison_iff hone _).1.1 h),
    fun h => hinfinity ((literal_comparison_iff Double.isNaN_infinity _).1.1 h),
    (literal_comparison_iff hone _).2.2 (by decide +kernel) fun _ => Value.noConfusion,
    (literal_comparison_iff Double.isNaN_infinity _).1.2 (.inl hnumeral)⟩

/-- The number one is equal to `true`, and infinity to its text in small letters, but not if they are written. -/
theorem numberEqual_ne_equal :
    Value.numberEqual 1.0 (.bool true) = false ∧ Value.equal (.number 1.0) (.bool true) = true ∧
      Value.numberEqual Double.infinity (.text "infinity") = false ∧
      Value.equal (.number Double.infinity) (.text "infinity") = true := by
  decide +kernel

end SpriteMachine
