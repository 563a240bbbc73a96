import SpriteMachine.Proofs.Compilation

/-!
Certificates of scripts: at which offsets control can be, with how many operands on the stack and how many locals
saved, so that every instruction finds what it needs. The tally of the directives from which a script was emitted
is such a certificate.
-/

namespace SpriteMachine

/-- Offsets with a number of operands and a number of saved locals. -/
abbrev Typing := Nat → Nat → Nat → Prop

/-- A label leads to an offset where the script can be resumed. -/
def Script.Resumes (s : Script) (T : Typing) (label : UInt32) (saves : Nat) : Prop :=
  ∃ pc, s.labels[label.toNat]? = some pc ∧ T pc 0 saves

/-- An instruction replaces operands by results and goes on with the next one. -/
structure Instr.Operates (s : Script) (has : DataKind → Handle → Prop) (T : Typing) (next d n : Nat) (i : Instr) :
    Prop where
  arity : ∃ a r, i.arity? = some (a,r) ∧ a ≤ d ∧ T next (d - a + r) n
  handle : ∀ {kind h}, i.handle? = some (kind,h) → has kind h
  constant : ∀ {index}, i = .pushConstant index → index.toNat < s.constants.size

/-- An instruction finds what it needs, and goes on where the typing allows it. -/
def Instr.Admits (s : Script) (has : DataKind → Handle → Prop) (T : Typing) (next d n : Nat) : Instr → Prop
  | .save => T next d (n + 1)
  | .restore => ∃ k, n = k + 1 ∧ T next d k
  | .jump target => T target.toNat d n
  | .jumpIf _ target => ∃ k, d = k + 1 ∧ T target.toNat k n ∧ T next k n
  | .queue label | .forceQueue label => s.Resumes T label n
  | .finish | .endCall => True
  | .call procedure argc ret => procedure.toNat < s.constants.size ∧ argc.toNat ≤ d ∧ s.Resumes T ret n
  | .broadcast | .broadcastAndWait => ∃ k, d = k + 1 ∧ T next k n
  | .sceneChanged | .stop _ | .deleteClone => T next d n
  | i => i.Operates s has T next d n

/-- A typing that every instruction keeps. More operands do no harm. -/
structure Script.Certificate (s : Script) (has : DataKind → Handle → Prop) (T : Typing) : Prop where
  mono : ∀ {pc d d' n : Nat}, T pc d n → d ≤ d' → T pc d' n
  steps : ∀ {pc d n : Nat}, T pc d n → ∃ i next, s.fetch pc = .ok (i,next) ∧ i.Admits s has T next d n

/-- The largest typing that every instruction keeps. -/
def Script.Allows (s : Script) (has : DataKind → Handle → Prop) : Typing :=
  fun pc d n => ∃ T, s.Certificate has T ∧ T pc d n

section Admits

variable {s : Script} {has has' : DataKind → Handle → Prop} {T T' : Typing}

theorem Script.Resumes.mono (hT : ∀ pc d n, T pc d n → T' pc d n) {label : UInt32} {n : Nat}
    (h : s.Resumes T label n) : s.Resumes T' label n := by
  obtain ⟨pc,hpc,h⟩ := h
  exact ⟨pc,hpc,hT _ _ _ h⟩

/-- What an instruction finds it also finds with more operands and more saved locals. -/
theorem Instr.Admits.shift {j l : Nat} (hT : ∀ {pc d n : Nat}, T pc d n → T' pc (d + j) (n + l))
    (hback : ∀ {pc n : Nat}, T pc 0 n → T' pc 0 (n + l)) (hhas : ∀ kind h, has kind h → has' kind h) {i : Instr}
    {next d n : Nat} (h : i.Admits s has T next d n) : i.Admits s has' T' next (d + j) (n + l) := by
  have hplain : i.Operates s has T next d n → i.Operates s has' T' next (d + j) (n + l) := by
    rintro ⟨⟨a,r,harity,hle,h⟩,hhandle,hconstant⟩
    refine ⟨⟨a,r,harity,Nat.le_add_right_of_le hle,?_⟩,fun hi => hhas _ _ (hhandle hi),hconstant⟩
    rw [show d + j - a + r = d - a + r + j by omega]
    exact hT h
  have hresumes : ∀ {label : UInt32}, s.Resumes T label n → s.Resumes T' label (n + l) := by
    rintro label ⟨pc,hpc,h⟩
    exact ⟨pc,hpc,hback h⟩
  cases i with
  | save =>
    rw [Instr.Admits,Nat.add_right_comm]
    exact hT h
  | jump target | sceneChanged | stop mode | deleteClone => exact hT h
  | restore | broadcast | broadcastAndWait =>
    obtain ⟨k,rfl,h⟩ := h
    exact ⟨_,Nat.add_right_comm _ _ _,hT h⟩
  | jumpIf wanted target =>
    obtain ⟨k,rfl,htarget,hnext⟩ := h
    exact ⟨_,Nat.add_right_comm _ _ _,hT htarget,hT hnext⟩
  | queue label | forceQueue label => exact hresumes h
  | finish | endCall => trivial
  | call procedure argc ret =>
    obtain ⟨hconstant,hargc,hret⟩ := h
    exact ⟨hconstant,Nat.le_add_right_of_le hargc,hresumes hret⟩
  | _ => exact hplain h

theorem Script.certificate_allows (s : Script) (has : DataKind → Handle → Prop) :
    s.Certificate has (s.Allows has) where
  mono h hle := by
    obtain ⟨T,hT,h⟩ := h
    exact ⟨T,hT,hT.mono h hle⟩
  steps h := by
    obtain ⟨T,hT,h⟩ := h
    obtain ⟨i,next,hfetch,hadmits⟩ := hT.steps h
    exact ⟨i,next,hfetch,hadmits.shift (j := 0) (l := 0) (⟨T,hT,·⟩) (⟨T,hT,·⟩) fun _ _ h => h⟩

theorem Script.Allows.mono (hhas : ∀ kind h, has kind h → has' kind h) {pc d n : Nat} (h : s.Allows has pc d n) :
    s.Allows has' pc d n := by
  obtain ⟨T,hT,h⟩ := h
  refine ⟨T,⟨hT.mono,fun h => ?_⟩,h⟩
  obtain ⟨i,next,hfetch,hadmits⟩ := hT.steps h
  exact ⟨i,next,hfetch,hadmits.shift (j := 0) (l := 0) (fun h => h) (fun h => h) hhas⟩

theorem Script.Allows.more {pc d n n' : Nat} (h : s.Allows has pc d n) (hle : n ≤ n') : s.Allows has pc d n' := by
  obtain ⟨T,hT,h⟩ := h
  refine ⟨fun pc d n' => ∃ n ≤ n', T pc d n,⟨?_,?_⟩,n,hle,h⟩
  · rintro pc d d' n' ⟨n,hle,h⟩ hd
    exact ⟨n,hle,hT.mono h hd⟩
  · rintro pc d n' ⟨n,hle,h⟩
    obtain ⟨i,next,hfetch,hadmits⟩ := hT.steps h
    obtain ⟨l,rfl⟩ := Nat.exists_eq_add_of_le hle
    have hgrow : ∀ {pc d n : Nat}, T pc d n → ∃ k ≤ n + l, T pc d k := fun h => ⟨_,Nat.le_add_right _ _,h⟩
    exact ⟨i,next,hfetch,hadmits.shift (j := 0) hgrow hgrow fun _ _ h => h⟩

end Admits

/-! What a script was emitted from -/

namespace Tally

/-- The saved locals of all blocks that are open. -/
def saves (t : Tally) : Nat :=
  ((t.level :: t.outer).map Level.saves).sum

theorem run_prefix {t u : Tally} {ds ds' : List Directive} (h : t.run (ds ++ ds') = some u) : ∃ v, t.run ds = some v ∧ v.run ds' = some u := by
  rw [run_append] at h
  exact Option.bind_eq_some_iff.1 h

theorem saves_eq (t : Tally) : t.saves = t.level.saves + (t.outer.map Level.saves).sum := by
  simp [saves]

end Tally

def Directive.records (d : Directive) (t : Tally) : List Nat :=
  if d.makesLabel then [t.saves] else []

/-- Where the emitter comes as it works off directives: what is left of them, the tally, and for each label the
locals that were saved where it was made. -/
inductive Course (first : Emitter) (whole : List Directive) : List Directive → Tally → Emitter → List Nat → Prop
  | start : Course first whole whole {} first [0]
  | step {d : Directive} {rest : List Directive} {t u : Tally} {e : Emitter} {saves : List Nat}
      (h : Course first whole (d :: rest) t e saves) (hd : t.step d = some u) :
      Course first whole rest u (e.step d) (saves ++ d.records t)

/-- The labels of open blocks, with the locals that were saved where they were made. -/
def Records (saves : List Nat) : List Level → List Scope → Prop
  | l :: ls, sc :: scs =>
    (∀ {i n label : Nat}, (l.marks.map Mark.saves)[i]? = some n → sc.labels[i]? = some label →
      saves[label]? = some (n + (ls.map Level.saves).sum)) ∧ Records saves ls scs
  | _, _ => True

namespace Records

variable {saves : List Nat} {l l' : Level} {ls : List Level} {sc sc' : Scope} {scs : List Scope}

theorem append (h : Records saves ls scs) (more : List Nat) :
    Records (saves ++ more) ls scs := by
  induction ls generalizing scs with
  | nil => cases scs <;> trivial
  | cons l ls ih =>
    cases scs with
    | nil => trivial
    | cons sc scs =>
      refine ⟨fun hn hl => ?_,ih h.2⟩
      have hold := h.1 hn hl
      rw [List.getElem?_append_left (List.getElem?_eq_some_iff.1 hold).1,hold]

theorem same (h : Records saves (l :: ls) (sc :: scs)) (hmarks : l'.marks.map Mark.saves = l.marks.map Mark.saves)
    (hlabels : sc'.labels = sc.labels) : Records saves (l' :: ls) (sc' :: scs) := by
  refine ⟨fun hn hl => ?_,h.2⟩
  rw [hmarks] at hn
  rw [hlabels] at hl
  exact h.1 hn hl

theorem label {n : Nat} (h : Records saves (l :: ls) (sc :: scs)) (hsize : sc.labels.size = l.marks.length)
    (hmarks : l'.marks.map Mark.saves = l.marks.map Mark.saves ++ [n])
    (hlabels : sc'.labels = sc.labels.push saves.length) :
    Records (saves ++ [n + (ls.map Level.saves).sum]) (l' :: ls) (sc' :: scs) := by
  obtain ⟨hold,hrest⟩ := h.append [n + (ls.map Level.saves).sum]
  refine ⟨fun {i k label} hn hl => ?_,hrest⟩
  rw [hmarks] at hn
  rw [hlabels,Array.getElem?_push] at hl
  split at hl
  next hi =>
    cases hl
    have hlast : k = n := by
      rw [hi,hsize] at hn
      simpa using hn.symm
    rw [hlast,List.getElem?_concat_length]
  next hi =>
    have hlt : i < l.marks.length := by
      rw [← hsize]
      exact (Array.getElem?_eq_some_iff.1 hl).1
    rw [List.getElem?_append_left (by simpa using hlt)] at hn
    exact hold hn hl

theorem step {t u : Tally} {e : Emitter} {d : Directive} (hfits : t.Fits e) (hlen : saves.length = e.code.labels.size)
    (hd : t.step d = some u) (h : Records saves (t.level :: t.outer) (e.scope :: e.outer)) :
    Records (saves ++ d.records t) (u.level :: u.outer) ((e.step d).scope :: (e.step d).outer) := by
  by_cases henter : d = .enter
  · subst henter
    cases hd
    exact ⟨fun hn => by simp at hn,h.append _⟩
  by_cases hleave : d = .leave
  · subst hleave
    obtain ⟨l,rest,houter,-,rfl⟩ := Tally.step_leave.1 hd
    obtain ⟨sc,scs,hscopes,hstep⟩ := hfits.outer_leave houter
    have hrest := h.2
    rw [houter,hscopes] at hrest
    rw [hstep]
    exact hrest.append _
  obtain ⟨hlevels,hmarks⟩ := Tally.step_levels e henter hleave hd
  obtain ⟨hscopes,hlabels⟩ := e.step_scopes henter hleave
  rw [hlevels,hscopes]
  cases hm : d.marks with
  | false =>
    rw [hm] at hmarks hlabels
    exact (h.append _).same hmarks hlabels
  | true =>
    rw [hm] at hmarks hlabels
    have hrecords : d.records t = [t.saves] := by cases d <;> first | rfl | cases hm
    rw [hrecords,t.saves_eq]
    exact h.label hfits.level.size hmarks (hlen ▸ hlabels)

end Records

namespace Tally

variable {t u : Tally}

theorem placed_step {e : Emitter} {d : Directive} (hd : t.step d = some u) {label pc : Nat}
    (hl : (e.step d).code.labels[label]? = some (some pc)) :
    e.code.labels[label]? = some (some pc) ∨
      (pc = (e.step d).pc ∧ u.depth = 0 ∧ u.saves = t.saves ∧ (d.flushes = true ∧ ∀ o ws, d ≠ .op o ws) ∧
        ((∃ i m, t.mark? i = some m ∧ e.labelAt i = label) ∨ d.makesLabel = true ∧ label = e.code.labels.size)) := by
  have hkeeps : d.keepsScope = true → e.code.labels[label]? = some (some pc) := by
    intro hk
    rw [← (e.step_keepsScope hk).2.2.1]
    exact hl
  cases d with
  | enter | leave | bindVariable r | bindList r => exact .inl hl
  | label =>
    refine .inl ?_
    simp only [Emitter.step,Emitter.label,Assembler.newLabel,Array.getElem?_push] at hl
    split at hl
    · cases hl
    · exact hl
  | place i =>
    obtain ⟨hm,rfl⟩ := step_place.1 hd
    simp only [Emitter.step,Emitter.place,Emitter.assemble,Assembler.place,Array.getElem?_setIfInBounds] at hl
    split at hl
    next heq =>
      split at hl
      · cases hl
        exact .inr ⟨rfl,rfl,rfl,⟨rfl,fun _ _ => Directive.noConfusion⟩,.inl ⟨i,_,hm,heq⟩⟩
      · cases hl
    next =>
      rw [e.flush_labels] at hl
      exact .inl hl
  | here =>
    cases hd
    simp only [Emitter.step,Emitter.assemble,Assembler.place,Array.getElem?_setIfInBounds] at hl
    split at hl
    next heq =>
      split at hl
      · cases hl
        refine .inr ⟨rfl,rfl,rfl,⟨rfl,fun _ _ => Directive.noConfusion⟩,.inr ⟨rfl,?_⟩⟩
        rw [← heq]
        simp [Emitter.labelAt,Emitter.label,Assembler.nextLabel]
      · cases hl
    next =>
      simp only [Emitter.label,Assembler.newLabel,Array.getElem?_push] at hl
      split at hl
      · cases hl
      · rw [e.flush_labels] at hl
        exact .inl hl
  | call procedure argc =>
    obtain ⟨v,hv,rfl⟩ := step_call.1 hd
    obtain ⟨-,rfl⟩ := take_eq_some.1 hv
    rw [e.step_call_labels,Array.getElem?_push] at hl
    split at hl
    next heq =>
      cases hl
      exact .inr ⟨rfl,rfl,rfl,⟨rfl,fun _ _ => Directive.noConfusion⟩,.inr ⟨rfl,heq⟩⟩
    next => exact .inl hl
  | _ => exact .inl (hkeeps rfl)

end Tally

namespace Course

variable {first : Emitter} {whole rest : List Directive} {t : Tally} {e : Emitter} {saves : List Nat}

theorem fits (h : Course first whole rest t e saves) (hfirst : Tally.Fits {} first) : t.Fits e := by
  induction h with
  | start => exact hfirst
  | step _ hd ih => exact (ih.step hd).1

theorem run_eq (h : Course first whole rest t e saves) : e.run rest = first.run whole := by
  induction h with
  | start => rfl
  | step _ _ ih => exact ih

theorem suffix (h : Course first whole rest t e saves) : rest <:+ whole := by
  induction h with
  | start => exact List.suffix_refl _
  | step _ _ ih => exact (List.suffix_cons _ _).trans ih

theorem passes (h : Course first whole rest t e saves) {v : Tally} (hv : Tally.run {} whole = some v) :
    t.run rest = some v := by
  induction h with
  | start => exact hv
  | step _ hd ih =>
    rw [Tally.run_cons,hd] at ih
    exact ih

theorem length (h : Course first whole rest t e saves) (hfirst : first.code.labels.size = 1) :
    saves.length = e.code.labels.size := by
  induction h with
  | start => exact hfirst.symm
  | @step d _ _ _ _ _ _ _ ih =>
    rw [List.length_append,Emitter.labels_size_step,ih,Directive.records]
    split <;> rfl

theorem saves_zero (h : Course first whole rest t e saves) : saves[0]? = some 0 := by
  induction h with
  | start => rfl
  | step _ _ ih => rw [List.getElem?_append_left (List.getElem?_eq_some_iff.1 ih).1,ih]

theorem records (h : Course first whole rest t e saves) (hfirst : Tally.Fits {} first)
    (hlabels : first.code.labels.size = 1) : Records saves (t.level :: t.outer) (e.scope :: e.outer) := by
  induction h with
  | start =>
    refine ⟨fun hn => by simp at hn,?_⟩
    cases first.outer <;> trivial
  | step h hd ih => exact ih.step (h.fits hfirst) (h.length hlabels) hd

theorem saves_mark (h : Course first whole rest t e saves) (hfirst : Tally.Fits {} first)
    (hlabels : first.code.labels.size = 1) {i : Nat} {m : Mark} (hm : t.mark? i = some m) :
    saves[e.labelAt i]? = some t.saves := by
  obtain ⟨hi,hmark⟩ := Tally.mark?_eq_some.1 hm
  rw [Tally.saves_eq,← hmark]
  exact (h.records hfirst hlabels).1 (by simp [hi]) ((h.fits hfirst).labelAt_eq hi)

theorem run {ds : List Directive} {u : Tally} (h : Course first whole (ds ++ rest) t e saves) (hu : t.run ds = some u) :
    ∃ more, Course first whole rest u (e.run ds) (saves ++ more) := by
  induction ds generalizing t e saves with
  | nil =>
    cases hu
    exact ⟨[],by rw [List.append_nil]; exact h⟩
  | cons d ds ih =>
    obtain ⟨v,hv,hu⟩ := Option.bind_eq_some_iff.1 hu
    obtain ⟨more,hmore⟩ := ih (h.step hv) hu
    exact ⟨d.records t ++ more,by rwa [← List.append_assoc]⟩

theorem finish (h : Course first whole rest t e saves) {v : Tally} (hv : Tally.run {} whole = some v) :
    ∃ more, Course first whole [] v (first.run whole) (saves ++ more) := by
  have hrest : Course first whole (rest ++ []) t e saves := by rwa [List.append_nil]
  rw [← h.run_eq]
  exact hrest.run (h.passes hv)

theorem worked (h : Course first whole rest t e saves) :
    ∃ done, whole = done ++ rest ∧ e = first.run done ∧ Tally.run {} done = some t := by
  induction h with
  | start => exact ⟨[],rfl,rfl,rfl⟩
  | @step d rest t u e saves _ hd ih =>
    obtain ⟨done,hwhole,rfl,ht⟩ := ih
    refine ⟨done ++ [d],by simp [hwhole],by rw [Emitter.run_append]; rfl,?_⟩
    rw [Tally.run_append,ht,Option.bind_some,Tally.run_cons,hd]
    rfl

theorem of_run (first : Emitter) {done : List Directive} (hwhole : whole = done ++ rest)
    (ht : Tally.run {} done = some t) : ∃ saves, Course first whole rest t (first.run done) saves := by
  subst hwhole
  have hstart : Course first (done ++ rest) (done ++ rest) {} first [0] := .start
  obtain ⟨more,hc⟩ := hstart.run ht
  exact ⟨_,hc⟩

/-- A label that is placed was placed in the beginning, or by a directive of the course. -/
theorem placement (h : Course first whole rest t e saves) (hfirst : Tally.Fits {} first)
    (hone : first.code.labels.size = 1) {label pc : Nat} (hl : e.code.labels[label]? = some (some pc)) :
    first.code.labels[label]? = some (some pc) ∨ ∃ d rest' t' u e' saves', Course first whole (d :: rest') t' e' saves' ∧
      t'.step d = some u ∧ rest <:+ rest' ∧ pc = (e'.step d).pc ∧ label < (e'.step d).code.labels.size ∧ u.depth = 0 ∧
      (∀ o ws, d ≠ .op o ws) ∧ saves[label]? = some u.saves := by
  induction h with
  | start => exact .inl hl
  | @step d rest t u e saves h hd ih =>
    have hgrow : ∀ {n : Nat}, saves[label]? = some n → (saves ++ d.records t)[label]? = some n := by
      intro n hn
      rw [List.getElem?_append_left (List.getElem?_eq_some_iff.1 hn).1,hn]
    rcases Tally.placed_step hd hl with hold | ⟨rfl,hdepth,hsaves,⟨-,hop⟩,hlabel⟩
    · refine (ih hold).imp_right ?_
      rintro ⟨d',rest',t',u',e',saves',hc,hd',hsuffix,hpc,hlt,hdepth,hop,hsaves⟩
      exact ⟨d',rest',t',u',e',saves',hc,hd',(List.suffix_cons _ _).trans hsuffix,hpc,hlt,hdepth,hop,hgrow hsaves⟩
    · have hlt : label < (e.step d).code.labels.size := (Array.getElem?_eq_some_iff.1 hl).1
      refine .inr ⟨d,rest,t,u,e,saves,h,hd,List.suffix_refl _,rfl,hlt,hdepth,hop,?_⟩
      rw [hsaves]
      rcases hlabel with ⟨i,m,hm,rfl⟩ | ⟨hmakes,rfl⟩
      · exact hgrow (h.saves_mark hfirst hone hm)
      · rw [← h.length hone,Directive.records,if_pos hmakes,List.getElem?_concat_length]

end Course

/-- Where control can be in code that was emitted: before a directive that is still to be worked off, or between
what it writes out first and its own instruction. -/
def Emitted (first : Emitter) (whole : List Directive) : Typing := fun pc d n =>
  ∃ x rest t e saves, Course first whole (x :: rest) t e saves ∧ (pc = e.pc ∨ pc = (e.before x).pc) ∧
    t.depth ≤ d ∧ t.saves = n

section Emitted

variable {first : Emitter} {whole rest : List Directive} {t : Tally} {e : Emitter} {saves : List Nat}

theorem Emitted.of_course (h : Course first whole rest t e saves) (hrest : rest ≠ []) :
    Emitted first whole e.pc t.depth t.saves := by
  cases rest with
  | nil => exact absurd rfl hrest
  | cons x rest => exact ⟨x,rest,t,e,saves,h,.inl rfl,Nat.le_refl _,rfl⟩

theorem Emitted.mono {pc d d' n : Nat} (h : Emitted first whole pc d n) (hle : d ≤ d') : Emitted first whole pc d' n := by
  obtain ⟨x,rest,t,e,saves,hc,hpc,hd,hn⟩ := h
  exact ⟨x,rest,t,e,saves,hc,hpc,Nat.le_trans hd hle,hn⟩

theorem Course.rest_ne_nil {d : Directive} (h : Course first whole (d :: rest) t e saves) {ds : List Directive}
    {o : Opcode} (hwhole : whole = ds ++ [.op o []]) (hd : d ≠ .op o []) : rest ≠ [] := by
  rintro rfl
  obtain ⟨before,hb⟩ := h.suffix
  rw [hwhole] at hb
  have hlast := (List.append_inj' hb rfl).2
  cases hlast
  exact hd rfl

theorem Course.placed (h : Course first whole rest t e saves) (hfirst : Tally.Fits {} first)
    (hlabels : first.code.labels = #[some 0]) (hpc : first.pc = 0) {ds : List Directive} {o : Opcode}
    (hwhole : whole = ds ++ [.op o []]) {label pc : Nat} (hl : e.code.labels[label]? = some (some pc)) :
    ∃ n, saves[label]? = some n ∧ Emitted first whole pc 0 n := by
  have hone : first.code.labels.size = 1 := by rw [hlabels]; rfl
  rcases h.placement hfirst hone hl with hl | ⟨d,rest',t',u,e',saves',hc,hd,-,rfl,-,hdepth,hop,hsaves⟩
  · rw [hlabels] at hl
    cases label with
    | zero =>
      cases hl
      have hstart := Emitted.of_course (.start : Course first whole whole {} first [0]) (by simp [hwhole])
      rw [hpc] at hstart
      exact ⟨0,h.saves_zero,hstart⟩
    | succ label => simp at hl
  · have hemitted := Emitted.of_course (hc.step hd) (hc.rest_ne_nil hwhole (hop o []))
    rw [hdepth] at hemitted
    exact ⟨u.saves,hsaves,hemitted⟩

end Emitted

/-! The tally as a certificate -/

section Admits

variable {s : Script} {has : DataKind → Handle → Prop} {T : Typing} {next : Nat} {t u : Tally} {i : Instr}

theorem Instr.Admits.weaken {d d' n : Nat} (h : i.Admits s has T next d n)
    (hT : ∀ {pc d d' n : Nat}, T pc d n → d ≤ d' → T pc d' n) (hle : d ≤ d') : i.Admits s has T next d' n := by
  obtain ⟨j,rfl⟩ := Nat.exists_eq_add_of_le hle
  exact h.shift (l := 0) (hT · (Nat.le_add_right _ _)) (fun h => h) fun _ _ h => h

theorem Tally.operate_spec (h : t.operate i = some u) :
    ∃ a r, i.arity? = some (a,r) ∧ a ≤ t.depth ∧ u.depth = t.depth - a + r := by
  unfold operate at h
  split at h
  next a r harity =>
    obtain ⟨v,hv,rfl⟩ := Option.map_eq_some_iff.1 h
    obtain ⟨hle,rfl⟩ := take_eq_some.1 hv
    exact ⟨a,r,harity,hle,rfl⟩
  next => cases h

theorem Tally.admits_perform (h : t.perform i = some u)
    (hnext : i ≠ .finish → i ≠ .endCall → T next u.depth u.saves) : i.Admits s has T next t.depth t.saves := by
  have hplain : (if i.handle?.isNone && t.guards i then t.operate i else none) = some u → (∀ index, i ≠ .pushConstant index) →
      i ≠ .finish → i ≠ .endCall → i.Operates s has T next t.depth t.saves := by
    intro h hconstant hfinish hend
    split at h
    next hpasses =>
      obtain ⟨hnone,-⟩ := Bool.and_eq_true_iff.1 hpasses
      obtain ⟨a,r,harity,hle,hdepth⟩ := operate_spec h
      obtain ⟨hlevel,houter⟩ := operate_same h
      have hsaves : u.saves = t.saves := by rw [saves,saves,hlevel,houter]
      have hT := hnext hfinish hend
      rw [hdepth,hsaves] at hT
      refine ⟨⟨a,r,harity,hle,hT⟩,fun hi => ?_,fun hi => absurd hi (hconstant _)⟩
      rw [hi] at hnone
      cases hnone
    next => cases h
  cases i with
  | save =>
    cases h
    have hT := hnext nofun nofun
    rw [saves_eq,Instr.Admits,Nat.add_right_comm]
    exact hT
  | restore =>
    obtain ⟨depth,⟨n,marks,bound,uses⟩,outer⟩ := t
    cases n with
    | zero => cases h
    | succ n =>
      cases h
      refine ⟨_,?_,hnext nofun nofun⟩
      simp only [saves_eq]
      omega
  | broadcast =>
    obtain ⟨hle,rfl⟩ := take_eq_some.1 h
    exact ⟨t.depth - 1,by omega,hnext nofun nofun⟩
  | broadcastAndWait =>
    obtain ⟨hle,rfl⟩ := take_eq_some.1 (perform_broadcastAndWait.1 h).2
    exact ⟨t.depth - 1,by omega,hnext nofun nofun⟩
  | sceneChanged | stop mode | deleteClone =>
    cases h
    exact hnext nofun nofun
  | finish | endCall => trivial
  | pushConstant index | jump target | jumpIf wanted target | queue label | forceQueue label | call procedure argc ret =>
    cases h
  | _ => exact hplain h nofun nofun nofun

end Admits

namespace Emitter

theorem flush_grows_step {e : Emitter} {d : Directive} (h : d.flushes = true) : e.flush.code.Grows (e.step d).code := by
  cases d with
  | op o ws | bound o ws =>
    simp only [step,op,show o.flushes = true from h,if_true,assemble]
    exact .op _ _ _
  | place i => exact .place _ _
  | here => exact (Assembler.Grows.newLabel _).trans (.place _ _)
  | jump o i => exact .jump _ _ _
  | resume o i => exact .op _ _ _
  | call procedure argc => exact (Assembler.Grows.newLabel _).trans ((Assembler.Grows.call _ _ _ _).trans (.place _ _))
  | flush => exact .refl _
  | _ => cases h

end Emitter

/-- What stands at an offset for a directive: what is known about changes of the picture before it is worked off, or
its own instruction. -/
def Emitter.Stands (s : Script) (e : Emitter) (d : Directive) (pc next : Nat) (i : Instr) : Prop :=
  (pc = e.pc ∧ next = (e.before d).pc ∧ i = .visual e.pending.word) ∨
    (pc = (e.before d).pc ∧ next = (e.step d).pc ∧ e.written s d = some i)

/-- Whether a directive becomes an instruction. -/
def Directive.writes : Directive → Bool
  | .enter | .leave | .label | .place _ | .here | .bindVariable _ | .bindList _ | .visual _ | .flush | .warn _ => false
  | _ => true

theorem Emitter.writes_eq_false {s : Script} {e : Emitter} {d : Directive} (h : e.written s d = none) :
    d.writes = false := by
  cases d <;> first | rfl | cases h

/-- A directive that writes no instruction keeps what is saved, and perhaps forgets operands. -/
theorem Tally.step_unwritten {t u : Tally} {d : Directive} (hd : t.step d = some u) (hi : d.writes = false) :
    u.saves = t.saves ∧ u.depth ≤ t.depth := by
  cases d with
  | enter =>
    cases hd
    simp [saves]
  | leave =>
    obtain ⟨l,rest,houter,hdone,rfl⟩ := step_leave.1 hd
    simp only [Level.isDone,Bool.and_eq_true,beq_iff_eq] at hdone
    simp [saves,houter,hdone.1.1]
  | label | bindVariable r | bindList r | visual tier | flush | warn message =>
    cases hd
    exact ⟨rfl,Nat.le_refl _⟩
  | place i =>
    obtain ⟨-,rfl⟩ := step_place.1 hd
    exact ⟨rfl,Nat.zero_le _⟩
  | here =>
    cases hd
    exact ⟨rfl,Nat.zero_le _⟩
  | _ => cases hi

theorem Tally.run_unwritten {t u : Tally} {ds : List Directive} (hds : ∀ d ∈ ds, d.writes = false)
    (h : t.run ds = some u) : u.saves = t.saves ∧ u.depth ≤ t.depth := by
  induction ds generalizing t with
  | nil =>
    cases h
    exact ⟨rfl,Nat.le_refl _⟩
  | cons d ds ih =>
    obtain ⟨v,hv,h⟩ := Option.bind_eq_some_iff.1 h
    obtain ⟨hsaves,hdepth⟩ := step_unwritten hv (hds d List.mem_cons_self)
    obtain ⟨hsaves',hdepth'⟩ := ih (fun d hd => hds d (List.mem_cons_of_mem _ hd)) h
    exact ⟨hsaves'.trans hsaves,Nat.le_trans hdepth' hdepth⟩

/-- A script with what it was emitted from: directives that pass the tally, and an instruction that ends it. -/
structure Emission (s : Script) (first : Emitter) (whole : List Directive) : Prop where
  fits : Tally.Fits {} first
  labels : first.code.labels = #[some 0]
  pc : first.pc = 0
  constants : first.code.constants.size = 0
  passes : ∃ k, Tally.run {} whole = some (Tally.push {} k)
  ends : ∃ ds o, Compile.Ends o ∧ whole = ds ++ [.op o []]
  built : ∃ id, (first.run whole).code.build id = .ok s
  small : s.code.size < 2 ^ 32

theorem Instr.bound_spec (s : Script) (has : DataKind → Handle → Prop) {o : Opcode} {ws : List UInt32} {kind : DataKind}
    (handle : Handle) (hkind : (ofOperands o (0 :: ws)).handle?.map Prod.fst = some kind) :
    (ofOperands o (handle.word :: ws)).handle? = some (kind,handle) ∧
      (ofOperands o (handle.word :: ws)).arity? = (ofOperands o (0 :: ws)).arity? ∧
      ∀ T next d n, (ofOperands o (handle.word :: ws)).Operates s has T next d n →
        (ofOperands o (handle.word :: ws)).Admits s has T next d n := by
  cases o <;> first
    | cases hkind; exact ⟨rfl,rfl,fun _ _ _ _ h => h⟩
    | cases hkind

theorem Tally.handle?_of_bound (s : Script) {t u : Tally} {o : Opcode} {ws : List UInt32} (h : t.step (.bound o ws) = some u) :
    ∃ kind, (Instr.ofOperands o (0 :: ws)).handle?.map Prod.fst = some kind ∧
      ∀ handle : Handle, (Instr.ofOperands o (handle.word :: ws)).handle? = some (kind,handle) := by
  obtain ⟨⟨-,hbound,hkind⟩,-⟩ := step_bound.1 h
  obtain ⟨kind,hk⟩ := Option.isSome_iff_exists.1 hbound
  rw [hk] at hkind
  exact ⟨kind,hkind,fun handle => (Instr.bound_spec s (fun _ _ => True) handle hkind).1⟩

namespace Emission

variable {s : Script} {first e : Emitter} {whole done rest : List Directive} {t u : Tally} {saves : List Nat}
  {d : Directive}

theorem one (h : Emission s first whole) : first.code.labels.size = 1 := by
  rw [h.labels]
  rfl

theorem size (h : Emission s first whole) : (first.run whole).pc < 2 ^ 32 := by
  obtain ⟨id,hb⟩ := h.built
  obtain ⟨instrs,hbuilt⟩ := Assembler.built_of_build hb
  rw [Emitter.pc,← hbuilt.code_size]
  exact h.small

theorem final (h : Emission s first whole) : Tally.Fits {} (first.run whole) := by
  obtain ⟨k,hk⟩ := h.passes
  obtain ⟨hlevels,hdistinct,hbudget,hneat⟩ := (h.fits.run hk).1
  exact ⟨hlevels,hdistinct,hbudget,hneat⟩

theorem labels_size (h : Emission s first whole) : (first.run whole).code.labels.size ≤ 2 ^ 32 := by
  have hbudget : (first.run whole).code.labels.size ≤ 1 + (first.run whole).pc := h.final.budget
  have := h.size
  omega

theorem constants_size (h : Emission s first whole) : (first.run whole).code.constants.size ≤ 2 ^ 32 := by
  have hle := Emitter.constants_size_le_run (e := first) (by rw [h.constants]; exact Nat.zero_le _) whole
  have := h.size
  omega

theorem holds (h : Emission s first whole) (hc : Course first whole (d :: rest) t e saves) :
    s.Holds (e.step d).code := by
  obtain ⟨id,hb⟩ := h.built
  have hholds := Script.Holds.of_build hb h.final.neat
  rw [← hc.run_eq,Emitter.run_cons] at hholds
  exact hholds.of_grows ((e.step d).run_grows rest)

theorem resumes (h : Emission s first whole) (hc : Course first whole rest t e saves) {label n : Nat}
    (hn : saves[label]? = some n) :
    ∃ pc, s.labels[label]? = some pc ∧ Emitted first whole pc 0 n ∧ label < 2 ^ 32 ∧ pc < 2 ^ 32 := by
  obtain ⟨k,hk⟩ := h.passes
  obtain ⟨ds,o,-,hwhole⟩ := h.ends
  obtain ⟨more,hfinish⟩ := hc.finish hk
  obtain ⟨id,hb⟩ := h.built
  obtain ⟨instrs,hbuilt⟩ := Assembler.built_of_build hb
  have hlt := (List.getElem?_eq_some_iff.1 hn).1
  have hlabel : label < (first.run whole).code.labels.size := by
    rw [← hfinish.length h.one,List.length_append]
    omega
  have hcount : s.labels.size = (first.run whole).code.labels.size := by
    simpa using (congrArg List.length hbuilt.labels).symm
  have hget : s.labels[label]? = some s.labels[label] := Array.getElem?_eq_getElem (by omega)
  have hplaced : (first.run whole).code.labels[label]? = some (some s.labels[label]) := by
    rw [← Array.getElem?_toList,hbuilt.labels,List.getElem?_map,Array.getElem?_toList,hget]
    rfl
  obtain ⟨m,hm,hemitted⟩ := hfinish.placed h.fits h.labels h.pc hwhole hplaced
  rw [List.getElem?_append_left hlt,hn] at hm
  cases hm
  refine ⟨_,hget,hemitted,Nat.lt_of_lt_of_le hlabel h.labels_size,?_⟩
  have hstart := hbuilt.aligned _ (Array.mem_toList_iff.2 (Array.mem_of_getElem? hget))
  obtain ⟨⟨pc,o'⟩,hmem,hpc⟩ := List.mem_map.1 hstart
  have hin := (hbuilt.walk.mem hmem).2.1
  have hsize := h.size
  simp only [Emitter.pc] at hsize hpc
  omega

/-- The label of a block leads to where control can be with the locals that are saved now. -/
theorem resumes_mark (h : Emission s first whole) (hc : Course first whole rest t e saves) {i : Nat} {m : Mark}
    (hm : t.mark? i = some m) :
    ∃ pc, s.labels[e.labelAt i]? = some pc ∧ Emitted first whole pc 0 t.saves ∧ e.labelAt i < 2 ^ 32 ∧ pc < 2 ^ 32 :=
  h.resumes hc (hc.saves_mark h.fits h.one hm)

theorem passes_next (h : Emission s first whole) (hc : Course first whole (d :: rest) t e saves) :
    ∃ u, t.step d = some u := by
  obtain ⟨k,hk⟩ := h.passes
  have hrun := hc.passes hk
  obtain ⟨u,hu,-⟩ := Option.bind_eq_some_iff.1 hrun
  exact ⟨u,hu⟩

theorem label_eq (h : Emission s first whole) (hc : Course first whole rest t e saves) {label pc : Nat}
    (hl : e.code.labels[label]? = some (some pc)) : s.labels[label]? = some pc := by
  obtain ⟨k,hk⟩ := h.passes
  obtain ⟨id,hb⟩ := h.built
  obtain ⟨instrs,hbuilt⟩ := Assembler.built_of_build hb
  have hsettled := ((hc.fits h.fits).run (hc.passes hk)).2 label pc hl
  rw [hc.run_eq,← Array.getElem?_toList,hbuilt.labels,List.getElem?_map,Array.getElem?_toList,
    Option.map_eq_some_iff] at hsettled
  obtain ⟨pc',hpc',heq⟩ := hsettled
  cases heq
  exact hpc'

/-- A call returns to what follows it. -/
theorem return_label {procedure : String} {argc : Nat} (h : Emission s first whole)
    (hc : Course first whole (.call procedure argc :: rest) t e saves) :
    s.labels[e.code.nextLabel]? = some (e.step (.call procedure argc)).pc ∧ e.code.nextLabel < 2 ^ 32 := by
  obtain ⟨u,hu⟩ := h.passes_next hc
  have hplaced : (e.step (.call procedure argc)).code.labels[e.code.nextLabel]? =
      some (some (e.step (.call procedure argc)).pc) := by
    rw [Emitter.step_call_labels,Assembler.nextLabel,Array.getElem?_push,if_pos rfl]
  have hlt := (Array.getElem?_eq_some_iff.1 hplaced).1
  have hgrow := (e.step (.call procedure argc)).labels_size_le_run rest
  rw [(hc.step hu).run_eq] at hgrow
  exact ⟨h.label_eq (hc.step hu) hplaced,Nat.lt_of_lt_of_le hlt (Nat.le_trans hgrow h.labels_size)⟩

theorem has (hc : Course first whole (d :: rest) t e saves) {kind : DataKind} {handle : Handle}
    (hh : (e.step d).symbols.Has kind handle) : (first.run whole).symbols.Has kind handle := by
  rw [← hc.run_eq,Emitter.run_cons]
  exact hh.mono ((e.step d).symbols_grows_run rest)

theorem constant_lt (h : Emission s first whole) (hc : Course first whole (d :: rest) t e saves) {index : Nat}
    (hlt : index < (e.step d).code.constants.size) : (UInt32.ofNat index).toNat < s.constants.size := by
  obtain ⟨id,hb⟩ := h.built
  obtain ⟨instrs,hbuilt⟩ := Assembler.built_of_build hb
  have hgrows := ((e.step d).run_grows rest).constants_size
  rw [← Emitter.run_cons,hc.run_eq] at hgrows
  have hsize := h.constants_size
  have hsmall : index < 2 ^ 32 := by omega
  rw [UInt32.toNat_ofNat_of_lt' hsmall,hbuilt.constants]
  omega

/-- A directive writes an instruction that finds what the tally says, and goes on where labels and the next directive
are. -/
theorem admits_of_written {T : Typing} (h : Emission s first whole) (hc : Course first whole (d :: rest) t e saves)
    (hu : t.step d = some u) {i : Instr} (hi : e.written s d = some i)
    (hnext : i ≠ .finish → i ≠ .endCall → T (e.step d).pc u.depth u.saves)
    (hmark : ∀ {j pc : Nat} {m : Mark}, t.mark? j = some m → s.labels[e.labelAt j]? = some pc → ∀ k, T pc k t.saves) :
    i.Admits s (first.run whole).symbols.Has T (e.step d).pc t.depth t.saves := by
  have hnone : ∀ {α : Type} {a : α} {P : Prop}, none = some a → P := fun h => absurd h.symm (Option.some_ne_none _)
  cases d with
  | op o ws =>
    cases hi
    exact Tally.admits_perform (Tally.step_op.1 hu).2 hnext
  | pushNumber x | pushBool b =>
    cases hi
    cases hu
    exact ⟨⟨0,1,rfl,Nat.zero_le _,hnext Instr.noConfusion Instr.noConfusion⟩,hnone,Instr.noConfusion⟩
  | pushText text =>
    cases hi
    cases hu
    refine ⟨⟨0,1,rfl,Nat.zero_le _,hnext Instr.noConfusion Instr.noConfusion⟩,hnone,?_⟩
    rintro index ⟨⟩
    refine h.constant_lt hc ?_
    have hfound := Assembler.constants_constantIndex e.code text
    simpa [Emitter.step,Emitter.assemble,Assembler.pushText] using (Array.getElem?_eq_some_iff.1 hfound).1
  | pushVariable r =>
    cases hi
    cases hu
    refine ⟨⟨0,1,rfl,Nat.zero_le _,hnext Instr.noConfusion Instr.noConfusion⟩,?_,Instr.noConfusion⟩
    rintro kind handle ⟨⟩
    refine has hc ?_
    simpa [Emitter.step] using (e.symbols.variableHandle_spec r).2
  | pushList r =>
    cases hi
    cases hu
    refine ⟨⟨0,1,rfl,Nat.zero_le _,hnext Instr.noConfusion Instr.noConfusion⟩,?_,Instr.noConfusion⟩
    rintro kind handle ⟨⟩
    refine has hc ?_
    simpa [Emitter.step] using (e.symbols.listHandle_spec r).2
  | jump o j =>
    cases hi
    obtain ⟨⟨m,hm⟩,hkind⟩ := Tally.step_jump.1 hu
    obtain ⟨pc,hpc,-,-,hlt⟩ := h.resumes_mark hc hm
    have htarget := hmark hm hpc
    rw [hpc,Option.getD_some]
    rw [← UInt32.toNat_ofNat_of_lt' hlt] at htarget
    rcases hkind with ⟨rfl,rfl⟩ | ⟨rfl | rfl,v,hv,rfl⟩
    · exact htarget _
    all_goals
      obtain ⟨hle,rfl⟩ := Tally.take_eq_some.1 hv
      exact ⟨t.depth - 1,by omega,htarget _,hnext Instr.noConfusion Instr.noConfusion⟩
  | resume o j =>
    cases hi
    obtain ⟨⟨m,hm⟩,hkind,rfl⟩ := Tally.step_resume.1 hu
    obtain ⟨pc,hpc,-,hlt,-⟩ := h.resumes_mark hc hm
    have hresumes : s.Resumes T (UInt32.ofNat (e.labelAt j)) t.saves :=
      ⟨pc,by rwa [UInt32.toNat_ofNat_of_lt' hlt],hmark hm hpc 0⟩
    rcases hkind with rfl | rfl <;> exact hresumes
  | bound o ws =>
    cases hi
    obtain ⟨⟨-,hbound,hkind⟩,hoperate⟩ := Tally.step_bound.1 hu
    obtain ⟨kind,hk⟩ := Option.isSome_iff_exists.1 hbound
    rw [hk] at hkind
    obtain ⟨hhandle,harity,hadmits⟩ := Instr.bound_spec s (first.run whole).symbols.Has e.scope.handle hkind
    obtain ⟨a,r,ha,hle,hdepth⟩ := Tally.operate_spec hoperate
    obtain ⟨hlevel,houter⟩ := Tally.operate_same hoperate
    have hsaves : u.saves = t.saves := by rw [Tally.saves,Tally.saves,hlevel,houter]
    rw [hdepth,hsaves] at hnext
    refine hadmits _ _ _ _ ⟨⟨a,r,harity.trans ha,hle,hnext ?_ ?_⟩,?_,?_⟩
    · intro hi
      rw [hi] at hhandle
      cases hhandle
    · intro hi
      rw [hi] at hhandle
      cases hhandle
    · intro kind' handle hi
      rw [hhandle] at hi
      cases hi
      refine has hc ?_
      have hold := (hc.fits h.fits).level.handle hk
      simpa [Emitter.step] using hold
    · intro index hi
      rw [hi] at hhandle
      cases hhandle
  | call procedure argc =>
    cases hi
    obtain ⟨v,hv,rfl⟩ := Tally.step_call.1 hu
    obtain ⟨hle,rfl⟩ := Tally.take_eq_some.1 hv
    obtain ⟨hpc,hlt⟩ := h.return_label hc
    refine ⟨h.constant_lt hc ?_,Nat.le_trans (by simp [Nat.mod_le]) hle,_,?_,hnext Instr.noConfusion Instr.noConfusion⟩
    · have hfound := Assembler.constants_constantIndex e.flush.code.newLabel procedure
      have hindex : e.flush.code.newLabel.constantIndex procedure = e.code.constantIndex procedure := by
        simp [Assembler.constantIndex,Assembler.newLabel]
      rw [hindex] at hfound
      simpa [Emitter.step,Emitter.assemble,Assembler.call,Assembler.place] using
        (Array.getElem?_eq_some_iff.1 hfound).1
    · rwa [UInt32.toNat_ofNat_of_lt' hlt]
  | _ => cases hi

theorem admits_written (h : Emission s first whole) (hc : Course first whole (d :: rest) t e saves)
    (hu : t.step d = some u) {i : Instr} (hi : e.written s d = some i) :
    i.Admits s (first.run whole).symbols.Has (Emitted first whole) (e.step d).pc t.depth t.saves := by
  obtain ⟨ds,o,ho,hwhole⟩ := h.ends
  refine h.admits_of_written hc hu hi (fun hfinish hend => ?_) fun hm hpc k => ?_
  · refine .of_course (hc.step hu) (hc.rest_ne_nil hwhole ?_)
    rintro rfl
    cases hi
    rcases ho with rfl | rfl
    · exact hfinish rfl
    · exact hend rfl
  · obtain ⟨pc',hpc',hemitted,-⟩ := h.resumes_mark hc hm
    cases hpc.symm.trans hpc'
    exact hemitted.mono (Nat.zero_le _)

theorem isWhole_of_step (hu : t.step d = some u) : d.isWhole = true := by
  cases d with
  | op o ws => simpa [Directive.isWhole] using (Tally.step_op.1 hu).1
  | bound o ws => simpa [Directive.isWhole] using (Tally.step_bound.1 hu).1.1
  | jump o i =>
    obtain ⟨-,⟨rfl,-⟩ | ⟨rfl | rfl,-⟩⟩ := Tally.step_jump.1 hu <;> rfl
  | resume o i =>
    obtain ⟨-,rfl | rfl,-⟩ := Tally.step_resume.1 hu <;> rfl
  | _ => rfl

theorem fetch_written (h : Emission s first whole) (hc : Course first whole (d :: rest) t e saves)
    (hu : t.step d = some u) {i : Instr} (hi : e.written s d = some i) :
    s.fetch (e.before d).pc = .ok (i,(e.step d).pc) := by
  refine (h.holds hc).fetch_written (hc.fits h.fits).neat (isWhole_of_step hu) ?_ hi
  rintro o j rfl
  obtain ⟨⟨m,hm⟩,-⟩ := Tally.step_jump.1 hu
  obtain ⟨pc,-,-,hlt,-⟩ := h.resumes_mark hc hm
  exact hlt

theorem fetch_pending (h : Emission s first whole) (hc : Course first whole (d :: rest) t e saves)
    (hbefore : e.pc ≠ (e.before d).pc) : s.fetch e.pc = .ok (.visual e.pending.word,(e.before d).pc) := by
  have hflushes : d.flushes = true := by
    cases hd : d.flushes with
    | true => rfl
    | false => exact absurd (by simp [Emitter.before,hd]) hbefore
  have heq : e.before d = e.flush := by simp [Emitter.before,hflushes]
  have hpending : e.pending ≠ .none := by
    intro hnone
    rw [heq,Emitter.flush_of_none hnone] at hbefore
    exact hbefore rfl
  rw [heq]
  exact ((h.holds hc).of_grows (Emitter.flush_grows_step hflushes)).fetch_flush (hc.fits h.fits).neat hpending

theorem course (h : Emission s first (done ++ rest)) :
    ∃ t saves, Course first (done ++ rest) rest t (first.run done) saves := by
  obtain ⟨k,hk⟩ := h.passes
  obtain ⟨t,ht,-⟩ := Tally.run_prefix hk
  obtain ⟨saves,hc⟩ := Course.of_run first rfl ht
  exact ⟨t,saves,hc⟩

theorem fetch_at (h : Emission s first (done ++ d :: rest)) {i : Instr} (hi : (first.run done).written s d = some i) :
    s.fetch ((first.run done).before d).pc = .ok (i,(first.run (done ++ [d])).pc) := by
  obtain ⟨t,saves,hc⟩ := h.course
  obtain ⟨u,hu⟩ := h.passes_next hc
  rw [Emitter.run_append]
  exact h.fetch_written hc hu hi

/-- From a place on there are directives that write nothing, up to the one whose instruction stands there. -/
theorem stands {mid : List Directive} {pc : Nat} (h : Emission s first (done ++ (mid ++ rest)))
    (hpc : pc = (first.run done).pc ∨ ∃ d mid', mid = d :: mid' ∧ pc = ((first.run done).before d).pc) :
    ∃ x y, mid = x ++ y ∧ (∀ d ∈ x, d.writes = false) ∧ ((y = [] ∧ pc = (first.run (done ++ x)).pc) ∨
      ∃ d y' i next, y = d :: y' ∧ (first.run (done ++ x)).Stands s d pc next i ∧ s.fetch pc = .ok (i,next)) := by
  induction mid generalizing done pc with
  | nil => exact ⟨[],[],rfl,nofun,.inl ⟨rfl,by simpa using hpc⟩⟩
  | cons d mid ih =>
    obtain ⟨t,saves,hc⟩ := h.course
    by_cases hbefore : pc = ((first.run done).before d).pc
    · subst hbefore
      cases hi : (first.run done).written s d with
      | some i =>
        refine ⟨[],d :: mid,rfl,nofun,.inr ⟨d,mid,i,_,rfl,?_,h.fetch_at hi⟩⟩
        rw [List.append_nil,Emitter.run_append]
        exact .inr ⟨rfl,rfl,hi⟩
      | none =>
        rw [List.cons_append,List.append_cons] at h
        have hstart : ((first.run done).before d).pc = (first.run (done ++ [d])).pc := by
          rw [Emitter.run_append]
          exact (Script.Holds.pc_step hi).symm
        obtain ⟨x,y,rfl,hx,hy⟩ := ih h (.inl hstart)
        refine ⟨d :: x,y,rfl,List.forall_mem_cons.2 ⟨Emitter.writes_eq_false hi,hx⟩,?_⟩
        rwa [List.append_cons]
    · have hstart : pc = (first.run done).pc := hpc.resolve_right fun ⟨_,_,hcons,hpc⟩ => by
        cases hcons
        exact hbefore hpc
      subst hstart
      refine ⟨[],d :: mid,rfl,nofun,.inr ⟨d,mid,_,_,rfl,?_,h.fetch_pending hc hbefore⟩⟩
      rw [List.append_nil]
      exact .inl ⟨rfl,rfl,rfl⟩

theorem steps (h : Emission s first whole) (hc : Course first whole (d :: rest) t e saves) {pc : Nat}
    (hpc : pc = e.pc ∨ pc = (e.before d).pc) :
    ∃ i next, s.fetch pc = .ok (i,next) ∧
      i.Admits s (first.run whole).symbols.Has (Emitted first whole) next t.depth t.saves := by
  obtain ⟨k,hk⟩ := h.passes
  obtain ⟨done,hwhole,rfl,-⟩ := hc.worked
  have hemission : Emission s first (done ++ ((d :: rest) ++ [])) := by rwa [List.append_nil,← hwhole]
  obtain ⟨x,y,hsplit,hx,⟨rfl,-⟩ | ⟨d',y,i,next,rfl,hstands,hfetch⟩⟩ :=
    hemission.stands (hpc.imp_right fun hpc => ⟨d,rest,rfl,hpc⟩)
  · -- The last directive writes an instruction.
    obtain ⟨ds,o,-,hend⟩ := h.ends
    rw [List.append_nil] at hsplit
    have hlast := congrArg List.getLast? (hend.symm.trans hwhole)
    rw [List.getLast?_concat,List.getLast?_append_of_ne_nil _ (List.cons_ne_nil _ _),hsplit] at hlast
    cases hx _ (List.mem_of_getLast? hlast.symm)
  · have hrun := hc.passes hk
    rw [hsplit] at hc hrun
    obtain ⟨v,hv,-⟩ := Tally.run_prefix hrun
    obtain ⟨more,hc'⟩ := hc.run hv
    rw [← Emitter.run_append] at hc'
    obtain ⟨heq,hle⟩ := Tally.run_unwritten hx hv
    refine ⟨i,next,hfetch,?_⟩
    rcases hstands with ⟨-,rfl,rfl⟩ | ⟨-,rfl,hi⟩
    · exact ⟨⟨0,0,rfl,Nat.zero_le _,d',y,v,_,_,hc',.inr rfl,hle,heq⟩,nofun,nofun⟩
    · obtain ⟨u,hu⟩ := h.passes_next hc'
      have hadmits := h.admits_written hc' hu hi
      rw [heq] at hadmits
      exact hadmits.weaken Emitted.mono hle

theorem certificate (h : Emission s first whole) : s.Certificate (first.run whole).symbols.Has (Emitted first whole) where
  mono := Emitted.mono
  steps hT := by
    obtain ⟨x,rest,t,e,saves,hc,hpc,hd,rfl⟩ := hT
    obtain ⟨i,next,hfetch,hadmits⟩ := h.steps hc hpc
    exact ⟨i,next,hfetch,hadmits.weaken Emitted.mono hd⟩

theorem starts (h : Emission s first whole) : s.Resumes (s.Allows (first.run whole).symbols.Has) 0 0 := by
  obtain ⟨pc,hpc,hemitted,-⟩ := h.resumes (.start : Course first whole whole {} first [0])
    (show [0][0]? = some 0 from rfl)
  exact ⟨pc,hpc,_,h.certificate,hemitted⟩

end Emission

namespace Compile

theorem emission {symbols after : Symbols} {name : String} {params : List String} {blocks : List Block} {o : Opcode}
    {id : Nat} {s : Script} (h : script symbols name params blocks o id = .ok (s,after)) (ho : Ends o)
    (hsmall : s.code.size < 2 ^ 32) :
    Emission s (.start symbols name) (expandStack params blocks ++ [.op o []]) ∧
      after = ((Emitter.start symbols name).run (expandStack params blocks ++ [.op o []])).symbols := by
  obtain ⟨s',hb,hs⟩ := Except.bind_eq_ok.1 h
  cases hs
  obtain ⟨k,hk⟩ := Tally.reaches_expandStack params blocks {}
  have hrun : (Emitter.start symbols name).run (expandStack params blocks ++ [.op o []]) =
      ((Emitter.start symbols name).run (expandStack params blocks)).op o [] := Emitter.run_append _ _ _
  refine ⟨⟨Emitter.fits_start symbols name,rfl,rfl,rfl,⟨k,?_⟩,⟨_,o,ho,rfl⟩,⟨id,?_⟩,hsmall⟩,?_⟩
  · rw [Tally.run_append,hk,Option.bind_some]
    rcases ho with rfl | rfl <;> rfl
  · rw [hrun]
    exact hb
  · rw [hrun]
    rfl

theorem Compiled.starts {symbols : Symbols} {o : Opcode} {s : Script} (h : Compiled symbols o s) (ho : Ends o)
    (hsmall : s.code.size < 2 ^ 32) : s.Resumes (s.Allows symbols.Has) 0 0 := by
  obtain ⟨before,name,params,blocks,after,id,hs,hgrows⟩ := h
  obtain ⟨hemission,rfl⟩ := emission hs ho hsmall
  exact hemission.starts.mono fun pc d n hallows => hallows.mono fun kind handle hh => hh.mono hgrows

end Compile

end SpriteMachine
