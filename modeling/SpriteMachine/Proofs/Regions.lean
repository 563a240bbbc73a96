import SpriteMachine.Proofs.Certificate

/-!
The code of one block in a script. Labels of a block are placed in the block, so control that is in its code stays
there until it comes to its end, and on the way the block restores just the locals that it saved.
-/

namespace SpriteMachine

namespace Tally

variable {t u : Tally}

theorem saves_onto (t : Tally) (levels : List Level) : (t.onto levels).saves = t.saves + (levels.map Level.saves).sum := by
  simp [saves,onto,Nat.add_assoc]

end Tally

namespace Emitter

/-- The blocks that were entered since some scopes were there have labels that were made since. -/
def Fresh (scopes : List Scope) (made depth : Nat) (e : Emitter) : Prop :=
  ∃ inner, e.scope :: e.outer = inner ++ scopes ∧ inner.length = depth + 1 ∧
    ∀ sc ∈ inner, ∀ label ∈ sc.labels, made ≤ label

variable {scopes : List Scope} {made : Nat} {e : Emitter} {t u : Tally} {d : Directive}

theorem Fresh.step (h : e.Fresh scopes made t.outer.length) (hmade : made ≤ e.code.labels.size)
    (hd : t.step d = some u) : (e.step d).Fresh scopes made u.outer.length := by
  obtain ⟨inner,heq,hlength,hfresh⟩ := h
  obtain ⟨sc,rest,rfl⟩ : ∃ sc rest, inner = sc :: rest := List.exists_cons_of_length_eq_add_one hlength
  obtain ⟨hscope,houter⟩ : e.scope = sc ∧ e.outer = rest ++ scopes := List.cons.inj heq
  obtain ⟨hsc,hrest⟩ := List.forall_mem_cons.1 hfresh
  have hlen : rest.length = t.outer.length := by simpa using hlength
  by_cases henter : d = .enter
  · subst henter
    cases hd
    refine ⟨{} :: sc :: rest,?_,by simp [hlen],List.forall_mem_cons.2 ⟨fun label hl => by simp at hl,hfresh⟩⟩
    simp [Emitter.step,hscope,houter]
  by_cases hleave : d = .leave
  · subst hleave
    obtain ⟨l,ls,hlevels,-,rfl⟩ := Tally.step_leave.1 hd
    rw [hlevels] at hlen
    obtain ⟨sc',rest',rfl⟩ : ∃ sc' rest', rest = sc' :: rest' := List.exists_cons_of_length_eq_add_one hlen
    refine ⟨sc' :: rest',?_,by simpa using hlen,hrest⟩
    simp [Emitter.step,houter]
  obtain ⟨hscopes,hlabels⟩ := e.step_scopes henter hleave
  rw [hscope] at hlabels
  refine ⟨(e.step d).scope :: rest,by rw [hscopes,houter]; rfl,?_,List.forall_mem_cons.2 ⟨fun label hmem => ?_,hrest⟩⟩
  · rw [(Tally.step_levels e henter hleave hd).1]
    simp [hlen]
  · rw [hlabels] at hmem
    split at hmem
    · rcases Array.mem_push.1 hmem with hmem | rfl
      · exact hsc label hmem
      · exact hmade
    · exact hsc label hmem

theorem Fresh.run {ds : List Directive} (h : e.Fresh scopes made t.outer.length) (hmade : made ≤ e.code.labels.size)
    (hd : t.run ds = some u) : (e.run ds).Fresh scopes made u.outer.length := by
  induction ds generalizing t e with
  | nil =>
    cases hd
    exact h
  | cons d ds ih =>
    rw [Tally.run_cons] at hd
    obtain ⟨v,hv,hd⟩ := Option.bind_eq_some_iff.1 hd
    exact ih (h.step hmade hv) (Nat.le_trans hmade (e.labels_size_le_step d)) hd

end Emitter

variable {first e : Emitter} {whole rest : List Directive} {t : Tally} {saves : List Nat} {s : Script} {pc : Nat}
  {T : Nat → Nat → Prop}

/-- A block in the directives of a script, with what comes before it and what follows. -/
structure Portion (s : Script) (first : Emitter) (before body after : List Directive) : Prop where
  emission : Emission s first (before ++ .enter :: (body ++ .leave :: after))
  passes : ∃ u, Tally.run {} body = some u ∧ u.level.isDone = true ∧ u.outer = []

/-- Where control can be in the code of a block, with the locals that the block has saved. -/
def Inside (first : Emitter) (before body : List Directive) (pc n : Nat) : Prop :=
  ∃ done rest r, body = done ++ rest ∧ Tally.run {} done = some r ∧ r.saves = n ∧
    (pc = (first.run (before ++ .enter :: done)).pc ∨
      ∃ d rest', rest = d :: rest' ∧ pc = ((first.run (before ++ .enter :: done)).before d).pc)

/-- An instruction in the code of a block goes on in it; it restores only what the block has saved, and sets locals
only after the block has saved those that were there. -/
def Instr.Stays (s : Script) (T : Nat → Nat → Prop) (next n : Nat) : Instr → Prop
  | .save => T next (n + 1)
  | .restore => ∃ k, n = k + 1 ∧ T next k
  | .jump target => T target.toNat n
  | .jumpIf _ target => T target.toNat n ∧ T next n
  | .queue label | .forceQueue label | .call _ _ label => ∃ pc, s.labels[label.toNat]? = some pc ∧ T pc n
  | .finish | .endCall => True
  | i => T next n ∧ (i.setsLocals = true → 0 < n)

theorem Script.lt_of_fetch {next : Nat} {i : Instr} (h : s.fetch pc = .ok (i,next)) : pc < next := by
  unfold fetch at h
  split at h
  · cases h
  · split at h
    · cases h
    · split at h
      · cases h
        omega
      · cases h

theorem Emitter.before_le_step (e : Emitter) (d : Directive) : (e.before d).pc ≤ (e.step d).pc := by
  cases hd : d.flushes with
  | true =>
    have heq : e.before d = e.flush := by simp [before,hd]
    rw [heq]
    exact (flush_grows_step hd).size
  | false =>
    have heq : e.before d = e := by simp [before,hd]
    rw [heq]
    exact (e.step_grows d).size

theorem Emitter.Stands.next_le {d : Directive} {i : Instr} {next : Nat} (h : e.Stands s d pc next i) :
    next ≤ (e.step d).pc := by
  rcases h with ⟨-,rfl,-⟩ | ⟨-,rfl,-⟩
  · exact e.before_le_step d
  · exact Nat.le_refl _

namespace Portion

variable {s : Script} {first : Emitter} {before body after done rest : List Directive}

/-- The tally at a place in the block is the one that the block has by itself, with the blocks around. -/
theorem tally (h : Portion s first before body after) (hbody : body = done ++ rest) :
    ∃ t r k, Tally.run {} before = some t ∧ Tally.run {} done = some r ∧
      Tally.run {} (before ++ .enter :: done) = some ((r.onto (t.level :: t.outer)).push k) := by
  obtain ⟨u,hu,-⟩ := h.passes
  obtain ⟨n,hn⟩ := h.emission.passes
  rw [hbody] at hu
  obtain ⟨r,hr,-⟩ := Tally.run_prefix hu
  obtain ⟨t,ht,-⟩ := Tally.run_prefix hn
  have henter : t.step .enter = some ((Tally.onto {} (t.level :: t.outer)).push t.depth) := by
    simp [Tally.step,Tally.onto,Tally.push]
  obtain ⟨k,hk⟩ := Tally.run_onto (t.level :: t.outer) hr t.depth
  refine ⟨t,r,k,ht,hr,?_⟩
  rw [Tally.run_append,ht,Option.bind_some,Tally.run_cons,henter,Option.bind_some,hk]

theorem course (h : Portion s first before body after) (hbody : body = done ++ rest) :
    ∃ t r k saves, Tally.run {} before = some t ∧ Tally.run {} done = some r ∧
      Course first (before ++ .enter :: (body ++ .leave :: after)) (rest ++ .leave :: after)
        ((r.onto (t.level :: t.outer)).push k) (first.run (before ++ .enter :: done)) saves := by
  obtain ⟨t,r,k,ht,hr,htally⟩ := h.tally hbody
  obtain ⟨saves,hc⟩ := Course.of_run first (show before ++ .enter :: (body ++ .leave :: after) =
    (before ++ .enter :: done) ++ (rest ++ .leave :: after) by simp [hbody]) htally
  exact ⟨t,r,k,saves,ht,hr,hc⟩

/-- The scopes at a place in the block are those that were there before it, and inner ones with labels that were made
in the block. -/
theorem fresh (h : Portion s first before body after) (hbody : body = done ++ rest) :
    ∃ r, Tally.run {} done = some r ∧ (first.run (before ++ .enter :: done)).Fresh
      ((first.run before).scope :: (first.run before).outer) (first.run before).code.labels.size r.outer.length := by
  obtain ⟨u,hu,-⟩ := h.passes
  rw [hbody] at hu
  obtain ⟨r,hr,-⟩ := Tally.run_prefix hu
  have hstart : ((first.run before).step .enter).Fresh ((first.run before).scope :: (first.run before).outer)
      (first.run before).code.labels.size (Tally.outer {}).length := ⟨[{}],rfl,rfl,by simp⟩
  refine ⟨r,hr,?_⟩
  rw [Emitter.run_append,Emitter.run_cons]
  exact hstart.run (Nat.le_refl _) hr

theorem made (h : Portion s first before body after) (hbody : body = done ++ rest) {label : Nat}
    (hl : label ∈ (first.run (before ++ .enter :: done)).scope.labels) :
    (first.run before).code.labels.size ≤ label := by
  obtain ⟨r,-,inner,heq,hlength,hfresh⟩ := h.fresh hbody
  obtain ⟨sc,inner,rfl⟩ : ∃ sc rest, inner = sc :: rest := List.exists_cons_of_length_eq_add_one hlength
  rw [(List.cons.inj heq).1] at hl
  exact hfresh _ List.mem_cons_self label hl

theorem settled (h : Portion s first before body after) {label : Nat}
    (hmade : (first.run before).code.labels.size ≤ label)
    (hlt : label < (first.run (before ++ .enter :: body)).code.labels.size) :
    ∃ pc, (first.run (before ++ .enter :: body)).code.labels[label]? = some (some pc) := by
  have hbody : body = body ++ [] := (List.append_nil _).symm
  obtain ⟨t,r,k,saves,ht,hr,hc⟩ := h.course hbody
  obtain ⟨r',hr',inner,heq,hlength,-⟩ := h.fresh hbody
  obtain ⟨u,hu,hdone,houter⟩ := h.passes
  rw [hr] at hr' hu
  cases hr'
  cases hu
  have hfits := hc.fits h.emission.fits
  have htidy : (first.run (before ++ .enter :: body)).Tidy := by
    obtain ⟨worked,-,hworked,hrun⟩ := hc.worked
    rw [hworked]
    refine h.emission.fits.tidy_run (fun label hnone => ?_) hrun
    rw [h.emission.labels] at hnone
    cases label <;> simp at hnone
  cases hl : (first.run (before ++ .enter :: body)).code.labels[label] with
  | some pc => exact ⟨pc,by rw [Array.getElem?_eq_getElem hlt,hl]⟩
  | none =>
    -- It would belong to a block around, and those have older labels only.
    exfalso
    have hmem := (hfits.tidy_leave htidy hdone) label (by
      change (first.run (before ++ .enter :: body)).code.labels[label]? = some none
      rw [Array.getElem?_eq_getElem hlt,hl])
    obtain ⟨sc,rfl⟩ : ∃ sc, inner = [sc] := by
      rw [houter] at hlength
      exact List.length_eq_one_iff.1 hlength
    have hscopes := (List.cons.inj heq).2
    have hstep : ((first.run (before ++ .enter :: body)).step .leave).scope ::
        ((first.run (before ++ .enter :: body)).step .leave).outer =
        (first.run before).scope :: (first.run before).outer := by
      simp [Emitter.step,hscopes]
    rw [hstep] at hmem
    have hbefore := (h.emission.fits.run ht).1.lt_of_mem hmem
    omega

theorem placed (h : Portion s first before body after) (hbody : body = done ++ rest) {t r : Tally} {k label : Nat}
    {saves : List Nat} (ht : Tally.run {} before = some t) (hr : Tally.run {} done = some r)
    (hc : Course first (before ++ .enter :: (body ++ .leave :: after)) (rest ++ .leave :: after)
      ((r.onto (t.level :: t.outer)).push k) (first.run (before ++ .enter :: done)) saves)
    (hmade : (first.run before).code.labels.size ≤ label)
    (hsaved : saves[label]? = some ((r.onto (t.level :: t.outer)).push k).saves) :
    ∃ pc, s.labels[label]? = some pc ∧ Inside first before body pc r.saves := by
  have hone := h.emission.one
  obtain ⟨u,hu,-⟩ := h.passes
  rw [hbody,Tally.run_append,hr,Option.bind_some] at hu
  obtain ⟨j,hj⟩ := Tally.run_onto (t.level :: t.outer) hu k
  obtain ⟨more,hend⟩ := hc.run hj
  have heq : (first.run (before ++ .enter :: done)).run rest = first.run (before ++ .enter :: body) := by
    rw [← Emitter.run_append,hbody]
    simp
  rw [heq] at hend
  have hlast : (saves ++ more)[label]? = some ((r.onto (t.level :: t.outer)).push k).saves := by
    rw [List.getElem?_append_left (List.getElem?_eq_some_iff.1 hsaved).1,hsaved]
  obtain ⟨pc,hpc⟩ := h.settled hmade (by
    rw [← hend.length hone]
    exact (List.getElem?_eq_some_iff.1 hlast).1)
  refine ⟨pc,h.emission.label_eq hend hpc,?_⟩
  rcases hend.placement h.emission.fits hone hpc with hfirst | ⟨d,rest',t',u',e',saves',hc',hd,hsuffix,rfl,hlt,-,
    -,hsaves⟩
  · have hlabel := (Array.getElem?_eq_some_iff.1 hfirst).1
    have hgrow := first.labels_size_le_run before
    omega
  · obtain ⟨worked,hwhole,hworked,htally⟩ := (hc'.step hd).worked
    obtain ⟨left,rfl⟩ := hsuffix
    have hsplit : (before ++ [.enter]) ++ body = worked ++ left := by
      have : ((before ++ [.enter]) ++ body) ++ .leave :: after = (worked ++ left) ++ .leave :: after := by
        simpa using hwhole
      exact List.append_cancel_right this
    rcases List.append_eq_append_iff.1 hsplit with ⟨part,rfl,hpart⟩ | ⟨part,hpart,rfl⟩
    · -- It was placed in the block.
      obtain ⟨t₂,r₂,k₂,ht₂,hr₂,htally₂⟩ := h.tally hpart
      rw [ht] at ht₂
      cases ht₂
      rw [List.append_assoc,List.singleton_append,htally₂] at htally
      cases htally
      rw [hlast] at hsaves
      have hequal : r₂.saves = r.saves := by
        have hsum := Option.some.inj hsaves
        change (r.onto _).saves = (r₂.onto _).saves at hsum
        rw [Tally.saves_onto,Tally.saves_onto] at hsum
        omega
      refine ⟨part,left,r₂,hpart,hr₂,hequal,.inl ?_⟩
      rw [hworked,List.append_assoc,List.singleton_append]
    · -- Before the block it was not made yet.
      exfalso
      have hle : (first.run worked).code.labels.size ≤ (first.run (before ++ [.enter])).code.labels.size := by
        rw [hpart,Emitter.run_append]
        exact Emitter.labels_size_le_run _ _
      have henter : (first.run (before ++ [.enter])).code.labels.size = (first.run before).code.labels.size := by
        rw [Emitter.run_append]
        rfl
      rw [hworked] at hlt
      omega

/-- Where the code of the block ends. -/
def finish (first : Emitter) (before body : List Directive) : Nat :=
  (first.run (before ++ .enter :: body)).pc

end Portion

theorem Instr.Admits.stays {has : DataKind → Handle → Prop} {next d n k : Nat} {i : Instr}
    (h : i.Admits s has (fun pc _ m => ∃ n, m = n + k ∧ T pc n) next d (n + k)) (hsets : i.setsLocals = true → 0 < n) :
    i.Stays s T next n := by
  have hsame : ∀ {pc : Nat}, (∃ m, n + k = m + k ∧ T pc m) → T pc n := by
    rintro pc ⟨m,heq,hm⟩
    rwa [Nat.add_right_cancel heq]
  have hlabel : ∀ {label : UInt32}, s.Resumes (fun pc _ m => ∃ n, m = n + k ∧ T pc n) label (n + k) →
      ∃ pc, s.labels[label.toNat]? = some pc ∧ T pc n := by
    rintro label ⟨pc,hpc,hm⟩
    exact ⟨pc,hpc,hsame hm⟩
  cases i with
  | save =>
    obtain ⟨m,heq,hm⟩ := h
    obtain rfl : m = n + 1 := by omega
    exact hm
  | restore =>
    obtain ⟨_,heq,m,rfl,hm⟩ := h
    exact ⟨m,by omega,hm⟩
  | jump target => exact hsame h
  | jumpIf wanted target =>
    obtain ⟨-,-,htarget,hnext⟩ := h
    exact ⟨hsame htarget,hsame hnext⟩
  | queue label | forceQueue label => exact hlabel h
  | call procedure argc label => exact hlabel h.2.2
  | finish | endCall => trivial
  | broadcast | broadcastAndWait =>
    obtain ⟨-,-,hnext⟩ := h
    exact ⟨hsame hnext,hsets⟩
  | sceneChanged | stop mode | deleteClone => exact ⟨hsame h,hsets⟩
  | _ =>
    obtain ⟨⟨-,-,-,-,hnext⟩,-⟩ := h
    exact ⟨hsame hnext,hsets⟩

/-- A block sets locals only after it has saved those that were there. -/
theorem Tally.saves_pos {u : Tally} {d : Directive} {i : Instr} (h : t.step d = some u) (hi : e.written s d = some i)
    (hsets : i.setsLocals = true) : 0 < t.saves := by
  have hguard : t.guards i = true → 0 < t.saves := by
    intro hg
    simp only [guards,hsets,Bool.not_true,Bool.false_or,decide_eq_true_eq] at hg
    rw [saves_eq]
    omega
  cases d with
  | op o ws =>
    cases hi
    have hperform := (step_op.1 h).2
    generalize Instr.ofOperands o ws = i at hsets hguard hperform
    cases i with
    | setLocal slot | decLocal slot | builtin id =>
      simp only [perform,Option.ite_none_right_eq_some,Bool.and_eq_true] at hperform
      exact hguard hperform.1.2
    | broadcastAndWait => exact hguard (perform_broadcastAndWait.1 hperform).1
    | _ => cases hsets
  | bound o ws =>
    cases hi
    obtain ⟨kind,-,hhandle⟩ := handle?_of_bound s h
    have hsome := hhandle e.scope.handle
    generalize Instr.ofOperands o _ = i at hsets hsome
    cases i with
    | setLocal slot | decLocal slot | builtin id | broadcastAndWait => cases hsome
    | _ => cases hsets
  | jump o i =>
    obtain ⟨-,⟨rfl,-⟩ | ⟨rfl | rfl,-⟩⟩ := step_jump.1 h <;> cases hi <;> cases hsets
  | resume o i =>
    obtain ⟨-,rfl | rfl,-⟩ := step_resume.1 h <;> cases hi <;> cases hsets
  | _ => cases hi <;> cases hsets

namespace Portion

variable {s : Script} {first : Emitter} {before body after done rest : List Directive} {d : Directive}

variable {r : Tally} {pc n : Nat}

theorem inside_done (hbody : body = done ++ rest) (hr : Tally.run {} done = some r) :
    Inside first before body (first.run (before ++ .enter :: done)).pc r.saves :=
  ⟨done,rest,r,hbody,hr,rfl,.inl rfl⟩

theorem inside_mark (h : Portion s first before body after) (hbody : body = done ++ rest) (hr : Tally.run {} done = some r)
    {i : Nat} {m : Mark} (hm : r.mark? i = some m) :
    ∃ pc, s.labels[(first.run (before ++ .enter :: done)).labelAt i]? = some pc ∧ Inside first before body pc r.saves ∧
      (first.run (before ++ .enter :: done)).labelAt i < 2 ^ 32 ∧ pc < 2 ^ 32 := by
  obtain ⟨t,r',k,saves,ht,hr',hc⟩ := h.course hbody
  rw [hr] at hr'
  cases hr'
  have hsaved := hc.saves_mark h.emission.fits h.emission.one hm
  have hat := (hc.fits h.emission.fits).labelAt_eq (Tally.mark?_eq_some.1 hm).1
  obtain ⟨pc,hpc,hinside⟩ := h.placed hbody ht hr hc (h.made hbody (Array.mem_of_getElem? hat)) hsaved
  obtain ⟨pc',hpc',-,hsmall⟩ := h.emission.resumes hc hsaved
  rw [hpc] at hpc'
  cases hpc'
  exact ⟨pc,hpc,hinside,hsmall⟩

theorem next (h : Portion s first before body after) (hbody : body = done ++ d :: rest) (hr : Tally.run {} done = some r) :
    ∃ u, r.step d = some u ∧ Tally.run {} (done ++ [d]) = some u ∧
      first.run (before ++ .enter :: (done ++ [d])) = (first.run (before ++ .enter :: done)).step d := by
  obtain ⟨u,hu,-⟩ := h.passes
  rw [hbody,Tally.run_append,hr,Option.bind_some,Tally.run_cons] at hu
  obtain ⟨v,hv,-⟩ := Option.bind_eq_some_iff.1 hu
  refine ⟨v,hv,?_,?_⟩
  · rw [Tally.run_append,hr,Option.bind_some,Tally.run_cons,hv]
    rfl
  · rw [← List.cons_append,← List.append_assoc,Emitter.run_append]
    rfl

theorem stays_written (h : Portion s first before body after) (hbody : body = done ++ d :: rest)
    (hr : Tally.run {} done = some r) {i : Instr} (hi : (first.run (before ++ .enter :: done)).written s d = some i) :
    i.Stays s (Inside first before body) ((first.run (before ++ .enter :: done)).step d).pc r.saves := by
  obtain ⟨v,hv,hstep,heq⟩ := h.next hbody hr
  obtain ⟨t,r',k,saves,-,hr',hc⟩ := h.course hbody
  rw [hr] at hr'
  cases hr'
  rw [List.cons_append] at hc
  obtain ⟨j,hj⟩ := Tally.step_onto (t.level :: t.outer) hv k
  have hsaves : ∀ (x : Tally) (k : Nat), ((x.onto (t.level :: t.outer)).push k).saves = x.saves + t.saves :=
    fun x _ => x.saves_onto _
  have hadmits := h.emission.admits_of_written hc hj hi (T := fun pc _ m => ∃ n, m = n + t.saves ∧ Inside first before body pc n)
    (fun _ _ => ⟨v.saves,hsaves v j,by
      rw [← heq]
      exact inside_done (hbody.trans (by simp : _ = (done ++ [d]) ++ rest)) hstep⟩)
    fun hm hpc _ => ⟨r.saves,hsaves r k,by
      obtain ⟨pc,hpc',hinside,-⟩ := h.inside_mark hbody hr hm
      cases hpc.symm.trans hpc'
      exact hinside⟩
  rw [hsaves] at hadmits
  exact hadmits.stays (Tally.saves_pos hv hi)

theorem stands (h : Portion s first before body after) (hin : Inside first before body pc n) :
    (pc = finish first before body ∧ n = 0) ∨ ∃ done d rest r i next, body = done ++ d :: rest ∧
      Tally.run {} done = some r ∧ r.saves = n ∧ (first.run (before ++ .enter :: done)).Stands s d pc next i ∧
      s.fetch pc = .ok (i,next) := by
  obtain ⟨done,rest,r,hbody,hr,rfl,hpc⟩ := hin
  obtain ⟨u,hu,hdone,houter⟩ := h.passes
  have hemission : Emission s first ((before ++ .enter :: done) ++ (rest ++ .leave :: after)) := by
    have hemission := h.emission
    rw [hbody] at hemission
    simpa using hemission
  obtain ⟨x,y,rfl,hx,hy⟩ := hemission.stands hpc
  rw [hbody,Tally.run_append,hr,Option.bind_some] at hu
  obtain ⟨v,hv,hu⟩ := Tally.run_prefix hu
  have hsaves := (Tally.run_unwritten hx hv).1
  rcases hy with ⟨rfl,rfl⟩ | ⟨d,y,i,next,rfl,hstands,hfetch⟩
  · cases hu
    simp only [Level.isDone,Bool.and_eq_true,beq_iff_eq] at hdone
    refine .inl ⟨by simp [finish,hbody],?_⟩
    rw [← hsaves,Tally.saves_eq,houter,hdone.1.1]
    rfl
  · refine .inr ⟨done ++ x,d,y,v,i,next,by simp [hbody],by rw [Tally.run_append,hr]; exact hv,hsaves,?_,hfetch⟩
    simpa using hstands

/-- In the code of a block there is an instruction that goes on in it, unless control is at the end of it. -/
theorem steps (h : Portion s first before body after) (hin : Inside first before body pc n) :
    (pc = finish first before body ∧ n = 0) ∨
      ∃ i next, s.fetch pc = .ok (i,next) ∧ i.Stays s (Inside first before body) next n := by
  refine (h.stands hin).imp_right ?_
  rintro ⟨done,d,rest,r,i,next,hbody,hr,rfl,⟨-,rfl,rfl⟩ | ⟨-,rfl,hi⟩,hfetch⟩
  · exact ⟨_,_,hfetch,⟨done,d :: rest,r,hbody,hr,rfl,.inr ⟨d,rest,rfl,rfl⟩⟩,nofun⟩
  · exact ⟨i,_,hfetch,h.stays_written hbody hr hi⟩

theorem inside_finish (h : Portion s first before body after) (hin : Inside first before body (finish first before body) n) :
    n = 0 := by
  rcases h.stands hin with ⟨-,hn⟩ | ⟨done,d,rest,r,i,next,hbody,-,-,hstands,hfetch⟩
  · exact hn
  · have hlt := Script.lt_of_fetch hfetch
    have hle := hstands.next_le
    have hend : first.run (before ++ .enter :: body) = ((first.run (before ++ .enter :: done)).step d).run rest := by
      rw [hbody,← List.cons_append,← List.append_assoc,Emitter.run_append]
      rfl
    have hgrows := (((first.run (before ++ .enter :: done)).step d).run_grows rest).size
    rw [← hend] at hgrows
    change _ ≤ finish first before body at hgrows
    simp only [Emitter.pc] at hle
    omega

theorem inside_start (first : Emitter) (before body : List Directive) :
    Inside first before body (first.run before).pc 0 :=
  ⟨[],body,{},rfl,rfl,rfl,.inl (by rw [Emitter.run_append]; rfl)⟩

end Portion

end SpriteMachine
