import SpriteMachine.Proofs.Blocks
import SpriteMachine.Proofs.Moves

/-!
The offsets at which the instructions of a script begin. The labels of a block are in reach of the block only, so
control that is outside the code of a block comes into it at its start.
-/

namespace SpriteMachine

def Script.Precedes (s : Script) (pc next : Nat) : Prop :=
  ∃ i, s.fetch pc = .ok (i,next)

def Script.Aligned (s : Script) (pc : Nat) : Prop :=
  Relation.ReflTransGen s.Precedes 0 pc

namespace Script

variable {s : Script} {a b : Nat}

theorem Aligned.zero (s : Script) : s.Aligned 0 := .refl

theorem Aligned.next {pc next : Nat} {i : Instr} (h : s.Aligned pc) (hfetch : s.fetch pc = .ok (i,next)) : s.Aligned next :=
  .tail h ⟨i,hfetch⟩

theorem le_of_precedes (h : Relation.ReflTransGen s.Precedes a b) : a ≤ b := by
  induction h with
  | refl => exact Nat.le_refl _
  | tail _ hstep ih =>
    obtain ⟨i,hfetch⟩ := hstep
    exact Nat.le_trans ih (Nat.le_of_lt (lt_of_fetch hfetch))

theorem Aligned.leads (ha : s.Aligned a) (hb : s.Aligned b) (hle : a ≤ b) : Relation.ReflTransGen s.Precedes a b := by
  have hunique : Relator.RightUnique s.Precedes := by
    rintro pc next next' ⟨i,hi⟩ ⟨i',hi'⟩
    rw [hi] at hi'
    cases hi'
    rfl
  rcases Relation.ReflTransGen.total_of_right_unique hunique ha hb with hab | hba
  · exact hab
  · obtain rfl : a = b := Nat.le_antisymm hle (le_of_precedes hba)
    exact .refl

end Script

/-- Where control can go on in the same call after an instruction, at once or later. -/
def Instr.Leads (s : Script) (next q : Nat) (i : Instr) : Prop :=
  i.GoesTo next q ∨ ∃ label, i.label? = some label ∧ q = Continuation.pc ⟨s,label⟩

variable {s : Script} {q pc : Nat} {i : Instr} {t : Tally} {a b : Activation}

theorem Instr.Leads.eq_next {next : Nat} (h : i.Leads s next q) (hjump : ∀ target, i ≠ .jump target)
    (hbranch : ∀ wanted target, i ≠ .jumpIf wanted target) (hlabel : i.label? = none) : q = next := by
  rcases h with h | ⟨label,hl,-⟩
  · cases i with
    | jump target => exact absurd rfl (hjump target)
    | jumpIf wanted target => exact absurd rfl (hbranch wanted target)
    | queue label | forceQueue label | call procedure argc label | finish | endCall => exact h.elim
    | _ => exact h
  · rw [hlabel] at hl
    cases hl

theorem Instr.Admits.leads {has : DataKind → Handle → Prop} {T : Typing} {next d n : Nat} (h : i.Admits s has T next d n)
    (hq : i.Leads s next q) : ∃ d n, T q d n := by
  have hresumes : ∀ {label : UInt32}, s.Resumes T label n → ∃ d n, T (Continuation.pc ⟨s,label⟩) d n := by
    rintro label ⟨pc,hpc,h⟩
    rw [Continuation.pc,hpc]
    exact ⟨_,_,h⟩
  rcases hq with hq | ⟨label,hl,rfl⟩
  · cases i with
    | queue _ | forceQueue _ | call _ _ _ | finish | endCall => exact hq.elim
    | jumpIf wanted target =>
      obtain ⟨k,-,htarget,hnext⟩ := h
      rcases hq with rfl | rfl
      · exact ⟨_,_,htarget⟩
      · exact ⟨_,_,hnext⟩
    | save | jump _ | sceneChanged | stop _ | deleteClone =>
      cases hq
      exact ⟨_,_,h⟩
    | restore | broadcast | broadcastAndWait =>
      cases hq
      obtain ⟨k,-,h⟩ := h
      exact ⟨_,_,h⟩
    | _ =>
      cases hq
      obtain ⟨⟨_,_,-,-,h⟩,-⟩ := h
      exact ⟨_,_,h⟩
  · cases i with
    | queue _ | forceQueue _ =>
      cases hl
      exact hresumes h
    | call procedure argc ret =>
      cases hl
      exact hresumes h.2.2
    | _ => cases hl

theorem Tally.Fits.labelAt_mem {e : Emitter} (h : t.Fits e) {j : Nat} {m : Mark} (hm : t.mark? j = some m) :
    e.labelAt j ∈ e.scope.labels :=
  Array.mem_of_getElem? (h.labelAt_eq (Tally.mark?_eq_some.1 hm).1)

namespace Emission

variable {s : Script} {first : Emitter} {whole done rest : List Directive} {d : Directive} {pc next q : Nat} {i : Instr}

theorem aligned_before (h : Emission s first (done ++ d :: rest)) (hb : s.Aligned (first.run done).pc) :
    s.Aligned ((first.run done).before d).pc := by
  obtain ⟨t,saves,hc⟩ := h.course
  by_cases hbefore : (first.run done).pc = ((first.run done).before d).pc
  · rw [← hbefore]
    exact hb
  · exact hb.next (h.fetch_pending hc hbefore)

theorem aligned (h : Emission s first (done ++ rest)) : s.Aligned (first.run done).pc := by
  induction done using List.reverseRecOn generalizing rest with
  | nil =>
    change s.Aligned first.pc
    rw [h.pc]
    exact .zero s
  | append_singleton done d ih =>
    rw [List.append_assoc,List.singleton_append] at h
    have hbefore := h.aligned_before (ih h)
    cases hi : (first.run done).written s d with
    | some i => exact hbefore.next (h.fetch_at hi)
    | none =>
      rw [Emitter.run_append]
      change s.Aligned ((first.run done).step d).pc
      rw [Script.Holds.pc_step hi]
      exact hbefore

/-- What stands where a directive is worked off is written by it or by one of those that follow. -/
theorem writes_from (h : Emission s first (done ++ rest))
    (hpc : pc = (first.run done).pc ∨ ∃ d rest', rest = d :: rest' ∧ pc = ((first.run done).before d).pc)
    (hfetch : s.fetch pc = .ok (i,next)) :
    ∃ done' d rest', done ++ rest = done' ++ d :: rest' ∧ (first.run done').Stands s d pc next i := by
  have hwhole : Emission s first (done ++ (rest ++ [])) := by rwa [List.append_nil]
  obtain ⟨x,y,rfl,-,⟨rfl,hend⟩ | ⟨d,y,i',next',rfl,hstands,hfetch'⟩⟩ := hwhole.stands hpc
  · -- There is nothing after the code.
    obtain ⟨id,hb⟩ := h.built
    obtain ⟨instrs,hbuilt⟩ := Assembler.built_of_build hb
    have hnone : s.code[pc]? = none := by
      rw [hend,Emitter.pc,← List.append_nil x,← hbuilt.code_size]
      exact Array.getElem?_size
    unfold Script.fetch at hfetch
    rw [hnone] at hfetch
    cases hfetch
  · rw [hfetch] at hfetch'
    cases hfetch'
    exact ⟨done ++ x,d,y,by simp,hstands⟩

theorem writes (h : Emission s first whole) (hb : s.Aligned pc) (hfetch : s.fetch pc = .ok (i,next)) :
    ∃ done d rest, whole = done ++ d :: rest ∧ (first.run done).Stands s d pc next i := by
  have hplace : ∃ done rest, whole = done ++ rest ∧
      (pc = (first.run done).pc ∨ ∃ d rest', rest = d :: rest' ∧ pc = ((first.run done).before d).pc) := by
    clear hfetch
    induction hb with
    | refl => exact ⟨[],whole,rfl,.inl h.pc.symm⟩
    | tail _ hstep ih =>
      obtain ⟨i,hfetch⟩ := hstep
      obtain ⟨done,rest,rfl,hpc⟩ := ih
      obtain ⟨done',d,rest',heq,⟨-,rfl,-⟩ | ⟨-,rfl,-⟩⟩ := h.writes_from hpc hfetch
      · exact ⟨done',d :: rest',heq,.inr ⟨d,rest',rfl,rfl⟩⟩
      · exact ⟨done' ++ [d],rest',by simp [heq],.inl (by rw [Emitter.run_append]; rfl)⟩
  obtain ⟨done,rest,rfl,hpc⟩ := hplace
  exact h.writes_from hpc hfetch

/-- A label stands at the start of the code, or was placed by a directive that had it in reach or made it. -/
theorem placed (h : Emission s first whole) {label : Nat} (hl : s.labels[label]? = some pc) :
    pc = 0 ∨ ∃ done d rest, whole = done ++ d :: rest ∧ pc = (first.run (done ++ [d])).pc ∧ d.flushes = true ∧
      (label ∈ (first.run done).scope.labels ∨ label = (first.run done).code.labels.size) ∧
      label < (first.run (done ++ [d])).code.labels.size := by
  have hcourse : ∀ {rest : List Directive} {t : Tally} {e : Emitter} {saves : List Nat}, Course first whole rest t e saves →
      e.code.labels[label]? = some (some pc) → pc = 0 ∨ ∃ done d rest, whole = done ++ d :: rest ∧
        pc = (first.run (done ++ [d])).pc ∧ d.flushes = true ∧
        (label ∈ (first.run done).scope.labels ∨ label = (first.run done).code.labels.size) ∧
        label < (first.run (done ++ [d])).code.labels.size := by
    intro rest t e saves hc hplaced
    induction hc with
    | start =>
      rw [h.labels] at hplaced
      cases label with
      | zero =>
        cases hplaced
        exact .inl rfl
      | succ label => simp at hplaced
    | @step d rest t u e saves hc hd ih =>
      rcases Tally.placed_step hd hplaced with hold | ⟨rfl,-,-,⟨hflushes,-⟩,hlabel⟩
      · exact ih hold
      · obtain ⟨done,hwhole,rfl,-⟩ := hc.worked
        have hlt : label < ((first.run done).step d).code.labels.size := (Array.getElem?_eq_some_iff.1 hplaced).1
        refine .inr ⟨done,d,rest,hwhole,by rw [Emitter.run_append]; rfl,hflushes,?_,
          by rw [Emitter.run_append]; exact hlt⟩
        refine hlabel.imp ?_ And.right
        rintro ⟨j,m,hm,rfl⟩
        exact (hc.fits h.fits).labelAt_mem hm
  obtain ⟨k,hk⟩ := h.passes
  obtain ⟨more,hfinish⟩ := (Course.start : Course first whole whole {} first [0]).finish hk
  obtain ⟨id,hb⟩ := h.built
  obtain ⟨instrs,hbuilt⟩ := Assembler.built_of_build hb
  refine hcourse hfinish ?_
  rw [← Array.getElem?_toList,hbuilt.labels,List.getElem?_map,Array.getElem?_toList,hl]
  rfl

theorem aligned_label (h : Emission s first whole) (label : UInt32) : s.Aligned (Continuation.pc ⟨s,label⟩) := by
  unfold Continuation.pc
  cases hl : s.labels[label.toNat]? with
  | none => exact .zero s
  | some pc =>
    change s.Aligned pc
    rcases h.placed hl with rfl | ⟨done,d,rest,rfl,rfl,-⟩
    · exact .zero s
    · have hwhole : Emission s first ((done ++ [d]) ++ rest) := by
        rw [List.append_assoc]
        exact h
      exact hwhole.aligned

theorem pc_call {procedure : String} {argc : Nat} (h : Emission s first (done ++ .call procedure argc :: rest)) :
    Continuation.pc ⟨s,UInt32.ofNat (first.run done).code.nextLabel⟩ = (first.run (done ++ [.call procedure argc])).pc := by
  obtain ⟨t,saves,hc⟩ := h.course
  obtain ⟨hpc,hlt⟩ := h.return_label hc
  rw [Continuation.pc,UInt32.toNat_ofNat_of_lt' hlt,hpc,Option.getD_some,Emitter.run_append]
  rfl

theorem leads (h : Emission s first (done ++ d :: rest)) (hi : (first.run done).written s d = some i)
    (hq : i.Leads s ((first.run done).step d).pc q) :
    q = ((first.run done).step d).pc ∨ ∃ label ∈ (first.run done).scope.labels, s.labels[label]? = some q := by
  obtain ⟨t,saves,hc⟩ := h.course
  obtain ⟨u,hu⟩ := h.passes_next hc
  have hadmits := h.admits_of_written hc hu hi
    (T := fun q _ _ => q = ((first.run done).step d).pc ∨ ∃ label ∈ (first.run done).scope.labels, s.labels[label]? = some q)
    (fun _ _ => .inl rfl) fun hm hpc _ => .inr ⟨_,(hc.fits h.fits).labelAt_mem hm,hpc⟩
  obtain ⟨_,_,hq⟩ := hadmits.leads hq
  exact hq

theorem eq_call (h : Emission s first (done ++ d :: rest)) {procedure argc ret : UInt32}
    (hi : (first.run done).written s d = some (.call procedure argc ret)) : ∃ name n, d = .call name n := by
  obtain ⟨t,saves,hc⟩ := h.course
  obtain ⟨u,hu⟩ := h.passes_next hc
  cases d with
  | op o ws =>
    have hperform := (Tally.step_op.1 hu).2
    rw [Option.some.inj hi] at hperform
    cases hperform
  | bound o ws =>
    obtain ⟨_,-,hall⟩ := Tally.handle?_of_bound s hu
    have hhandle := hall (first.run done).scope.handle
    rw [Option.some.inj hi] at hhandle
    cases hhandle
  | jump o j => obtain ⟨-,⟨rfl,-⟩ | ⟨rfl | rfl,-⟩⟩ := Tally.step_jump.1 hu <;> cases hi
  | resume o j => obtain ⟨-,rfl | rfl,-⟩ := Tally.step_resume.1 hu <;> cases hi
  | call name n => exact ⟨name,n,rfl⟩
  | _ => cases hi

theorem aligned_leads (h : Emission s first whole) (hb : s.Aligned pc) (hfetch : s.fetch pc = .ok (i,next))
    (hq : i.Leads s next q) : s.Aligned q := by
  obtain ⟨done,d,rest,rfl,⟨-,rfl,rfl⟩ | ⟨-,rfl,hi⟩⟩ := h.writes hb hfetch
  · rw [hq.eq_next nofun nofun rfl]
    exact hb.next hfetch
  · rcases h.leads hi hq with rfl | ⟨label,hmem,hl⟩
    · exact hb.next hfetch
    · rcases h.placed hl with rfl | ⟨done',d',rest',heq,rfl,-⟩
      · exact .zero s
      · have hwhole : Emission s first ((done' ++ [d']) ++ rest') := by
          rw [List.append_assoc,List.singleton_append,← heq]
          exact h
        exact hwhole.aligned

end Emission

/-! Outside of a block -/

def Emitter.Apart (low high : Nat) (e : Emitter) : Prop :=
  ∀ sc ∈ e.scope :: e.outer, ∀ label ∈ sc.labels, label < low ∨ high ≤ label

namespace Emitter.Apart

variable {low high : Nat} {e : Emitter}

theorem step (h : e.Apart low high) (hhigh : high ≤ e.code.labels.size) (d : Directive) : (e.step d).Apart low high := by
  obtain ⟨hscope,houter⟩ := List.forall_mem_cons.1 h
  by_cases henter : d = .enter
  · subst henter
    refine List.forall_mem_cons.2 ⟨fun label hmem => ?_,h⟩
    exact absurd hmem (Array.not_mem_empty label)
  by_cases hleave : d = .leave
  · subst hleave
    change ∀ sc ∈ e.outer.headD {} :: e.outer.tail, _
    cases hout : e.outer with
    | nil => exact List.forall_mem_cons.2 ⟨by simp,by simp⟩
    | cons sc rest =>
      rw [hout] at houter
      exact houter
  obtain ⟨hscopes,hlabels⟩ := e.step_scopes henter hleave
  refine List.forall_mem_cons.2 ⟨fun label hmem => ?_,by rw [hscopes]; exact houter⟩
  rw [hlabels] at hmem
  split at hmem
  · rcases Array.mem_push.1 hmem with hmem | rfl
    · exact hscope label hmem
    · exact .inr hhigh
  · exact hscope label hmem

theorem run (h : e.Apart low high) (hhigh : high ≤ e.code.labels.size) (ds : List Directive) :
    (e.run ds).Apart low high := by
  induction ds generalizing e with
  | nil => exact h
  | cons d ds ih => exact ih (h.step hhigh d) (Nat.le_trans hhigh (e.labels_size_le_step d))

end Emitter.Apart

namespace Portion

variable {s : Script} {first : Emitter} {before body after done rest : List Directive} {pc next q : Nat} {i : Instr}

theorem run_finish (first : Emitter) (before body : List Directive) :
    (first.run (before ++ .enter :: (body ++ [.leave]))).pc = finish first before body ∧
      (first.run (before ++ .enter :: (body ++ [.leave]))).code.labels.size =
        (first.run (before ++ .enter :: body)).code.labels.size := by
  have hsplit : before ++ .enter :: (body ++ [.leave]) = (before ++ .enter :: body) ++ [.leave] := by simp
  rw [hsplit,Emitter.run_append]
  exact ⟨rfl,rfl⟩

theorem apart (h : Portion s first before body after) (ds : List Directive) :
    (first.run ((before ++ .enter :: (body ++ [.leave])) ++ ds)).Apart (first.run before).code.labels.size
      (first.run (before ++ .enter :: body)).code.labels.size := by
  obtain ⟨u,hu,-,houter⟩ := h.passes
  have hrun : first.run ((before ++ .enter :: (body ++ [.leave])) ++ ds) =
      (first.run (before ++ .enter :: (body ++ [.leave]))).run ds := Emitter.run_append _ _ _
  rw [hrun]
  refine Emitter.Apart.run ?_ (Nat.le_of_eq (run_finish first before body).2.symm) ds
  obtain ⟨hscope,houter⟩ := KeepsScopes.block hu houter (first.run before)
  rw [← Emitter.run_append] at hscope houter
  obtain ⟨t,saves,hc⟩ := h.emission.course
  intro sc hsc label hmem
  rw [hscope,houter] at hsc
  exact .inl ((hc.fits h.emission.fits).lt_of_mem (List.mem_flatMap.2 ⟨sc,hsc,Array.mem_toList_iff.2 hmem⟩))

theorem split_cases {d : Directive} (heq : before ++ .enter :: (body ++ .leave :: after) = done ++ d :: rest) :
    (∃ more, before ++ [.enter] = (done ++ [d]) ++ more) ∨
      (∃ done' rest', done = before ++ .enter :: done' ∧ body = done' ++ d :: rest') ∨
      ∃ more, done = (before ++ .enter :: body) ++ more ∧ (d = .leave ∨ ∃ more', more = .leave :: more') := by
  have hsplit : (before ++ [.enter]) ++ (body ++ .leave :: after) = (done ++ [d]) ++ rest := by simpa using heq
  rcases List.append_eq_append_iff.1 hsplit with ⟨part,hpart,htail⟩ | ⟨more,hmore,-⟩
  · rcases List.eq_nil_or_concat part with rfl | ⟨done',d',rfl⟩
    · exact .inl ⟨[],by simpa using hpart.symm⟩
    · have hlast : done ++ [d] = (before ++ .enter :: done') ++ [d'] := by simpa using hpart
      obtain ⟨rfl,hd⟩ := List.append_inj' hlast rfl
      cases hd
      rcases List.append_eq_append_iff.1 htail with ⟨part',hpart',htail'⟩ | ⟨rest',hbody,-⟩
      · -- The body is over before the directive.
        cases part' with
        | nil => exact .inr (.inl ⟨done',[],rfl,by simpa using hpart'.symm⟩)
        | cons x more =>
          obtain ⟨rfl,-⟩ := List.cons.inj htail'
          have hcat : done' ++ [d] = body ++ .leave :: more := by simpa using hpart'
          rcases List.eq_nil_or_concat more with rfl | ⟨more',d',rfl⟩
          · obtain ⟨rfl,hd⟩ := List.append_inj' hcat rfl
            cases hd
            exact .inr (.inr ⟨[],by simp,.inl rfl⟩)
          · have hcat' : done' ++ [d] = (body ++ .leave :: more') ++ [d'] := by simpa using hcat
            obtain ⟨rfl,-⟩ := List.append_inj' hcat' rfl
            exact .inr (.inr ⟨.leave :: more',by simp,.inr ⟨more',rfl⟩⟩)
      · exact .inr (.inl ⟨done',rest',rfl,by simpa using hbody⟩)
  · exact .inl ⟨more,hmore⟩

theorem run_enter (first : Emitter) (before : List Directive) :
    (first.run (before ++ [.enter])).pc = (first.run before).pc ∧
      (first.run (before ++ [.enter])).code.labels.size = (first.run before).code.labels.size := by
  rw [Emitter.run_append]
  exact ⟨rfl,rfl⟩

theorem pc_le_run (first : Emitter) (ds ds' : List Directive) : (first.run ds).pc ≤ (first.run (ds ++ ds')).pc := by
  rw [Emitter.run_append]
  exact (Emitter.run_grows _ _).size

theorem labels_le_run (first : Emitter) (ds ds' : List Directive) :
    (first.run ds).code.labels.size ≤ (first.run (ds ++ ds')).code.labels.size := by
  rw [Emitter.run_append]
  exact Emitter.labels_size_le_run _ _

theorem outside_label (h : Portion s first before body after) {label : Nat} (hl : s.labels[label]? = some q)
    (hout : label < (first.run before).code.labels.size ∨
      (first.run (before ++ .enter :: body)).code.labels.size ≤ label) :
    q ≤ (first.run before).pc ∨ finish first before body ≤ q := by
  rcases h.emission.placed hl with rfl | ⟨done,d,rest,heq,rfl,-,hlabel,hlt⟩
  · exact .inl (Nat.zero_le _)
  · rcases split_cases heq with ⟨more,hmore⟩ | ⟨done',rest',rfl,hbody⟩ | ⟨more,rfl,-⟩
    · have hle := pc_le_run first (done ++ [d]) more
      rw [← hmore,(run_enter first before).1] at hle
      exact .inl hle
    · -- In the body only labels of the block are placed.
      exfalso
      have hlow : (first.run before).code.labels.size ≤ label := by
        rcases hlabel with hmem | rfl
        · exact h.made hbody hmem
        · exact labels_le_run first before _
      have hsplit : before ++ .enter :: body = ((before ++ .enter :: done') ++ [d]) ++ rest' := by simp [hbody]
      have hhigh := labels_le_run first ((before ++ .enter :: done') ++ [d]) rest'
      rw [← hsplit] at hhigh
      omega
    · exact .inr (Nat.le_trans (pc_le_run first (before ++ .enter :: body) more) (pc_le_run first _ [d]))

theorem shut (h : Portion s first before body after) (hb : s.Aligned pc)
    (hpc : pc < (first.run before).pc ∨ finish first before body ≤ pc) (hfetch : s.fetch pc = .ok (i,next))
    (hq : i.Leads s next q) : q ≤ (first.run before).pc ∨ finish first before body ≤ q := by
  have hlt := Script.lt_of_fetch hfetch
  obtain ⟨done,d,rest,heq,hwritten⟩ := h.emission.writes hb hfetch
  have hle : (first.run done).pc ≤ pc := by
    rcases hwritten with ⟨rfl,-⟩ | ⟨rfl,-⟩
    · exact Nat.le_refl _
    · exact ((first.run done).before_grows d).size
  have hnext : next ≤ (first.run (done ++ [d])).pc := by
    rw [Emitter.run_append]
    exact hwritten.next_le
  have hcases : q = next ∨ ∃ label ∈ (first.run done).scope.labels, s.labels[label]? = some q ∧ d ≠ .leave := by
    rcases hwritten with ⟨-,-,rfl⟩ | ⟨-,rfl,hi⟩
    · exact .inl (hq.eq_next nofun nofun rfl)
    · have hemission := h.emission
      rw [heq] at hemission
      refine (hemission.leads hi hq).imp_right ?_
      rintro ⟨label,hmem,hl⟩
      refine ⟨label,hmem,hl,?_⟩
      rintro rfl
      cases hi
  rcases split_cases heq with ⟨more,hmore⟩ | ⟨done',rest',rfl,hbody⟩ | ⟨more,rfl,hmore⟩
  · -- It stands before the block.
    rcases hcases with rfl | ⟨label,hmem,hl,-⟩
    · have hstart := pc_le_run first (done ++ [d]) more
      rw [← hmore,(run_enter first before).1] at hstart
      exact .inl (Nat.le_trans hnext hstart)
    · refine h.outside_label hl (.inl ?_)
      have hemission := h.emission
      rw [heq] at hemission
      obtain ⟨t,saves,hc⟩ := hemission.course
      have hmade := (hc.fits h.emission.fits).lt_of_mem
        (List.mem_flatMap.2 ⟨_,List.mem_cons_self,Array.mem_toList_iff.2 hmem⟩)
      have hgrow := labels_le_run first done ([d] ++ more)
      rw [← List.append_assoc,← hmore,(run_enter first before).2] at hgrow
      exact Nat.lt_of_lt_of_le hmade hgrow
  · -- It cannot stand in the block.
    exfalso
    have hstart := pc_le_run first before (.enter :: done')
    have hsplit : before ++ .enter :: body = ((before ++ .enter :: done') ++ [d]) ++ rest' := by simp [hbody]
    have hend := pc_le_run first ((before ++ .enter :: done') ++ [d]) rest'
    rw [← hsplit] at hend
    change _ ≤ finish first before body at hend
    omega
  · have hend := pc_le_run first (before ++ .enter :: body) more
    change finish first before body ≤ _ at hend
    rcases hcases with rfl | ⟨label,hmem,hl,hne⟩
    · exact .inr (by omega)
    · obtain ⟨more',rfl⟩ := hmore.resolve_left hne
      have hsplit : (before ++ .enter :: body) ++ .leave :: more' = (before ++ .enter :: (body ++ [.leave])) ++ more' := by
        simp
      rw [hsplit] at hmem
      exact h.outside_label hl (h.apart more' _ List.mem_cons_self label hmem)

end Portion

/-! Threads -/

def Script.IsEmitted (s : Script) : Prop :=
  ∃ first whole, Emission s first whole

def Script.Returns (s : Script) (label : UInt32) : Prop :=
  ∃ pc procedure argc next, s.Aligned pc ∧ s.fetch pc = .ok (.call procedure argc label,next)

/-- Threads stand at the start of instructions, and their calls return to where a call does. -/
structure Sited (frames : List Frame) (s : Script) (pc : Nat) : Prop where
  aligned : s.IsEmitted → s.Aligned pc
  returns : ∀ f ∈ frames, ∀ k, f.ret = some k → k.script.IsEmitted → k.script.Returns k.label

theorem Sited.entry {frames : List Frame} (hret : ∀ f ∈ frames, f.ret = none) (s : Script) :
    Sited frames s s.entry.pc where
  aligned := fun ⟨_,_,h⟩ => h.aligned_label _
  returns f hf k hk := by
    rw [hret f hf] at hk
    cases hk

theorem Sited.move {r : Script} {next : Nat} (h : Sited (a.frame :: a.calls) s pc) (hfetch : s.fetch pc = .ok (i,next))
    (hmove : Move s next i a b r q) : Sited (b.frame :: b.calls) r q := by
  obtain ⟨hframe,hcalls⟩ := List.forall_mem_cons.1 h.returns
  cases hmove with
  | within hq hcalls' hframe' _ =>
    refine ⟨fun hs => ?_,List.forall_mem_cons.2 ⟨by rw [hframe']; exact hframe,by rw [hcalls']; exact hcalls⟩⟩
    have haligned := h.aligned hs
    obtain ⟨first,whole,hemission⟩ := hs
    exact hemission.aligned_leads haligned hfetch (.inl hq)
  | label hi hcalls' hframe' _ =>
    refine ⟨fun ⟨_,_,hemission⟩ => hemission.aligned_label _,?_⟩
    rw [hframe',hcalls']
    exact h.returns
  | enters hi hcalls' hret =>
    subst hi
    refine ⟨fun ⟨_,_,hemission⟩ => hemission.aligned_label _,List.forall_mem_cons.2 ⟨?_,?_⟩⟩
    · intro k hk hs
      rw [hret] at hk
      cases hk
      exact ⟨pc,_,_,next,h.aligned hs,hfetch⟩
    · rw [hcalls']
      exact List.forall_mem_cons.2 ⟨hframe,hcalls⟩
  | returns hi hcalls' hret hframe' _ =>
    rw [hcalls'] at hcalls
    obtain ⟨hcaller,hcalls⟩ := List.forall_mem_cons.1 hcalls
    exact ⟨fun ⟨_,_,hemission⟩ => hemission.aligned_label _,
      List.forall_mem_cons.2 ⟨by rw [hframe']; exact hcaller,hcalls⟩⟩

/-- Control comes into a stretch of code at its start only. -/
structure Script.Shut (s : Script) (start stop : Nat) : Prop where
  emitted : s.IsEmitted
  entry : s.entry.pc ≤ start
  leads : ∀ {pc next q : Nat} {i : Instr}, s.Aligned pc → pc < start ∨ stop ≤ pc → s.fetch pc = .ok (i,next) →
    i.Leads s next q → q ≤ start ∨ stop ≤ q
  returns : ∀ {label : UInt32}, s.Returns label → Continuation.pc ⟨s,label⟩ ≤ start ∨ stop ≤ Continuation.pc ⟨s,label⟩

theorem Portion.isShut {first : Emitter} {before body after : List Directive} (h : Portion s first before body after)
    (hcalls : ∀ procedure argc, Directive.call procedure argc ∉ body) :
    s.Shut (first.run before).pc (finish first before body) where
  emitted := ⟨_,_,h.emission⟩
  entry := by
    have hlabel : s.labels[0]? = some 0 := h.emission.label_eq .start (by rw [h.emission.labels]; rfl)
    rw [Script.entry,Continuation.pc]
    change s.labels[0]?.getD 0 ≤ _
    rw [hlabel]
    exact Nat.zero_le _
  leads := h.shut
  returns := by
    rintro label ⟨pc,procedure,argc,next,haligned,hfetch⟩
    refine h.shut haligned ?_ hfetch (.inr ⟨label,rfl,rfl⟩)
    have hlt := Script.lt_of_fetch hfetch
    obtain ⟨done,d,rest,heq,⟨-,-,hi⟩ | ⟨hpc,hnext,hi⟩⟩ := h.emission.writes haligned hfetch
    · cases hi
    · have hemission := h.emission
      rw [heq] at hemission
      obtain ⟨name,n,rfl⟩ := hemission.eq_call hi
      rcases split_cases heq with ⟨more,hmore⟩ | ⟨done',rest',-,hbody⟩ | ⟨more,rfl,-⟩
      · have hstart := pc_le_run first (done ++ [.call name n]) more
        rw [← hmore,(run_enter first before).1,Emitter.run_append] at hstart
        change ((first.run done).step (.call name n)).pc ≤ _ at hstart
        exact .inl (by omega)
      · exact absurd (by simp [hbody]) (hcalls name n)
      · rw [hpc]
        exact .inr (Nat.le_trans (pc_le_run first (before ++ .enter :: body) more) (Emitter.before_grows _ _).size)

theorem Script.Shut.stays_out {r : Script} {start stop next : Nat} (h : r.Shut start stop)
    (hsited : Sited (a.frame :: a.calls) s pc) (hout : s = r → pc < start ∨ stop ≤ pc) (hfetch : s.fetch pc = .ok (i,next))
    (hmove : Move s next i a b r q) : q ≤ start ∨ stop ≤ q := by
  cases hmove with
  | within hq _ _ _ => exact h.leads (hsited.aligned h.emitted) (hout rfl) hfetch (.inl hq)
  | label hi _ _ _ => exact h.leads (hsited.aligned h.emitted) (hout rfl) hfetch (.inr ⟨_,hi,rfl⟩)
  | enters _ _ _ => exact .inl h.entry
  | returns _ _ hret _ _ => exact h.returns (hsited.returns _ List.mem_cons_self _ hret h.emitted)

end SpriteMachine
