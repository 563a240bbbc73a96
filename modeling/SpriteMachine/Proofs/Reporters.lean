import SpriteMachine.Proofs.Trails

/-!
The code of a reporter puts exactly one value on top of the operands, whatever the blocks in its slots are, and leaves
those that were there.
-/

namespace SpriteMachine

/-! Running such code -/

variable {t u : Tally} {i : Instr} {d : Directive} {s : Script} {e first : Emitter} {xs st : List Value}
  {done ds rest : List Directive} {p : Program} {c : Settings}

theorem Tally.operate_of_perform (hi : i.isQuery = true) (h : t.perform i = some u) : t.operate i = some u := by
  have hplain : (if i.handle?.isNone && t.guards i then t.operate i else none) = some u → t.operate i = some u := by
    intro h
    split at h
    · exact h
    · cases h
  cases i with
  | save | restore | broadcast | broadcastAndWait | sceneChanged | stop _ | deleteClone | finish | endCall => cases hi
  | pushConstant index => cases h
  | _ => exact hplain h

theorem Tally.operands_step (hd : d.isQuery = true) (h : t.step d = some u) (hi : e.written s d = some i) :
    ∃ a r, i.arity? = some (a,r) ∧ a ≤ t.depth ∧ u.depth = t.depth - a + r := by
  cases d with
  | op o ws =>
    cases hi
    exact operate_spec (operate_of_perform hd (step_op.1 h).2)
  | pushNumber x | pushBool b | pushText text | pushVariable r | pushList r =>
    cases hi
    cases h
    exact ⟨0,1,rfl,Nat.zero_le _,rfl⟩
  | bound o ws =>
    cases hi
    obtain ⟨kind,hkind,-⟩ := handle?_of_bound s h
    obtain ⟨a,r,ha,hle,hdepth⟩ := operate_spec (step_bound.1 h).2
    exact ⟨a,r,(Instr.bound_spec s (fun _ _ => True) e.scope.handle hkind).2.1.trans ha,hle,hdepth⟩
  | jump _ _ | resume _ _ | call _ _ => cases hd
  | _ => cases hi

theorem Tally.depth_step (hd : d.isQuery = true) (h : t.step d = some u) (hi : e.written s d = none) :
    u.depth = t.depth := by
  cases d with
  | enter | bindVariable r | bindList r | warn message =>
    cases h
    rfl
  | leave =>
    obtain ⟨l,rest,-,-,rfl⟩ := step_leave.1 h
    rfl
  | label | place _ | here | visual _ | flush => cases hd
  | _ => cases hi

theorem Turn.stack_of_perform {a r : Nat} (harity : i.arity? = some (a,r)) {t u : Turn} (h : Turn.perform s i t = .ok () u)
    (hstack : t.active.stack = xs ++ st) (hxs : a ≤ xs.length) :
    ∃ ys, ys.length = xs.length - a + r ∧ u.active.stack = ys ++ st := by
  have hconstant : ∀ index, i = .pushConstant index → index.toNat < s.constants.size := by
    rintro index rfl
    by_contra hlt
    have hnone : s.constant? index = none := Array.getElem?_eq_none (Nat.le_of_not_lt hlt)
    simp [Turn.perform,Turn.constant,hnone,bind,EStateM.bind,throw,throwThe,MonadExceptOf.throw,EStateM.throw] at h
  have hsplit : t.active.stack = xs.take a ++ (xs.drop a ++ st) := by
    rw [hstack,← List.append_assoc,List.take_append_drop]
  obtain ⟨ys,hys,hu⟩ := (Tame.perform harity hconstant).stack h hsplit (by simp [hxs])
  refine ⟨ys ++ xs.drop a,?_,by rw [hu,List.append_assoc]⟩
  rw [List.length_append,hys,List.length_drop]
  omega

def Spot.Rising (l : List Spot) : Prop :=
  l.Pairwise fun x y => x.pc < y.pc

theorem Spot.Rising.eq {l : List Spot} (h : Spot.Rising l) {x y : Spot} (hx : x ∈ l) (hy : y ∈ l) (hpc : x.pc = y.pc) :
    x = y := by
  induction l with
  | nil => cases hx
  | cons z l ih =>
    obtain ⟨hz,hl⟩ := List.pairwise_cons.1 h
    rcases List.mem_cons.1 hx with rfl | hx'
    · exact ((List.mem_cons.1 hy).resolve_right fun hy' => Nat.ne_of_lt (hz y hy') hpc).symm
    · rcases List.mem_cons.1 hy with rfl | hy'
      · exact absurd hpc (Nat.ne_of_gt (hz x hx'))
      · exact ih hl hx' hy'

/-- A thread comes to the end of code that only reads and computes, in the same frame, with as many operands more as the
tally says, unless it stays in it. -/
theorem Emission.trail_query (h : Emission s first (done ++ (ds ++ rest))) (hds : IsQuery ds) (hp : p.Sound) {τ τ' : Tally}
    (hτ : τ.run ds = some τ') {t : Turn} (hstack : t.active.stack = xs ++ st) (hxs : xs.length = τ.depth) {l : List Spot}
    {z : Spot} (htrail : Trail ⟨t,s,(first.run done).pc⟩ l z) (hsound : (Phase.turn t s (first.run done).pc).Sound p c) :
    (∀ y ∈ l ++ [z], t.active.Agrees y.turn.active ∧ (first.run done).pc ≤ y.pc ∧ y.pc < (first.run (done ++ ds)).pc) ∨
      ∃ l₁ u l₂ ys, l = l₁ ++ l₂ ∧ Trail ⟨t,s,(first.run done).pc⟩ l₁ ⟨u,s,(first.run (done ++ ds)).pc⟩ ∧
        Trail ⟨u,s,(first.run (done ++ ds)).pc⟩ l₂ z ∧ t.active.Agrees u.active ∧ u.active.stack = ys ++ st ∧
        ys.length = τ'.depth ∧ Spot.Rising (l₁ ++ [⟨u,s,(first.run (done ++ ds)).pc⟩]) ∧
        ∀ y ∈ l₁, t.active.Agrees y.turn.active ∧ (first.run done).pc ≤ y.pc ∧ y.pc < (first.run (done ++ ds)).pc := by
  induction ds generalizing done τ t xs l with
  | nil =>
    cases hτ
    rw [List.append_nil]
    exact .inr ⟨[],t,l,xs,rfl,.here _,htrail,⟨rfl,rfl,rfl⟩,hstack,hxs,
      List.pairwise_singleton _ _,by simp⟩
  | cons d ds ih =>
    obtain ⟨hd,hds'⟩ := List.forall_mem_cons.1 hds
    rw [Tally.run_cons] at hτ
    obtain ⟨τ₁,hstep,hτ⟩ := Option.bind_eq_some_iff.1 hτ
    have hnext : Emission s first ((done ++ [d]) ++ (ds ++ rest)) := by simpa using h
    have hlist : done ++ d :: ds = (done ++ [d]) ++ ds := by simp
    have hle := Portion.pc_le_run first (done ++ [d]) ds
    rw [hlist]
    cases hi : (first.run done).written s d with
    | none =>
      have hpc : (first.run (done ++ [d])).pc = (first.run done).pc := by
        rw [Emitter.run_append]
        refine (Script.Holds.pc_step hi).trans ?_
        rw [Emitter.before_eq (.inl (Directive.flushes_of_isQuery hd))]
      rw [← hpc] at htrail hsound ⊢
      exact ih hnext hds' hτ hstack (hxs.trans (Tally.depth_step hd hstep hi).symm) htrail hsound
    | some i =>
      have hquery := Directive.isQuery_written hd hi
      have hfetch := Emission.fetch_at (show Emission s first (done ++ d :: (ds ++ rest)) by simpa using h) hi
      rw [Emitter.before_eq (.inl (Directive.flushes_of_isQuery hd))] at hfetch
      have hlt := Script.lt_of_fetch hfetch
      rcases htrail.ends_or_leaves with ⟨rfl,rfl⟩ | ⟨y,l,rfl,hstep',hrest⟩
      · refine .inl ?_
        simp only [List.nil_append,List.mem_cons,List.not_mem_nil,or_false,forall_eq]
        exact ⟨⟨rfl,rfl,rfl⟩,Nat.le_refl _,Nat.lt_of_lt_of_le hlt hle⟩
      obtain ⟨hsets,-,hsave,hrestore⟩ := Instr.plain_of_isQuery hquery
      obtain ⟨u,hperform,rfl,hagrees⟩ := hstep'.plain hsound hp hfetch (Instr.isStraight_of_isQuery hquery) hsets hsave hrestore
      obtain ⟨a,r,harity,ha,hdepth⟩ := Tally.operands_step hd hstep hi
      obtain ⟨ys,hys,hu⟩ := Turn.stack_of_perform harity hperform hstack (by omega)
      have hhere : t.active.Agrees t.active ∧ (first.run done).pc ≤ (first.run done).pc ∧
          (first.run done).pc < (first.run (done ++ [d] ++ ds)).pc :=
        ⟨⟨rfl,rfl,rfl⟩,Nat.le_refl _,Nat.lt_of_lt_of_le hlt hle⟩
      have hlater : ∀ {y : Spot}, (u.active.Agrees y.turn.active ∧ (first.run (done ++ [d])).pc ≤ y.pc ∧
          y.pc < (first.run (done ++ [d] ++ ds)).pc) → t.active.Agrees y.turn.active ∧ (first.run done).pc ≤ y.pc ∧
            y.pc < (first.run (done ++ [d] ++ ds)).pc :=
        fun hy => ⟨hagrees.trans hy.1,Nat.le_trans (Nat.le_of_lt hlt) hy.2.1,hy.2.2⟩
      rcases ih hnext hds' hτ hu (by omega) hrest (hstep'.steps.sound hsound hp) with
        hall | ⟨l₁,v,l₂,zs,rfl,hbefore,hafter,hagrees',hv,hzs,hrising,hl₁⟩
      · exact .inl (List.forall_mem_cons.2 ⟨hhere,fun y hy => hlater (hall y hy)⟩)
      · refine .inr ⟨_ :: l₁,v,l₂,zs,rfl,.step hstep' hbefore,hafter,hagrees.trans hagrees',hv,hzs,
          List.pairwise_cons.2 ⟨fun y hy => ?_,hrising⟩,List.forall_mem_cons.2 ⟨hhere,fun y hy => hlater (hl₁ y hy)⟩⟩
        rcases List.mem_append.1 hy with hy | hy
        · exact Nat.lt_of_lt_of_le hlt (hl₁ y hy).2.1
        · rw [List.mem_singleton.1 hy]
          exact Nat.lt_of_lt_of_le hlt hle

theorem Emission.trail_adds (h : Emission s first (done ++ (ds ++ rest))) (hds : IsQuery ds) (hadds : Tally.Adds ds)
    (hp : p.Sound) {t : Turn} {l : List Spot} {z : Spot} (htrail : Trail ⟨t,s,(first.run done).pc⟩ l z)
    (hsound : (Phase.turn t s (first.run done).pc).Sound p c) :
    (∀ y ∈ l ++ [z], t.active.Agrees y.turn.active ∧ (first.run done).pc ≤ y.pc ∧ y.pc < (first.run (done ++ ds)).pc) ∨
      ∃ l₁ u l₂ v, l = l₁ ++ l₂ ∧ Trail ⟨t,s,(first.run done).pc⟩ l₁ ⟨u,s,(first.run (done ++ ds)).pc⟩ ∧
        Trail ⟨u,s,(first.run (done ++ ds)).pc⟩ l₂ z ∧ t.active.Agrees u.active ∧ u.active.stack = v :: t.active.stack ∧
        Spot.Rising (l₁ ++ [⟨u,s,(first.run (done ++ ds)).pc⟩]) ∧
        ∀ y ∈ l₁, t.active.Agrees y.turn.active ∧ (first.run done).pc ≤ y.pc ∧ y.pc < (first.run (done ++ ds)).pc := by
  rcases h.trail_query hds hp (hadds {}) (show t.active.stack = [] ++ t.active.stack from rfl) rfl htrail hsound with
    hall | ⟨l₁,u,l₂,ys,hl,hbefore,hafter,hagrees,hu,hys,hrising,hl₁⟩
  · exact .inl hall
  · obtain ⟨v,rfl⟩ := List.length_eq_one_iff.1 hys
    exact .inr ⟨l₁,u,l₂,v,hl,hbefore,hafter,hagrees,hu,hrising,hl₁⟩

end SpriteMachine
