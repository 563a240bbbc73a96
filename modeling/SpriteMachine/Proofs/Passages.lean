import SpriteMachine.Proofs.Trails

/-!
How a thread passes the code of a block: from the beginning of one step of its recipe to the beginning of another, until it
comes out at the end. What each step does is said once, so that what holds at the beginning of a step can be followed
through the recipe, over yields and over the blocks in its slots.
-/

namespace SpriteMachine

/-! Code that gives a number -/

def Instr.givesNumber : Instr → Bool
  | .pushNumber _ | .pushArg .number _ | .unary .toNumber => true
  | _ => false

variable {s : Script} {t u : Turn} {after : List Directive} {n depth : Nat} {st : Step}

theorem Turn.number_of_givesNumber {i : Instr} (hi : i.givesNumber = true) (h : Turn.perform s i t = .ok () u) :
    ∃ x rest, u.active.stack = .number x :: rest := by
  cases i with
  | pushNumber x =>
    cases h
    exact ⟨_,_,rfl⟩
  | pushArg form index =>
    cases form with
    | number =>
      cases h
      cases hv : t.active.frame.args[index.toNat]? with
      | none => exact ⟨0.0,_,rfl⟩
      | some v => exact ⟨v.toNumber,_,rfl⟩
    | plain | bool => cases hi
  | unary f =>
    cases f with
    | toNumber =>
      cases hstack : t.active.stack with
      | nil => simp [Turn.perform,bind,EStateM.bind,Turn.pop,Turn.onActive,Activation.pop,hstack] at h
      | cons v rest =>
        rw [Turn.perform_unary hstack] at h
        cases h
        exact ⟨_,_,rfl⟩
    | _ => cases hi
  | _ => cases hi

/-- The code of a slot that is to give a number ends with an instruction that leaves one. -/
theorem SlotCode.numberCode_eq (params : List String) (c : Option SlotCode) (hc : ∀ x, c = some x → IsQuery x.reporter) :
    ∃ ds d, numberCode params c = ds ++ [d] ∧ IsQuery ds ∧ d.flushes = false ∧
      ∀ (e : Emitter) (s : Script), ∃ i, e.written s d = some i ∧ i.givesNumber = true := by
  have hnumber : ∀ x : Float, ∃ ds d, [Directive.pushNumber x] = ds ++ [d] ∧ IsQuery ds ∧ d.flushes = false ∧
      ∀ (e : Emitter) (s : Script), ∃ i, e.written s d = some i ∧ i.givesNumber = true :=
    fun x => ⟨[],.pushNumber x,rfl,by simp [IsQuery],rfl,fun e s => ⟨_,rfl,rfl⟩⟩
  unfold numberCode
  split
  next b reporter _ =>
    split
    · exact hnumber _
    next i _ _ => exact ⟨[],.op .pushArgNumber [i],rfl,by simp [IsQuery],rfl,fun e s => ⟨_,rfl,rfl⟩⟩
    · exact ⟨reporter,.op .toNumber [],rfl,hc _ rfl,rfl,fun e s => ⟨_,rfl,rfl⟩⟩
  · exact hnumber _

/-! Yields, and the time of a frame -/

/-- A thread yields there. -/
def Spot.Yields (x : Spot) : Prop :=
  ∃ m a k, Machine.advance x.turn x.script x.pc = .halted (.done m a) ∧ a.requeue = some k

/-- A thread does not yield on its way. -/
def Steady (l : List Spot) : Prop :=
  ∀ y ∈ l, ¬ y.Yields

theorem Steady.nil : Steady [] := by simp [Steady]

variable {l : List Spot}

theorem Steady.append {l' : List Spot} (h : Steady l) (h' : Steady l') : Steady (l ++ l') :=
  List.forall_mem_append.2 ⟨h,h'⟩

theorem Machine.Edits.frameTime {i : Instr} {own : Nat} {m m' : Machine} (h : m.Edits i own m') :
    m'.frameTime = m.frameTime := by
  induction h with
  | refl => rfl
  | target _ _ _ ih | layer _ _ ih | watcher _ _ _ ih | panel _ _ ih | prompt _ _ _ ih | ticket _ _ ih | visual _ _ ih =>
    exact ih
  | clone _ _ parent ih =>
    obtain ⟨_,_,_,_,_,heq⟩ := createClone_frame _ parent
    rw [heq]
    exact ih
  | aside _ heq _ ih =>
    rw [heq]
    exact ih

/-- The frame of the thread, its locals and the time are as they were. -/
structure Turn.Keeps (t u : Turn) : Prop where
  agrees : t.active.Agrees u.active
  time : u.machine.frameTime = t.machine.frameTime

namespace Turn

variable {s : Script} {i : Instr} {t u v : Turn}

theorem Keeps.refl (t : Turn) : t.Keeps t := ⟨⟨rfl,rfl,rfl⟩,rfl⟩

theorem Keeps.trans (h : t.Keeps u) (h' : u.Keeps v) : t.Keeps v :=
  ⟨h.agrees.trans h'.agrees,h'.time.trans h.time⟩

theorem frameTime_perform (h : perform s i t = .ok () u) : u.machine.frameTime = t.machine.frameTime := by
  have hedits := (Editing.perform s i t).1
  rw [h] at hedits
  exact hedits.frameTime

theorem bind_eq_ok {α β : Type} {x : Exec α} {f : α → Exec β} {b : β} (h : (x >>= f) t = .ok b v) :
    ∃ a u, x t = .ok a u ∧ f a u = .ok b v := by
  change EStateM.bind x f t = _ at h
  unfold EStateM.bind at h
  split at h
  next a u hx => exact ⟨a,u,hx,h⟩
  · cases h

theorem perform_setLocal (slot : UInt32) {v : Value} {rest : List Value} (hstack : t.active.stack = v :: rest)
    (h : perform s (.setLocal slot) t = .ok () u) :
    u.active.locals = t.active.locals.set slot v ∧ u.machine = t.machine := by
  simp only [perform,bind,EStateM.bind,pop_cons hstack] at h
  cases h
  exact ⟨rfl,rfl⟩

theorem builtin_of_perform {id : UInt32} (h : perform s (.builtin id) t = .ok () u) :
    ∃ b, Palette.builtin? id = some b ∧ builtin b t = .ok () u := by
  change callBuiltin id t = _ at h
  unfold callBuiltin at h
  cases hb : Palette.builtin? id with
  | none =>
    rw [hb] at h
    cases h
  | some b =>
    rw [hb] at h
    exact ⟨b,rfl,h⟩

end Turn

namespace Spot

variable {p : Program} {c : Settings} {t : Turn} {s : Script} {pc next : Nat} {i : Instr} {y : Spot}

theorem not_yields_of_straight (hfetch : s.fetch pc = .ok (i,next)) (hi : i.isStraight = true) :
    ¬ Yields ⟨t,s,pc⟩ := by
  rintro ⟨m,a,k,hadvance,-⟩
  exact Machine.not_done_of_straight hfetch hi hadvance

theorem not_yields_of_next {flow : Nat} {u : Turn} (hfetch : s.fetch pc = .ok (i,next))
    (hexec : Turn.exec s next i t = .ok (.next flow) u) : ¬ Yields ⟨t,s,pc⟩ := by
  rintro ⟨m,a,k,hadvance,-⟩
  have hleave := (Machine.advance_done hfetch hadvance).1
  rw [hexec] at hleave
  cases hleave

theorem Next.jump {target : UInt32} (h : Next ⟨t,s,pc⟩ y) (hfetch : s.fetch pc = .ok (.jump target,next)) :
    y = ⟨t,s,target.toNat⟩ := by
  cases h with
  | advance hadvance =>
    rcases Machine.advance_going hfetch hadvance with ⟨hexec',rfl⟩ | ⟨v,k,hexec',-⟩
    · cases hexec'
      rfl
    · cases hexec'
  | resume hadvance => cases (Machine.advance_done hfetch hadvance).1

/-- A thread that is made to yield does. -/
theorem Next.yields {label : UInt32} (h : Next ⟨t,s,pc⟩ y) (hsound : (Phase.turn t s pc).Sound p c)
    (hfetch : s.fetch pc = .ok (.forceQueue label,next)) : Yields ⟨t,s,pc⟩ := by
  have hlabel : label.toNat < s.labels.size := by
    obtain ⟨has,T,q,hq,-⟩ := Turn.Sound.admits hsound hfetch
    exact (Array.getElem?_eq_some_iff.1 hq).1
  cases h with
  | advance hadvance =>
    obtain ⟨σ,hrunning,-⟩ := hsound
    rcases Machine.advance_going hfetch hadvance with ⟨hexec,-⟩ | ⟨v,k,hexec,hk,-⟩
    · rw [Turn.exec_forceQueue hlabel] at hexec
      cases hexec
    · rw [Turn.exec_forceQueue hlabel] at hexec
      cases hexec
      have hnone : (t.active.yieldTo ⟨s,label⟩).immediate = none := by
        simp [Activation.yieldTo,hrunning.placed.live,hrunning.immediate]
      cases hnone.symm.trans hk
  | resume hadvance _ hk => exact ⟨_,_,_,hadvance,hk⟩

end Spot

/-- A thread is between two offsets, and at the lower one only at first. -/
def Rises (low high : Nat) (l : List Spot) : Prop :=
  (∀ y ∈ l, low ≤ y.pc ∧ y.pc < high) ∧ ∀ y ∈ l.tail, low < y.pc

namespace Rises

variable {low mid high : Nat} {l : List Spot} {x : Spot}

theorem nil (low high : Nat) : Rises low high [] := by simp [Rises]

theorem cons (hx : x.pc = low) (hlt : low < mid) (hle : mid ≤ high) (h : Rises mid high l) : Rises low high (x :: l) :=
  ⟨List.forall_mem_cons.2 ⟨by omega,fun y hy => ⟨(hlt.trans_le (h.1 y hy).1).le,(h.1 y hy).2⟩⟩,
    fun y hy => hlt.trans_le (h.1 y hy).1⟩

theorem single (hx : x.pc = low) (hlt : low < high) : Rises low high [x] :=
  cons hx hlt (Nat.le_refl _) (nil high high)

theorem concat (h : Rises low mid l) (hx : x.pc = mid) (hle : low ≤ mid) (hlt : mid < high) : Rises low high (l ++ [x]) := by
  refine ⟨List.forall_mem_append.2 ⟨fun y hy => ⟨(h.1 y hy).1,(h.1 y hy).2.trans hlt⟩,by simp; omega⟩,?_⟩
  cases l with
  | nil => simp
  | cons y l =>
    have hy := h.1 y (by simp)
    exact List.forall_mem_append.2 ⟨h.2,by simp; omega⟩

theorem mono (h : Rises low mid l) (hle : mid ≤ high) : Rises low high l :=
  ⟨fun y hy => ⟨(h.1 y hy).1,(h.1 y hy).2.trans_le hle⟩,h.2⟩

end Rises

namespace Trail

variable {p : Program} {c : Settings} {t : Turn} {s : Script} {pc stop : Nat} {l : List Spot} {z : Spot}

theorem compute {C : Nat → Prop} {start : Nat} (h : Trail ⟨t,s,pc⟩ l z) (hC : s.Computes C start stop) (hpc : C pc)
    (hsound : (Phase.turn t s pc).Sound p c) (hp : p.Sound) : Rises pc stop (l ++ [z]) ∨
      ∃ l₁ u l₂, l = l₁ ++ l₂ ∧ Trail ⟨t,s,pc⟩ l₁ ⟨u,s,stop⟩ ∧ Trail ⟨u,s,stop⟩ l₂ z ∧ t.Keeps u ∧ Steady l₁ ∧
        Rises pc stop l₁ := by
  induction l generalizing t pc with
  | nil =>
    cases h
    rcases Nat.eq_or_lt_of_le (hC.bounded hpc).2 with rfl | hlt
    · exact .inr ⟨[],t,[],rfl,.here _,.here _,.refl t,.nil,.nil _ _⟩
    · exact .inl (.single rfl hlt)
  | cons x l ih =>
    rcases Nat.eq_or_lt_of_le (hC.bounded hpc).2 with rfl | hlt
    · exact .inr ⟨[],t,x :: l,rfl,.here _,h,.refl t,.nil,.nil _ _⟩
    · cases h with
      | step h rest =>
        obtain ⟨i,next,hfetch,hi,hnext⟩ := (hC.steps hpc).resolve_left hlt.ne
        obtain ⟨hsets,-,hsave,hrestore⟩ := Instr.plain_of_isQuery hi
        have hstraight := Instr.isStraight_of_isQuery hi
        obtain ⟨u,hperform,rfl,hagrees⟩ := h.plain hsound hp hfetch hstraight hsets hsave hrestore
        have hkeeps : t.Keeps u := ⟨hagrees,Turn.frameTime_perform hperform⟩
        have hrises := fun {l} => Rises.cons (x := ⟨t,s,pc⟩) (l := l) rfl (Script.lt_of_fetch hfetch) (hC.bounded hnext).2
        rcases ih rest hnext (h.steps.sound hsound hp) with
          hall | ⟨l₁,v,l₂,rfl,hbefore,hafter,hkeeps',hsteady,hbelow⟩
        · exact .inl (hrises hall)
        · exact .inr ⟨_ :: l₁,v,l₂,rfl,.step h hbefore,hafter,hkeeps.trans hkeeps',
            List.forall_mem_cons.2 ⟨Spot.not_yields_of_straight hfetch hstraight,hsteady⟩,hrises hbelow⟩

/-- What is known about changes of the picture is looked at on the way, if there is anything. -/
theorem settled {pc' : Nat} (h : Trail ⟨t,s,pc⟩ l z) (hpc : pc = pc' ∨ ∃ v, s.fetch pc = .ok (.visual v,pc'))
    (hsound : (Phase.turn t s pc).Sound p c) (hp : p.Sound) : Rises pc pc' (l ++ [z]) ∨
      ∃ l₁ u l₂, l = l₁ ++ l₂ ∧ Trail ⟨t,s,pc⟩ l₁ ⟨u,s,pc'⟩ ∧ Trail ⟨u,s,pc'⟩ l₂ z ∧ t.Keeps u ∧
        u.active.stack = t.active.stack ∧ Steady l₁ ∧ Rises pc pc' l₁ := by
  rcases hpc with rfl | ⟨v,hfetch⟩
  · exact .inr ⟨[],t,l,rfl,.here _,h,.refl t,rfl,.nil,.nil _ _⟩
  · rcases h.ends_or_leaves with ⟨rfl,rfl⟩ | ⟨y,l,rfl,hnext,htrail⟩
    · exact .inl (.single rfl (Script.lt_of_fetch hfetch))
    · obtain ⟨u,hperform,rfl,hagrees⟩ := hnext.plain hsound hp hfetch rfl rfl (by rintro ⟨⟩) (by rintro ⟨⟩)
      have hstack : u.active.stack = t.active.stack := by
        cases hperform
        rfl
      exact .inr ⟨[_],u,l,rfl,.step hnext (.here _),htrail,⟨hagrees,Turn.frameTime_perform hperform⟩,hstack,
        List.forall_mem_singleton.2 (Spot.not_yields_of_straight hfetch rfl),.single rfl (Script.lt_of_fetch hfetch)⟩

end Trail

/-! Steps of a recipe -/

namespace Step

/-- The labels that are made before a step. -/
def madeBefore (steps : List Step) (n : Nat) : Nat :=
  ((steps.take n).map makes).sum

/-- A step puts a label where it stands. -/
def marks (steps : List Step) (i n : Nat) : Bool :=
  match steps[n]? with
  | some (.emit (.place j)) => j = i ∧ i < madeBefore steps n
  | some (.emit .here) => madeBefore steps n = i
  | _ => false

/-- The step at the beginning of which control is that goes to a label. -/
def target (steps : List Step) (i : Nat) : Nat :=
  (List.range steps.length).findIdx (marks steps i) + 1

/-- Steps that compute values. -/
def isValue : Step → Bool
  | .inputs => true
  | st => st.isInput

/-- Directives that write an instruction with which control goes on. -/
def isWritten : Directive → Bool
  | .op .. | .pushNumber _ => true
  | _ => false

/-- Directives that write nothing of their own. -/
def isMark : Directive → Bool
  | .label | .place _ | .here | .visual _ => true
  | _ => false

/-- Control goes from this step to the next, or to a label of the recipe. -/
def isPlain (steps : List Step) (n : Nat) : Step → Bool
  | .substack _ | .callSelf => true
  | .callEntry opcode => (Palette.helper? opcode).isSome
  | .emit (.op o operands) => !o.flushes && (Instr.ofOperands o operands).isStraight
  | .emit (.pushNumber _) => true
  | .emit (.jump o i) => (o = .jump ∨ o = .jumpIfTrue ∨ o = .jumpIfFalse) && i < madeBefore steps n &&
      (List.range steps.length).any (marks steps i)
  | .emit (.resume o i) => (o = .queue ∨ o = .forceQueue) && i < madeBefore steps n &&
      (List.range steps.length).any (marks steps i)
  | .emit d => isMark d
  | st => st.isValue

def arePlain (steps : List Step) : Bool :=
  (List.range steps.length).all fun n => steps[n]?.all (isPlain steps n)

end Step

variable {g : Ground}

theorem Laid.labels_target (h : Laid s g after) {i : Nat}
    (hi : (List.range g.steps.length).any (Step.marks g.steps i) = true) :
    s.labels[g.label i]? = some (g.pc (Step.target g.steps i)) ∧ Step.target g.steps i ≤ g.steps.length := by
  obtain ⟨m,hm,hmarks⟩ := List.any_eq_true.1 hi
  have hlt : (List.range g.steps.length).findIdx (Step.marks g.steps i) < (List.range g.steps.length).length :=
    List.findIdx_lt_length.2 ⟨m,hm,hmarks⟩
  have hfound := List.findIdx_getElem (w := hlt)
  rw [List.getElem_range] at hfound
  rw [List.length_range] at hlt
  refine ⟨?_,hlt⟩
  rw [Step.target]
  generalize (List.range g.steps.length).findIdx (Step.marks g.steps i) = n at hfound
  unfold Step.marks at hfound
  split at hfound
  next j hn =>
    obtain ⟨rfl,hmade⟩ := of_decide_eq_true hfound
    exact h.labels_place hn hmade
  next hn =>
    obtain rfl := of_decide_eq_true hfound
    exact h.labels_here hn
  · cases hfound

/-- What a thread does on the way from the beginning of a step of a block to the beginning of another. -/
inductive Ground.Leads (g : Ground) (s : Script) (n : Nat) (t : Turn) (l : List Spot) (u : Turn) : Step → Nat → Prop
  | value {st : Step} (hst : st.isValue = true) (hkeeps : t.Keeps u) (hsteady : Steady l)
      (hnumber : ∀ slot, st = .number slot → ∃ x rest, u.active.stack = .number x :: rest) : Leads g s n t l u st (n + 1)
  | perform {d : Directive} {i : Instr} (hd : Step.isWritten d = true) (hi : (g.upTo n).written s d = some i)
      (hperform : Turn.perform s i t = .ok () u) (hcalls : u.active.calls = t.active.calls) (hl : l = [⟨t,s,g.pc n⟩])
      (hsteady : Steady l) : Leads g s n t l u (.emit d) (n + 1)
  | call {st : Step} {b : Builtin} (hb : st = .callSelf ∧ g.entry.builtin = some b ∨
      ∃ opcode, st = .callEntry opcode ∧ Palette.helper? opcode = some b) (hperform : Turn.builtin b t = .ok () u)
      (htime : u.machine.frameTime = t.machine.frameTime) (hcalls : u.active.calls = t.active.calls)
      (hl : l = [⟨t,s,g.pc n⟩]) (hsteady : Steady l) : Leads g s n t l u st (n + 1)
  | mark {d : Directive} (hd : Step.isMark d = true) (hkeeps : t.Keeps u) (hstack : u.active.stack = t.active.stack)
      (hsteady : Steady l) : Leads g s n t l u (.emit d) (n + 1)
  | jump {i : Nat} (hkeeps : t.Keeps u) (hsteady : Steady l) (hl : l ≠ []) :
      Leads g s n t l u (.emit (.jump .jump i)) (Step.target g.steps i)
  | branch {o : Opcode} {i : Nat} {wanted : Bool} {v : Value} {rest : List Value}
      (ho : o = if wanted then .jumpIfTrue else .jumpIfFalse) (hstack : t.active.stack = v :: rest) (hkeeps : t.Keeps u)
      (hrest : u.active.stack = rest) (hsteady : Steady l) (hl : l ≠ []) :
      Leads g s n t l u (.emit (.jump o i)) (if v.toBool = wanted then Step.target g.steps i else n + 1)
  | resume {o : Opcode} {i pc : Nat} {v : Turn} {l' : List Spot} (hl : l = l' ++ [⟨v,s,pc⟩]) (hsteady : Steady l')
      (hyields : o = .forceQueue → Spot.Yields ⟨v,s,pc⟩) (hkeeps : t.Keeps v) (hagrees : t.active.Agrees u.active) :
      Leads g s n t l u (.emit (.resume o i)) (Step.target g.steps i)
  | substack {slot : String} (hagrees : t.active.Agrees u.active) : Leads g s n t l u (.substack slot) (n + 1)

/-- A thread is in the code of a step when it is so many calls deep. Only other blocks can go back to its beginning. -/
def Ground.Spans (g : Ground) (depth n : Nat) (st : Step) (l : List Spot) : Prop :=
  (∀ y ∈ l, y.depth = depth → g.pc n ≤ y.pc ∧ y.pc < g.pc (n + 1)) ∧
    ((∀ slot, st ≠ .substack slot) → ∀ y ∈ l.tail, g.pc n < y.pc)

theorem Rises.spans (h : Rises (g.pc n) (g.pc (n + 1)) l) (depth : Nat) (st : Step) : g.Spans depth n st l :=
  ⟨fun y hy _ => h.1 y hy,fun _ => h.2⟩

/-- A thread stays in a step, or comes to the beginning of another. -/
def Ground.Strides (g : Ground) (s : Script) (n : Nat) (t : Turn) (l : List Spot) (z : Spot) (st : Step) : Prop :=
  g.Spans t.active.calls.length n st (l ++ [z]) ∨
    ∃ l₁ u l₂ n', l = l₁ ++ l₂ ∧ Trail ⟨t,s,g.pc n⟩ l₁ ⟨u,s,g.pc n'⟩ ∧ Trail ⟨u,s,g.pc n'⟩ l₂ z ∧
      g.Spans t.active.calls.length n st l₁ ∧ g.Leads s n t l₁ u st n'

namespace Laid

variable {s : Script} {g : Ground} {after : List Directive} {p : Program} {c : Settings} {n : Nat} {t : Turn} {l : List Spot}
  {z : Spot} {st : Step} {d : Directive}

theorem isQuery_inputs (h : Laid s g after) : IsQuery (g.code .inputs) := by
  intro d hd
  obtain ⟨name,-,hd⟩ := List.mem_flatMap.1 hd
  have hquery : IsQuery (g.code (.input name)) := h.isQuery_code rfl
  exact hquery d hd

section

variable (h : Laid s g after) (hp : p.Sound) (hsound : (Phase.turn t s (g.pc n)).Sound p c)
  (htrail : Trail ⟨t,s,g.pc n⟩ l z)

include hp hsound htrail

variable {i : Instr} {slot : String} {o : Opcode} {b : Block}

theorem strides_straight (hfetch : s.fetch (g.pc n) = .ok (i,g.pc (n + 1))) (hi : i.isStraight = true)
    (hleads : ∀ {u : Turn}, Turn.perform s i t = .ok () u → u.active.calls = t.active.calls →
      Steady [⟨t,s,g.pc n⟩] → g.Leads s n t [⟨t,s,g.pc n⟩] u st (n + 1)) :
    g.Strides s n t l z st := by
  rcases htrail.ends_or_leaves with ⟨rfl,rfl⟩ | ⟨y,l,rfl,hnext,hrest⟩
  · exact .inl ((Rises.single rfl (Script.lt_of_fetch hfetch)).spans _ _)
  obtain ⟨u,hperform,rfl⟩ := hnext.straight hfetch hi
  obtain ⟨i',next',hfetch',hmove⟩ := hnext.move hsound hp
  have heq : (i,g.pc (n + 1)) = (i',next') := Except.ok.inj (hfetch.symm.trans hfetch')
  cases heq
  exact .inr ⟨[_],u,l,n + 1,rfl,.step hnext (.here _),hrest,(Rises.single rfl (Script.lt_of_fetch hfetch)).spans _ _,
    hleads hperform (hmove.calls_eq hi) (List.forall_mem_singleton.2 (Spot.not_yields_of_straight hfetch hi))⟩

include h

theorem strides_number (hn : g.steps[n]? = some (.number slot)) : g.Strides s n t l z (.number slot) := by
  obtain ⟨ds,d,hnumber,hds,hflushes,hwritten⟩ := SlotCode.numberCode_eq g.params
    (stepCode.find g.slots slot) fun x hx => h.queries x (List.mem_of_find?_eq_some hx)
  obtain ⟨done,rest,hemission,hstart,hstop⟩ := h.emission_code hn
  change g.code (.number slot) = ds ++ [d] at hnumber
  rw [hnumber,List.append_assoc] at hemission
  rw [hnumber] at hstop
  obtain ⟨i,hi,hgives⟩ := hwritten (g.first.run (done ++ ds)) s
  have hfetch : s.fetch (g.first.run (done ++ ds)).pc = .ok (i,g.pc (n + 1)) := by
    rw [← List.append_assoc done] at hemission
    have hfetch := hemission.fetch_at hi
    rw [Emitter.before_eq (.inl hflushes),List.append_assoc,hstop] at hfetch
    exact hfetch
  have hstraight : i.isStraight = true ∧ i.setsLocals = false ∧ i ≠ .save ∧ i ≠ .restore := by
    cases i with
    | pushNumber _ | pushArg _ _ | unary _ => exact ⟨rfl,rfl,by rintro ⟨⟩,by rintro ⟨⟩⟩
    | _ => cases hgives
  have hlt := Script.lt_of_fetch hfetch
  have hcomputes := hemission.computes hds
  rw [hstart] at hcomputes
  have hle := (hcomputes.bounded hcomputes.begins).2
  rcases htrail.compute hcomputes hcomputes.begins hsound hp with
    hall | ⟨l₁,u,l₂,rfl,hbefore,hrest,hkeeps,hsteady,hbelow⟩
  · exact .inl ((hall.mono hlt.le).spans _ _)
  have hrises : ∀ u, Rises (g.pc n) (g.pc (n + 1)) (l₁ ++ [⟨u,s,(g.first.run (done ++ ds)).pc⟩]) :=
    fun u => hbelow.concat rfl hle hlt
  rcases hrest.ends_or_leaves with ⟨rfl,rfl⟩ | ⟨y,l₃,rfl,hnext,hthen⟩
  · rw [List.append_nil]
    exact .inl ((hrises u).spans _ _)
  obtain ⟨v,hperform,rfl,hagrees⟩ := hnext.plain (hbefore.sound hsound hp) hp hfetch hstraight.1 hstraight.2.1 hstraight.2.2.1
    hstraight.2.2.2
  refine .inr ⟨l₁ ++ [_],v,l₃,n + 1,by simp,hbefore.append (.step hnext (.here _)),hthen,(hrises u).spans _ _,.value rfl
    (hkeeps.trans ⟨hagrees,Turn.frameTime_perform hperform⟩)
    (hsteady.append (List.forall_mem_singleton.2 (Spot.not_yields_of_straight hfetch hstraight.1))) ?_⟩
  exact fun _ _ => Turn.number_of_givesNumber hgives hperform

theorem strides_value (hn : g.steps[n]? = some st) (hst : st.isValue = true) : g.Strides s n t l z st := by
  by_cases hnumber : ∃ slot, st = .number slot
  · obtain ⟨slot,rfl⟩ := hnumber
    exact h.strides_number hp hsound htrail hn
  · have hquery : IsQuery (g.code st) := by
      cases st with
      | inputs => exact h.isQuery_inputs
      | _ => exact h.isQuery_code hst
    obtain ⟨done,rest,hemission,hstart,hstop⟩ := h.emission_code hn
    have hcomputes := hemission.computes hquery
    rw [hstart,hstop] at hcomputes
    rcases htrail.compute hcomputes hcomputes.begins hsound hp with
      hall | ⟨l₁,u,l₂,rfl,hbefore,hrest,hkeeps,hsteady,hbelow⟩
    · exact .inl (hall.spans _ _)
    · exact .inr ⟨l₁,u,l₂,n + 1,rfl,hbefore,hrest,hbelow.spans _ _,
        .value hst hkeeps hsteady fun slot heq => absurd ⟨slot,heq⟩ hnumber⟩

theorem strides_mark (hn : g.steps[n]? = some (.emit d)) (hd : Step.isMark d = true) : g.Strides s n t l z (.emit d) := by
  have hpc : g.pc (n + 1) = ((g.upTo n).before d).pc := by
    rw [Ground.pc,Ground.upTo_emit hn]
    refine Script.Holds.pc_step (s := s) ?_
    cases d <;> first | rfl | cases hd
  have hsettles := h.settles hn
  rw [← hpc] at hsettles
  rcases htrail.settled hsettles hsound hp with
    hall | ⟨l₁,u,l₂,rfl,hbefore,hrest,hkeeps,hstack,hsteady,hbelow⟩
  · exact .inl (hall.spans _ _)
  · exact .inr ⟨l₁,u,l₂,n + 1,rfl,hbefore,hrest,hbelow.spans _ _,.mark hd hkeeps hstack hsteady⟩

/-- Before a transfer, what is known about changes of the picture is looked at. -/
theorem strides_transfer (hn : g.steps[n]? = some (.emit d))
    (hfetch : s.fetch ((g.upTo n).before d).pc = .ok (i,g.pc (n + 1)))
    (hleads : ∀ {l₁ : List Spot} {u : Turn} {y : Spot}, t.Keeps u → u.active.stack = t.active.stack → Steady l₁ →
      (Phase.turn u s ((g.upTo n).before d).pc).Sound p c → Spot.Next ⟨u,s,((g.upTo n).before d).pc⟩ y →
      ∃ v n', y = ⟨v,s,g.pc n'⟩ ∧ g.Leads s n t (l₁ ++ [⟨u,s,((g.upTo n).before d).pc⟩]) v (.emit d) n') :
    g.Strides s n t l z (.emit d) := by
  have hlt := Script.lt_of_fetch hfetch
  rcases htrail.settled (h.settles hn) hsound hp with hall | ⟨l₁,u,l₂,rfl,hbefore,hrest,hkeeps,hstack,hsteady,hbelow⟩
  · exact .inl ((hall.mono hlt.le).spans _ _)
  have hrises : ∀ u, Rises (g.pc n) (g.pc (n + 1)) (l₁ ++ [⟨u,s,((g.upTo n).before d).pc⟩]) :=
    fun u => hbelow.concat rfl (Emitter.before_grows _ d).size hlt
  rcases hrest.ends_or_leaves with ⟨rfl,rfl⟩ | ⟨y,l₃,rfl,hnext,hthen⟩
  · rw [List.append_nil]
    exact .inl ((hrises u).spans _ _)
  obtain ⟨v,n',rfl,hstep⟩ := hleads hkeeps hstack hsteady (hbefore.sound hsound hp) hnext
  exact .inr ⟨l₁ ++ [_],v,l₃,n',by simp,hbefore.append (.step hnext (.here _)),hthen,(hrises u).spans _ _,hstep⟩

theorem strides_jump {i : Nat} (hn : g.steps[n]? = some (.emit (.jump o i)))
    (ho : o = .jump ∨ o = .jumpIfTrue ∨ o = .jumpIfFalse) (hi : i < g.made n)
    (hmarks : (List.range g.steps.length).any (Step.marks g.steps i) = true) : g.Strides s n t l z (.emit (.jump o i)) := by
  obtain ⟨hlabel,-⟩ := h.labels_target hmarks
  have hfetch := h.fetch_jump_before hn hi hlabel
  have hoffset : (UInt32.ofNat (g.pc (Step.target g.steps i))).toNat = g.pc (Step.target g.steps i) :=
    UInt32.toNat_ofNat_of_lt' (h.pc_lt _)
  have hbranch : ∀ wanted : Bool, o = (if wanted then .jumpIfTrue else .jumpIfFalse) →
      g.Strides s n t l z (.emit (.jump o i)) := by
    intro wanted ho
    have hfetch' : s.fetch ((g.upTo n).before (.jump o i)).pc =
        .ok (.jumpIf wanted (UInt32.ofNat (g.pc (Step.target g.steps i))),g.pc (n + 1)) := by
      rw [hfetch,ho]
      cases wanted <;> rfl
    refine h.strides_transfer hp hsound htrail hn hfetch' fun {l₁ u y} hkeeps hstack hsteady hsound' hnext => ?_
    obtain ⟨has,T,k,hk,-⟩ := Turn.Sound.admits hsound' hfetch'
    obtain ⟨v,rest,hcons,-⟩ := List.length_eq_succ_iff.1 hk
    have heq := hnext.jumpIf hfetch' hcons.symm
    rw [hoffset] at heq
    have hstay : ¬ Spot.Yields ⟨u,s,((g.upTo n).before (.jump o i)).pc⟩ :=
      Spot.not_yields_of_next hfetch' (Turn.exec_jumpIf hcons.symm wanted _)
    refine ⟨u.withStack rest,if v.toBool = wanted then Step.target g.steps i else n + 1,?_,?_⟩
    · rw [heq]
      split <;> rfl
    · exact .branch ho (hstack.symm.trans hcons.symm) (hkeeps.trans ⟨⟨rfl,rfl,rfl⟩,rfl⟩) rfl
        (hsteady.append (List.forall_mem_singleton.2 hstay)) (by simp)
  rcases ho with rfl | ho | ho
  · refine h.strides_transfer hp hsound htrail hn hfetch fun {l₁ u y} hkeeps _ hsteady _ hnext => ?_
    refine ⟨u,_,?_,.jump hkeeps (hsteady.append (List.forall_mem_singleton.2 ?_)) (by simp)⟩
    · rw [hnext.jump hfetch]
      exact congrArg (Spot.mk u s) hoffset
    · exact Spot.not_yields_of_next hfetch rfl
  · exact hbranch true ho
  · exact hbranch false ho

theorem strides_resume {i : Nat} (hn : g.steps[n]? = some (.emit (.resume o i))) (ho : o = .queue ∨ o = .forceQueue)
    (hi : i < g.made n) (hmarks : (List.range g.steps.length).any (Step.marks g.steps i) = true) :
    g.Strides s n t l z (.emit (.resume o i)) := by
  obtain ⟨label,hfetch,hpc⟩ := h.fetch_resume_before hn hi (h.labels_target hmarks).1
  refine h.strides_transfer hp hsound htrail hn hfetch fun {l₁ u y} hkeeps _ hsteady hsound' hnext => ?_
  have hyield : Instr.ofOperands o [label] = .queue label ∨ Instr.ofOperands o [label] = .forceQueue label := by
    rcases ho with rfl | rfl
    · exact .inl rfl
    · exact .inr rfl
  obtain ⟨v,rfl,hagrees⟩ := hnext.yield hsound' hp hfetch hyield
  refine ⟨v,Step.target g.steps i,by rw [hpc],.resume rfl hsteady ?_ hkeeps (hkeeps.agrees.trans hagrees)⟩
  rintro rfl
  exact hnext.yields hsound' hfetch

theorem strides_substack (hn : g.steps[n]? = some (.substack slot)) (hslots : g.slots = expandSlots g.params b.slots)
    (hdeep : ∀ y ∈ l ++ [z], t.active.calls.length ≤ y.depth) : g.Strides s n t l z (.substack slot) := by
  obtain ⟨done,rest,hemission,hstart,hstop⟩ := h.emission_substack hn hslots
  obtain ⟨T,hstretch,hbegin,hbounds⟩ := hemission.stretch
  rw [hstart] at hbegin
  rw [hstop] at hstretch
  rw [hstart,hstop] at hbounds
  have hspans : ∀ {l : List Spot}, (∀ y ∈ l, t.active.Amidst s T (g.pc (n + 1)) y) →
      g.Spans t.active.calls.length n (.substack slot) l := by
    refine fun hall => ⟨fun y hy hdepth => ?_,fun hne => absurd rfl (hne slot)⟩
    obtain ⟨hwithin,hne⟩ := hall y hy
    obtain ⟨-,k,hT⟩ := hwithin.at_own hdepth
    exact ⟨(hbounds hT).1,Nat.lt_of_le_of_ne (hbounds hT).2 (hne hdepth)⟩
  rcases htrail.through hstretch hsound hp (.own rfl rfl hbegin ⟨rfl,rfl⟩) hdeep with
    ⟨l₁,u,l₂,rfl,hbefore,hrest,hagrees,hall⟩ | hall
  · exact .inr ⟨l₁,u,l₂,n + 1,rfl,hbefore,hrest,hspans hall,.substack hagrees⟩
  · exact .inl (hspans hall)

theorem strides (hplain : Step.arePlain g.steps = true) (hslots : g.slots = expandSlots g.params b.slots)
    (hn : g.steps[n]? = some st) (hdeep : ∀ y ∈ l ++ [z], t.active.calls.length ≤ y.depth) : g.Strides s n t l z st := by
  have hst : Step.isPlain g.steps n st = true := by
    have hall := List.all_eq_true.1 hplain n (List.mem_range.2 (lt_length hn))
    rwa [hn] at hall
  cases st with
  | input _ | number _ | text _ | condition _ | inputs => exact h.strides_value hp hsound htrail hn rfl
  | substack slot => exact h.strides_substack hp hsound htrail hn hslots hdeep
  | callSelf =>
    refine strides_straight hp hsound htrail (h.fetch_self hn) rfl fun {u} hperform hcalls hsteady => ?_
    obtain ⟨b,hb,hbuiltin⟩ := Turn.builtin_of_perform hperform
    exact .call (.inl ⟨rfl,h.builtin.symm.trans hb⟩) hbuiltin (Turn.frameTime_perform hperform) hcalls rfl hsteady
  | callEntry opcode =>
    obtain ⟨b,hb⟩ := Option.isSome_iff_exists.1 hst
    obtain ⟨id,hfetch,hid⟩ := h.fetch_entry hn hb
    refine strides_straight hp hsound htrail hfetch rfl fun {u} hperform hcalls hsteady => ?_
    obtain ⟨b',hb',hbuiltin⟩ := Turn.builtin_of_perform hperform
    cases hid.symm.trans hb'
    exact .call (.inr ⟨opcode,rfl,hb⟩) hbuiltin (Turn.frameTime_perform hperform) hcalls rfl hsteady
  | emit d =>
    cases d with
    | op o operands =>
      obtain ⟨hflushes,hi⟩ := Bool.and_eq_true_iff.1 hst
      exact strides_straight hp hsound htrail (h.fetch hn (.inl ((Bool.not_eq_true' _).mp hflushes)) rfl) hi
        fun hperform hcalls hsteady => .perform rfl rfl hperform hcalls rfl hsteady
    | pushNumber x =>
      exact strides_straight hp hsound htrail (h.fetch hn (.inl rfl) rfl) rfl
        fun hperform hcalls hsteady => .perform rfl rfl hperform hcalls rfl hsteady
    | jump o i =>
      simp only [Step.isPlain,Bool.and_eq_true,decide_eq_true_eq] at hst
      exact h.strides_jump hp hsound htrail hn hst.1.1 hst.1.2 hst.2
    | resume o i =>
      simp only [Step.isPlain,Bool.and_eq_true,decide_eq_true_eq] at hst
      exact h.strides_resume hp hsound htrail hn hst.1.1 hst.1.2 hst.2
    | label | place _ | here | visual _ => exact h.strides_mark hp hsound htrail hn rfl
    | _ => cases hst

end

end Laid

/-! Passing a block -/

/-- How a thread passes a block from the beginning of a step on: it comes out at the end, or stays in a step, or goes from
this step to another. -/
inductive Ground.Passage (g : Ground) (s : Script) : Nat → Turn → List Spot → Spot → Prop
  | out (t : Turn) : Passage g s g.steps.length t [] ⟨t,s,g.stop⟩
  | within {n : Nat} {t : Turn} {l : List Spot} {z : Spot} {st : Step} (hn : g.steps[n]? = some st)
      (htrail : Trail ⟨t,s,g.pc n⟩ l z) (hin : g.Spans t.active.calls.length n st (l ++ [z])) : Passage g s n t l z
  | step {n n' : Nat} {t u : Turn} {l l' : List Spot} {z : Spot} {st : Step} (hn : g.steps[n]? = some st)
      (htrail : Trail ⟨t,s,g.pc n⟩ l ⟨u,s,g.pc n'⟩) (hin : g.Spans t.active.calls.length n st l)
      (hleads : g.Leads s n t l u st n') (rest : Passage g s n' u l' z) : Passage g s n t (l ++ l') z

namespace Ground.Leads

variable {g : Ground} {s : Script} {n n' : Nat} {t u : Turn} {l : List Spot} {st : Step}

theorem calls (h : g.Leads s n t l u st n') : u.active.calls = t.active.calls := by
  cases h with
  | value _ hkeeps | mark _ hkeeps | jump hkeeps | branch _ _ hkeeps => exact hkeeps.agrees.calls
  | perform _ _ _ hcalls | call _ _ _ hcalls => exact hcalls
  | resume _ _ _ _ hagrees | substack hagrees => exact hagrees.calls

theorem moves (h : g.Leads s n t l u st n') : n' = n + 1 ∨ l ≠ [] := by
  cases h with
  | jump _ _ hl | branch _ _ _ _ _ hl => exact .inr hl
  | resume hl => exact .inr (by rw [hl]; simp)
  | _ => exact .inl rfl

/-! What each kind of step does -/

theorem of_value (h : g.Leads s n t l u st n') (hst : st.isValue = true) : n' = n + 1 ∧ t.Keeps u ∧ Steady l ∧
    ∀ slot, st = .number slot → ∃ x rest, u.active.stack = .number x :: rest := by
  cases h with
  | value _ hkeeps hsteady hnumber => exact ⟨rfl,hkeeps,hsteady,hnumber⟩
  | call hb => rcases hb with ⟨rfl,-⟩ | ⟨opcode,rfl,-⟩ <;> cases hst
  | _ => cases hst

variable {d : Directive} {o : Opcode} {i : Nat}

theorem of_written {i : Instr} (h : g.Leads s n t l u (.emit d) n') (hd : Step.isWritten d = true)
    (hi : (g.upTo n).written s d = some i) :
    n' = n + 1 ∧ Turn.perform s i t = .ok () u ∧ l = [⟨t,s,g.pc n⟩] ∧ Steady l := by
  cases h with
  | value hst => cases hst
  | perform _ hi' hperform _ hl hsteady =>
    cases hi.symm.trans hi'
    exact ⟨rfl,hperform,hl,hsteady⟩
  | call hb => rcases hb with ⟨hb,-⟩ | ⟨opcode,hb,-⟩ <;> cases hb
  | mark hd' => cases d <;> first | (cases hd; done) | cases hd'
  | _ => cases hd

theorem of_op {operands : List UInt32} (h : g.Leads s n t l u (.emit (.op o operands)) n') :
    n' = n + 1 ∧ Turn.perform s (.ofOperands o operands) t = .ok () u ∧ l = [⟨t,s,g.pc n⟩] ∧ Steady l :=
  h.of_written rfl rfl

theorem of_mark (h : g.Leads s n t l u (.emit d) n') (hd : Step.isMark d = true) : n' = n + 1 ∧ t.Keeps u ∧
    u.active.stack = t.active.stack ∧ Steady l := by
  cases h with
  | value hst => cases hst
  | perform hw => cases d <;> first | (cases hw; done) | cases hd
  | call hb => rcases hb with ⟨hb,-⟩ | ⟨opcode,hb,-⟩ <;> cases hb
  | mark _ hkeeps hstack hsteady => exact ⟨rfl,hkeeps,hstack,hsteady⟩
  | _ => cases hd

theorem of_branch (wanted : Bool) (h : g.Leads s n t l u (.emit (.jump o i)) n')
    (ho : o = if wanted then .jumpIfTrue else .jumpIfFalse) :
    ∃ v rest, t.active.stack = v :: rest ∧ t.Keeps u ∧ Steady l ∧
      n' = if v.toBool = wanted then Step.target g.steps i else n + 1 := by
  cases h with
  | value hst => cases hst
  | perform hw => cases hw
  | call hb => rcases hb with ⟨hb,-⟩ | ⟨opcode,hb,-⟩ <;> cases hb
  | mark hd => cases hd
  | jump => cases wanted <;> cases ho
  | @branch _ _ wanted' v rest ho' hstack hkeeps hrest hsteady =>
    obtain rfl : wanted' = wanted := by
      rw [ho] at ho'
      cases wanted <;> cases wanted' <;> first | rfl | cases ho'
    exact ⟨v,rest,hstack,hkeeps,hsteady,rfl⟩

theorem of_resume (h : g.Leads s n t l u (.emit (.resume o i)) n') : n' = Step.target g.steps i ∧
    t.active.Agrees u.active ∧ ∃ l' v pc, l = l' ++ [⟨v,s,pc⟩] ∧ Steady l' ∧ t.Keeps v ∧
      (o = .forceQueue → Spot.Yields ⟨v,s,pc⟩) := by
  cases h with
  | value hst => cases hst
  | perform hw => cases hw
  | call hb => rcases hb with ⟨hb,-⟩ | ⟨opcode,hb,-⟩ <;> cases hb
  | mark hd => cases hd
  | resume hl hsteady hyields hkeeps hagrees => exact ⟨rfl,hagrees,_,_,_,hl,hsteady,hkeeps,hyields⟩

theorem of_substack {slot : String} (h : g.Leads s n t l u (.substack slot) n') : n' = n + 1 ∧ t.active.Agrees u.active := by
  cases h with
  | value hst => cases hst
  | call hb => rcases hb with ⟨hb,-⟩ | ⟨opcode,hb,-⟩ <;> cases hb
  | substack hagrees => exact ⟨rfl,hagrees⟩

theorem of_call (h : g.Leads s n t l u st n') {b : Builtin} (hb : st = .callSelf ∧ g.entry.builtin = some b ∨
    ∃ opcode, st = .callEntry opcode ∧ Palette.helper? opcode = some b) : n' = n + 1 ∧ Turn.builtin b t = .ok () u ∧
      u.machine.frameTime = t.machine.frameTime ∧ u.active.calls = t.active.calls ∧ l = [⟨t,s,g.pc n⟩] ∧ Steady l := by
  cases h with
  | value hst => rcases hb with ⟨rfl,-⟩ | ⟨opcode,rfl,-⟩ <;> cases hst
  | @call _ b' hb' hperform htime hcalls hl hsteady =>
    obtain rfl : b' = b := by
      rcases hb with ⟨rfl,hb⟩ | ⟨opcode,rfl,hb⟩ <;> rcases hb' with ⟨heq,hb'⟩ | ⟨opcode',heq,hb'⟩ <;> cases heq
      · exact Option.some.inj (hb'.symm.trans hb)
      · exact Option.some.inj (hb'.symm.trans hb)
    exact ⟨rfl,hperform,htime,hcalls,hl,hsteady⟩
  | _ => rcases hb with ⟨hb,-⟩ | ⟨opcode,hb,-⟩ <;> cases hb

end Ground.Leads

/-- Control that goes on in a recipe comes to a step of it, or to its end. -/
theorem Ground.Leads.le {n' : Nat} (h : g.Leads s n t l u st n') (hlaid : Laid s g after)
    (hplain : Step.arePlain g.steps = true) (hn : g.steps[n]? = some st) : n' ≤ g.steps.length := by
  have hlt := Laid.lt_length hn
  have hst : Step.isPlain g.steps n st = true := by
    have hall := List.all_eq_true.1 hplain n (List.mem_range.2 hlt)
    rwa [hn] at hall
  cases h with
  | jump | branch =>
    simp only [Step.isPlain,Bool.and_eq_true] at hst
    have htarget := (hlaid.labels_target hst.2).2
    first | exact htarget | (split <;> omega)
  | resume =>
    simp only [Step.isPlain,Bool.and_eq_true] at hst
    exact (hlaid.labels_target hst.2).2
  | _ => exact hlt

theorem Ground.pc_le (g : Ground) {m : Nat} (hle : m ≤ n) : g.pc m ≤ g.pc n := by
  refine monotone_nat_of_le_succ (fun n => ?_) hle
  cases hn : g.steps[n]? with
  | none =>
    have hsame : g.upTo (n + 1) = g.upTo n := by simp [upTo,List.take_add_one,hn]
    rw [pc,pc,hsame]
  | some st =>
    rw [pc,pc,upTo_succ hn]
    exact (Emitter.run_grows _ _).size

theorem Laid.passage {s : Script} {g : Ground} {after : List Directive} (h : Laid s g after) {p : Program} {c : Settings}
    (hp : p.Sound) (hplain : Step.arePlain g.steps = true) {b : Block} (hslots : g.slots = expandSlots g.params b.slots)
    {n : Nat} {t : Turn} {l : List Spot} {z : Spot} (hn : n ≤ g.steps.length) (htrail : Trail ⟨t,s,g.pc n⟩ l z)
    (hsound : (Phase.turn t s (g.pc n)).Sound p c) (hdeep : ∀ y ∈ l ++ [z], t.active.calls.length ≤ y.depth)
    (hbefore : ∀ y ∈ l, ¬ y.isAt t.active.calls.length g.stop = true) : g.Passage s n t l z := by
  rcases Nat.eq_or_lt_of_le hn with rfl | hlt
  · rcases htrail.ends_or_leaves with ⟨rfl,rfl⟩ | ⟨y,l',rfl,-⟩
    · exact .out t
    · exact absurd (Spot.isAt_iff.2 ⟨rfl,rfl⟩) (hbefore _ List.mem_cons_self)
  · have hget : g.steps[n]? = some g.steps[n] := List.getElem?_eq_getElem hlt
    rcases h.strides hp hsound htrail hplain hslots hget hdeep with
      hin | ⟨l₁,u,l₂,n',hl,hfirst,hrest,hin,hleads⟩
    · exact .within hget htrail hin
    · rw [hl]
      have hcalls := hleads.calls
      refine .step hget hfirst hin hleads (h.passage hp hplain hslots (hleads.le h hplain hget) hrest (hfirst.sound hsound hp) ?_ ?_)
      · rw [hcalls]
        exact fun y hy => hdeep y (by simp_all)
      · rw [hcalls]
        exact fun y hy => hbefore y (by simp_all)
termination_by (l.length,g.steps.length - n)
decreasing_by
  rw [Prod.lex_def,hl,List.length_append]
  rcases hleads.moves with rfl | hne
  · omega
  · have hpos := List.length_pos_iff.2 hne
    exact .inl (by omega)

/-- What holds at the beginning of the steps of a block as each of them needs it holds at the end of the block, or at the
beginning of the step in which a thread is. -/
theorem Ground.Passage.follow {z : Spot} {I : Nat → List Spot → Turn → Prop} (h : g.Passage s n t l z) {whole : List Spot}
    (hstep : ∀ {n n' : Nat} {t u : Turn} {st : Step} {l k : List Spot}, t.active.calls.length = depth → g.steps[n]? = some st →
      (∀ y ∈ l, y ∈ whole) → I n k t → Trail ⟨t,s,g.pc n⟩ l ⟨u,s,g.pc n'⟩ →
      g.Spans depth n st l → g.Leads s n t l u st n' → I n' (k ++ l) u)
    (hdepth : t.active.calls.length = depth) {k : List Spot} (hwhole : ∀ y ∈ l, y ∈ whole) (hI : I n k t) :
    (z = ⟨z.turn,s,g.stop⟩ ∧ I g.steps.length (k ++ l) z.turn) ∨ ∃ n' k' u l' st, k ++ l = k' ++ l' ∧ I n' k' u ∧
      g.steps[n']? = some st ∧ Trail ⟨u,s,g.pc n'⟩ l' z ∧ g.Spans depth n' st (l' ++ [z]) := by
  induction h generalizing k with
  | out t =>
    rw [List.append_nil]
    exact .inl ⟨rfl,hI⟩
  | within hn htrail hin => exact .inr ⟨_,k,_,_,_,rfl,hI,hn,htrail,hdepth ▸ hin⟩
  | step hn htrail hin hleads rest ih =>
    obtain ⟨hl,hrest⟩ := List.forall_mem_append.1 hwhole
    have hend := ih (by rw [hleads.calls,hdepth]) hrest (hstep hdepth hn hl hI htrail (hdepth ▸ hin) hleads)
    rwa [List.append_assoc] at hend

theorem Ground.Spans.not_ends {z : Spot} (h : g.Spans depth n st (l ++ [z])) (hn : g.steps[n]? = some st) :
    ¬ z.isAt depth g.stop = true := by
  intro hz
  obtain ⟨hdepth,hpc⟩ := Spot.isAt_iff.1 hz
  have hlt := (h.1 z (by simp) hdepth).2
  have hle : g.pc (n + 1) ≤ g.stop := g.pc_le (Laid.lt_length hn)
  omega

/-! The first thread of a project passes its first block -/

/-- The first script of the stage is a block. After the flag was clicked, its thread comes to the end of the block. -/
structure Project.Passes (project : Project) (b : Block) (p : Program) (t : Turn) (s : Script) (g : Ground) (l : List Spot)
    (z : Spot) : Prop where
  compiles : compile project = .ok p
  small : p.Small
  lays : s.Lays [] b g
  reached : Phase.Steps (.idle (Machine.ofProgram p shallow {})) (.turn t s g.start)
  trail : Trail ⟨t,s,g.start⟩ l z
  deep : ∀ y ∈ l ++ [z], t.active.calls.length ≤ y.depth
  before : ∀ y ∈ l, ¬ y.isAt t.active.calls.length g.stop = true
  ends : z.isAt t.active.calls.length g.stop = true

/-- A run of the first thread comes to the end of the block, and something holds of the spots on the way. -/
def Project.Tries (project : Project) (b : Block) (P : Turn → Ground → List Spot → Prop) : Prop :=
  ∃ p ∈ (compile project).toOption, p.isSmall ∧ ∃ e ∈ Palette.find? b.opcode,
  ∃ script ∈ (Compile.script stageEmitter.symbols "Stage #0" [] [b] .finish 0).toOption,
  ∃ x ∈ (flagFrame p).turnAfter? 0 0, x.2 = (script.1,(b.firstGround e).start) ∧
  ∃ y ∈ Spot.trail? (fun y => x.1.active.calls.length ≤ y.depth && !y.isAt x.1.active.calls.length (b.firstGround e).stop) 60 200
    ⟨x.1,script.1,(b.firstGround e).start⟩, y.2.isAt x.1.active.calls.length (b.firstGround e).stop ∧
  P x.1 (b.firstGround e) y.1

theorem Project.Tries.passes {project : Project} {b : Block} {P : Turn → Ground → List Spot → Prop} (h : project.Tries b P)
    (hcode : expandStack [] [b] = (expand [] b).statement) : ∃ p t s g l z, project.Passes b p t s g l z ∧ P t g l := by
  obtain ⟨p,hp,hsmall,e,hfind,⟨s,after⟩,hscript,⟨t,_⟩,hturn,rfl,⟨l,z⟩,htrail,hz,hP⟩ := h
  have hcompile := Except.mem_toOption.1 hp
  have hsmall := Program.small_of_isSmall hsmall
  have hprogram := compile_sound hcompile hsmall
  have hreach := (steps_flagFrame p).trans (Machine.resumption_of_turnAfter hturn).steps
  obtain ⟨htrail,hl⟩ := Spot.trail_of_trail? htrail (Phase.Steps.sound_ofProgram hreach hprogram) hprogram
  have hinside := fun y hy => by simpa using hl y hy
  refine ⟨p,t,s,_,l,z,⟨hcompile,hsmall,?_,hreach,htrail,fun y hy => ?_,fun y hy => ?_,hz⟩,hP⟩
  · exact ⟨_,_,_,_,_,_,[],[],_,_,.inl rfl,Except.mem_toOption.1 hscript,by rw [hcode]; simp,hfind,rfl⟩
  · rcases List.mem_append.1 hy with hy | hy
    · exact (hinside y hy).1
    · rw [List.mem_singleton.1 hy,(Spot.isAt_iff.1 hz).1]
  · simpa using (hinside y hy).2

end SpriteMachine
