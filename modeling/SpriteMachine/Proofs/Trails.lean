import SpriteMachine.Proofs.Asking
import SpriteMachine.Proofs.Expressions

/-!
The places that a thread passes, one instruction after the other, over yields and calls. In the code of blocks they are
a stretch of its way: the thread stays in the code, or comes to the end of it with its frame and its locals as they were.
-/

namespace SpriteMachine

/-- Where a thread is. -/
structure Spot where
  turn : Turn
  script : Script
  pc : Nat

variable {s : Script} {next n pc fuel : Nat} {i : Instr} {a : Activation} {T : Nat → Nat → Prop} {first : Emitter}
  {before body done rest : List Directive} {params : List String} {p : Program} {c : Settings}

theorem Move.calls_eq {r : Script} {q : Nat} {b : Activation} (h : Move s next i a b r q) (hi : i.isStraight = true) :
    b.calls = a.calls := by
  cases h with
  | within _ hcalls | label _ hcalls => exact hcalls
  | enters hcall =>
    subst hcall
    cases hi
  | returns hend => rcases hend with rfl | ⟨mode,rfl⟩ <;> cases hi

theorem Activation.Agrees.trans {a b c : Activation} (h : a.Agrees b) (h' : b.Agrees c) : a.Agrees c :=
  ⟨h'.calls.trans h.calls,h'.frame.trans h.frame,h'.locals.trans h.locals⟩

namespace Spot

def phase (x : Spot) : Phase :=
  .turn x.turn x.script x.pc

/-- In how many calls the thread is. -/
def depth (x : Spot) : Nat :=
  x.turn.active.calls.length

/-- A thread is at an offset, in a frame that is so many calls deep. -/
def isAt (x : Spot) (depth pc : Nat) : Bool :=
  x.depth = depth ∧ x.pc = pc

theorem isAt_iff {x : Spot} {depth pc : Nat} : x.isAt depth pc = true ↔ x.depth = depth ∧ x.pc = pc :=
  decide_eq_true_iff

/-- A thread performs an instruction and goes on at once, or it yields and is taken up again, whatever happens in
between. -/
inductive Next : Spot → Spot → Prop
  | advance {t u : Turn} {s r : Script} {pc q : Nat} (hadvance : Machine.advance t s pc = .going u r q) :
      Next ⟨t,s,pc⟩ ⟨u,r,q⟩
  | resume {t : Turn} {s : Script} {pc i j : Nat} {m m' : Machine} {a : Activation} {k : Continuation}
      (hadvance : Machine.advance t s pc = .halted (.done m a)) (hslot : t.active.slot = some i)
      (hk : a.requeue = some k) (hsteps : Phase.Steps (.frame (m.putBack i a)) (.frame m'))
      (hj : m'.queue[j]? = some (some (a.toThread k))) :
      Next ⟨t,s,pc⟩ ⟨⟨m'.setSlot j (some (a.toThread k).shell),a.resumed j⟩,k.script,k.pc⟩

variable {x y : Spot} {p : Program} {c : Settings}

theorem Next.steps (h : x.Next y) : Phase.Steps x.phase y.phase := by
  have hfollows : x.turn.Follows (fun _ _ => True) x.script x.pc y.turn y.script y.pc := by
    cases h with
    | advance hadvance => exact .advance .here trivial hadvance
    | resume hadvance hslot hk hsteps hj => exact .resume .here trivial hadvance hslot hk hsteps hj
  exact hfollows.steps

theorem Next.move (h : x.Next y) (hsound : x.phase.Sound p c) (hp : p.Sound) : ∃ i next,
    x.script.fetch x.pc = .ok (i,next) ∧ Move x.script next i x.turn.active y.turn.active y.script y.pc := by
  cases h with
  | advance hadvance => exact Turn.Sound.move_going hsound hadvance
  | resume hadvance _ hk => exact Turn.Sound.move_resumed hsound hp hadvance hk _

section Instructions

variable {t : Turn} {s : Script} {pc next : Nat} {i : Instr} {label : UInt32}

theorem Next.straight (h : Next ⟨t,s,pc⟩ y) (hfetch : s.fetch pc = .ok (i,next)) (hi : i.isStraight = true) :
    ∃ u, Turn.perform s i t = .ok () u ∧ y = ⟨u,s,next⟩ := by
  cases h with
  | advance hadvance =>
    obtain ⟨rfl,rfl,hperform⟩ := Machine.advance_straight hfetch hi hadvance
    exact ⟨_,hperform,rfl⟩
  | resume hadvance => exact absurd hadvance (Machine.not_done_of_straight hfetch hi)

theorem Next.plain (h : Next ⟨t,s,pc⟩ y) (hsound : (Phase.turn t s pc).Sound p c) (hp : p.Sound)
    (hfetch : s.fetch pc = .ok (i,next)) (hi : i.isStraight = true) (hsets : i.setsLocals = false) (hsave : i ≠ .save)
    (hrestore : i ≠ .restore) : ∃ u, Turn.perform s i t = .ok () u ∧ y = ⟨u,s,next⟩ ∧ t.active.Agrees u.active := by
  obtain ⟨u,hperform,rfl⟩ := h.straight hfetch hi
  obtain ⟨i',next',hfetch',hmove⟩ := h.move hsound hp
  have heq : (i,next) = (i',next') := Except.ok.inj (hfetch.symm.trans hfetch')
  cases heq
  exact ⟨u,hperform,rfl,hmove.agrees hi hsets hsave hrestore⟩

theorem Next.jumpIf {wanted : Bool} {target : UInt32} {v : Value} {rest : List Value} (h : Next ⟨t,s,pc⟩ y)
    (hfetch : s.fetch pc = .ok (.jumpIf wanted target,next)) (hstack : t.active.stack = v :: rest) :
    y = ⟨t.withStack rest,s,if v.toBool = wanted then target.toNat else next⟩ := by
  have hexec : Turn.exec s next (.jumpIf wanted target) t = _ := Turn.exec_jumpIf hstack wanted target
  cases h with
  | advance hadvance =>
    rcases Machine.advance_going hfetch hadvance with ⟨hexec',rfl⟩ | ⟨v,k,hexec',-⟩
    · rw [hexec] at hexec'
      cases hexec'
      rfl
    · rw [hexec] at hexec'
      cases hexec'
  | resume hadvance =>
    have hexec' := (Machine.advance_done hfetch hadvance).1
    rw [hexec] at hexec'
    cases hexec'

/-- A thread that yields, or would if it did not run without yielding, goes on at the label in the same frame. -/
theorem Next.yield (h : Next ⟨t,s,pc⟩ y) (hsound : (Phase.turn t s pc).Sound p c) (hp : p.Sound)
    (hfetch : s.fetch pc = .ok (i,next)) (hi : i = .queue label ∨ i = .forceQueue label) :
    ∃ u, y = ⟨u,s,Continuation.pc ⟨s,label⟩⟩ ∧ t.active.Agrees u.active := by
  obtain ⟨i',next',hfetch',hmove⟩ := h.move hsound hp
  have heq : (i,next) = (i',next') := Except.ok.inj (hfetch.symm.trans hfetch')
  cases heq
  obtain ⟨u,r,q⟩ := y
  obtain ⟨hr,hq,hagrees⟩ := hmove.of_yield hi
  exact ⟨u,congrArg₂ (Spot.mk u) hr hq,hagrees⟩

end Instructions

end Spot

/-- The places that a thread leaves behind on its way from one to another. -/
inductive Trail : Spot → List Spot → Spot → Prop
  | here (x : Spot) : Trail x [] x
  | step {x y z : Spot} {l : List Spot} (h : x.Next y) (rest : Trail y l z) : Trail x (x :: l) z

namespace Trail

variable {x y z : Spot} {l l' : List Spot} {p : Program} {c : Settings}

theorem steps (h : Trail x l z) : Phase.Steps x.phase z.phase := by
  induction h with
  | here => exact .refl
  | step h _ ih => exact h.steps.trans ih

theorem sound (h : Trail x l z) (hx : x.phase.Sound p c) (hp : p.Sound) : z.phase.Sound p c :=
  h.steps.sound hx hp

theorem append (h : Trail x l y) (h' : Trail y l' z) : Trail x (l ++ l') z := by
  induction h with
  | here => exact h'
  | step h _ ih => exact .step h (ih h')

theorem cons_eq (h : Trail x l z) (l' : List Spot) : ∃ k, l ++ z :: l' = x :: k := by
  cases h with
  | here => exact ⟨l',rfl⟩
  | step => exact ⟨_,rfl⟩

theorem ends_or_leaves (h : Trail x l z) : l = [] ∧ z = x ∨ ∃ y l', l = x :: l' ∧ x.Next y ∧ Trail y l' z := by
  cases h with
  | here => exact .inl ⟨rfl,rfl⟩
  | step h rest => exact .inr ⟨_,_,rfl,h,rest⟩

end Trail

/-! Stretches of code -/

/-- Control that is in a stretch of code goes on in it until it comes to the end, where what was saved in it is
restored. -/
structure Script.Stretch (s : Script) (T : Nat → Nat → Prop) (stop : Nat) : Prop where
  steps : ∀ {pc n : Nat}, T pc n → pc ≠ stop → ∃ i next, s.fetch pc = .ok (i,next) ∧ i.Stays s T next n
  finish : ∀ {n : Nat}, T stop n → n = 0

theorem Instr.Stays.mono {T' : Nat → Nat → Prop} (h : i.Stays s T next n) (hT : ∀ {pc n : Nat}, T pc n → T' pc n) :
    i.Stays s T' next n := by
  cases i with
  | save | jump target => exact hT h
  | restore =>
    obtain ⟨k,hk,h⟩ := h
    exact ⟨k,hk,hT h⟩
  | jumpIf wanted target => exact ⟨hT h.1,hT h.2⟩
  | queue label | forceQueue label | call procedure argc label =>
    obtain ⟨pc,hpc,h⟩ := h
    exact ⟨pc,hpc,hT h⟩
  | finish | endCall => trivial
  | _ => exact ⟨hT h.1,h.2⟩

theorem Script.Stretch.empty (s : Script) (stop : Nat) : s.Stretch (fun pc n => pc = stop ∧ n = 0) stop where
  steps hT hne := absurd hT.1 hne
  finish hT := hT.2

theorem Portion.stretch {after : List Directive} (h : Portion s first before body after) :
    s.Stretch (Inside first before body) (finish first before body) where
  steps hT hne := (h.steps hT).resolve_left fun hfinish => hne hfinish.1
  finish hT := h.inside_finish hT

theorem Portion.inside_bounds (h : Inside first before body pc n) :
    (first.run before).pc ≤ pc ∧ pc ≤ finish first before body := by
  obtain ⟨done,rest,r,rfl,-,-,hpc⟩ := h
  have hlow : (first.run before).pc ≤ (first.run (before ++ .enter :: done)).pc := pc_le_run first before _
  rcases hpc with rfl | ⟨d,rest',rfl,rfl⟩
  · refine ⟨hlow,?_⟩
    have hhigh := pc_le_run first (before ++ .enter :: done) rest
    rwa [List.append_assoc,List.cons_append] at hhigh
  · have hgrows := Emitter.before_grows (first.run (before ++ .enter :: done)) d
    have hbefore := Emitter.before_le_step (first.run (before ++ .enter :: done)) d
    have hhigh := pc_le_run first (before ++ .enter :: (done ++ [d])) rest'
    have hstep : (first.run (before ++ .enter :: (done ++ [d]))) = (first.run (before ++ .enter :: done)).step d := by
      rw [← List.cons_append,← List.append_assoc,Emitter.run_append]
      rfl
    rw [hstep,List.append_assoc,List.cons_append,List.append_assoc] at hhigh
    exact ⟨hlow.trans hgrows.size,hbefore.trans hhigh⟩

theorem Emission.stretch_statement {b : Block} (h : Emission s first (done ++ ((expand params b).statement ++ rest))) :
    ∃ T, s.Stretch T (first.run (done ++ (expand params b).statement)).pc ∧ T (first.run done).pc 0 ∧
      ∀ {pc n : Nat}, T pc n → (first.run done).pc ≤ pc ∧ pc ≤ (first.run (done ++ (expand params b).statement)).pc := by
  rcases statement_cases params b with ⟨message,heq⟩ | ⟨body,heq,hpasses⟩
  · -- nothing is written for a block that is not known
    have hpc : (first.run (done ++ [.warn message])).pc = (first.run done).pc := by
      rw [Emitter.run_append]
      rfl
    rw [heq,hpc]
    exact ⟨_,.empty s _,⟨rfl,rfl⟩,fun hT => ⟨hT.1.ge,hT.1.le⟩⟩
  · have hportion : Portion s first done body rest := by
      refine ⟨?_,hpasses⟩
      rw [heq] at h
      simpa only [List.cons_append,List.append_assoc,List.nil_append] using h
    rw [heq,(Portion.run_finish first done body).1]
    exact ⟨Inside first done body,hportion.stretch,Portion.inside_start first done body,Portion.inside_bounds⟩

theorem Emission.stretch {blocks : List Block} (h : Emission s first (done ++ (expandStack params blocks ++ rest))) :
    ∃ T, s.Stretch T (first.run (done ++ expandStack params blocks)).pc ∧ T (first.run done).pc 0 ∧
      ∀ {pc n : Nat}, T pc n → (first.run done).pc ≤ pc ∧ pc ≤ (first.run (done ++ expandStack params blocks)).pc := by
  induction blocks generalizing done with
  | nil =>
    have hstack : expandStack params [] = [] := rfl
    rw [hstack,List.append_nil]
    exact ⟨_,.empty s _,⟨rfl,rfl⟩,fun hT => ⟨hT.1.ge,hT.1.le⟩⟩
  | cons b blocks ih =>
    rw [expandStack_cons] at h ⊢
    rw [List.append_assoc] at h
    obtain ⟨T,hT,hstart,hbounds⟩ := h.stretch_statement
    rw [← List.append_assoc] at h
    obtain ⟨T',hT',hstart',hbounds'⟩ := ih h
    rw [List.append_assoc] at hT' hbounds'
    refine ⟨fun pc n => T pc n ∨ T' pc n,⟨?_,?_⟩,.inl hstart,?_⟩
    · intro pc n hpc hne
      have hrest : T' pc n → ∃ i next, s.fetch pc = .ok (i,next) ∧ i.Stays s (fun pc n => T pc n ∨ T' pc n) next n := by
        intro hpc
        obtain ⟨i,next,hfetch,hstays⟩ := hT'.steps hpc hne
        exact ⟨i,next,hfetch,hstays.mono .inr⟩
      rcases hpc with hpc | hpc
      · by_cases hend : pc = (first.run (done ++ (expand params b).statement)).pc
        · -- the next block begins
          subst hend
          obtain rfl := hT.finish hpc
          exact hrest hstart'
        · obtain ⟨i,next,hfetch,hstays⟩ := hT.steps hpc hend
          exact ⟨i,next,hfetch,hstays.mono .inl⟩
      · exact hrest hpc
    · rintro n (hpc | hpc)
      · have hend := Nat.le_antisymm (hbounds hpc).2 (hbounds' hstart').2
        rw [hend] at hpc
        exact hT.finish hpc
      · exact hT'.finish hpc
    · rintro pc n (hpc | hpc)
      · obtain ⟨hlow,hhigh⟩ := hbounds hpc
        exact ⟨hlow,hhigh.trans (hbounds' hstart').2⟩
      · obtain ⟨hlow,hhigh⟩ := hbounds' hpc
        exact ⟨(hbounds hstart).2.trans hlow,hhigh⟩

def Block.stackIn (b : Block) (slot : String) : List Block :=
  ((b.slot? slot).map Slot.blocks).getD []

theorem substackCode_eq (params : List String) (b : Block) (slot : String) :
    SlotCode.substackCode (stepCode.find (expandSlots params b.slots) slot) = expandStack params (b.stackIn slot) := by
  have hfind : stepCode.find (expandSlots params b.slots) slot = (b.slot? slot).map (expandSlot params) :=
    find_expandSlots params b.slots slot
  rw [hfind,Block.stackIn]
  cases b.slot? slot with
  | none => rfl
  | some s =>
    obtain ⟨name,blocks,shadow⟩ := s
    rfl

/-- Code that only reads and computes stands between two offsets. -/
structure Script.Computes (s : Script) (C : Nat → Prop) (start stop : Nat) : Prop where
  begins : C start
  steps : ∀ {pc : Nat}, C pc → pc = stop ∨ ∃ i next, s.fetch pc = .ok (i,next) ∧ i.isQuery = true ∧ C next
  bounded : ∀ {pc : Nat}, C pc → start ≤ pc ∧ pc ≤ stop

theorem Script.Computes.stretch {C : Nat → Prop} {start stop : Nat} (h : s.Computes C start stop) :
    s.Stretch (fun pc n => C pc ∧ n = 0) stop where
  steps := by
    rintro pc n ⟨hpc,rfl⟩ hne
    obtain ⟨i,next,hfetch,hi,hnext⟩ := (h.steps hpc).resolve_left hne
    refine ⟨i,next,hfetch,?_⟩
    have hsets := (Instr.plain_of_isQuery hi).1
    have hplain : (C next ∧ 0 = 0) ∧ (i.setsLocals = true → 0 < 0) :=
      ⟨⟨hnext,rfl⟩,fun hset => by rw [hsets] at hset; cases hset⟩
    cases i with
    | save | restore | jump _ | jumpIf _ _ | queue _ | forceQueue _ | call _ _ _ | finish | endCall => cases hi
    | _ => exact hplain
  finish hT := hT.2

theorem Emission.computes {ds : List Directive} (h : Emission s first (done ++ (ds ++ rest))) (hds : IsQuery ds) :
    s.Computes (Amid first done ds) (first.run done).pc (first.run (done ++ ds)).pc where
  begins := ⟨[],ds,rfl,by rw [List.append_nil]⟩
  steps hpc := h.steps_query hds hpc
  bounded := by
    rintro pc ⟨ds₁,ds₂,rfl,rfl⟩
    rw [← List.append_assoc]
    exact ⟨Portion.pc_le_run first done ds₁,Portion.pc_le_run first (done ++ ds₁) ds₂⟩

/-- The code of a block of a known kind stands in a script. -/
def Script.Lays (s : Script) (params : List String) (b : Block) (g : Ground) : Prop :=
  ∃ symbols name blocks o id after pre post e eid, Compile.Ends o ∧
    Compile.script symbols name params blocks o id = .ok (s,after) ∧
    expandStack params blocks = pre ++ ((expand params b).statement ++ post) ∧
    Palette.find? b.opcode = some (e,eid) ∧ g = .ofBlock symbols name params pre b e eid

/-- Where the code of a block begins. -/
def Ground.start (g : Ground) : Nat :=
  g.pc 0

/-- Where the code of a block ends. -/
def Ground.stop (g : Ground) : Nat :=
  g.pc g.steps.length

/-- The code of a step of a block stands between two offsets. -/
def Ground.Between (g : Ground) (st : Step) (start stop : Nat) : Prop :=
  ∃ n, g.steps[n]? = some st ∧ start = g.pc n ∧ stop = g.pc (n + 1)

theorem Script.Lays.laid {s : Script} {params : List String} {b : Block} {g : Ground} (h : s.Lays params b g)
    (hsmall : s.code.size < 2 ^ 32) {e : Entry} (he : e ∈ Palette.entries.toList) (hopcode : b.opcode = e.opcode)
    (hreporter : e.reporter = false) (hflat : (e.steps ⟨b,params⟩).all Step.isFlat = true) :
    g.params = params ∧ g.slots = expandSlots params b.slots ∧ g.steps = e.steps ⟨b,params⟩ ∧ ∃ after, Laid s g after := by
  obtain ⟨symbols,name,blocks,o,id,symbols',pre,post,e',eid,ho,hs,hblocks,hfind,rfl⟩ := h
  have hemission := (Compile.emission hs ho hsmall).1
  rw [hblocks,List.append_assoc,List.append_assoc] at hemission
  obtain ⟨id',hfind',hlaid,-⟩ := hemission.laid he hopcode hreporter hflat
  rw [hopcode,hfind'] at hfind
  cases hfind
  exact ⟨rfl,rfl,rfl,_,hlaid⟩

namespace Laid

variable {s : Script} {g : Ground} {after : List Directive} {n : Nat} {st : Step}

theorem emission_code (h : Laid s g after) (hn : g.steps[n]? = some st) : ∃ done rest,
    Emission s g.first (done ++ (g.code st ++ rest)) ∧ (g.first.run done).pc = g.pc n ∧
      (g.first.run (done ++ g.code st)).pc = g.pc (n + 1) := by
  have hemission := h.emission_at n
  rw [drop_eq hn,List.flatMap_cons,List.append_assoc (g.code st)] at hemission
  refine ⟨_,_,hemission,rfl,?_⟩
  rw [Ground.pc,Ground.upTo_succ hn,Emitter.run_append]
  rfl

theorem emission_substack (h : Laid s g after) {slot : String} (hn : g.steps[n]? = some (.substack slot)) {b : Block}
    (hslots : g.slots = expandSlots g.params b.slots) : ∃ done rest,
    Emission s g.first (done ++ (expandStack g.params (b.stackIn slot) ++ rest)) ∧ (g.first.run done).pc = g.pc n ∧
      (g.first.run (done ++ expandStack g.params (b.stackIn slot))).pc = g.pc (n + 1) := by
  have hcode : g.code (.substack slot) = expandStack g.params (b.stackIn slot) := by
    rw [← substackCode_eq,← hslots]
    rfl
  rw [← hcode]
  exact h.emission_code hn

end Laid

/-! Threads in a stretch of code -/

namespace Activation.Within

variable {a b : Activation} {s r : Script} {T : Nat → Nat → Prop} {stop q : Nat}

theorem at_stop (h : a.Within s T b r q) (hs : s.Stretch T stop) (hcalls : b.calls.length = a.calls.length)
    (hq : q = stop) : r = s ∧ a.Agrees b := by
  cases h with
  | own hcalls' hframe hT hunder =>
    subst hq
    obtain rfl := hs.finish hT
    obtain ⟨hlocals,hsaved⟩ := hunder
    refine ⟨rfl,hcalls',?_,hlocals⟩
    rw [hframe,hsaved]
  | called hcalls' =>
    have hlength := congrArg List.length hcalls'
    rw [List.length_append,List.length_cons] at hlength
    omega

theorem at_own (h : a.Within s T b r q) (hcalls : b.calls.length = a.calls.length) : r = s ∧ ∃ n, T q n := by
  cases h with
  | own _ _ hT _ => exact ⟨rfl,_,hT⟩
  | called hcalls' =>
    have hlength := congrArg List.length hcalls'
    rw [List.length_append,List.length_cons] at hlength
    omega

theorem move (h : a.Within s T b r q) (hs : s.Stretch T stop) (hne : b.calls.length = a.calls.length → q ≠ stop)
    {i : Instr} {next q' : Nat} {r' : Script} {b' : Activation} (hfetch : r.fetch q = .ok (i,next))
    (hmove : Move r next i b b' r' q') (hdeep : a.calls.length ≤ b'.calls.length) : a.Within s T b' r' q' := by
  cases h with
  | own hcalls hframe hT hunder =>
    obtain ⟨i',next',hfetch',hstays⟩ := hs.steps hT (hne (by rw [hcalls]))
    rw [hfetch] at hfetch'
    cases hfetch'
    exact .step_own hcalls hframe hunder hstays hmove hdeep
  | called hcalls hframe hret hk hT hunder => exact .step_called hcalls hframe hret hk hT hunder hmove

end Activation.Within

/-- In the code, and not yet at the end of it in the frame in which it was entered. -/
def Activation.Amidst (a : Activation) (s : Script) (T : Nat → Nat → Prop) (stop : Nat) (x : Spot) : Prop :=
  a.Within s T x.turn.active x.script x.pc ∧ (x.depth = a.calls.length → x.pc ≠ stop)

variable {x z : Spot} {l : List Spot}

/-- A thread that is in a stretch of code comes to the end of it, with its frame and locals as they were, unless it stays
in it. -/
theorem Trail.through {stop : Nat} (h : Trail x l z) (hs : s.Stretch T stop) (hsound : x.phase.Sound p c) (hp : p.Sound)
    (hx : a.Within s T x.turn.active x.script x.pc) (hdeep : ∀ y ∈ l ++ [z], a.calls.length ≤ y.depth) :
    (∃ l₁ w l₂, l = l₁ ++ l₂ ∧ Trail x l₁ ⟨w,s,stop⟩ ∧ Trail ⟨w,s,stop⟩ l₂ z ∧ a.Agrees w.active ∧
      ∀ y ∈ l₁, a.Amidst s T stop y) ∨ ∀ y ∈ l ++ [z], a.Amidst s T stop y := by
  have hhere : ∀ {x z : Spot} {l : List Spot}, Trail x l z → a.Within s T x.turn.active x.script x.pc →
      x.depth = a.calls.length → x.pc = stop →
      ∃ l₁ w l₂, l = l₁ ++ l₂ ∧ Trail x l₁ ⟨w,s,stop⟩ ∧ Trail ⟨w,s,stop⟩ l₂ z ∧ a.Agrees w.active ∧
        ∀ y ∈ l₁, a.Amidst s T stop y := by
    intro x z l h hx hdepth hpc
    obtain ⟨hscript,hagrees⟩ := hx.at_stop hs hdepth hpc
    obtain ⟨t,r,q⟩ := x
    obtain rfl : r = s := hscript
    obtain rfl : q = stop := hpc
    exact ⟨[],t,l,rfl,.here _,h,hagrees,by simp⟩
  induction h with
  | here x =>
    by_cases hend : x.depth = a.calls.length ∧ x.pc = stop
    · exact .inl (hhere (.here x) hx hend.1 hend.2)
    · refine .inr fun y hy => ?_
      obtain rfl := List.mem_singleton.1 hy
      exact ⟨hx,fun hdepth hpc => hend ⟨hdepth,hpc⟩⟩
  | @step x y z l h rest ih =>
    by_cases hend : x.depth = a.calls.length ∧ x.pc = stop
    · exact .inl (hhere (.step h rest) hx hend.1 hend.2)
    · have hamidst : a.Amidst s T stop x := ⟨hx,fun hdepth hpc => hend ⟨hdepth,hpc⟩⟩
      obtain ⟨i,next,hfetch,hmove⟩ := h.move hsound hp
      have hy : a.calls.length ≤ y.depth := by
        cases rest with
        | here | step => exact hdeep _ (by simp)
      have hwithin := hx.move hs hamidst.2 hfetch hmove hy
      rcases ih (h.steps.sound hsound hp) hwithin (fun y hy => hdeep y (by simp_all)) with
        ⟨l₁,w,l₂,rfl,hbefore,hafter,hagrees,hall⟩ | hall
      · exact .inl ⟨x :: l₁,w,l₂,rfl,.step h hbefore,hafter,hagrees,List.forall_mem_cons.2 ⟨hamidst,hall⟩⟩
      · exact .inr (List.forall_mem_cons.2 ⟨hamidst,hall⟩)

theorem Trail.settle {t : Turn} {pc' : Nat} (h : Trail ⟨t,s,pc⟩ l z)
    (hpc : pc = pc' ∨ ∃ v, s.fetch pc = .ok (.visual v,pc')) (hsound : (Phase.turn t s pc).Sound p c) (hp : p.Sound) :
    (l = [] ∧ z = ⟨t,s,pc⟩ ∧ pc < pc') ∨
      ∃ l₁ u l₂, l = l₁ ++ l₂ ∧ Trail ⟨t,s,pc⟩ l₁ ⟨u,s,pc'⟩ ∧ Trail ⟨u,s,pc'⟩ l₂ z ∧ t.active.Agrees u.active ∧
        u.active.stack = t.active.stack ∧ (l₁ = [] ∧ u = t ∧ pc = pc' ∨ l₁ = [⟨t,s,pc⟩] ∧ pc < pc') := by
  rcases hpc with rfl | ⟨v,hfetch⟩
  · exact .inr ⟨[],t,l,rfl,.here _,h,⟨rfl,rfl,rfl⟩,rfl,.inl ⟨rfl,rfl,rfl⟩⟩
  · have hlt := Script.lt_of_fetch hfetch
    rcases h.ends_or_leaves with ⟨rfl,rfl⟩ | ⟨y,l,rfl,hnext,htrail⟩
    · exact .inl ⟨rfl,rfl,hlt⟩
    · obtain ⟨u,hperform,rfl,hagrees⟩ := hnext.plain hsound hp hfetch rfl rfl (by rintro ⟨⟩) (by rintro ⟨⟩)
      have hstack : u.active.stack = t.active.stack := by
        cases hperform
        rfl
      exact .inr ⟨[_],u,l,rfl,.step hnext (.here _),htrail,hagrees,hstack,.inr ⟨rfl,hlt⟩⟩

/-! Computing the places that a thread passes -/

/-- Where a thread is next. When it yields, the others take their turns until the end of the pass. -/
def Spot.next? (fuel : Nat) (x : Spot) : Option Spot :=
  match Machine.advance x.turn x.script x.pc with
  | .going u r q => some ⟨u,r,q⟩
  | .halted (.done m a) =>
    match x.turn.active.slot, a.requeue with
    | some i, some k =>
      match Machine.resumeFrom fuel fuel (i + 1) (m.putBack i a) with
      | .done m' =>
        match m'.sweep.queue.findIdx? (· = some (a.toThread k)) with
        | some j => some ⟨⟨m'.sweep.setSlot j (some (a.toThread k).shell),a.resumed j⟩,k.script,k.pc⟩
        | none => none
      | _ => none
    | _, _ => none
  | .halted _ => none

theorem Spot.next_of_next? {y : Spot} (h : x.next? fuel = some y) (hsound : x.phase.Sound p c) (hp : p.Sound) :
    x.Next y := by
  unfold next? at h
  split at h
  next u r q hadvance =>
    cases h
    exact .advance hadvance
  next m a hadvance =>
    split at h
    next i k hslot hk =>
      split at h
      next m' hrest =>
        split at h
        next j hj =>
          cases h
          have hlaid : (Phase.frame (m.putBack i a)).Sound p c := (Phase.Step.layDown hadvance hslot).sound hsound hp
          have hcomes := Phase.comes_resumeFrom hlaid hp fuel fuel (i + 1)
          rw [hrest] at hcomes
          obtain ⟨hlt,hget,-⟩ := Array.findIdx?_eq_some_iff_getElem.1 hj
          have hqueue : m'.sweep.queue[j]? = some (some (a.toThread k)) := by
            rw [Array.getElem?_eq_getElem hlt]
            exact congrArg some (of_decide_eq_true hget)
          exact .resume hadvance hslot hk (.tail hcomes (.sweep m')) hqueue
        · cases h
      · cases h
    · cases h
  · cases h

/-- The places that a thread passes before it comes to one that lacks a property. -/
def Spot.trail? (P : Spot → Bool) (fuel : Nat) : Nat → Spot → Option (List Spot × Spot)
  | 0, _ => none
  | n + 1, x => if P x then ((x.next? fuel).bind (trail? P fuel n)).map fun r => (x :: r.1,r.2) else some ([],x)

theorem Spot.trail_of_trail? {P : Spot → Bool} (h : x.trail? P fuel n = some (l,z)) (hsound : x.phase.Sound p c)
    (hp : p.Sound) : Trail x l z ∧ ∀ y ∈ l, P y = true := by
  induction n generalizing x l with
  | zero => cases h
  | succ n ih =>
    unfold trail? at h
    split at h
    next hP =>
      obtain ⟨⟨l',z'⟩,hrest,heq⟩ := Option.map_eq_some_iff.1 h
      obtain ⟨y,hnext,hrest⟩ := Option.bind_eq_some_iff.1 hrest
      cases heq
      have hstep := Spot.next_of_next? hnext hsound hp
      obtain ⟨htrail,hl⟩ := ih hrest (hstep.steps.sound hsound hp)
      exact ⟨.step hstep htrail,List.forall_mem_cons.2 ⟨hP,hl⟩⟩
    · cases h
      exact ⟨.here _,by simp⟩

end SpriteMachine
