import SpriteMachine.Proofs.CallLaws
import SpriteMachine.Proofs.Exits
import SpriteMachine.Proofs.Origins
import SpriteMachine.Proofs.Questions

/-!
Procedures that run without yielding. From the call of such a procedure until control is back at the caller, a thread does
not yield and no other thread runs, provided that no block waits in the procedure and in those that it calls. On the
way threads are started only by instructions that raise events or make clones.
-/

namespace SpriteMachine

/-! What starts threads -/

/-- Instructions that send messages, tell of another backdrop, or make clones. -/
def Instr.startsThreads : Instr → Bool
  | .broadcast | .broadcastAndWait | .sceneChanged => true
  | i => i.builtin? = some (.control .createClone)

namespace Machine

variable {m m' m'' : Machine} {i : Instr} {own : Nat}

/-- No thread is started: the live threads were there before. -/
structure StartsNone (m m' : Machine) : Prop where
  count : m'.starts = m.starts
  queue : ∀ (i : Nat) (t : Thread), m'.queue[i]? = some (some t) → t.stopped = false → m.queue[i]? = some (some t)

theorem StartsNone.of_queue (hcount : m'.starts = m.starts) (hqueue : m'.queue = m.queue) : m.StartsNone m' :=
  ⟨hcount,fun _ _ hi _ => hqueue ▸ hi⟩

theorem StartsNone.trans (h : m.StartsNone m') (h' : m'.StartsNone m'') : m.StartsNone m'' :=
  ⟨h'.count.trans h.count,fun i t hi hlive => h.queue i t (h'.queue i t hi hlive) hlive⟩

theorem StartsNone.dropThreads (m : Machine) (p : Nat → Thread → Bool) : m.StartsNone (m.dropThreads p) := by
  refine ⟨rfl,fun i t hi _ => ?_⟩
  simp only [Machine.dropThreads,Array.getElem?_mapIdx,Option.map_eq_some_iff,Option.filter_eq_some_iff] at hi
  obtain ⟨_,hslot,rfl,-⟩ := hi
  exact hslot

theorem StartsNone.stopAll (m : Machine) : m.StartsNone m.stopAll := by
  refine ⟨?_,fun i t hi hlive => absurd ⟨⟨i,hi⟩,hlive⟩ (not_live_stopAll m t)⟩
  obtain ⟨_,_,_,heq⟩ := m.stopAll_frame
  rw [heq]

theorem Edits.startsNone (h : m.Edits i own m') (hi : i.builtin? ≠ some (.control .createClone)) : m.StartsNone m' := by
  induction h with
  | refl => exact .of_queue rfl rfl
  | clone _ hclone => exact absurd hclone hi
  | target _ _ _ ih | layer _ _ ih | watcher _ _ _ ih | panel _ _ ih | prompt _ _ _ ih | ticket _ _ ih | visual _ _ ih =>
    exact ih.trans (.of_queue rfl rfl)
  | aside _ hm _ ih =>
    rw [hm]
    exact ih.trans (.of_queue rfl rfl)

end Machine

theorem Turn.Effect.startsNone {t : Turn} {i : Instr} {m : Machine} (h : t.Effect i m) (hi : i.startsThreads = false) :
    t.machine.StartsNone m := by
  cases h with
  | edits h =>
    refine h.startsNone fun hclone => ?_
    cases i with
    | builtin id => simp [Instr.startsThreads,hclone] at hi
    | _ => cases hclone
  | raises hraises =>
    cases i with
    | broadcast | broadcastAndWait | sceneChanged => cases hi
    | _ => cases hraises
  | stopsAll _ => exact .stopAll _
  | stopsOthers => exact .dropThreads _ _
  | deletes _ hclone =>
    unfold Machine.deleteClone
    rw [if_pos hclone]
    have hremoved : t.machine.StartsNone (t.machine.removeTarget t.active.target) := .of_queue rfl rfl
    exact hremoved.trans (.dropThreads _ _)

/-! The steps of a call -/

/-- The steps that a machine makes from a phase on in which a thread calls a procedure, until the thread is back in the
frame of the caller. Whoever makes them counts. -/
inductive Phase.Calls (n : Nat) (first : Phase) : Phase → Phase → Prop
  | enter {τ : Phase} (h : Step first τ) : Calls n first first τ
  | step {σ τ : Phase} {t : Turn} {s : Script} {pc : Nat} (h : Calls n first σ (.turn t s pc))
      (hdeep : n < t.active.calls.length) (hstep : Step (.turn t s pc) τ) : Calls n first (.turn t s pc) τ

variable {n pc : Nat} {first σ τ : Phase} {s : Script}

theorem Phase.Calls.steps (h : Calls n first σ τ) : Steps first τ := by
  induction h with
  | enter h => exact .single h
  | step _ _ hstep ih => exact ih.tail hstep

/-- A step in which the thread of a turn goes on in the frames above those that it had there, goes on where it was to
return to, or is over. It does not yield. -/
inductive Phase.Synchronous (t : Turn) (k : Continuation) : Phase → Phase → Prop
  | inside {u v : Turn} {r r' : Script} {q q' : Nat} (hsame : t.SameThread v)
      (hdeep : t.active.calls.length < v.active.calls.length) (hrequeue : v.active.requeue = none) :
      Synchronous t k (.turn u r q) (.turn v r' q')
  | back {u v : Turn} {r : Script} {q : Nat} (hsame : t.SameThread v) (hcalls : v.active.calls = t.active.calls)
      (hrequeue : v.active.requeue = none) : Synchronous t k (.turn u r q) (.turn v k.script k.pc)
  | ends {u : Turn} {r : Script} {q next : Nat} {i : Instr} {m : Machine} {a : Activation} {τ : Phase}
      (hfetch : r.fetch q = .ok (i,next)) (hi : i.stopsAll = true ∨ i = .deleteClone ∨ u.Restarts i)
      (h : Machine.advance u r q = .halted (.done m a)) (hrequeue : a.requeue = none) (hτ : τ = .frame m ∨ τ = .idle m) :
      Synchronous t k (.turn u r q) τ
  | fault {u : Turn} {r : Script} {q : Nat} {m : Machine} {f : Fault}
      (h : Machine.advance u r q = .halted (.fault m f)) : Synchronous t k (.turn u r q) (.idle m)

/-- Unless the instruction of a step starts threads, none is started. -/
def Phase.Adds (σ τ : Phase) : Prop :=
  ∃ t s pc i next, σ = .turn t s pc ∧ s.fetch pc = .ok (i,next) ∧
    (i.startsThreads = true ∨ σ.machine.StartsNone τ.machine)

theorem Phase.Step.adds {p : Program} {c : Settings} {t : Turn} (h : Step (.turn t s pc) τ)
    (hsound : (Phase.turn t s pc).Sound p c) (hp : p.Sound)
    (hrequeue : ∀ m a, Machine.advance t s pc = .halted (.done m a) → a.requeue = none) : (Phase.turn t s pc).Adds τ := by
  obtain ⟨i,next,hfetch,-⟩ := Turn.Sound.exec hsound hp
  refine ⟨t,s,pc,i,next,rfl,hfetch,?_⟩
  cases hi : i.startsThreads with
  | true => exact .inl rfl
  | false =>
    refine .inr ?_
    cases h with
    | advance h => exact (Machine.effect_of_going hfetch h).1.startsNone hi
    | layDown h hslot =>
      have hnone := hrequeue _ _ h
      change t.machine.StartsNone (Machine.putBack _ _ _)
      unfold Machine.putBack
      rw [hnone]
      exact (Machine.effect_of_halted hfetch h rfl).startsNone hi
    | finish h hslot | fault h => exact (Machine.effect_of_halted hfetch h rfl).startsNone hi

/-! Procedures without blocks that wait -/

namespace Declaration

/-- A procedure has a block that calls another. -/
def Calls (d : Declaration) (name callee : String) : Prop :=
  ∃ proto blocks, d.procedure? name = some (proto,blocks) ∧ ∃ b ∈ Block.forest blocks, b.callee? = some callee

/-- No block waits in a procedure, nor in those that it calls, directly or through others. -/
def RunsThrough (d : Declaration) (name : String) : Prop :=
  ∀ callee, Relation.ReflTransGen d.Calls name callee → ∀ proto blocks, d.procedure? callee = some (proto,blocks) →
    ∀ b ∈ Block.forest blocks, b.waits = false

def isCalm (d : Declaration) (names : List String) : Bool :=
  names.all fun name => (d.procedure? name).all fun x => (Block.forest x.2).all fun b =>
    !b.waits && b.callee?.all names.contains

theorem runsThrough_of_isCalm {d : Declaration} {names : List String} (h : d.isCalm names = true) {name : String}
    (hname : name ∈ names) : d.RunsThrough name := by
  have hcalm : ∀ {name proto blocks}, name ∈ names → d.procedure? name = some (proto,blocks) →
      ∀ b ∈ Block.forest blocks, b.waits = false ∧ ∀ callee, b.callee? = some callee → callee ∈ names := by
    intro name proto blocks hname hfound b hb
    have hall := List.all_eq_true.1 h name hname
    rw [hfound,Option.all_some] at hall
    have hblock := List.all_eq_true.1 hall b hb
    simp only [Bool.and_eq_true,Bool.not_eq_eq_eq_not,Bool.not_true] at hblock
    refine ⟨hblock.1,fun callee hcallee => ?_⟩
    have hmem := hblock.2
    rw [hcallee,Option.all_some] at hmem
    exact List.contains_iff_mem.1 hmem
  intro callee hreach proto blocks hfound b hb
  suffices hmem : callee ∈ names from (hcalm hmem hfound b hb).1
  clear hfound
  induction hreach with
  | refl => exact hname
  | tail _ hcalls ih =>
    obtain ⟨proto',blocks',hfound',b',hb',hcallee⟩ := hcalls
    exact (hcalm ih hfound' b' hb').2 _ hcallee

/-- The script of a procedure that is called from another one, directly or through others. -/
def Serves (d : Declaration) (name : String) (x : Target) (s : Script) : Prop :=
  ∃ callee q, Relation.ReflTransGen d.Calls name callee ∧ x.scripts.procedure? callee = some q ∧ q.script = s

variable {d : Declaration} {name : String} {x : Target} {s : Script} {pc next : Nat} {i : Instr}

/-- The instructions of such scripts neither yield nor end a thread, and call such procedures. -/
theorem Serves.steady (h : d.Serves name x s) (hd : d.Gives x) (hcalm : d.RunsThrough name)
    (hsmall : s.code.size < 2 ^ 32) (hsited : s.IsEmitted → s.Aligned pc) (hfetch : s.fetch pc = .ok (i,next)) :
    i.Steady s fun callee => Relation.ReflTransGen d.Calls name callee := by
  obtain ⟨caller,q,hreach,hq,rfl⟩ := h
  obtain ⟨proto,blocks,before,after,id,hfound,-,hscript⟩ := hd.defines hq
  have hemission := (Compile.emission hscript (.inr rfl) hsmall).1
  refine hemission.steady (fun e he => ?_) (hsited ⟨_,_,hemission⟩) hfetch
  rcases List.mem_append.1 he with he | he
  · have hsteady := steady_expandStack (hcalm caller hreach proto blocks hfound) e he
    cases e with
    | call callee argc =>
      obtain ⟨b,hb,hcallee⟩ := hsteady
      exact hreach.tail ⟨proto,blocks,hfound,b,hb,hcallee⟩
    | _ => exact hsteady
  · rw [List.mem_singleton.1 he]
    exact nofun

end Declaration

/-! Frames above a caller -/

/-- The frames of a thread, the innermost first, of which the first runs a script: the lowest of those above some frames
runs without yielding and returns to a label, the others return into scripts with a property. -/
inductive Frame.Amid (P : Script → Prop) (k : Continuation) (below : List Frame) : Script → List Frame → Prop
  | entered {s : Script} {f caller : Frame} (hs : P s) (hwarp : f.warp = true) (hret : f.ret = some k) :
      Amid P k below s (f :: caller :: below)
  | called {s : Script} {f caller : Frame} {calls : List Frame} {k' : Continuation} (hs : P s) (hret : f.ret = some k')
      (h : Amid P k below k'.script (caller :: calls)) : Amid P k below s (f :: caller :: calls)

namespace Frame.Amid

variable {P : Script → Prop} {k : Continuation} {below frames : List Frame} {s : Script} {f g : Frame}

theorem script (h : Amid P k below s frames) : P s := by
  cases h with
  | entered hs _ _ | called hs _ _ => exact hs

theorem warpDepth_pos (h : Amid P k below s frames) : 0 < Frame.warpDepth frames := by
  induction h with
  | entered _ hwarp _ =>
    rw [Frame.warpDepth_cons,hwarp]
    simp
  | called _ _ _ ih =>
    rw [Frame.warpDepth_cons]
    simp [ih]

theorem deep (h : Amid P k below s frames) : below.length + 1 < frames.length := by
  induction h with
  | entered => simp
  | called _ _ _ ih =>
    rw [List.length_cons]
    omega

theorem top (h : Amid P k below s (f :: frames)) (hwarp : g.warp = f.warp) (hret : g.ret = f.ret) :
    Amid P k below s (g :: frames) := by
  cases h with
  | entered hs hf hk => exact .entered hs (hwarp.trans hf) (hret.trans hk)
  | called hs hk hcaller => exact .called hs (hret.trans hk) hcaller

theorem returns (h : Amid P k below s (f :: g :: frames)) {k' : Continuation} (hret : f.ret = some k') :
    k' = k ∧ frames = below ∨ Amid P k below k'.script (g :: frames) := by
  cases h with
  | entered _ _ hk =>
    rw [hret] at hk
    exact .inl ⟨Option.some.inj hk,rfl⟩
  | called _ hk hcaller =>
    rw [hret] at hk
    cases hk
    exact .inr hcaller

end Frame.Amid

/-! A thread in the call -/

namespace Turn

variable {p : Program} {c : Settings} {t u v : Turn} {s r r' : Script} {pc q q' next : Nat} {i : Instr}

theorem shape?_going (hsound : (Phase.turn t s pc).Sound p c) (hfetch : s.fetch pc = .ok (i,next))
    (hadvance : Machine.advance t s pc = .going u r q) {j : Nat} {σ : Shape} (hσ : t.machine.shape? j = some σ) :
    u.machine.shape? j = some σ := by
  have hover : ∀ {v : Turn}, exec s next i t = .ok .leave v → v.active.immediate = none → False := by
    intro v hexec hnone
    unfold Machine.advance at hadvance
    rw [hfetch] at hadvance
    dsimp only at hadvance
    rw [hexec] at hadvance
    dsimp only at hadvance
    rw [hnone] at hadvance
    cases hadvance
  obtain ⟨_,hrunning,-⟩ := id hsound
  have heffect := (Machine.effect_of_going hfetch hadvance).1
  generalize u.machine = m at heffect ⊢
  cases heffect with
  | edits he => exact he.evolves.shape? hσ
  | @raises e _ =>
    obtain ⟨queue,starts,heq⟩ := t.machine.trigger_eq e
    rw [heq]
    exact hσ
  | stopsOthers => exact hσ
  | stopsAll hi =>
    cases i with
    | stop mode =>
      have hmode : StopMode.ofWord? mode = some .all := of_decide_eq_true hi
      have hexec : exec s next (.stop mode) t = Turn.stop (some .all) next t := by
        change Turn.stop (StopMode.ofWord? mode) next t = _
        rw [hmode]
      exact (hover (hexec.trans stop_all) hrunning.immediate).elim
    | _ => cases hi
  | deletes hi hclone =>
    subst hi
    obtain ⟨x,hx,-⟩ := hrunning.placed.target
    rw [Machine.isCloneId,hx,Option.any_some] at hclone
    have hexec : exec s next .deleteClone t = _ := exec_deleteClone hx
    rw [if_pos hclone] at hexec
    exact (hover hexec hrunning.immediate).elim

/-- A thread is in frames above those that it had when it made a call. -/
structure Amid (P : Script → Prop) (k : Continuation) (t u : Turn) (r : Script) : Prop where
  same : t.SameThread u
  own : u.machine.shape? t.active.target = t.machine.shape? t.active.target
  frames : Frame.Amid P k t.active.calls r (u.active.frame :: u.active.calls)

namespace Amid

variable {k : Continuation} {d : Declaration} {name : String} {x : Target}

theorem going (h : t.Amid (d.Serves name x) k u r) (hsound : (Phase.turn u r q).Sound p c)
    (hx : t.machine.shape? t.active.target = some x.shape) (hfetch : r.fetch q = .ok (i,next))
    (hsteady : i.Steady r fun callee => Relation.ReflTransGen d.Calls name callee)
    (hadvance : Machine.advance u r q = .going v r' q') :
    t.Amid (d.Serves name x) k v r' ∨ t.SameThread v ∧ v.active.calls = t.active.calls ∧ r' = k.script ∧ q' = k.pc := by
  have hsame := h.same.trans (Machine.effect_of_going hfetch hadvance).2
  have hown : v.machine.shape? t.active.target = t.machine.shape? t.active.target := by
    rw [hx]
    exact shape?_going hsound hfetch hadvance (h.own.trans hx)
  by_cases hcall : ∃ procedure argc ret, i = .call procedure argc ret
  · -- What is called is a procedure that no block waits in.
    obtain ⟨procedure,argc,ret,rfl⟩ := hcall
    obtain ⟨callee,hcallee,hreach⟩ := hsteady.calls _ _ _ rfl
    have hshape := h.own.trans hx
    rw [← h.same.target,Machine.shape?,Option.map_eq_some_iff] at hshape
    obtain ⟨y,hy,hyx⟩ := hshape
    have hscripts : y.scripts = x.scripts := congrArg Shape.scripts hyx
    rcases Machine.advance_going hfetch hadvance with ⟨hexec,-⟩ | ⟨w,k',hexec,hk',rfl,rfl,rfl⟩
    · cases (Sound.calls hsound hfetch hy hexec).1
    · obtain ⟨-,callee',hcallee',hcalls⟩ := Sound.calls hsound hfetch hy hexec
      rw [hcallee] at hcallee'
      cases hcallee'
      refine .inl ⟨hsame,hown,?_⟩
      cases hcalls with
      | unknown _ hcalls hframe himmediate _ =>
        rw [himmediate] at hk'
        cases hk'
        change Frame.Amid _ k _ r (w.active.frame :: w.active.calls)
        rw [hframe,hcalls]
        exact h.frames
      | @enters callee' hq hcalls hret hwarp hk =>
        rw [hscripts] at hq
        rcases hk with ⟨himmediate,-⟩ | ⟨himmediate,-⟩
        · rw [himmediate] at hk'
          cases hk'
          change Frame.Amid _ k _ callee'.script (w.active.frame :: w.active.calls)
          rw [hcalls]
          exact .called ⟨callee,callee',hreach,hq,rfl⟩ hret (h.frames.top rfl rfl)
        · rw [himmediate] at hk'
          cases hk'
  · have hmove : ∃ b, Move r next i u.active b r' q' ∧ b.Agrees v.active := by
      rcases Machine.advance_going hfetch hadvance with ⟨hexec,rfl⟩ | ⟨w,k',hexec,hk',rfl,rfl,rfl⟩
      · exact ⟨v.active,Sound.moves hsound hfetch hexec,rfl,rfl,rfl⟩
      · exact ⟨w.active,Sound.moves hsound hfetch hexec k' (.inl hk'),rfl,rfl,rfl⟩
    obtain ⟨b,hmove,hagrees⟩ := hmove
    have hkeeps : r' = r → v.active.calls = u.active.calls → v.active.frame.warp = u.active.frame.warp →
        v.active.frame.ret = u.active.frame.ret → t.Amid (d.Serves name x) k v r' := by
      rintro rfl hcalls hwarp hret
      refine ⟨hsame,hown,?_⟩
      rw [hcalls]
      exact h.frames.top hwarp hret
    cases hmove with
    | within _ hcalls hframe _ | label _ hcalls hframe _ =>
      refine .inl (hkeeps rfl (hagrees.calls.trans hcalls) ?_ ?_) <;> rw [hagrees.frame,hframe]
    | enters hi _ _ => exact absurd ⟨_,_,_,hi⟩ hcall
    | returns _ hcalls hret hframe _ =>
      have hframes := h.frames
      rw [hcalls] at hframes
      rcases hframes.returns hret with ⟨rfl,hbelow⟩ | hcaller
      · exact .inr ⟨hsame,hagrees.calls.trans hbelow,rfl,rfl⟩
      · refine .inl ⟨hsame,hown,?_⟩
        rw [hagrees.calls,hagrees.frame]
        exact hcaller.top (by rw [hframe]) (by rw [hframe])

/-- Such a thread does not yield, and is over only where all threads are stopped, its clone is deleted, or its script is
started over. -/
theorem halts (h : t.Amid (d.Serves name x) k u r) (hsound : (Phase.turn u r q).Sound p c)
    (hfetch : r.fetch q = .ok (i,next)) (hsteady : i.Steady r fun callee => Relation.ReflTransGen d.Calls name callee)
    {m : Machine} {a : Activation} (hadvance : Machine.advance u r q = .halted (.done m a)) :
    a.requeue = none ∧ (i.stopsAll = true ∨ i = .deleteClone ∨ u.Restarts i) := by
  obtain ⟨hexec,himmediate⟩ := Machine.advance_done hfetch hadvance
  obtain ⟨_,hrunning,-⟩ := id hsound
  have hwarp : 0 < u.active.warp := by
    rw [hrunning.placed.warp]
    exact h.frames.warpDepth_pos
  have hdeep := h.frames.deep
  rw [List.length_cons] at hdeep
  cases Sound.leaves hsound hfetch hexec with
  | onward hk _ =>
    rw [himmediate] at hk
    cases hk
  | yields _ _ hi =>
    rcases hi with ⟨label,hi⟩ | ⟨hzero,-⟩
    · exact absurd hi (hsteady.yields label)
    · omega
  | ends _ hrequeue hi =>
    refine ⟨hrequeue,?_⟩
    rcases hi with hi | ⟨hnil,-⟩ | hi
    · exact absurd hi hsteady.ends
    · rw [hnil] at hdeep
      simp at hdeep
    · exact hi

end Amid

end Turn

/-! The call as a whole -/

section Call

variable {p : Program} {c : Settings} {t : Turn} {s : Script} {pc next : Nat} {σ τ : Phase} {procedure argc ret : UInt32}
  {name : String} {d : Declaration} {x : Target} {q : Procedure}

theorem Phase.Step.enters (h : Step (.turn t s pc) τ) (hsound : (Phase.turn t s pc).Sound p c)
    (hfetch : s.fetch pc = .ok (.call procedure argc ret,next)) (hname : s.constant? procedure = some name)
    (hx : t.machine.targets.get? t.active.target = some x) (hq : x.scripts.procedure? name = some q)
    (hwarp : q.warp = true) : Synchronous t ⟨s,ret⟩ (.turn t s pc) τ ∧
      ∀ u r pc', τ = .turn u r pc' → t.Amid (d.Serves name x) ⟨s,ret⟩ u r := by
  have hshape : t.machine.shape? t.active.target = some x.shape := by rw [Machine.shape?,hx]; rfl
  have hcalls : ∀ {flow : Flow} {u : Turn}, Turn.exec s next (.call procedure argc ret) t = .ok flow u → flow = .leave ∧
      u.active.calls = { t.active.frame with saved := t.active.locals :: t.active.frame.saved } :: t.active.calls ∧
      u.active.frame.ret = some ⟨s,ret⟩ ∧ u.active.frame.warp = true ∧ u.active.immediate = some q.script.entry ∧
      u.active.requeue = none := by
    intro flow u hexec
    obtain ⟨hflow,name',hname',hcalls⟩ := Turn.Sound.calls hsound hfetch hx hexec
    rw [hname] at hname'
    cases hname'
    rw [hq] at hcalls
    cases hcalls with
    | unknown hnone => cases hnone
    | enters hsome hcalls hret hwarp' hk =>
      cases hsome
      refine ⟨hflow,hcalls,hret,hwarp'.trans hwarp,?_⟩
      rcases hk with hk | ⟨-,-,hno,-⟩
      · exact hk
      · rw [hwarp] at hno
        cases hno
  have hdone : ∀ {m : Machine} {a : Activation}, Machine.advance t s pc ≠ .halted (.done m a) := by
    intro m a h
    obtain ⟨hexec,hnone⟩ := Machine.advance_done hfetch h
    rw [(hcalls hexec).2.2.2.2.1] at hnone
    cases hnone
  cases h with
  | advance h =>
    rcases Machine.advance_going hfetch h with ⟨hexec,-⟩ | ⟨w,k,hexec,hk,rfl,rfl,rfl⟩
    · cases (hcalls hexec).1
    · obtain ⟨-,hw,hret,hwarp,himmediate,hrequeue⟩ := hcalls hexec
      rw [himmediate] at hk
      cases hk
      have hsame := (Machine.effect_of_going hfetch h).2
      refine ⟨.inside hsame ?_ hrequeue,?_⟩
      · change _ < w.active.calls.length
        rw [hw]
        exact Nat.lt_succ_self _
      · rintro u r pc' heq
        cases heq
        refine ⟨hsame,(Turn.shape?_going hsound hfetch h hshape).trans hshape.symm,?_⟩
        change Frame.Amid _ _ _ q.script (w.active.frame :: w.active.calls)
        rw [hw]
        exact .entered ⟨name,q,.refl,hq,rfl⟩ hwarp hret
  | layDown h _ | finish h _ => exact absurd h hdone
  | fault h => exact ⟨.fault h,by rintro _ _ _ ⟨⟩⟩

theorem Phase.Step.synchronous {u : Turn} {r : Script} {k : Continuation} (h : Step (.turn u r pc) τ)
    (hsound : (Phase.turn u r pc).Sound p c) (hp : p.Sound) (hsmall : p.Small)
    (hsited : Sited (u.active.frame :: u.active.calls) r pc) (hx : t.machine.shape? t.active.target = some x.shape)
    (hd : d.Gives x) (hcalm : d.RunsThrough name) (hamid : t.Amid (d.Serves name x) k u r) :
    Synchronous t k (.turn u r pc) τ ∧ (Phase.turn u r pc).Adds τ ∧
      ∀ v r' pc', τ = .turn v r' pc' → t.active.calls.length < v.active.calls.length →
        t.Amid (d.Serves name x) k v r' := by
  obtain ⟨i,next,hfetch,-⟩ := Turn.Sound.exec hsound hp
  have hsteady := hamid.frames.script.steady hd hcalm (Turn.Sound.small hsound hsmall) hsited.aligned hfetch
  have hadds : (Phase.turn u r pc).Adds τ :=
    h.adds hsound hp fun m a hadvance => (hamid.halts hsound hfetch hsteady hadvance).1
  have hτ := h.sound hsound hp
  cases h with
  | @advance _ v _ r' _ pc' h =>
    obtain ⟨_,hrunning,-⟩ := id hτ
    rcases hamid.going hsound hx hfetch hsteady h with hinside | ⟨hsame,hcalls,rfl,rfl⟩
    · have hdeep := hinside.frames.deep
      rw [List.length_cons] at hdeep
      refine ⟨.inside hinside.same (by omega) hrunning.requeue,hadds,?_⟩
      rintro v' r'' pc'' heq -
      cases heq
      exact hinside
    · refine ⟨.back hsame hcalls hrunning.requeue,hadds,?_⟩
      rintro v' r'' pc'' heq hdeep
      cases heq
      rw [hcalls] at hdeep
      exact absurd hdeep (Nat.lt_irrefl _)
  | @layDown _ _ _ j m a h hslot =>
    obtain ⟨hrequeue,hi⟩ := hamid.halts hsound hfetch hsteady h
    have hback : m.putBack j a = m := by
      unfold Machine.putBack
      rw [hrequeue]
    rw [hback] at hadds ⊢
    exact ⟨.ends hfetch hi h hrequeue (.inl rfl),hadds,by rintro _ _ _ ⟨⟩⟩
  | finish h hslot =>
    obtain ⟨hrequeue,hi⟩ := hamid.halts hsound hfetch hsteady h
    exact ⟨.ends hfetch hi h hrequeue (.inr rfl),hadds,by rintro _ _ _ ⟨⟩⟩
  | fault h => exact ⟨.fault h,hadds,by rintro _ _ _ ⟨⟩⟩

end Call

/-- Whatever calls a procedure that runs without yielding, and in which no block waits: every step until control is back
at the caller is one of the thread that made the call. It does not yield, and is over before only when it is stopped,
faults or starts itself over. -/
theorem synchronous_of_compile {project : Project} {program : Program} (hcompile : compile project = .ok program)
    (hsmall : program.Small) {settings : Settings} {clock : Clock} {t : Turn} {s : Script} {pc next : Nat}
    (hreach : Phase.Steps (.idle (Machine.ofProgram program settings clock)) (.turn t s pc)) {procedure argc ret : UInt32}
    (hfetch : s.fetch pc = .ok (.call procedure argc ret,next)) {name : String}
    (hname : s.constant? procedure = some name) {x : Target} (hx : t.machine.targets.get? t.active.target = some x) :
    (∃ d ∈ project.stage :: project.sprites, d.Gives x) ∧
    ∀ d : Declaration, d.Gives x → ∀ (proto : Prototype) (blocks : List Block), d.procedure? name = some (proto,blocks) →
      proto.warp = true → d.RunsThrough name → ∀ σ τ, Phase.Calls t.active.calls.length (.turn t s pc) σ τ →
        Phase.Synchronous t ⟨s,ret⟩ σ τ ∧ σ.Adds τ := by
  have hprogram := compile_sound hcompile hsmall
  have hfirst := Machine.Sound.ofProgram hprogram settings clock
  have hsound : (Phase.turn t s pc).Sound program settings := hreach.sound hfirst hprogram
  have hshape : t.machine.shape? t.active.target = some x.shape := by rw [Machine.shape?,hx]; rfl
  refine ⟨?_,fun d hd proto blocks hfound hwarp hcalm σ τ hcalls => ?_⟩
  · obtain ⟨y,hy,heq,-⟩ := (hsound.machine.shapes hshape).1
    obtain ⟨d,hd,symbols,n,progress,hscripts,hprogress⟩ := compile_gives hcompile hy
    exact ⟨d,hd,symbols,n,progress,hscripts,(congrArg Shape.scripts heq).trans hprogress⟩
  obtain ⟨q,hq,hqwarp⟩ := hd.known hfound
  rw [hwarp] at hqwarp
  have hcall : Phase.Synchronous t ⟨s,ret⟩ σ τ ∧ σ.Adds τ ∧ ∀ u r pc', τ = .turn u r pc' →
      t.active.calls.length < u.active.calls.length → t.Amid (d.Serves name x) ⟨s,ret⟩ u r := by
    induction hcalls with
    | enter hstep =>
      obtain ⟨hsynchronous,hamid⟩ := hstep.enters (d := d) hsound hfetch hname hx hq hqwarp
      refine ⟨hsynchronous,⟨t,s,pc,_,next,rfl,hfetch,.inr ?_⟩,fun u r pc' heq _ => hamid u r pc' heq⟩
      cases hsynchronous with
      | inside | back =>
        cases hstep with
        | advance h => exact (Machine.effect_of_going hfetch h).1.startsNone rfl
      | ends hfetch' hi =>
        rw [hfetch] at hfetch'
        cases hfetch'
        rcases hi with hi | hi | ⟨e,hi,-⟩ <;> cases hi
      | fault h => exact (Machine.effect_of_halted hfetch h rfl).startsNone rfl
    | @step σ τ u r pc' hcalls hdeep hstep ih =>
      obtain ⟨n,hrun⟩ := Phase.Run.of_steps (hreach.trans hcalls.steps)
      have hfair : u.Fair n r pc' := hrun.fair (Machine.fair_ofProgram program settings clock) hfirst hprogram
      exact hstep.synchronous (hcalls.steps.sound hsound hprogram) hprogram hsmall hfair.sited hshape hd hcalm
        (ih.2.2 u r pc' rfl hdeep)
  exact ⟨hcall.1,hcall.2.1⟩

/-! A procedure that runs without yielding calls one that may yield, in a loop -/

def tidyProject : Project where
  stage := {
    name := "Stage"
    isStage := true
    scripts := [
      { hat := .flag, blocks := [.mk "procedures_call" (some { procedure := "tidy" }) [] []] },
      { hat := .procedure { procedure := "tidy", warp := true }
        blocks := [onceBlock [.mk "procedures_call" (some { procedure := "wipe" }) [] []]] },
      { hat := .procedure { procedure := "wipe" }, blocks := [onceBlock [.mk "pen_clear" none [] []]] }] }

/-- Performs a number of instructions of a thread in frames above some others. -/
def Turn.inCall? (n : Nat) : Nat → Turn → Script → Nat → Option (Turn × Script × Nat)
  | 0, t, s, pc => some (t,s,pc)
  | fuel + 1, t, s, pc =>
    if n < t.active.calls.length then
      match Machine.advance t s pc with
      | .going u r q => inCall? n fuel u r q
      | .halted _ => none
    else none

theorem Phase.calls_of_inCall {fuel : Nat} {t u : Turn} {r : Script} {q : Nat} (h : Calls n first σ (.turn t s pc))
    (hcall : t.inCall? n fuel s pc = some (u,r,q)) : ∃ τ, Calls n first τ (.turn u r q) := by
  induction fuel generalizing σ t s pc with
  | zero =>
    cases hcall
    exact ⟨σ,h⟩
  | succ fuel ih =>
    unfold Turn.inCall? at hcall
    split at hcall
    next hdeep =>
      split at hcall
      next hadvance => exact ih (.step h hdeep (.advance hadvance)) hcall
      · cases hcall
    · cases hcall

def tidyFrame (p : Program) : Machine :=
  (Machine.ofProgram p {} {}).greenFlag.beginFrame

/-- The thread calls the procedure, goes through both and comes back. -/
theorem tidyProject_tidies : ∃ p ∈ (compile tidyProject).toOption, p.isSmall ∧ tidyProject.stage.isCalm ["tidy","wipe"] ∧
    ∃ x ∈ (tidyFrame p).turnAfter? 0 0, x.1.active.calls.isEmpty ∧
    ∃ y ∈ (x.2.1.fetch x.2.2).toOption, ∃ call ∈ y.1.call?, x.2.1.constant? call.1 = some "tidy" ∧
    ∃ z ∈ (tidyFrame p).turnAfter? 0 1, (∃ v ∈ z.1.inCall? 0 19 z.2.1 z.2.2, v.1.active.calls.length = 2) ∧
      ∃ w ∈ z.1.inCall? 0 33 z.2.1 z.2.2, w.1.active.calls.isEmpty ∧ w.2 = (x.2.1,Continuation.pc ⟨x.2.1,call.2.2⟩) := by
  decide +kernel

/-- The thread runs the procedure that may yield in the one that does not, and comes back. -/
theorem synchronous_of_compile_tidyProject : ∃ p t u v s r ret pc q σ τ, compile tidyProject = .ok p ∧
    Phase.Steps (.idle (Machine.ofProgram p {} {})) (.turn t s pc) ∧ tidyProject.stage.RunsThrough "tidy" ∧
    Phase.Calls 0 (.turn t s pc) σ (.turn u r q) ∧ u.active.calls.length = 2 ∧
    Phase.Synchronous t ⟨s,ret⟩ σ (.turn u r q) ∧
    Phase.Calls 0 (.turn t s pc) τ (.turn v s (Continuation.pc ⟨s,ret⟩)) ∧ v.active.calls = [] ∧
    Phase.Synchronous t ⟨s,ret⟩ τ (.turn v s (Continuation.pc ⟨s,ret⟩)) := by
  obtain ⟨p,hp,hsmall,hcalm,⟨t,s,pc⟩,hturn,hnil,⟨i,next⟩,hfetch,⟨_,_,ret⟩,hcall,hname,⟨u,r,q⟩,hturn',
    ⟨⟨v,r',q'⟩,hinner,hdeep⟩,⟨w,_⟩,hback,hempty,rfl⟩ := tidyProject_tidies
  have hcompile := Except.mem_toOption.1 hp
  have hsmall := Program.small_of_isSmall hsmall
  have hframe : Phase.Steps (.idle (Machine.ofProgram p {} {})) (.frame (tidyFrame p)) :=
    .tail (.single (.host _ .greenFlag)) (.begin _)
  have hreach := hframe.trans (Machine.resumption_of_turnAfter hturn).steps
  obtain ⟨_,hrunning,-⟩ := Phase.Steps.sound_ofProgram hreach (compile_sound hcompile hsmall)
  obtain ⟨x,hx,-⟩ := hrunning.placed.target
  obtain rfl := Instr.eq_call hcall
  obtain ⟨⟨d,hd,hgives⟩,hcall⟩ := synchronous_of_compile hcompile hsmall hreach (Except.mem_toOption.1 hfetch) hname hx
  obtain rfl : d = tidyProject.stage := List.mem_singleton.1 hd
  have hthrough := Declaration.runsThrough_of_isCalm hcalm (List.mem_cons_self : "tidy" ∈ ["tidy","wipe"])
  rw [List.isEmpty_iff.1 hnil] at hcall
  have henter : Phase.Calls 0 (.turn t s pc) (.turn t s pc) (.turn u r q) :=
    .enter (.advance (Machine.advance_of_turnAfter hturn hturn'))
  obtain ⟨σ,hσ⟩ := Phase.calls_of_inCall henter hinner
  obtain ⟨τ,hτ⟩ := Phase.calls_of_inCall henter hback
  have hall := hcall tidyProject.stage hgives _ _ rfl rfl hthrough
  exact ⟨p,t,v,w,s,r',ret,pc,q',σ,τ,hcompile,hreach,hthrough,hσ,hdeep,(hall _ _ hσ).1,hτ,
    List.isEmpty_iff.1 hempty,(hall _ _ hτ).1⟩

end SpriteMachine
