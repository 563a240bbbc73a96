import SpriteMachine.Proofs.Blocks
import SpriteMachine.Proofs.Moves

/-!
Blocks that are run leave the locals of their frame as they found them, over any number of yields and calls: when
control comes to the end of the code of a block in the frame in which it entered it, the locals and those that are
saved are what they were.
-/

namespace SpriteMachine

theorem Chain.mem_scripts {stage σ : Shape} {base : Nat} {s : Script} {frames : List Frame}
    (h : Chain stage σ base s frames) : s ∈ σ.scripts.all := by
  cases h with
  | root hs => exact hs
  | call hq => exact Compile.mem_all.2 (.inr ⟨_,_,hq,rfl⟩)

theorem Turn.Sound.mem_scripts {p : Program} {c : Settings} {o : Option Nat} {t : Turn} {s : Script} {pc : Nat}
    (h : t.Sound p c o s pc) : ∃ x ∈ p.stage :: p.sprites, s ∈ x.scripts.all := by
  obtain ⟨σ,hrunning,-⟩ := h
  obtain ⟨x,hx,heq,-⟩ := (hrunning.placed.machine.shapes hrunning.placed.own).1
  have hscripts : σ.scripts = x.scripts := congrArg Shape.scripts heq
  refine ⟨x,hx,?_⟩
  rw [← hscripts]
  exact hrunning.chain.mem_scripts

theorem Turn.Sound.small {p : Program} {c : Settings} {o : Option Nat} {t : Turn} {s : Script} {pc : Nat}
    (h : t.Sound p c o s pc) (hsmall : p.Small) : s.code.size < 2 ^ 32 := by
  obtain ⟨x,hx,hs⟩ := h.mem_scripts
  exact (hsmall x hx).2.2 s hs

/-- What a block has saved lies on top of what it found. -/
def Activation.Under (a : Activation) (n : Nat) (l : Locals) (saved : List Locals) : Prop :=
  match n with
  | 0 => l = a.locals ∧ saved = a.frame.saved
  | n + 1 => ∃ more : List Locals, more.length = n ∧ saved = more ++ a.locals :: a.frame.saved

theorem Activation.Under.step {a : Activation} {s : Script} {T : Nat → Nat → Prop} {next n q : Nat} {i : Instr}
    {l l' : Locals} {saved saved' : List Locals} (h : a.Under n l saved) (hstays : i.Stays s T next n)
    (hq : i.GoesTo next q) (hchanges : i.Changes l saved l' saved') : ∃ n', T q n' ∧ a.Under n' l' saved' := by
  have hplain : T q n ∧ (i.setsLocals = true → 0 < n) → saved' = saved ∧ (i.setsLocals = false → l' = l) →
      ∃ n', T q n' ∧ a.Under n' l' saved' := by
    rintro ⟨hT,hsets⟩ ⟨rfl,hl⟩
    refine ⟨n,hT,?_⟩
    cases n with
    | zero =>
      have hspares : i.setsLocals = false := by
        cases hi : i.setsLocals with
        | false => rfl
        | true => exact absurd (hsets hi) (Nat.lt_irrefl 0)
      rw [hl hspares]
      exact h
    | succ n => exact h
  cases i with
  | save =>
    obtain rfl : q = next := hq
    obtain ⟨rfl,rfl⟩ := hchanges
    refine ⟨n + 1,hstays,?_⟩
    cases n with
    | zero =>
      obtain ⟨rfl,rfl⟩ := h
      exact ⟨[],rfl,rfl⟩
    | succ n =>
      obtain ⟨more,hlength,rfl⟩ := h
      exact ⟨l :: more,by rw [List.length_cons,hlength],rfl⟩
  | restore =>
    obtain rfl : q = next := hq
    obtain ⟨k,rfl,hT⟩ := hstays
    obtain ⟨more,hlength,rfl⟩ := h
    refine ⟨k,hT,?_⟩
    cases more with
    | nil =>
      obtain rfl : 0 = k := hlength
      obtain ⟨rfl,rfl⟩ := List.cons.inj (show _ :: _ = l' :: saved' from hchanges)
      exact ⟨rfl,rfl⟩
    | cons x more =>
      obtain rfl : more.length + 1 = k := hlength
      obtain ⟨-,rfl⟩ := List.cons.inj (show _ :: _ = l' :: saved' from hchanges)
      exact ⟨more,rfl,rfl⟩
  | jump target =>
    obtain rfl : q = target.toNat := hq
    exact hplain ⟨hstays,nofun⟩ hchanges
  | jumpIf wanted target =>
    rcases (hq : q = target.toNat ∨ q = next) with rfl | rfl
    · exact hplain ⟨hstays.1,nofun⟩ hchanges
    · exact hplain ⟨hstays.2,nofun⟩ hchanges
  | queue label | forceQueue label | call procedure argc ret | finish | endCall => exact hq.elim
  | _ =>
    obtain rfl : q = next := hq
    exact hplain hstays hchanges

/-- A thread is in the code of a block, in the frame in which it entered it, or in calls from there that return into
the code. -/
inductive Activation.Within (a : Activation) (s : Script) (T : Nat → Nat → Prop) :
    Activation → Script → Nat → Prop
  | own {b : Activation} {q n : Nat} (hcalls : b.calls = a.calls) (hframe : b.frame = { a.frame with saved := b.frame.saved })
      (hT : T q n) (hunder : a.Under n b.locals b.frame.saved) : Within a s T b s q
  | called {b : Activation} {r : Script} {q n : Nat} {inner : List Frame} {caller : Frame} {l : Locals}
      {rest : List Locals} {k : Continuation} (hcalls : b.calls = inner ++ caller :: a.calls)
      (hframe : caller = { a.frame with saved := l :: rest }) (hret : ((b.frame :: inner).getLast?).bind Frame.ret = some k)
      (hk : k.script = s) (hT : T k.pc n) (hunder : a.Under n l rest) : Within a s T b r q

namespace Activation.Within

variable {a b b' : Activation} {s r r' : Script} {T : Nat → Nat → Prop} {q q' next : Nat} {i : Instr}

/-- In the frame of the block, an instruction of the block goes on in it, or calls a procedure. -/
theorem step_own {n : Nat} (hcalls : b.calls = a.calls) (hframe : b.frame = { a.frame with saved := b.frame.saved })
    (hunder : a.Under n b.locals b.frame.saved) (hstays : i.Stays s T next n) (hmove : Move s next i b b' r' q')
    (hdeep : a.calls.length ≤ b'.calls.length) : a.Within s T b' r' q' := by
  cases hmove with
  | within hq hcalls' hframe' hchanges =>
    obtain ⟨n',hT,hunder'⟩ := hunder.step hstays hq hchanges
    exact .own (hcalls'.trans hcalls) (by rw [hframe',hframe]) hT hunder'
  | @label label hi hcalls' hframe' hlocals =>
    obtain ⟨pc,hpc,hT⟩ : ∃ pc, s.labels[label.toNat]? = some pc ∧ T pc n := by
      cases i with
      | queue label' | forceQueue label' | call procedure argc label' =>
        cases hi
        exact hstays
      | _ => cases hi
    have hk : Continuation.pc ⟨s,label⟩ = pc := by rw [Continuation.pc,hpc,Option.getD_some]
    rw [hk]
    refine .own (hcalls'.trans hcalls) (by rw [hframe',← hframe]) hT ?_
    rw [hlocals,hframe']
    exact hunder
  | enters hi hcalls' hret =>
    subst hi
    obtain ⟨pc,hpc,hT⟩ := hstays
    have hlist : b'.calls = [] ++ { b.frame with saved := b.locals :: b.frame.saved } :: a.calls := by
      rw [hcalls',hcalls]
      rfl
    refine .called hlist (by rw [hframe]) (by simpa using hret) rfl ?_ hunder
    rw [Continuation.pc,hpc,Option.getD_some]
    exact hT
  | returns hi hcalls' _ _ _ =>
    -- That would leave the frame.
    have hlength := congrArg List.length (hcalls.symm.trans hcalls')
    rw [List.length_cons] at hlength
    omega

theorem step_called {n : Nat} {inner : List Frame} {caller : Frame} {l : Locals} {rest : List Locals} {k : Continuation}
    (hcalls : b.calls = inner ++ caller :: a.calls) (hframe : caller = { a.frame with saved := l :: rest })
    (hret : ((b.frame :: inner).getLast?).bind Frame.ret = some k) (hk : k.script = s) (hT : T k.pc n)
    (hunder : a.Under n l rest) (hmove : Move r next i b b' r' q') : a.Within s T b' r' q' := by
  have htop : ∀ {f : Frame}, f.ret = b.frame.ret → ((f :: inner).getLast?).bind Frame.ret = some k := by
    intro f hf
    cases inner with
    | nil => exact hf.trans hret
    | cons g inner => exact hret
  cases hmove with
  | within _ hcalls' hframe' _ | label _ hcalls' hframe' _ =>
    exact .called (hcalls'.trans hcalls) hframe (htop (by rw [hframe'])) hk hT hunder
  | enters _ hcalls' _ =>
    have hlist : b'.calls = ({ b.frame with saved := b.locals :: b.frame.saved } :: inner) ++ caller :: a.calls := by
      rw [hcalls',hcalls]
      rfl
    exact .called hlist hframe (htop rfl) hk hT hunder
  | @returns k' caller' _ hcalls' hret' hframe' hsaved =>
    cases inner with
    | nil =>
      obtain ⟨rfl,hrest⟩ := List.cons.inj (hcalls.symm.trans hcalls')
      have hkk : k' = k := Option.some.inj (hret'.symm.trans hret)
      rw [hkk,hk]
      rw [hframe] at hsaved
      obtain ⟨hl,hsaved⟩ := List.cons.inj hsaved
      refine .own hrest.symm ?_ hT ?_
      · rw [hframe',hframe]
      · rw [← hl,← hsaved]
        exact hunder
    | cons g inner =>
      obtain ⟨rfl,hrest⟩ := List.cons.inj (hcalls.symm.trans hcalls')
      refine .called hrest.symm hframe ?_ hk hT hunder
      cases inner with
      | nil =>
        rw [hframe']
        exact hret
      | cons g' inner => exact hret

end Activation.Within

/-- In the call in which a thread was at first, and before an offset is come to there. -/
def Turn.Until (t : Turn) (stop : Nat) (u : Turn) (q : Nat) : Prop :=
  t.active.calls.length ≤ u.active.calls.length ∧ (u.active.calls.length = t.active.calls.length → q ≠ stop)

/-- A block that is run leaves the locals of its frame as they were. -/
theorem locals_of_compile {project : Project} {program : Program} (hcompile : compile project = .ok program)
    (hsmall : program.Small) {settings : Settings} {clock : Clock} {t u : Turn} {s r : Script} {start stop : Nat}
    (hreach : Phase.Steps (.idle (Machine.ofProgram program settings clock)) (.turn t s start)) {params : List String}
    {b : Block} (hblock : s.Contains params b start stop) (hfollows : t.Follows (t.Until stop) s start u r stop)
    (hframe : u.active.calls.length = t.active.calls.length) :
    u.active.locals = t.active.locals ∧ u.active.frame = t.active.frame ∧ u.active.calls = t.active.calls := by
  have hprogram := compile_sound hcompile hsmall
  have hsound := hreach.sound_ofProgram hprogram
  rcases hblock.portion (Turn.Sound.small hsound hsmall) with rfl | ⟨first,before,body,after,hportion,rfl,rfl⟩
  · obtain ⟨rfl,-⟩ := hfollows.stuck fun huntil => huntil.2 rfl rfl
    exact ⟨rfl,rfl,rfl⟩
  have hwithin : t.active.Within s (Inside first before body) u.active r (Portion.finish first before body) := by
    refine hfollows.induct (I := fun b r q => t.active.calls.length ≤ b.calls.length →
      t.active.Within s (Inside first before body) b r q) hsound hprogram (fun _ => ?_) ?_ (Nat.le_of_eq hframe.symm)
    · exact .own rfl rfl (Portion.inside_start first before body) ⟨rfl,rfl⟩
    · intro u r q _ huntil hin i next hfetch b r' q' hmove hdeep
      generalize huactive : u.active = a at hin hmove
      cases hin (by rw [← huactive]; exact huntil.1) with
      | own hcalls hframe hT hunder =>
        rcases hportion.steps hT with ⟨hfinish,-⟩ | ⟨i',next',hfetch',hstays⟩
        · exact absurd hfinish (huntil.2 (by rw [huactive,hcalls]))
        · rw [hfetch] at hfetch'
          cases hfetch'
          exact .step_own hcalls hframe hunder hstays hmove hdeep
      | called hcalls hframe hret hk hT hunder => exact .step_called hcalls hframe hret hk hT hunder hmove
  generalize huactive : u.active = a at *
  cases hwithin with
  | own hcalls hframe hT hunder =>
    obtain rfl := hportion.inside_finish hT
    obtain ⟨hlocals,hsaved⟩ := hunder
    refine ⟨hlocals,?_,hcalls⟩
    rw [hframe,hsaved]
  | called hcalls =>
    have hlength := congrArg List.length hcalls
    rw [List.length_append,List.length_cons] at hlength
    omega

/-! A loop in a loop calls a procedure that yields -/

instance (t u : Turn) (stop q : Nat) : Decidable (t.Until stop u q) :=
  inferInstanceAs (Decidable (_ ∧ (_ → _)))

deriving instance DecidableEq for Directive

def onceBlock (body : List Block) : Block :=
  .mk "control_repeat" none [
    .mk "TIMES" [.mk "math_whole_number" none [] [("NUM",⟨"1",none⟩)]] none,
    .mk "SUBSTACK" body none] []

def countBlock : Block :=
  onceBlock [.mk "procedures_call" (some { procedure := "count" }) [] []]

def countingProject : Project where
  stage := {
    name := "Stage"
    isStage := true
    scripts := [
      { hat := .flag, blocks := [.mk "control_forever" none [.mk "SUBSTACK" [countBlock] none] []] },
      { hat := .procedure { procedure := "count" }, blocks := [onceBlock []] }] }

/-- The emitter of the first script of a stage without variables and lists. -/
def stageEmitter : Emitter :=
  .start { isStage := true, stage := Compile.declareData countingProject.stage } "Stage #0"

/-- The ground of the only block of the first script of the stage. -/
def Block.firstGround (b : Block) (e : Entry × Nat) : Ground :=
  .ofBlock stageEmitter.symbols "Stage #0" [] [] b e.1 e.2

def countEnd : Nat :=
  (stageEmitter.run ([.enter,.here] ++ (expand [] countBlock).statement)).pc

/-- The flag was clicked, and a frame begins. -/
def flagFrame (p : Program) : Machine :=
  (Machine.ofProgram p shallow {}).greenFlag.beginFrame

/-- The first thread is at the start of the inner loop, and comes to its end. -/
theorem countingProject_counts : ∃ p ∈ (compile countingProject).toOption, p.isSmall ∧
    ∃ script ∈ (Compile.script stageEmitter.symbols "Stage #0" []
      [.mk "control_forever" none [.mk "SUBSTACK" [countBlock] none] []] .finish 0).toOption,
    ∃ x ∈ (flagFrame p).turnAfter? 0 0, x.2 = (script.1,0) ∧
    ∃ y ∈ x.1.follow? (fun u q => x.1.Until countEnd u q) 60 60 script.1 0,
      y.2.2 = countEnd ∧ y.1.active.calls.length = x.1.active.calls.length := by
  decide +kernel

theorem steps_flagFrame (p : Program) :
    Phase.Steps (.idle (Machine.ofProgram p shallow {})) (.frame (flagFrame p)) :=
  .tail (.single (.host _ .greenFlag)) (.begin _)

/-- The thread comes to the end of the inner loop, having yielded in the procedure. -/
theorem locals_of_compile_countingProject : ∃ p t u s r, compile countingProject = .ok p ∧
    Phase.Steps (.idle (Machine.ofProgram p shallow {})) (.turn t s 0) ∧ s.Contains [] countBlock 0 countEnd ∧
    t.Follows (t.Until countEnd) s 0 u r countEnd ∧ u.active.locals = t.active.locals ∧
    u.active.frame = t.active.frame ∧ u.active.calls = t.active.calls := by
  obtain ⟨p,hp,hsmall,⟨s,after⟩,hscript,⟨t,_⟩,hturn,rfl,⟨u,r,q⟩,hfollow,rfl,hdepth⟩ := countingProject_counts
  have hcompile := Except.mem_toOption.1 hp
  have hsmall := Program.small_of_isSmall hsmall
  have hprogram := compile_sound hcompile hsmall
  have hreach := (steps_flagFrame p).trans (Machine.resumption_of_turnAfter hturn).steps
  have hblock : s.Contains [] countBlock 0 countEnd :=
    ⟨_,_,_,_,_,_,[.enter,.here],[.resume .forceQueue 0,.leave],.inl rfl,Except.mem_toOption.1 hscript,
      by decide +kernel,rfl,rfl⟩
  have hfollows : t.Follows (t.Until countEnd) s 0 u r countEnd := by
    simpa using Turn.follows_of_follow hfollow (Phase.Steps.sound_ofProgram hreach hprogram) hprogram
  exact ⟨p,t,u,s,r,hcompile,hreach,hblock,hfollows,
    locals_of_compile hcompile hsmall hreach hblock hfollows hdepth⟩

end SpriteMachine
