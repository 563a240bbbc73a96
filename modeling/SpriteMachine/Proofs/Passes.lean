import SpriteMachine.Proofs.Census
import SpriteMachine.Proofs.Moves

/-!
Passes over the queue. A pass resumes slot after slot, also those that come on meanwhile, and ends when it has been
through them all. It does so if, and only if, it does not make more and more clones or empty more and more slots.
-/

namespace SpriteMachine

namespace Machine

/-! More fuel changes nothing. -/

variable {t : Turn} {s : Script} {pc last : Nat} {a : Activation}

theorem run_add {fuel : Nat} {m : Machine} (h : run fuel t s pc = .done m a) (k : Nat) :
    run (fuel + k) t s pc = .done m a := by
  induction fuel generalizing t s pc with
  | zero => cases h
  | succ fuel ih =>
    rw [Nat.succ_add]
    unfold run at h ⊢
    cases hadvance : advance t s pc with
    | going u r q =>
      rw [hadvance] at h
      exact ih h
    | halted halt =>
      rw [hadvance] at h
      exact h

variable {p : Program} {c : Settings} {m m' m₁ m₂ : Machine} {i n fuel fuel' : Nat}

theorem activate_add {b : Activation} (h : m.activate fuel a = .done m' b) (k : Nat) :
    m.activate (fuel + k) a = .done m' b := by
  unfold activate at h ⊢
  cases hk : a.immediate with
  | none =>
    rw [hk] at h
    exact h
  | some _ =>
    rw [hk] at h
    exact run_add h k

theorem resumeThread_add {t : Thread} (h : m.resumeThread fuel i t = .done m') (k : Nat) :
    m.resumeThread (fuel + k) i t = .done m' := by
  unfold resumeThread at h ⊢
  cases hload : Activation.ofThread i t with
  | error f =>
    rw [hload] at h
    cases h
  | ok a =>
    rw [hload] at h
    dsimp only at h ⊢
    cases hrun : (m.setSlot i (some t.shell)).activate fuel a with
    | done m₁ b =>
      rw [hrun] at h
      rw [activate_add hrun]
      exact h
    | fault m₁ f | outOfFuel =>
      rw [hrun] at h
      cases h

theorem resume_of_le (h : m.resume fuel i = .done m') (hle : fuel ≤ fuel') : m.resume fuel' i = .done m' := by
  obtain ⟨k,rfl⟩ := Nat.exists_eq_add_of_le hle
  unfold resume at h ⊢
  generalize (m.queue[i]?).join = found at h ⊢
  cases found with
  | none => exact h
  | some t =>
    dsimp only at h ⊢
    split
    next hstopped =>
      rw [if_pos hstopped] at h
      exact h
    next hlive =>
      rw [if_neg hlive] at h
      split
      next hthere =>
        rw [if_pos hthere] at h
        exact resumeThread_add h k
      next hgone =>
        rw [if_neg hgone] at h
        exact h

theorem resume_unique (h : m.resume fuel i = .done m₁) (h' : m.resume fuel' i = .done m₂) : m₁ = m₂ := by
  rcases Nat.le_total fuel fuel' with hle | hle
  · have hsame := resume_of_le h hle
    rw [h'] at hsame
    cases hsame
    rfl
  · have hsame := resume_of_le h' hle
    rw [h] at hsame
    cases hsame
    rfl

/-! The machines in the course of a pass -/

/-- A pass has been through a number of slots, and all went well. -/
inductive Visits (m : Machine) : Nat → Machine → Prop
  | start : Visits m 0 m
  | slot {i fuel : Nat} {m₁ m₂ : Machine} (h : Visits m i m₁) (hi : i < m₁.queue.size)
      (hresume : m₁.resume fuel i = .done m₂) : Visits m (i + 1) m₂

/-- Whatever slot the pass comes to, its thread is resumed with success. -/
def Resumes (m : Machine) : Prop :=
  ∀ (i : Nat) (m₁ : Machine), m.Visits i m₁ → i < m₁.queue.size → ∃ fuel m₂, m₁.resume fuel i = .done m₂

/-- A pass comes to its end. -/
def Ends (m : Machine) : Prop :=
  ∃ fuel n m', resumeFrom fuel n 0 m = .done m'

theorem Visits.unique (h : m.Visits i m₁) (h' : m.Visits i m₂) : m₁ = m₂ := by
  induction h generalizing m₂ with
  | start =>
    cases h'
    rfl
  | slot _ _ hresume ih =>
    cases h' with
    | slot h' _ hresume' =>
      cases ih h'
      exact resume_unique hresume hresume'

theorem Visits.resumeFrom (h : m.Visits i m₁) :
    ∃ fuel₀, ∀ fuel, fuel₀ ≤ fuel → ∀ k, resumeFrom fuel (i + k) 0 m = resumeFrom fuel k i m₁ := by
  induction h with
  | start => exact ⟨0,fun fuel _ k => by rw [Nat.zero_add]⟩
  | @slot i fuel₁ m₁ m₂ _ hi hresume ih =>
    obtain ⟨fuel₀,hfuel⟩ := ih
    refine ⟨max fuel₀ fuel₁,fun fuel hle k => ?_⟩
    rw [Nat.add_assoc,hfuel fuel ((Nat.le_max_left _ _).trans hle),Nat.add_comm 1 k,Machine.resumeFrom,if_pos hi,
      resume_of_le hresume ((Nat.le_max_right _ _).trans hle)]

theorem Visits.of_resumeFrom (hi : m.Visits i m₁) (h : Machine.resumeFrom fuel n i m₁ = .done m') :
    ∃ j, m.Visits j m' ∧ m'.queue.size ≤ j := by
  induction n generalizing i m₁ with
  | zero => cases h
  | succ n ih =>
    unfold Machine.resumeFrom at h
    split at h
    next hlt =>
      split at h
      next m₂ hresume => exact ih (.slot hi hlt hresume) h
      next hother => exact absurd h (hother m')
    next hge =>
      cases h
      exact ⟨i,hi,Nat.not_lt.1 hge⟩

theorem ends_iff : m.Ends ↔ ∃ j m', m.Visits j m' ∧ m'.queue.size ≤ j := by
  constructor
  · rintro ⟨fuel,n,m',h⟩
    obtain ⟨j,hj,hsize⟩ := Visits.of_resumeFrom .start h
    exact ⟨j,m',hj,hsize⟩
  · rintro ⟨j,m',hj,hsize⟩
    obtain ⟨fuel,hfuel⟩ := hj.resumeFrom
    refine ⟨fuel,j + 1,m',?_⟩
    rw [hfuel fuel (Nat.le_refl _),Machine.resumeFrom,if_neg (Nat.not_lt.2 hsize)]

theorem Resumes.visits (h : m.Resumes) (hends : ¬ m.Ends) (i : Nat) : ∃ m', m.Visits i m' := by
  induction i with
  | zero => exact ⟨m,.start⟩
  | succ i ih =>
    obtain ⟨m₁,hm₁⟩ := ih
    have hlt : i < m₁.queue.size := Nat.lt_of_not_le fun hle => hends (ends_iff.2 ⟨i,m₁,hm₁,hle⟩)
    obtain ⟨fuel,m₂,hresume⟩ := h i m₁ hm₁ hlt
    exact ⟨m₂,.slot hm₁ hlt hresume⟩

theorem Resumes.ends (h : m.Resumes) {n : Nat} (hsize : ∀ i m', m.Visits i m' → m'.queue.size ≤ n) : m.Ends := by
  by_contra hends
  obtain ⟨m',hm'⟩ := h.visits hends n
  exact hends (ends_iff.2 ⟨n,m',hm',hsize n m' hm'⟩)

theorem Visits.le (h : m.Visits i m') (hlast : m.Visits last m₁) (hsize : m₁.queue.size ≤ last) : i ≤ last := by
  induction h with
  | start => exact Nat.zero_le _
  | slot hi hlt _ ih =>
    refine Nat.lt_of_le_of_ne ih fun heq => ?_
    subst heq
    cases hi.unique hlast
    omega

theorem Visits.before (h : m.Visits last m') (hi : i < last) :
    ∃ fuel m₁ m₂, m.Visits i m₁ ∧ m₁.resume fuel i = .done m₂ := by
  induction h with
  | start => exact absurd hi (Nat.not_lt_zero i)
  | slot hprev _ hresume ih =>
    rcases Nat.lt_succ_iff_lt_or_eq.1 hi with hlt | rfl
    · exact ih hlt
    · exact ⟨_,_,_,hprev,hresume⟩

theorem Ends.resumes (h : m.Ends) : m.Resumes := by
  obtain ⟨last,m',hlast,hsize⟩ := ends_iff.1 h
  intro i m₁ hi hlt
  have hne : i ≠ last := by
    rintro rfl
    cases hi.unique hlast
    omega
  obtain ⟨fuel,m₀,m₂,hi',hresume⟩ := hlast.before (Nat.lt_of_le_of_ne (hi.le hlast hsize) hne)
  cases hi.unique hi'
  exact ⟨fuel,m₂,hresume⟩

theorem Ends.bounded (h : m.Ends) (f : Machine → Nat) : ∃ n, ∀ i m', m.Visits i m' → f m' ≤ n := by
  obtain ⟨last,m₁,hlast,hsize⟩ := ends_iff.1 h
  have hbound : ∀ k, ∃ n, ∀ i, i ≤ k → ∀ m', m.Visits i m' → f m' ≤ n := by
    intro k
    induction k with
    | zero =>
      refine ⟨f m,fun i hi m' hm' => ?_⟩
      cases Nat.le_zero.1 hi
      cases hm'.unique .start
      exact Nat.le_refl _
    | succ k ih =>
      obtain ⟨n,hn⟩ := ih
      by_cases hvisits : ∃ m', m.Visits (k + 1) m'
      · obtain ⟨m',hm'⟩ := hvisits
        refine ⟨max n (f m'),fun i hi m₂ hm₂ => ?_⟩
        rcases Nat.le_succ_iff.1 hi with hi | rfl
        · exact (hn i hi m₂ hm₂).trans (Nat.le_max_left _ _)
        · cases hm₂.unique hm'
          exact Nat.le_max_right _ _
      · refine ⟨n,fun i hi m₂ hm₂ => ?_⟩
        rcases Nat.le_succ_iff.1 hi with hi | rfl
        · exact hn i hi m₂ hm₂
        · exact absurd ⟨m₂,hm₂⟩ hvisits
  obtain ⟨n,hn⟩ := hbound last
  exact ⟨n,fun i m' hi => hn i (hi.le hlast hsize) m' hi⟩

/-! What a turn does, by the instructions that are met in it -/

theorem Resumption.of_run {slot : Nat} (h : m.Resumption slot (fun _ _ => True) n t s pc)
    (hrun : run fuel t s pc = .done m₁ a) :
    ∃ k u r q, m.Resumption slot (fun _ _ => True) k u r q ∧ Machine.advance u r q = .halted (.done m₁ a) := by
  induction fuel generalizing n t s pc with
  | zero => cases hrun
  | succ fuel ih =>
    unfold run at hrun
    cases hadvance : Machine.advance t s pc with
    | going u r q =>
      rw [hadvance] at hrun
      obtain ⟨j,next,hfetch⟩ := fetch_of_going hadvance
      exact ih (h.advance hfetch trivial hadvance) hrun
    | halted halt =>
      rw [hadvance] at hrun
      cases hrun
      exact ⟨n,t,s,pc,h,hadvance⟩

/-- A slot is left as it is, its thread does not go on any more, or the thread has its turn. -/
theorem resume_done (h : m.resume fuel i = .done m') : m' = m ∨ (∃ t : Thread, m' = m.setSlot i (some t)) ∨
    ∃ k t s pc m₁ a, m.Resumption i (fun _ _ => True) k t s pc ∧ advance t s pc = .halted (.done m₁ a) ∧
      m' = m₁.putBack i a := by
  unfold resume at h
  cases hi : m.queue[i]? with
  | none =>
    rw [hi] at h
    cases h
    exact .inl rfl
  | some o =>
    rw [hi] at h
    cases o with
    | none =>
      cases h
      exact .inl rfl
    | some t =>
      dsimp only [Option.join_some] at h
      split at h
      · cases h
        exact .inl rfl
      next hlive =>
        split at h
        · unfold resumeThread at h
          cases hload : Activation.ofThread i t with
          | error f =>
            rw [hload] at h
            cases h
          | ok a =>
            rw [hload] at h
            unfold activate at h
            dsimp only at h
            cases hk : a.immediate with
            | none =>
              have hrequeue : a.requeue = none := by
                unfold Activation.ofThread at hload
                split at hload
                · cases hload
                · split at hload
                  · cases hload
                  · cases hload
                    rfl
              rw [hk] at h
              cases h
              refine .inr (.inl ⟨t.shell,?_⟩)
              rw [putBack,hrequeue]
            | some k =>
              rw [hk] at h
              dsimp only at h
              split at h
              next m₁ b hrun =>
                cases h
                obtain ⟨n,u,r,q,hu,hhalt⟩ := Resumption.of_run (.load hi (by simpa using hlive) hload hk) hrun
                exact .inr (.inr ⟨n,u,r,q,m₁,b,hu,hhalt,rfl⟩)
              · cases h
              · cases h
        · cases h
          exact .inr (.inl ⟨t.stop,rfl⟩)

theorem Within.steps (h : m.Within m') (hm : m.Sound p c) (hp : p.Sound) : Phase.Steps (.idle m) (.frame m') := by
  induction h with
  | start => exact .single (.begin m)
  | @resume m₁ m₂ fuel i hwithin hresume ih =>
    have hcomes := Phase.comes_resume (hwithin.sound hm hp) hp fuel i
    rw [hresume] at hcomes
    exact ih.trans hcomes
  | sweep _ ih => exact .tail (.tail ih (.sweep _)) (.clock _)

theorem Visits.within {first : Machine} (h : m.Visits i m') (hm : first.Within m) : first.Within m' := by
  induction h with
  | start => exact hm
  | slot _ _ hresume ih => exact .resume ih hresume

section Course

variable (hm : m.Sound p c) (hp : p.Sound) (hr : m.Runs p)

include hm hp hr

theorem Resumption.settles {t : Turn} {s : Script} {pc slot : Nat}
    (h : m.Resumption slot (fun _ _ => True) n t s pc)
    (hspares : ∀ k u r q j next, m.Resumption slot (fun _ _ => True) k u r q → r.fetch q = .ok (j,next) →
      j.sparesOthers = true) : m.Settles p.scriptIds.length t.machine := by
  induction h with
  | load => exact .setSlot m slot _
  | @advance k pc q next t u s r j h hfetch _ hadvance ih =>
    have hruns : (Phase.turn t s pc).Runs p := Phase.Steps.runs h.steps hm hp hr
    have hsound : (Phase.turn t s pc).Sound p c := Phase.Steps.sound h.steps hm hp
    exact ih.trans ((effect_of_going hfetch hadvance).1.settles (hspares _ _ _ _ _ _ h hfetch) hsound.machine hruns.1)

theorem settles_resume (hresume : m.resume fuel i = .done m')
    (hspares : ∀ k u r q j next, m.Resumption i (fun _ _ => True) k u r q → r.fetch q = .ok (j,next) →
      j.sparesOthers = true) : m.Settles p.scriptIds.length m' := by
  rcases resume_done hresume with rfl | ⟨t,rfl⟩ | ⟨k,t,s,pc,m₁,a,h,hhalt,rfl⟩
  · exact .refl m'
  · exact .setSlot m i _
  · have hruns : (Phase.turn t s pc).Runs p := Phase.Steps.runs h.steps hm hp hr
    have hsound : (Phase.turn t s pc).Sound p c := Phase.Steps.sound h.steps hm hp
    refine ((h.settles hm hp hr hspares).trans ?_).trans (.putBack m₁ i a)
    cases hfetch : s.fetch pc with
    | error f =>
      simp only [advance,hfetch] at hhalt
      cases hhalt
    | ok found =>
      exact (effect_of_halted hfetch hhalt rfl).settles (hspares _ _ _ _ _ _ h hfetch) hsound.machine hruns.1

end Course

end Machine

/-- A pass in which every thread is resumed with success. It ends exactly if there is a bound on the targets that there
ever were and on the slots that are empty in its course, since beside these the queue has room only for every script on
every target. In particular it ends if no instruction that is met in it makes a clone or stops the other scripts of its
target. -/
theorem pass_of_compile {project : Project} {program : Program} (hcompile : compile project = .ok program)
    (hsmall : program.Small) {settings : Settings} {clock : Clock} {first m : Machine}
    (hreach : (Machine.ofProgram program settings clock).Reachable first) (hwithin : first.Within m) (hresumes : m.Resumes) :
    (m.Ends ↔ ∃ n, ∀ i m', m.Visits i m' → m'.targets.nextId ≤ n ∧ m'.gaps ≤ n) ∧
    (∀ i m', m.Visits i m' → m'.queue.size ≤ m'.targets.nextId * program.scriptIds.length + m'.gaps) ∧
    ((∀ i m₁ k t s pc instr next, m.Visits i m₁ → m₁.Resumption i (fun _ _ => True) k t s pc →
      s.fetch pc = .ok (instr,next) → instr.sparesOthers = true) → m.Ends) := by
  have hprogram := compile_sound hcompile hsmall
  have hstart := Machine.Sound.ofProgram hprogram settings clock
  have hfirst := hreach.sound hstart hprogram
  have hsound : ∀ {i m'}, m.Visits i m' → m'.Sound program settings := fun h =>
    (h.within hwithin).sound hfirst hprogram
  have hruns : ∀ {i m'}, m.Visits i m' → m'.Runs program := by
    intro i m' h
    have hsteps := (hreach.steps hstart hprogram).trans ((h.within hwithin).steps hfirst hprogram)
    have hnone : (Machine.ofProgram program settings clock).Runs program := by
      intro i t hi
      cases hi
    exact Phase.Steps.runs hsteps hstart hprogram hnone
  have hsize : ∀ i m', m.Visits i m' → m'.queue.size ≤ m'.targets.nextId * program.scriptIds.length + m'.gaps :=
    fun i m' h => (hsound h).size_queue_le (hruns h)
  have hends : (∃ n, ∀ i m', m.Visits i m' → m'.targets.nextId ≤ n ∧ m'.gaps ≤ n) → m.Ends := by
    rintro ⟨n,hn⟩
    refine hresumes.ends (n := n * program.scriptIds.length + n) fun i m' h => (hsize i m' h).trans ?_
    exact Nat.add_le_add (Nat.mul_le_mul_right _ (hn i m' h).1) (hn i m' h).2
  refine ⟨⟨fun h => ?_,hends⟩,hsize,fun hspares => hends ?_⟩
  · obtain ⟨n,hn⟩ := h.bounded fun m' => m'.targets.nextId
    obtain ⟨k,hk⟩ := h.bounded Machine.gaps
    exact ⟨max n k,fun i m' hi =>
      ⟨(hn i m' hi).trans (Nat.le_max_left _ _),(hk i m' hi).trans (Nat.le_max_right _ _)⟩⟩
  · have hsettles : ∀ {i m'}, m.Visits i m' → m.Settles program.scriptIds.length m' := by
      intro i m' h
      induction h with
      | start => exact .refl m
      | slot h _ hresume ih =>
        refine ih.trans (Machine.settles_resume (hsound h) hprogram (hruns h) hresume ?_)
        exact fun k u r q j next hu hfetch => hspares _ _ k u r q j next h hu hfetch
    refine ⟨m.targets.nextId + (m.gaps + program.scriptIds.length * m.alive.card),fun i m' h => ?_⟩
    obtain ⟨hids,hgaps⟩ := hsettles h
    omega

def relayProject : Project where
  stage := {
    name := "Stage"
    isStage := true
    scripts := [
      { hat := .flag
        blocks := [.mk "event_broadcast" none [.mk "BROADCAST_INPUT" [.messageNamed "on" "on"] none] []] },
      { hat := .message ⟨"on","on"⟩
        blocks := [.mk "pen_clear" none [] []] }] }

theorem relayProject_ends : ∃ p ∈ (compile relayProject).toOption, p.isSmall ∧
    (Machine.ofProgram p shallow {}).greenFlag.beginFrame.queue.size = 1 ∧
    ∃ x ∈ (Machine.resumeFrom 10 10 0 (Machine.ofProgram p shallow {}).greenFlag.beginFrame).ended?, x.2 = none ∧
    x.1.queue.size = 2 := by
  decide +kernel

/-- The thread that comes on in the pass has its turn, and then the pass is over. -/
theorem pass_of_compile_relayProject : ∃ p m, compile relayProject = .ok p ∧
    (Machine.ofProgram p shallow {}).greenFlag.Within m ∧ m.queue.size = 1 ∧
    (∃ i m', m.Visits i m' ∧ m'.queue.size = 2) ∧ m.Resumes ∧
    ∃ n, ∀ i m', m.Visits i m' → m'.targets.nextId ≤ n ∧ m'.gaps ≤ n := by
  obtain ⟨p,hp,hsmall,hone,⟨m',_⟩,hm',rfl,htwo⟩ := relayProject_ends
  have hcompile := Except.mem_toOption.1 hp
  have hpass := Outcome.eq_done hm'
  have hends : (Machine.ofProgram p shallow {}).greenFlag.beginFrame.Ends := ⟨_,_,_,hpass⟩
  obtain ⟨i,hi,-⟩ := Machine.Visits.of_resumeFrom .start hpass
  have hmain := pass_of_compile hcompile (Program.small_of_isSmall hsmall) (.host .first .greenFlag) .start hends.resumes
  exact ⟨p,_,hcompile,.start,hone,⟨i,m',hi,htwo⟩,hends.resumes,hmain.1.1 hends⟩

/-! Two scripts that call each other and stop each other -/

/-- A script that stops the others of its target and then sends a message. -/
def rallyScript (id : Nat) (name word : String) : Script where
  id := id
  name := name
  code := #[63,2,0,0,5,59,56]
  constants := #[word]
  labels := #[0]

namespace Machine

def alone (m : Machine) (a : Activation) : Machine :=
  m.dropThreads fun i t => some i != a.slot && t.target == a.target

variable {m m' : Machine} {s : Script}

theorem run_rallyScript {a : Activation} {id : Nat} {name word : String} {started : List Nat} (hstack : a.stack = [])
    (himmediate : a.immediate = none) (htrigger : (m.alone a).trigger (.ofMessage word) = (started,m'))
    (hbase : started.contains a.base = false) : run 5 ⟨m,a⟩ (rallyScript id name word) 0 = .done m' a := by
  let s := rallyScript id name word
  have hstop : advance ⟨m,a⟩ s 0 = .going ⟨m.alone a,a⟩ s 2 := rfl
  have hpush : advance ⟨m.alone a,a⟩ s 2 = .going ⟨m.alone a,{ a with stack := [.text word] }⟩ s 4 := by
    rw [← hstack]
    rfl
  have htext : advance ⟨m.alone a,{ a with stack := [.text word] }⟩ s 4 =
      .going ⟨m.alone a,{ a with stack := [.text word] }⟩ s 5 := rfl
  have hsend : advance ⟨m.alone a,{ a with stack := [.text word] }⟩ s 5 = .going ⟨m',a⟩ s 6 := by
    have hfetch : s.fetch 5 = .ok (.broadcast,6) := rfl
    have hexec : Turn.exec s 6 .broadcast ⟨m.alone a,{ a with stack := [.text word] }⟩ = _ := Turn.exec_broadcast rfl
    rw [show Value.toText (.text word) = word from rfl,htrigger,hbase] at hexec
    simp only [advance,hfetch,hexec]
    simp [Turn.withStack,Turn.withMachine,← hstack]
  have hfinish : advance ⟨m',a⟩ s 6 = .halted (.done m' a) := by
    have hfetch : s.fetch 6 = .ok (.finish,7) := rfl
    simp only [advance,hfetch,Turn.exec_finish,himmediate]
  simp only [run,hstop,hpush,htext,hsend,hfinish,s]

theorem trigger_onStage {x : Target} {e : Event} (hchildren : m.children = []) (hx : m.targets.get? stageId = some x)
    (hs : x.scripts.listeners.matching e = [s]) (hnew : m.slotOf? stageId s.id = none) :
    m.trigger e = ([s.id],{ m with starts := m.starts + 1, queue := m.queue.push (some (.start stageId s)) }) := by
  have hstart (restart : Bool) : m.startThread stageId s restart =
      { m with starts := m.starts + 1, queue := m.queue.push (some (.start stageId s)) } := by
    have hnew' : ({ m with starts := m.starts + 1 } : Machine).slotOf? stageId s.id = none := hnew
    simp only [startThread,hnew']
  simp [trigger,triggerFor,hchildren,hx,hs,hstart]

/-- There is only the stage, all threads are its own, and in the last slot a script is about to start. -/
structure Rallies (scripts : Scripts) (i : Nat) (s : Script) (m : Machine) : Prop where
  children : m.children = []
  stage : (m.shape? stageId).map Shape.scripts = some scripts
  size : m.queue.size = i + 1
  last : m.queue[i]? = some (some (Thread.start stageId s))
  only : ∀ {j : Nat} {t : Thread}, m.queue[j]? = some (some t) → t.target = stageId

theorem Rallies.alike {scripts : Scripts} {i : Nat} (h : m.Rallies scripts i s) (halike : m.Alike m') :
    m'.Rallies scripts i s where
  children := by
    have hperm := halike.children
    rw [h.children] at hperm
    exact hperm.eq_nil
  stage := by rw [halike.shapes,h.stage]
  size := by rw [halike.queue,h.size]
  last := by rw [halike.queue,h.last]
  only := by
    intro j t hj
    rw [halike.queue] at hj
    exact h.only hj

/-- The thread in the last slot empties all the others, so that the script that it calls gets a slot of its own. -/
theorem Rallies.resume {scripts : Scripts} {i id : Nat} {name word : String} {s : Script} {m : Machine}
    (h : m.Rallies scripts i (rallyScript id name word)) (hs : scripts.listeners.matching (.ofMessage word) = [s])
    (hid : s.id ≠ id) : ∃ m', m.resume 5 i = .done m' ∧ m'.Rallies scripts (i + 1) s := by
  obtain ⟨σ,hσ,rfl⟩ := Option.map_eq_some_iff.1 h.stage
  obtain ⟨x,hx,rfl⟩ := Option.map_eq_some_iff.1 hσ
  have hi : i < m.queue.size := by
    rw [h.size]
    exact Nat.lt_succ_self i
  let t := Thread.start stageId (rallyScript id name word)
  let a : Activation := { target := stageId, base := id, slot := some i, frame := { saved := [] }, locals := {} }
  let m₁ := (m.setSlot i (some t.shell)).alone a
  have hsize : m₁.queue.size = i + 1 := by simp [m₁,alone,dropThreads,setSlot,h.size]
  have hslot : ∀ {j : Nat} {u : Thread}, m₁.queue[j]? = some (some u) → u = t.shell := by
    intro j u hj
    simp only [m₁,alone,dropThreads,setSlot,Array.getElem?_mapIdx,Array.getElem?_setIfInBounds] at hj
    split at hj
    next heq =>
      subst heq
      simp only [Option.map_some,Option.some.injEq] at hj
      obtain ⟨hu,-⟩ := Option.filter_eq_some_iff.1 hj
      exact (Option.some.inj hu).symm
    next hne =>
      obtain ⟨o,ho,hfilter⟩ := Option.map_eq_some_iff.1 hj
      obtain ⟨rfl,hstays⟩ := Option.filter_eq_some_iff.1 hfilter
      simp [a,Ne.symm hne,h.only ho] at hstays
  have hnew : m₁.slotOf? stageId s.id = none := by
    refine Array.findIdx?_eq_none_iff.2 fun o ho => ?_
    obtain ⟨j,hj⟩ := Array.mem_iff_getElem?.1 ho
    cases o with
    | none => rfl
    | some u =>
      cases hslot hj
      simpa [Thread.runs,t,Thread.start,Thread.shell,rallyScript] using hid.symm
  let m₂ : Machine := { m₁ with starts := m₁.starts + 1, queue := m₁.queue.push (some (.start stageId s)) }
  have htrigger : m₁.trigger (.ofMessage word) = ([s.id],m₂) := trigger_onStage h.children hx hs hnew
  have hrun : run 5 ⟨m.setSlot i (some t.shell),a⟩ (rallyScript id name word) 0 = .done m₂ a :=
    run_rallyScript rfl rfl htrigger (by simpa [a] using hid.symm)
  refine ⟨m₂,?_,?_⟩
  · have hstage : m.targets.contains stageId = true := by simp [Arena.contains,hx]
    have hload : Activation.ofThread i t = .ok { a with immediate := t.resume } := rfl
    have hactivate : (m.setSlot i (some t.shell)).activate 5 { a with immediate := t.resume } = .done m₂ a := hrun
    have hthread : m.resumeThread 5 i t = .done m₂ := by
      simp only [resumeThread,hload,hactivate]
      rfl
    simp only [Machine.resume,h.last,Option.join_some]
    exact (if_neg Bool.false_ne_true).trans ((if_pos hstage).trans hthread)
  · refine ⟨h.children,?_,?_,?_,?_⟩
    · change (m.shape? stageId).map Shape.scripts = _
      rw [hσ]
      rfl
    · change (m₁.queue.push _).size = _
      rw [Array.size_push,hsize]
    · change (m₁.queue.push _)[i + 1]? = _
      rw [← hsize,Array.getElem?_push_size]
    · intro j u hj
      change (m₁.queue.push _)[j]? = _ at hj
      rw [Array.getElem?_push] at hj
      split at hj
      · cases hj
        rfl
      · rw [hslot hj]
        rfl
section Rally

variable {scripts : Scripts} {m : Machine} {name name' word word' : String}
  (hs : scripts.listeners.matching (.ofMessage word) = [rallyScript 1 name' word'])
  (hs' : scripts.listeners.matching (.ofMessage word') = [rallyScript 0 name word])

include hs hs'

theorem rally_visits (h : m.Rallies scripts 0 (rallyScript 0 name word)) (i : Nat) :
    ∃ m₁ m₂, m.Visits i m₁ ∧ m₁.queue.size = i + 1 ∧ m₁.resume 5 i = .done m₂ ∧
      (m₂.Rallies scripts (i + 1) (rallyScript 0 name word) ∨ m₂.Rallies scripts (i + 1) (rallyScript 1 name' word')) := by
  induction i with
  | zero =>
    obtain ⟨m₂,hresume,h₂⟩ := h.resume hs Nat.one_ne_zero
    exact ⟨m,m₂,.start,h.size,hresume,.inr h₂⟩
  | succ i ih =>
    obtain ⟨m₀,m₁,hvisits,hsize,hresume,h₁⟩ := ih
    have hvisits₁ : m.Visits (i + 1) m₁ := .slot hvisits (by rw [hsize]; exact Nat.lt_succ_self i) hresume
    rcases h₁ with h₁ | h₁
    · obtain ⟨m₂,hresume,h₂⟩ := h₁.resume hs Nat.one_ne_zero
      exact ⟨m₁,m₂,hvisits₁,h₁.size,hresume,.inr h₂⟩
    · obtain ⟨m₂,hresume,h₂⟩ := h₁.resume hs' Nat.zero_ne_one
      exact ⟨m₁,m₂,hvisits₁,h₁.size,hresume,.inl h₂⟩

theorem rally_endless (h : m.Rallies scripts 0 (rallyScript 0 name word)) : m.Resumes ∧ ¬ m.Ends := by
  constructor
  · intro i m₁ hm₁ _
    obtain ⟨m',m₂,hm',-,hresume,-⟩ := rally_visits hs hs' h i
    cases hm₁.unique hm'
    exact ⟨5,m₂,hresume⟩
  · intro hends
    obtain ⟨i,m₁,hm₁,hle⟩ := ends_iff.1 hends
    obtain ⟨m',m₂,hm',hsize,-⟩ := rally_visits hs hs' h i
    cases hm₁.unique hm'
    omega

end Rally

end Machine

def rallyStack (heard said : String) : Stack where
  hat := .message ⟨heard,heard⟩
  blocks := [
    .mk "control_stop" none [] [("STOP_OPTION",{ value := "other scripts in stage" })],
    .mk "event_broadcast" none [.mk "BROADCAST_INPUT" [.messageNamed said said] none] []]

def rallyProject : Project where
  stage := { name := "Stage", isStage := true, scripts := [rallyStack "ping" "pong",rallyStack "pong" "ping"] }

theorem rallyProject_compiles : ∃ p ∈ (compile rallyProject).toOption, p.isSmall ∧ p.sprites = [] ∧
    p.stage.scripts.listeners.matching (.ofMessage "ping") = [rallyScript 0 "Stage #0" "pong"] ∧
    p.stage.scripts.listeners.matching (.ofMessage "pong") = [rallyScript 1 "Stage #1" "ping"] := by
  decide +kernel

/-- Each of the two scripts finds that the other has no slot any more, and gives it a new one. -/
theorem rally_has_no_end : ∃ p first m, compile rallyProject = .ok p ∧ p.Small ∧
    (Machine.ofProgram p {} {}).Reachable first ∧ first.Within m ∧ m.Resumes ∧ ¬ m.Ends := by
  obtain ⟨p,hp,hsmall,hsprites,hping,hpong⟩ := rallyProject_compiles
  have hchildren : (Machine.ofProgram p {} {}).children = [] := by
    simp [Machine.ofProgram,hsprites]
  have hempty : (Machine.ofProgram p {} {}).slotOf? Machine.stageId 0 = none := by
    simp [Machine.slotOf?,Machine.ofProgram]
  have hstage : (Machine.ofProgram p {} {}).targets.get? Machine.stageId = some p.stage := Arena.get?_ofList _ 0
  have hserve := Machine.trigger_onStage hchildren hstage hping hempty
  have hrallies : ((Machine.ofProgram p {} {}).trigger (.ofMessage "ping")).2.Rallies p.stage.scripts 0
      (rallyScript 0 "Stage #0" "pong") := by
    rw [hserve]
    refine ⟨hchildren,?_,rfl,rfl,?_⟩
    · exact congrArg (fun x => (x.map Target.shape).map Shape.scripts) hstage
    intro j t hj
    cases j with
    | zero =>
      cases hj
      rfl
    | succ j => cases hj
  exact ⟨p,_,_,Except.mem_toOption.1 hp,Program.small_of_isSmall hsmall,.host .first (.trigger (.ofMessage "ping")),.start,
    Machine.rally_endless hpong hping (hrallies.alike (.beginFrame _))⟩

end SpriteMachine
