import SpriteMachine.Proofs.Reachability

/-!
What the running thread's own slot goes through while it runs. An event that starts its script over puts a fresh
thread into the slot, and the old one leaves off at once without being put back. Otherwise the slot stays as it is,
unless all threads are stopped or the clone deletes itself.
-/

namespace SpriteMachine

/-- The machine that a thread leaves behind. -/
def Halt.machine? : Halt → Option Machine
  | .done m _ | .fault m _ => some m
  | .outOfFuel => none

/-- The machine after a run, whether or not it faults. -/
def Outcome.machine? : Outcome → Option Machine
  | .done m | .fault m _ => some m
  | .outOfFuel => none

namespace Machine

section Advance

variable {t u : Turn} {s r : Script} {pc q next : Nat} {i : Instr} (hfetch : s.fetch pc = .ok (i,next))

include hfetch

theorem advance_going (h : advance t s pc = .going u r q) :
    (Turn.exec s next i t = .ok (.next q) u ∧ r = s) ∨
      ∃ v k, Turn.exec s next i t = .ok .leave v ∧ v.active.immediate = some k ∧
        u = v.withActive { v.active with immediate := none, stack := [] } ∧ r = k.script ∧ q = k.pc := by
  unfold advance at h
  rw [hfetch] at h
  dsimp only at h
  split at h
  · cases h
  next hexec =>
    cases h
    exact .inl ⟨hexec,rfl⟩
  next v hexec =>
    split at h
    · cases h
    next k hk =>
      cases h
      exact .inr ⟨v,k,hexec,hk,rfl,rfl,rfl⟩

theorem advance_done {m : Machine} {a : Activation} (h : advance t s pc = .halted (.done m a)) :
    Turn.exec s next i t = .ok .leave ⟨m,a⟩ ∧ a.immediate = none := by
  unfold advance at h
  rw [hfetch] at h
  dsimp only at h
  split at h
  · cases h
  · cases h
  next v hexec =>
    split at h
    next hk =>
      cases h
      exact ⟨hexec,hk⟩
    · cases h

theorem effect_of_going (h : advance t s pc = .going u r q) : t.Effect i u.machine ∧ t.SameThread u := by
  rcases advance_going hfetch h with ⟨hexec,-⟩ | ⟨v,k,hexec,-,rfl,-⟩
  · exact Turn.effect_of_exec hexec
  · obtain ⟨heffect,hsame⟩ := Turn.effect_of_exec hexec
    exact ⟨heffect,hsame.target,hsame.base,hsame.slot⟩

theorem effect_of_halted {h : Halt} {m : Machine} (hadvance : advance t s pc = .halted h) (hm : h.machine? = some m) :
    t.Effect i m := by
  have heffect := (Turn.exec_effect s next i t).1
  unfold advance at hadvance
  rw [hfetch] at hadvance
  dsimp only at hadvance
  split at hadvance
  next hexec =>
    cases hadvance
    cases hm
    rwa [hexec] at heffect
  · cases hadvance
  next hexec =>
    split at hadvance
    · cases hadvance
      cases hm
      rwa [hexec] at heffect
    · cases hadvance

end Advance

/-- The machine in which an instruction ends a turn is one that it made, unless there was no instruction. -/
theorem effect_or_eq_of_halted {t : Turn} {s : Script} {pc : Nat} {halt : Halt} {m : Machine}
    (h : advance t s pc = .halted halt) (hm : halt.machine? = some m) :
    m = t.machine ∨ ∃ i next, s.fetch pc = .ok (i,next) ∧ t.Effect i m := by
  cases hfetch : s.fetch pc with
  | error f =>
    simp only [advance,hfetch] at h
    cases h
    cases hm
    exact .inl rfl
  | ok found => exact .inr ⟨found.1,found.2,rfl,effect_of_halted hfetch h hm⟩

/-- The scripts of a target that wait for an event. -/
def listening (m : Machine) (e : Event) (id : Nat) : List Nat :=
  match m.targets.get? id with
  | none => []
  | some t => (t.scripts.listeners.matching e).map Script.id

/-- An event starts a script on a target. -/
def Starts (m : Machine) (e : Event) (target base : Nat) : Prop :=
  target ∈ m.children.reverse ++ [stageId] ∧ base ∈ m.listening e target

section Slots

variable {p : Program} {c : Settings} {m : Machine} {i : Nat} {t : Thread}

variable {m' : Machine} {base target : Nat} {e : Event}

theorem listening_congr (h : m'.targets = m.targets) : m'.listening = m.listening := by
  funext e id
  simp only [listening,h]

theorem triggerFor_fst (m : Machine) (id : Nat) (e : Event) : (m.triggerFor id e).1 = m.listening e id := by
  unfold triggerFor listening
  cases m.targets.get? id <;> rfl

theorem targets_startThread (m : Machine) (id : Nat) (s : Script) (restart : Bool) :
    (m.startThread id s restart).targets = m.targets := by
  obtain ⟨queue,starts,heq⟩ := m.startThread_eq id s restart
  rw [heq]

theorem targets_putBack (m : Machine) (i : Nat) (a : Activation) : (m.putBack i a).targets = m.targets := by
  unfold putBack
  split <;> rfl

theorem targets_triggerFor (m : Machine) (id : Nat) (e : Event) : (m.triggerFor id e).2.targets = m.targets := by
  obtain ⟨queue,starts,heq⟩ := m.triggerFor_eq id e
  rw [heq]

theorem startThread_other (hi : m.queue[i]? = some (some t)) (id : Nat) (s : Script)
    (hother : ¬ (t.target = id ∧ t.base = s.id)) (restart : Bool) :
    (m.startThread id s restart).queue[i]? = some (some t) := by
  obtain ⟨n,⟨j,u,hj,htarget,hbase,heq⟩ | heq | ⟨-,heq⟩⟩ := m.startThread_cases id s restart
  · have hji : j ≠ i := by
      rintro rfl
      rw [hi] at hj
      cases hj
      exact hother ⟨htarget,hbase⟩
    rw [heq]
    simp only [setSlot,Array.getElem?_setIfInBounds,if_neg hji]
    exact hi
  · rw [heq]
    exact hi
  · have hlt : i < m.queue.size := (Array.getElem?_eq_some_iff.1 hi).1
    rw [heq]
    dsimp only
    rw [Array.getElem?_push,if_neg (Nat.ne_of_lt hlt),hi]

theorem startThread_own (h : m.Sound p c) (hi : m.queue[i]? = some (some t)) {s : Script} (hbase : t.base = s.id) :
    (m.startThread t.target s true).queue[i]? = some (some (.start t.target s)) := by
  obtain ⟨j,hj⟩ : ∃ j, m.slotOf? t.target s.id = some j := by
    cases hslot : m.slotOf? t.target s.id with
    | none => exact absurd ⟨rfl,hbase⟩ (slotOf?_eq_none hslot hi)
    | some j => exact ⟨j,rfl⟩
  obtain ⟨u,hu,hut,hub⟩ := slotOf?_eq_some hj
  obtain rfl : j = i := h.unique hu hi hut (hub.trans hbase.symm)
  have hlt : j < m.queue.size := (Array.getElem?_eq_some_iff.1 hi).1
  have hslot : slotOf? { m with starts := m.starts + 1 } t.target s.id = some j := hj
  unfold startThread
  dsimp only
  rw [hslot]
  simp [setSlot,hlt]

theorem triggerFor_other (hi : m.queue[i]? = some (some t)) (id : Nat) (e : Event)
    (hother : ¬ (t.target = id ∧ t.base ∈ m.listening e id)) : (m.triggerFor id e).2.queue[i]? = some (some t) := by
  unfold listening at hother
  unfold triggerFor
  split
  · exact hi
  next x hx =>
    rw [hx] at hother
    dsimp only at hother ⊢
    generalize x.scripts.listeners.matching e = scripts at hother
    clear hx
    induction scripts generalizing m with
    | nil => exact hi
    | cons s scripts ih =>
      rw [List.foldl_cons]
      refine ih (startThread_other hi _ s (fun hs => hother ⟨hs.1,?_⟩) _) fun hs => hother ⟨hs.1,?_⟩
      · rw [List.map_cons,hs.2]
        exact List.mem_cons_self
      · rw [List.map_cons]
        exact List.mem_cons_of_mem _ hs.2

/-- A thread at the start of a script of its target that waits for an event. -/
def Fresh (m : Machine) (e : Event) (target base : Nat) (t : Thread) : Prop :=
  ∃ x s, m.targets.get? target = some x ∧ s ∈ x.scripts.listeners.matching e ∧ s.id = base ∧ t = .start target s

/-- Scripts are started on the target of a slot, perhaps the slot's own one, too: then a fresh thread is there, which
may be started over again. -/
theorem startThreads_own {P : Thread → Prop} {σ : Shape} {scripts : List Script} {id : Nat} (h : m.Sound p c) (hp : p.Sound)
    (hσ : m.shape? id = some σ) (hmem : ∀ s ∈ scripts, s ∈ σ.scripts.all)
    (hfresh : ∀ s ∈ scripts, s.id = base → P (.start id s)) (hi : m.queue[i]? = some (some t)) (htarget : t.target = id)
    (hbase : t.base = base) (hown : base ∈ scripts.map Script.id ∨ P t) :
    ∃ u, (scripts.foldl (fun m s => m.startThread id s true) m).queue[i]? = some (some u) ∧ P u := by
  induction scripts generalizing m t with
  | nil => exact ⟨t,hi,hown.resolve_left List.not_mem_nil⟩
  | cons s scripts ih =>
    obtain ⟨hs,hmem⟩ := List.forall_mem_cons.1 hmem
    obtain ⟨hsfresh,hfresh⟩ := List.forall_mem_cons.1 hfresh
    have hshape : (m.startThread id s true).shape? id = some σ := by
      rw [shape?,targets_startThread]
      exact hσ
    rw [List.foldl_cons]
    by_cases hid : s.id = base
    · have hslot := startThread_own h hi (hbase.trans hid.symm)
      rw [htarget] at hslot
      exact ih (h.startThread hp hσ hs true) hshape hmem hfresh hslot rfl hid (.inr (hsfresh hid))
    · have hslot := startThread_other hi id s (fun hs => hid (hs.2.symm.trans hbase)) true
      refine ih (h.startThread hp hσ hs true) hshape hmem hfresh hslot htarget hbase (hown.imp_left fun hown => ?_)
      rw [List.map_cons] at hown
      exact (List.mem_cons.1 hown).resolve_left fun heq => hid heq.symm

theorem triggerFor_own (h : m.Sound p c) (hp : p.Sound) (hi : m.queue[i]? = some (some t)) (hrestarts : e.restarts = true)
    (hown : t.base ∈ m.listening e t.target) :
    ∃ u, (m.triggerFor t.target e).2.queue[i]? = some (some u) ∧ m.Fresh e t.target t.base u := by
  unfold triggerFor
  split
  next hnone =>
    rw [listening,hnone] at hown
    exact absurd hown List.not_mem_nil
  next x hx =>
    rw [listening,hx] at hown
    have hshape : m.shape? t.target = some x.shape := by rw [shape?,hx]; rfl
    dsimp only
    rw [hrestarts]
    exact startThreads_own h hp hshape (fun s hs => Compile.mem_all.2 (.inl (Listeners.mem_of_matching hs)))
      (fun s hs hid => ⟨x,s,hx,hs,hid,rfl⟩) hi rfl rfl (.inl hown)

theorem trigger_foldl (m : Machine) (e : Event) (ids started : List Nat) :
    (ids.foldl (fun (x : List Nat × Machine) id => (x.1 ++ (x.2.triggerFor id e).1,(x.2.triggerFor id e).2))
      (started,m)) = (started ++ ids.flatMap (m.listening e),ids.foldl (fun m id => (m.triggerFor id e).2) m) := by
  induction ids generalizing m started with
  | nil => simp
  | cons id ids ih =>
    rw [List.foldl_cons,ih,List.flatMap_cons,listening_congr (targets_triggerFor m id e),triggerFor_fst,
      List.append_assoc,List.foldl_cons]

theorem trigger_eq_foldl (m : Machine) (e : Event) :
    m.trigger e = ((m.children.reverse ++ [stageId]).flatMap (m.listening e),
      (m.children.reverse ++ [stageId]).foldl (fun m id => (m.triggerFor id e).2) m) := by
  have h := trigger_foldl m e (m.children.reverse ++ [stageId]) []
  rw [List.nil_append] at h
  exact h

theorem mem_trigger (h : m.Starts e target base) : base ∈ (m.trigger e).1 := by
  rw [trigger_eq_foldl]
  exact List.mem_flatMap.2 ⟨target,h⟩

theorem trigger_other (hi : m.queue[i]? = some (some t)) (hother : ¬ m.Starts e t.target t.base) :
    (m.trigger e).2.queue[i]? = some (some t) := by
  unfold Starts at hother
  rw [trigger_eq_foldl]
  dsimp only
  generalize m.children.reverse ++ [stageId] = ids at hother
  induction ids generalizing m with
  | nil => exact hi
  | cons id ids ih =>
    rw [List.foldl_cons]
    refine ih (triggerFor_other hi id e ?_) ?_
    · rintro ⟨rfl,hs⟩
      exact hother ⟨List.mem_cons_self,hs⟩
    · rintro ⟨hmem,hs⟩
      rw [listening_congr (targets_triggerFor m id e)] at hs
      exact hother ⟨List.mem_cons_of_mem _ hmem,hs⟩

theorem Fresh.congr (h : m'.targets = m.targets) : m'.Fresh e target base = m.Fresh e target base := by
  funext t
  simp only [Fresh,h]

theorem Fresh.runs (h : m.Fresh e target base t) : t.target = target ∧ t.base = base := by
  obtain ⟨x,s,-,-,hid,rfl⟩ := h
  exact ⟨rfl,hid⟩

theorem trigger_own (h : m.Sound p c) (hp : p.Sound) (hi : m.queue[i]? = some (some t)) (hrestarts : e.restarts = true)
    (hstarts : m.Starts e t.target t.base) :
    ∃ u, (m.trigger e).2.queue[i]? = some (some u) ∧ m.Fresh e t.target t.base u := by
  obtain ⟨hmem,hlistens⟩ := hstarts
  rw [trigger_eq_foldl]
  dsimp only
  have hown : t.target ∈ m.children.reverse ++ [stageId] ∨ m.Fresh e t.target t.base t := .inl hmem
  clear hmem
  generalize m.children.reverse ++ [stageId] = ids at hown
  generalize htarget : t.target = id at *
  generalize hbase : t.base = base at *
  induction ids generalizing m t with
  | nil => exact ⟨t,hi,hown.resolve_left List.not_mem_nil⟩
  | cons j ids ih =>
    have htargets := targets_triggerFor m j e
    have hnext := h.triggerFor hp j e
    rw [List.foldl_cons,← Fresh.congr htargets]
    rw [← listening_congr htargets] at hlistens
    by_cases hj : id = j
    · subst hj
      subst htarget
      subst hbase
      rw [listening_congr htargets] at hlistens
      obtain ⟨u,hu,hfresh⟩ := triggerFor_own h hp hi hrestarts hlistens
      obtain ⟨hut,hub⟩ := hfresh.runs
      refine ih hnext hu hut hub (by rw [listening_congr htargets]; exact hlistens) ?_
      rw [Fresh.congr htargets]
      exact .inr hfresh
    · have hslot := triggerFor_other hi j e fun hs => hj (htarget.symm.trans hs.1)
      refine ih hnext hslot htarget hbase hlistens ?_
      rw [Fresh.congr htargets]
      exact hown.imp_left fun hmem => (List.mem_cons.1 hmem).resolve_left hj

theorem Evolves.slot (h : m.Evolves m') (hm : m.Sound p c) (hp : p.Sound) (hi : m.queue[i]? = some (some t)) :
    m'.queue[i]? = some (some t) := by
  induction h with
  | refl => exact hi
  | alike _ ha ih =>
    rw [ha.queue]
    exact ih
  | @clone m₁ he parent ih =>
    have hlt := (hm.evolves hp he).targets ih
    rcases m₁.createClone_eq parent with heq | ⟨x,visual,-,-,heq⟩
    · rw [heq]
      exact ih
    · rw [heq]
      exact triggerFor_other (m := m₁.withClone parent x) ih m₁.targets.nextId .cloned fun hs => Nat.ne_of_lt hlt hs.1

end Slots

end Machine

namespace Turn

variable {p : Program} {c : Settings} {o : Option Nat} {t u : Turn} {s : Script} {pc next : Nat} {i : Instr} {flow : Flow}

/-- An instruction starts the script of the running thread over. -/
def RestartsItself (t : Turn) (i : Instr) : Prop :=
  ∃ e, t.raises? i = some e ∧ t.machine.Starts e t.active.target t.active.base

/-- An instruction stops all threads, deletes the running clone, or starts the script of the running thread over. -/
def Disturbs (t : Turn) : Instr → Prop
  | .stop mode => StopMode.ofWord? mode = some .all
  | .deleteClone => t.machine.isCloneId t.active.target = true
  | i => t.RestartsItself i

theorem restarts_of_raises {e : Event} (h : t.raises? i = some e) : e.restarts = true := by
  cases i with
  | broadcast | broadcastAndWait =>
    obtain ⟨v,-,rfl⟩ := Option.map_eq_some_iff.1 h
    rfl
  | sceneChanged =>
    cases h
    rfl
  | _ => cases h

theorem Effect.spares {m : Machine} (h : t.Effect i m) (hm : t.machine.Sound p c) (hp : p.Sound) {slot : Nat}
    (hslot : t.active.slot = some slot) {u : Thread} (hu : t.machine.queue[slot]? = some (some u))
    (htarget : u.target = t.active.target) (hbase : u.base = t.active.base) (hcalm : ¬ t.Disturbs i) :
    m.queue[slot]? = some (some u) := by
  cases h with
  | edits he => exact he.evolves.slot hm hp hu
  | @raises e he =>
    refine Machine.trigger_other hu fun hstarts => hcalm ?_
    rw [htarget,hbase] at hstarts
    have hself : t.RestartsItself i := ⟨e,he,hstarts⟩
    cases i with
    | broadcast | broadcastAndWait | sceneChanged => exact hself
    | _ => cases he
  | stopsAll hi =>
    cases i with
    | stop mode => exact absurd (of_decide_eq_true hi) hcalm
    | _ => cases hi
  | stopsOthers => simp [Machine.dropThreads,hu,hslot]
  | deletes hi hclone =>
    subst hi
    exact absurd hclone hcalm

theorem Sound.spares {slot : Nat} (h : t.Sound p c (some slot) s pc) (hp : p.Sound) (hcalm : ¬ t.Disturbs i)
    (hexec : Turn.exec s next i t = .ok flow u) {x : Thread}
    (hx : t.machine.queue[slot]? = some (some x)) : u.machine.queue[slot]? = some (some x) := by
  obtain ⟨σ,hrunning,-⟩ := h
  obtain ⟨v,hv,hvt,hvb⟩ := hrunning.placed.occupied rfl
  rw [hx] at hv
  cases hv
  exact (effect_of_exec hexec).1.spares hrunning.placed.machine hp hrunning.placed.slot hx hvt hvb hcalm

/-- A thread whose script is started over leaves off and is not put back; its slot has a fresh thread. -/
theorem Sound.advance_restarts {slot : Nat} (h : t.Sound p c (some slot) s pc) (hp : p.Sound)
    (hfetch : s.fetch pc = .ok (i,next)) {e : Event} (hraises : t.raises? i = some e)
    (hstarts : t.machine.Starts e t.active.target t.active.base) :
    ∃ a u, Machine.advance t s pc = .halted (.done (t.machine.trigger e).2 a) ∧ a.requeue = none ∧
      (t.machine.trigger e).2.queue[slot]? = some (some u) ∧
      t.machine.Fresh e t.active.target t.active.base u := by
  obtain ⟨σ,hrunning,-⟩ := h
  obtain ⟨v,hv,hvt,hvb⟩ := hrunning.placed.occupied rfl
  obtain ⟨u,hexec,hm,-,himmediate,hrequeue⟩ := exec_raises hraises s next
  have hstarted : (t.machine.trigger e).1.contains t.active.base = true :=
    List.contains_iff_mem.2 (Machine.mem_trigger hstarts)
  rw [← hvt,← hvb] at hstarts ⊢
  obtain ⟨w,hw,hfresh⟩ := Machine.trigger_own hrunning.placed.machine hp hv (restarts_of_raises hraises) hstarts
  refine ⟨u.active,w,?_,hrequeue.trans hrunning.requeue,hw,hfresh⟩
  rw [hstarted,if_pos rfl] at hexec
  unfold Machine.advance
  rw [hfetch]
  dsimp only
  rw [hexec]
  dsimp only
  rw [himmediate,hrunning.immediate,hm]

end Turn

namespace Machine

/-- How a thread that is resumed in a slot comes to an offset by a number of instructions with a property. -/
inductive Resumption (m : Machine) (slot : Nat) (P : Turn → Instr → Prop) : Nat → Turn → Script → Nat → Prop
  | load {t : Thread} {a : Activation} {k : Continuation} (ht : m.queue[slot]? = some (some t))
      (hlive : t.stopped = false) (hload : Activation.ofThread slot t = .ok a) (hk : a.immediate = some k) :
      Resumption m slot P 0 ⟨m.setSlot slot (some t.shell),{ a with immediate := none, stack := [] }⟩ k.script k.pc
  | advance {n pc q next : Nat} {t u : Turn} {s r : Script} {i : Instr} (h : Resumption m slot P n t s pc)
      (hfetch : s.fetch pc = .ok (i,next)) (hi : P t i) (hadvance : advance t s pc = .going u r q) :
      Resumption m slot P (n + 1) u r q

def afterHalt (slot : Nat) : Halt → Outcome
  | .done m a => .done (m.putBack slot a)
  | .fault m f => .fault m f
  | .outOfFuel => .outOfFuel

namespace Resumption

variable {p : Program} {c : Settings} {m : Machine} {slot n pc next : Nat} {P : Turn → Instr → Prop} {t : Turn} {s : Script}

theorem sound (h : m.Resumption slot P n t s pc) (hm : m.Sound p c) (hp : p.Sound) : t.Sound p c (some slot) s pc := by
  induction h with
  | load ht hlive hload hk =>
    obtain ⟨a,k,hload',hk',hrequeue,hready⟩ := hm.load ht hlive
    rw [hload] at hload'
    cases hload'
    rw [hk] at hk'
    cases hk'
    exact hready.sound hrequeue
  | advance _ _ _ hadvance ih =>
    have hsafe := ih.advance hp
    rw [hadvance] at hsafe
    cases hsafe with
    | going h => exact h

theorem resume (h : m.Resumption slot P n t s pc) (hm : m.Sound p c) (fuel : Nat) :
    m.resume (n + fuel) slot = afterHalt slot (run fuel t s pc) := by
  induction h generalizing fuel with
  | @load th a k ht hlive hload hk =>
    have hcontains : m.targets.contains th.target = true := by
      rcases hm.threads ht with ⟨hstopped,-⟩ | ⟨σ,-,-,hshape | ⟨hstopped,-⟩⟩
      · rw [hstopped] at hlive
        cases hlive
      · rw [shape?,Option.map_eq_some_iff] at hshape
        obtain ⟨x,hx,-⟩ := hshape
        rw [Arena.contains,hx]
        rfl
      · rw [hstopped] at hlive
        cases hlive
    simp only [Machine.resume,ht,Option.join_some,hlive,Bool.false_eq_true,if_false,hcontains,if_true,
      resumeThread,hload,activate,hk,Nat.zero_add]
    cases run fuel _ k.script k.pc <;> rfl
  | @advance n pc q next t u s r i _ _ _ hadvance ih =>
    rw [Nat.add_assoc,ih,Nat.add_comm 1 fuel,run,hadvance]

theorem slot_eq {th : Thread} (h : m.Resumption slot (fun t i => ¬ t.Disturbs i) n t s pc) (hm : m.Sound p c)
    (hp : p.Sound) (hth : m.queue[slot]? = some (some th)) : t.machine.queue[slot]? = some (some th.shell) := by
  induction h with
  | load ht =>
    rw [hth] at ht
    cases ht
    have hlt : slot < m.queue.size := (Array.getElem?_eq_some_iff.1 hth).1
    simp [setSlot,hlt]
  | @advance n pc q next t u s r i h hfetch hcalm hadvance ih =>
    rcases advance_going hfetch hadvance with ⟨hexec,-⟩ | ⟨v,k,hexec,-,rfl,-⟩
    · exact (h.sound hm hp).spares hp hcalm hexec ih
    · exact (h.sound hm hp).spares hp hcalm hexec ih

end Resumption

end Machine

/-- The slot of a thread that runs. If an instruction starts the thread's script over on its target, that is the last
one that the thread performs: it is not put back, and its slot has a fresh thread at the start of the script. And as
long as no instruction does so, stops all threads or deletes the running clone, the slot has what was left there of
the thread, until the thread is put back. -/
theorem ownSlot_of_compile {project : Project} {program : Program} (hcompile : compile project = .ok program)
    (hsmall : program.Small) {settings : Settings} {clock : Clock} {first m : Machine}
    (hreach : (Machine.ofProgram program settings clock).Reachable first) (hwithin : first.Within m) (slot : Nat) :
    (∀ n t s pc i next, m.Resumption slot (fun _ _ => True) n t s pc → s.fetch pc = .ok (i,next) →
      t.RestartsItself i → ∃ m' s', s'.id = t.active.base ∧
        m'.queue[slot]? = some (some { target := t.active.target, base := t.active.base, resume := some ⟨s',0⟩
                                       frames := [{ saved := [{}] }], warp := 0, stopped := false }) ∧
        ∀ fuel, n < fuel → m.resume fuel slot = .done m') ∧
    ∀ n t s pc i next th, m.Resumption slot (fun t i => ¬ t.Disturbs i) n t s pc → s.fetch pc = .ok (i,next) →
      ¬ t.Disturbs i → m.queue[slot]? = some (some th) → t.machine.queue[slot]? = some (some th.shell) ∧
        ∀ m' a, Machine.advance t s pc = .halted (.done m' a) → m'.queue[slot]? = some (some th.shell) ∧
          ∀ fuel, n < fuel → m.resume fuel slot = .done (m'.putBack slot a) := by
  have hprogram := compile_sound hcompile hsmall
  have hm := hwithin.sound (hreach.sound (.ofProgram hprogram settings clock) hprogram) hprogram
  refine ⟨fun n t s pc i next hrun hfetch hself => ?_,fun n t s pc i next th hrun hfetch hcalm hth => ?_⟩
  · obtain ⟨e,hraises,hstarts⟩ := hself
    obtain ⟨a,u,hadvance,hrequeue,hu,x,s',-,-,hid,rfl⟩ :=
      (hrun.sound hm hprogram).advance_restarts hprogram hfetch hraises hstarts
    refine ⟨(t.machine.trigger e).2,s',hid,?_,fun fuel hfuel => ?_⟩
    · rw [hu,← hid]
      rfl
    · obtain ⟨k,rfl⟩ := Nat.exists_eq_add_of_lt hfuel
      rw [Nat.add_assoc,hrun.resume hm,Machine.run,hadvance]
      simp only [Machine.afterHalt,Machine.putBack,hrequeue]
  · have hslot := hrun.slot_eq hm hprogram hth
    refine ⟨hslot,fun m' a hadvance => ⟨?_,fun fuel hfuel => ?_⟩⟩
    · exact (hrun.sound hm hprogram).spares hprogram hcalm (Machine.advance_done hfetch hadvance).1 hslot
    · obtain ⟨k,rfl⟩ := Nat.exists_eq_add_of_lt hfuel
      rw [Nat.add_assoc,hrun.resume hm,Machine.run,hadvance]
      rfl

/-! A procedure that runs without yielding sends the message that started the script which called it. -/

def retryProject : Project where
  stage := {
    name := "Stage"
    isStage := true
    scripts := [
      { hat := .message ⟨"again","again"⟩, blocks := [.mk "procedures_call" (some { procedure := "retry" }) [] []] },
      { hat := .procedure { procedure := "retry", warp := true }
        blocks := [.mk "event_broadcast" none [.mk "BROADCAST_INPUT" [
          .mk "event_broadcast_menu" none [] [("BROADCAST_OPTION",⟨"again",none⟩)]] none] []] }] }

/-- The turn of the thread in a slot after a number of instructions. -/
def Machine.turnAfter? (m : Machine) (slot : Nat) : Nat → Option (Turn × Script × Nat)
  | 0 =>
    match (m.queue[slot]?).join with
    | none => none
    | some t =>
      match Activation.ofThread slot t with
      | .error _ => none
      | .ok a => if t.stopped then none else a.immediate.map fun k =>
          (⟨m.setSlot slot (some t.shell),{ a with immediate := none, stack := [] }⟩,k.script,k.pc)
  | n + 1 =>
    match m.turnAfter? slot n with
    | none => none
    | some (t,s,pc) =>
      match advance t s pc with
      | .going u r q => some (u,r,q)
      | .halted _ => none

variable {t : Turn} {s : Script} {pc : Nat} {m : Machine}

theorem Machine.fetch_of_going {u : Turn} {r : Script} {q : Nat} (h : advance t s pc = .going u r q) :
    ∃ i next, s.fetch pc = .ok (i,next) := by
  unfold advance at h
  split at h
  · cases h
  next i next hfetch => exact ⟨i,next,hfetch⟩

theorem Machine.resumption_zero {slot : Nat} (h : m.turnAfter? slot 0 = some (t,s,pc)) (P : Turn → Instr → Prop) :
    m.Resumption slot P 0 t s pc ∧ ∃ th, m.queue[slot]? = some (some th) := by
  unfold turnAfter? at h
  split at h
  · cases h
  next th hth =>
    split at h
    · cases h
    next a hload =>
      split at h
      · cases h
      next hlive =>
        obtain ⟨k,hk,heq⟩ := Option.map_eq_some_iff.1 h
        cases heq
        have hslot := Option.join_eq_some_iff.1 hth
        exact ⟨.load hslot (by simpa using hlive) hload hk,th,hslot⟩

theorem Machine.resumption_of_turnAfter {slot n : Nat} (h : m.turnAfter? slot n = some (t,s,pc)) :
    m.Resumption slot (fun _ _ => True) n t s pc := by
  induction n generalizing t s pc with
  | zero => exact (resumption_zero h _).1
  | succ n ih =>
    unfold turnAfter? at h
    split at h
    · cases h
    next t' s' pc' hprevious =>
      split at h
      next u r q hadvance =>
        cases h
        obtain ⟨i,next,hfetch⟩ := fetch_of_going hadvance
        exact (ih hprevious).advance hfetch trivial hadvance
      · cases h

/-- Two consecutive turns are one instruction apart. -/
theorem Machine.advance_of_turnAfter {slot n : Nat} {u : Turn} {r : Script} {q : Nat}
    (h : m.turnAfter? slot n = some (t,s,pc)) (hnext : m.turnAfter? slot (n + 1) = some (u,r,q)) :
    advance t s pc = .going u r q := by
  rw [turnAfter?,h] at hnext
  dsimp only at hnext
  split at hnext
  next hadvance =>
    cases hnext
    exact hadvance
  · cases hnext

/-- The procedure, the number of arguments and the return point of a call. -/
def Instr.call? : Instr → Option (UInt32 × UInt32 × UInt32)
  | .call procedure argc ret => some (procedure,argc,ret)
  | _ => none

theorem Instr.eq_call {i : Instr} {x : UInt32 × UInt32 × UInt32} (h : x ∈ i.call?) : i = .call x.1 x.2.1 x.2.2 := by
  cases i <;> cases h
  rfl

instance (m : Machine) (e : Event) (target base : Nat) : Decidable (m.Starts e target base) :=
  inferInstanceAs (Decidable (_ ∧ _))

instance (t : Turn) (i : Instr) : Decidable (t.RestartsItself i) :=
  inferInstanceAs (Decidable (∃ e ∈ t.raises? i, t.machine.Starts e _ _))

def retryFrame (p : Program) : Machine :=
  ((Machine.ofProgram p shallow {}).trigger (.ofMessage "again")).2.beginFrame

/-- The first thread starts its script over by its fourth instruction, in the call of the procedure, and its first
instruction is that call. -/
theorem retryProject_restarts : ∃ p ∈ (compile retryProject).toOption, p.isSmall ∧
    (∃ x ∈ (retryFrame p).turnAfter? 0 0, ∃ y ∈ (x.2.1.fetch x.2.2).toOption, y.1.call?.isSome) ∧
    ∃ x ∈ (retryFrame p).turnAfter? 0 3, x.1.active.warp = 1 ∧ x.1.active.calls.length = 1 ∧
    ∃ y ∈ (x.2.1.fetch x.2.2).toOption, x.1.RestartsItself y.1 := by
  decide +kernel

theorem ownSlot_of_compile_retryProject : ∃ p t s pc i next m' s', compile retryProject = .ok p ∧
    (retryFrame p).Resumption 0 (fun _ _ => True) 3 t s pc ∧ s.fetch pc = .ok (i,next) ∧ t.RestartsItself i ∧
    t.active.warp = 1 ∧ t.active.calls.length = 1 ∧ s'.id = t.active.base ∧
    m'.queue[0]? = some (some { target := t.active.target, base := t.active.base, resume := some ⟨s',0⟩
                                frames := [{ saved := [{}] }], warp := 0, stopped := false }) ∧
    (∀ fuel, 3 < fuel → (retryFrame p).resume fuel 0 = .done m') ∧
    ∃ t₀ s₀ pc₀ th, (retryFrame p).Resumption 0 (fun t i => ¬ t.Disturbs i) 0 t₀ s₀ pc₀ ∧
      (retryFrame p).queue[0]? = some (some th) ∧ t₀.machine.queue[0]? = some (some th.shell) := by
  obtain ⟨p,hp,hsmall,⟨⟨t₀,s₀,pc₀⟩,hzero,⟨i₀,next₀⟩,hfetch₀,hcall⟩,⟨t,s,pc⟩,hthree,hwarp,hcalls,⟨i,next⟩,
    hfetch,hself⟩ := retryProject_restarts
  have hcompile := Except.mem_toOption.1 hp
  have hfetch := Except.mem_toOption.1 hfetch
  obtain ⟨call,hcall⟩ := Option.isSome_iff_exists.1 hcall
  obtain rfl := Instr.eq_call hcall
  have hreach : (Machine.ofProgram p shallow {}).Reachable
      ((Machine.ofProgram p shallow {}).trigger (.ofMessage "again")).2 := .host .first (.trigger _)
  obtain ⟨hrestart,hspare⟩ := ownSlot_of_compile hcompile (Program.small_of_isSmall hsmall) hreach .start 0
  have hrun := Machine.resumption_of_turnAfter hthree
  obtain ⟨hrun₀,th,hth⟩ := Machine.resumption_zero hzero fun t i => ¬ t.Disturbs i
  obtain ⟨m',s',hid,hslot,hresume⟩ := hrestart 3 t s pc i next hrun hfetch hself
  have hcalm : ¬ t₀.Disturbs (.call call.1 call.2.1 call.2.2) := by
    rintro ⟨e,he,-⟩
    cases he
  exact ⟨p,t,s,pc,i,next,m',s',hcompile,hrun,hfetch,hself,hwarp,hcalls,hid,hslot,hresume,t₀,s₀,pc₀,th,
    hrun₀,hth,(hspare 0 t₀ s₀ pc₀ _ _ th hrun₀ (Except.mem_toOption.1 hfetch₀) hcalm hth).1⟩

end SpriteMachine
