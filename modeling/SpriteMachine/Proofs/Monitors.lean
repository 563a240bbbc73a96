import SpriteMachine.Proofs.Asking
import SpriteMachine.Proofs.SpriteList

/-!
Monitors. A block that shows or hides a variable or list does so for its target, and a clone for the sprite it is a copy of.
The first block that names a variable or list puts a monitor for it at the end of the list; those after it only say whether
it is shown. So there is one monitor for each variable or list that was named, in the order of the first blocks that did,
it stands as the last of them says, and none is of a clone.
-/

namespace SpriteMachine

namespace Watcher

/-- The variable or list of a monitor. -/
def key (w : Watcher) : Nat × Watched := (w.target,w.data)

/-- The monitors after one is shown or hidden. -/
def record (ws : List Watcher) (e : Watcher) : List Watcher :=
  if e.key ∈ ws.map key then ws.map fun w => if w.key = e.key then e else w else ws ++ [e]

theorem key_inj {w e : Watcher} : w.key = e.key ↔ w.target = e.target ∧ w.data = e.data := by
  simp [key]

theorem keys_record (ws : List Watcher) (e : Watcher) :
    (record ws e).map key = if e.key ∈ ws.map key then ws.map key else ws.map key ++ [e.key] := by
  unfold record
  split
  · rw [List.map_map]
    refine List.map_congr_left fun w _ => ?_
    by_cases hw : w.key = e.key
    · simp [hw]
    · simp [hw]
  · simp

theorem mem_record {ws : List Watcher} {w e : Watcher} : w ∈ record ws e ↔ w = e ∨ w ∈ ws ∧ w.key ≠ e.key := by
  unfold record
  split
  next hkey =>
    obtain ⟨x,hx,hxe⟩ := List.mem_map.1 hkey
    rw [List.mem_map]
    constructor
    · rintro ⟨y,hy,rfl⟩
      split
      · exact .inl rfl
      next hne => exact .inr ⟨hy,hne⟩
    · rintro (rfl | ⟨hw,hne⟩)
      · exact ⟨x,hx,if_pos hxe⟩
      · exact ⟨w,hw,if_neg hne⟩
  next hkey =>
    have hne : w ∈ ws → w.key ≠ e.key := fun hw heq => hkey (List.mem_map.2 ⟨w,hw,heq⟩)
    simp only [List.mem_append,List.mem_singleton]
    tauto

theorem nodup_record {ws : List Watcher} (h : (ws.map key).Nodup) (e : Watcher) : ((record ws e).map key).Nodup := by
  rw [keys_record]
  split
  · exact h
  next hkey => exact List.nodup_append.2 ⟨h,List.nodup_singleton _,by simpa using hkey⟩

theorem nodup_foldl_record {ws : List Watcher} (h : (ws.map key).Nodup) (l : List Watcher) :
    ((l.foldl record ws).map key).Nodup :=
  List.foldlRecOn (motive := fun xs => (xs.map key).Nodup) l record h fun _ h e _ => nodup_record h e

/-- A monitor keeps its place. -/
theorem keys_prefix_foldl (ws l : List Watcher) : ws.map key <+: (l.foldl record ws).map key := by
  refine List.foldlRecOn (motive := fun xs => ws.map key <+: xs.map key) l record List.prefix_rfl fun xs h e _ => ?_
  rw [keys_record]
  split
  · exact h
  · exact h.trans (List.prefix_append _ _)

/-- The monitors are what was shown or hidden last of each variable and list. -/
theorem mem_foldl_record {l : List Watcher} {w : Watcher} :
    w ∈ l.foldl record [] ↔ (l.filter fun e => e.key = w.key).getLast? = some w := by
  induction l using List.reverseRecOn with
  | nil => simp
  | append_singleton l e ih =>
    rw [List.foldl_append,List.foldl_cons,List.foldl_nil,mem_record,List.filter_append]
    by_cases he : e.key = w.key
    · have hlast : [e].filter (fun e => e.key = w.key) = [e] := by simp [he]
      rw [hlast,List.getLast?_concat,Option.some.injEq]
      constructor
      · rintro (rfl | ⟨-,hne⟩)
        · rfl
        · exact absurd he.symm hne
      · rintro rfl
        exact .inl rfl
    · have hnone : [e].filter (fun e => e.key = w.key) = [] := by simp [he]
      have hne : w ≠ e := by
        rintro rfl
        exact he rfl
      simp only [hnone,List.append_nil,← ih,hne,false_or,ne_eq,Ne.symm he,not_false_eq_true,and_true]

end Watcher

namespace Machine

variable {m m' : Machine} {n : Nat}

theorem watchers_setWatcher (m : Machine) (id : Nat) (data : Watched) (visible : Bool) :
    (m.setWatcher id data visible).watchers = Watcher.record m.watchers ⟨m.watcherOwner id,data,visible⟩ := by
  have hany : m.watchers.any (fun w => w.target = m.watcherOwner id ∧ w.data = data) = true ↔
      (⟨m.watcherOwner id,data,visible⟩ : Watcher).key ∈ m.watchers.map Watcher.key := by
    simp [Watcher.key]
  unfold setWatcher Watcher.record
  dsimp only
  by_cases h : (⟨m.watcherOwner id,data,visible⟩ : Watcher).key ∈ m.watchers.map Watcher.key
  · rw [if_pos h,if_pos (hany.2 h)]
    refine List.map_congr_left fun w _ => ?_
    by_cases hw : w.target = m.watcherOwner id ∧ w.data = data
    · rw [if_pos hw,if_pos (Watcher.key_inj.2 hw),hw.1,hw.2]
    · rw [if_neg hw,if_neg fun h => hw (Watcher.key_inj.1 h)]
  · rw [if_neg h,if_neg fun h' => h (hany.1 h')]

/-- A clone shows and hides what belongs to its sprite. -/
theorem Listed.watcherOwner_le (h : m.Listed n) {id : Nat} (hlive : (m.targets.get? id).isSome) : m.watcherOwner id ≤ n := by
  have hle : ∀ id t, m.targets.get? id = some t → t.isClone = false → id ≤ n := by
    intro id t ht hclone
    by_contra hid
    have hkind := h.clone id t.shape (by omega) (by rw [shape?,ht]; rfl)
    simp [Target.isClone,show t.kind = .clone from hkind] at hclone
  obtain ⟨t,ht⟩ := Option.isSome_iff_exists.1 hlive
  have hshape : m.shape? id = some t.shape := by rw [shape?,ht]; rfl
  unfold watcherOwner
  rw [ht]
  dsimp only
  split
  next hclone =>
    have hstage : id ≠ stageId := by
      rintro rfl
      simp [Target.isClone,show t.kind = .stage from h.stage _ hshape] at hclone
    obtain ⟨sprite,τ,hsprite,hbound,hτ,hname⟩ := h.named id _ hstage hshape
    obtain ⟨x,hx,rfl⟩ := Option.map_eq_some_iff.1 hτ
    have hkind : x.isClone = false := by
      obtain ⟨_,hσ,hkind⟩ := h.original sprite hbound
      rw [hτ] at hσ
      cases hσ
      simpa [Target.isClone,Target.shape] using hkind
    have hfound : (m.children.find? (m.isSpriteNamed t.name)).isSome := by
      refine List.find?_isSome.2 ⟨sprite,(h.mem sprite).2 ⟨hsprite,by rw [hτ]; rfl⟩,?_⟩
      simp [isSpriteNamed,hx,hkind,show x.name = t.name from hname]
    obtain ⟨found,hfind⟩ := Option.isSome_iff_exists.1 hfound
    have hnamed := List.find?_some hfind
    simp only [isSpriteNamed,Option.any_eq_true,Bool.and_eq_true,Bool.not_eq_true'] at hnamed
    obtain ⟨y,hy,-,hclone⟩ := hnamed
    rw [object?,hfind]
    exact hle found y hy hclone
  next hclone => exact hle id t ht (by simpa using hclone)

theorem watchers_eq (h : m'.instruments = m.instruments) : m'.watchers = m.watchers :=
  congrArg (·.2.2) h

theorem Edits.watchers {i : Instr} {own : Nat} (h : m.Edits i own m') (hi : i.watches = false) :
    m'.watchers = m.watchers := by
  induction h with
  | refl => rfl
  | target _ _ _ ih | layer _ _ ih | panel _ _ ih | prompt _ _ _ ih | ticket _ _ ih | visual _ _ ih => exact ih
  | watcher _ hwatches _ _ =>
    rw [hwatches] at hi
    cases hi
  | clone _ _ parent ih => exact (watchers_eq (instruments_createClone _ parent)).trans ih
  | aside _ hm _ ih =>
    rw [hm]
    exact ih

theorem watchers_host (m : Machine) {a : HostAction} (ha : ∀ id data visible, a ≠ .setWatcher id data visible) :
    (a.apply m).watchers = m.watchers := by
  refine (watchers_eq (m.instruments_host a)).trans ?_
  cases a with
  | setWatcher id data visible => exact absurd rfl (ha id data visible)
  | stopAll => exact congrArg (·.2.2) m.instruments_stopAll
  | start =>
    change m.start.watchers = _
    unfold Machine.start
    split <;> rfl
  | pause =>
    change m.pause.watchers = _
    unfold Machine.pause
    split <;> rfl
  | _ => rfl

end Machine

theorem Turn.Effect.watchers {t : Turn} {i : Instr} {m : Machine} (h : t.Effect i m) (hi : i.watches = false) :
    m.watchers = t.machine.watchers := by
  cases h with
  | edits h => exact h.watchers hi
  | raises _ => exact Machine.watchers_eq (Machine.instruments_trigger _ _)
  | stopsAll _ => exact congrArg (·.2.2) t.machine.instruments_stopAll
  | stopsOthers => rfl
  | deletes _ _ => exact Machine.watchers_eq (Machine.instruments_deleteClone _ _)

/-! Runs -/

/-- What an instruction shows or hides. -/
def Instr.shows? (t : Turn) : Instr → Option Watcher
  | .watchVar h visible => some ⟨t.machine.watcherOwner (h.owner t.active.target),.variableAt h.index,visible⟩
  | .watchList h visible => some ⟨t.machine.watcherOwner (h.owner t.active.target),.listAt h.index,visible⟩
  | _ => none

/-- A block that shows or hides something goes on or faults; then it has changed nothing. -/
theorem Machine.advance_watches {s : Script} {pc next : Nat} {i : Instr} (hfetch : s.fetch pc = .ok (i,next))
    (hi : i.watches = true) (t : Turn) : (∃ f, Machine.advance t s pc = .halted (.fault t.machine f)) ∨
    ∃ owner data visible, (t.machine.targets.get? owner).isSome ∧
      i.shows? t = some ⟨t.machine.watcherOwner owner,data,visible⟩ ∧
      Machine.advance t s pc = .going ⟨t.machine.setWatcher owner data visible,t.active⟩ s next := by
  have hfound : ∀ {α : Type} {x : Exec (Nat × α)} {h : Handle} {kind : String} {get : Target → Option α} {data : Watched}
      {visible : Bool}, Finds x h kind get → i.isStraight = true →
      Turn.perform s i = (x >>= fun r => Turn.modifyMachine (·.setWatcher r.1 data visible)) →
      (∃ f, Machine.advance t s pc = .halted (.fault t.machine f)) ∨
      (t.machine.targets.get? (h.owner t.active.target)).isSome ∧ Machine.advance t s pc =
        .going ⟨t.machine.setWatcher (h.owner t.active.target) data visible,t.active⟩ s next := by
    intro α x h kind get data visible hx hstraight hperform
    simp only [Machine.advance,hfetch,Turn.exec_of_isStraight hstraight,hperform,bind,EStateM.bind]
    cases hread : x t with
    | ok r u =>
      obtain ⟨rfl,howner,hget⟩ := hx.eq_ok hread
      obtain ⟨y,hy,-⟩ := Option.bind_eq_some_iff.1 hget
      rw [← howner]
      exact .inr ⟨by rw [hy]; rfl,rfl⟩
    | error f u =>
      rw [hx] at hread
      split at hread <;> cases hread
      exact .inl ⟨f,rfl⟩
  cases i with
  | watchVar h visible =>
    refine (hfound (.getVariable h) rfl rfl).imp_right ?_
    rintro ⟨hlive,hadvance⟩
    exact ⟨_,_,_,hlive,rfl,hadvance⟩
  | watchList h visible =>
    refine (hfound (.getList h) rfl rfl).imp_right ?_
    rintro ⟨hlive,hadvance⟩
    exact ⟨_,_,_,hlive,rfl,hadvance⟩
  | _ => cases hi

namespace Phase

/-- What a step shows or hides. -/
def shown : Phase → Phase → List Watcher
  | .turn t s pc, .turn .. =>
    match s.fetch pc with
    | .ok (i,_) => (i.shows? t).toList
    | .error _ => []
  | _, _ => []

/-- Steps, and what their blocks show and hide. The host does not show or hide anything itself. -/
inductive Shows (first : Phase) : List Watcher → Phase → Prop
  | refl : Shows first [] first
  | host {l : List Watcher} {m : Machine} (h : Shows first l (.idle m)) (a : HostAction)
      (ha : ∀ id data visible, a ≠ .setWatcher id data visible) : Shows first l (.idle (a.apply m))
  | start {l : List Watcher} {m : Machine} {id : Nat} {x : Target} {s : Script} (h : Shows first l (.idle m))
      (hx : m.targets.get? id = some x) (hs : s ∈ x.scripts.all) (restart : Bool) :
      Shows first l (.idle (m.startThread id s restart))
  | step {l : List Watcher} {σ τ : Phase} (h : Shows first l σ) (hstep : Step σ τ)
      (hidle : (σ.isIdle && τ.isIdle) = false) : Shows first (l ++ shown σ τ) τ

/-- The monitors after a step. -/
theorem Step.watchers {σ τ : Phase} {n : Nat} (h : Step σ τ) (hidle : (σ.isIdle && τ.isIdle) = false)
    (hσ : σ.machine.Listed n) : τ.machine.watchers = (shown σ τ).foldl Watcher.record σ.machine.watchers ∧
      ∀ e ∈ shown σ τ, e.target ≤ n := by
  have hnone : ∀ e ∈ ([] : List Watcher), e.target ≤ n := fun e he => by cases he
  have hhalted : ∀ {t : Turn} {s : Script} {pc : Nat} {halt : Halt} {m : Machine},
      Machine.advance t s pc = .halted halt → halt.machine? = some m → m.watchers = t.machine.watchers := by
    intro t s pc halt m hadvance hm
    rcases Machine.effect_or_eq_of_halted hadvance hm with rfl | ⟨i,next,hfetch,he⟩
    · rfl
    · cases hi : i.watches with
      | false => exact he.watchers hi
      | true =>
        rcases Machine.advance_watches hfetch hi t with ⟨f,hfault⟩ | ⟨owner,data,visible,-,-,hgoing⟩
        · rw [hfault] at hadvance
          cases hadvance
          cases hm
          rfl
        · rw [hgoing] at hadvance
          cases hadvance
  cases h with
  | host m a | start hx hs restart => cases hidle
  | detach hx hs | take hi hlive hload hk | gone hi hgone | sweep m | clock m => exact ⟨rfl,hnone⟩
  | begin m => exact ⟨congrArg (·.2.2) (Machine.instruments_applyDrags { m with visual := false }),hnone⟩
  | @advance t u s r pc q h =>
    obtain ⟨i,next,hfetch⟩ := Machine.fetch_of_going h
    simp only [shown,hfetch]
    cases hi : i.watches with
    | false =>
      have hshows : i.shows? t = none := by cases i <;> first | rfl | cases hi
      rw [hshows]
      exact ⟨(Machine.effect_of_going hfetch h).1.watchers hi,hnone⟩
    | true =>
      rcases Machine.advance_watches hfetch hi t with ⟨f,hfault⟩ | ⟨owner,data,visible,hlive,hshows,hgoing⟩
      · rw [hfault] at h
        cases h
      · rw [hgoing] at h
        cases h
        rw [hshows]
        refine ⟨Machine.watchers_setWatcher _ _ _ _,fun e he => ?_⟩
        cases List.mem_singleton.1 he
        exact hσ.watcherOwner_le hlive
  | @layDown _ _ _ i m a h hslot =>
    exact ⟨(Machine.watchers_eq (m.instruments_putBack i a)).trans (hhalted h rfl),hnone⟩
  | finish h hslot | fault h => exact ⟨hhalted h rfl,hnone⟩
  | draw m => exact ⟨Machine.watchers_eq m.instruments_draw,hnone⟩

variable {first σ : Phase} {l : List Watcher} {n : Nat}

theorem Shows.listed (h : Shows first l σ) (hfirst : first.machine.Listed n) : σ.machine.Listed n := by
  induction h with
  | refl => exact hfirst
  | host _ a _ ih => exact ih.host a
  | start _ _ _ restart ih => exact ih.startThread _ _ restart
  | step _ hstep _ ih => exact hstep.listed ih

theorem Shows.watchers (h : Shows first l σ) (hfirst : first.machine.Listed n) :
    σ.machine.watchers = l.foldl Watcher.record first.machine.watchers ∧ ∀ e ∈ l, e.target ≤ n := by
  induction h with
  | refl => exact ⟨rfl,fun e he => by cases he⟩
  | host _ a ha ih => exact ⟨(Machine.watchers_host _ ha).trans ih.1,ih.2⟩
  | start _ _ _ restart ih => exact ⟨(Machine.watchers_eq (Machine.instruments_startThread _ _ _ restart)).trans ih.1,ih.2⟩
  | step h hstep hidle ih =>
    obtain ⟨hwatchers,hbound⟩ := hstep.watchers hidle (h.listed hfirst)
    refine ⟨by rw [hwatchers,ih.1,List.foldl_append],fun e he => ?_⟩
    exact (List.mem_append.1 he).elim (ih.2 e) (hbound e)

theorem Shows.resumes {m : Machine} {slot count pc : Nat} {P : Turn → Instr → Prop} {t : Turn} {s : Script}
    (h : Shows first l (.frame m)) (hresumes : m.Resumption slot P count t s pc) : ∃ l, Shows first l (.turn t s pc) := by
  induction hresumes with
  | load ht hlive hload hk => exact ⟨_,h.step (.take ht hlive hload hk) rfl⟩
  | advance _ _ _ hadvance ih =>
    obtain ⟨l,h⟩ := ih
    exact ⟨_,h.step (.advance hadvance) rfl⟩

end Phase

open Phase in
/-- In a run of a project each variable or list has one monitor at most, of a sprite or the stage that is alive and never of
a clone. There is one once a block has shown or hidden it, it is as the last such block says, and it keeps its place. -/
theorem monitors_of_compile {project : Project} {program : Program} {settings : Settings} {clock : Clock}
    (hcompile : compile project = .ok program) {l : List Watcher} {σ : Phase}
    (h : Shows (.idle (.ofProgram program settings clock)) l σ) :
    (σ.machine.watchers.map Watcher.key).Nodup ∧
    (∀ w ∈ σ.machine.watchers, ∃ t, σ.machine.targets.get? w.target = some t ∧ t.isClone = false) ∧
    (∀ w, w ∈ σ.machine.watchers ↔ (l.filter fun e => e.key = w.key).getLast? = some w) ∧
    ∀ {l' : List Watcher} {τ : Phase}, Shows σ l' τ →
      σ.machine.watchers.map Watcher.key <+: τ.machine.watchers.map Watcher.key := by
  have hlisted : (Machine.ofProgram program settings clock).Listed program.sprites.length := by
    obtain ⟨hstage,hsprites,-⟩ := compile_supplied hcompile
    exact Machine.listed_ofProgram hstage hsprites settings clock
  obtain ⟨hwatchers,hbound⟩ := h.watchers hlisted
  have hσ := h.listed hlisted
  have hlast : ∀ w, w ∈ σ.machine.watchers ↔ (l.filter fun e => e.key = w.key).getLast? = some w := by
    intro w
    rw [hwatchers]
    exact Watcher.mem_foldl_record
  refine ⟨?_,fun w hw => ?_,hlast,fun h' => ?_⟩
  · rw [hwatchers]
    exact @Watcher.nodup_foldl_record [] List.nodup_nil l
  · have hmem := List.mem_of_getLast? ((hlast w).1 hw)
    obtain ⟨τ,hτ,hkind⟩ := hσ.original w.target (hbound w (List.mem_filter.1 hmem).1)
    obtain ⟨t,ht,rfl⟩ := Option.map_eq_some_iff.1 hτ
    exact ⟨t,ht,by simpa [Target.isClone,Target.shape] using hkind⟩
  · rw [(h'.watchers hσ).1]
    exact Watcher.keys_prefix_foldl _ _

/-- A sprite whose clones show its variable. -/
def gauge : Project where
  stage := { name := "Stage", isStage := true }
  sprites := [{
    name := "Dial"
    isStage := false
    vars := [⟨"n","level",.number 0.0⟩]
    scripts := [{ hat := .startAsClone, blocks := [.mk "data_showvariable" none [] [("VARIABLE",⟨"level",some "n"⟩)]] }] }]

theorem monitors_of_compile_gauge : ∃ p ∈ (compile gauge).toOption, ∃ l σ,
    Phase.Shows (.idle (.ofProgram p {} {})) l σ ∧ σ.machine.watchers.map Watcher.key = [(1,.variableAt 0)] ∧
      ∃ t, σ.machine.targets.get? 1 = some t ∧ t.isClone = false := by
  have hrun : ∃ p ∈ (compile gauge).toOption,
      ∃ x ∈ ((Machine.ofProgram p {} {}).createClone 1).2.beginFrame.turnAfter? 0 1,
        x.1.machine.watchers.map Watcher.key = [(1,.variableAt 0)] := by
    decide +kernel
  obtain ⟨p,hp,⟨t,s,pc⟩,ht,hkeys⟩ := hrun
  have hclone : Phase.Shows (.idle (.ofProgram p {} {})) [] (.idle (HostAction.apply _ (.createClone 1))) :=
    .host .refl (.createClone 1) nofun
  obtain ⟨l,hshows⟩ := (hclone.step (.begin _) rfl).resumes (Machine.resumption_of_turnAfter ht)
  obtain ⟨-,hlive,-⟩ := monitors_of_compile (Except.mem_toOption.1 hp) hshows
  have hmem : (1,.variableAt 0) ∈ t.machine.watchers.map Watcher.key := hkeys ▸ List.mem_cons_self
  obtain ⟨w,hw,hkey⟩ := List.mem_map.1 hmem
  have htarget : w.target = 1 := congrArg Prod.fst hkey
  exact ⟨p,hp,l,_,hshows,hkeys,htarget ▸ hlive w hw⟩

end SpriteMachine
