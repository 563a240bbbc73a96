import SpriteMachine.Proofs.Assembly
import SpriteMachine.Proofs.Builtins
import SpriteMachine.Proofs.Running

/-!
What building a script guarantees about running it. The check reads the code before jumps get their offsets.
So control that comes from a label meets whole instructions, with labels and constants that exist, as long as
it does not arrive at the operand of a jump; and it never does if no such operand was read as an opcode.
-/

namespace SpriteMachine

namespace Instr

/-- The offsets to which an instruction can jump. -/
def targets : Instr → List Nat
  | .jump target | .jumpIf _ target => [target.toNat]
  | _ => []

/-- The offsets at which control can go on in the same script; `next` is the one after the instruction. -/
def successors (next : Nat) : Instr → List Nat
  | .jump target => [target.toNat]
  | .jumpIf _ target => [target.toNat,next]
  | .queue _ | .forceQueue _ | .finish | .endCall | .call .. => []
  | _ => [next]

/-- Whether the labels and constants that an instruction names exist. -/
def refersInto (s : Script) : Instr → Bool
  | .pushConstant index => index.toNat < s.constants.size
  | .queue label | .forceQueue label => label.toNat < s.labels.size
  | .call procedure _ ret => procedure.toNat < s.constants.size && ret.toNat < s.labels.size
  | _ => true

end Instr

/-! What an instruction does besides falling through -/

def Harmless {α : Type} (x : Exec α) : Prop :=
  ∀ t f u, x t = .error f u → f.isDecoding = false

namespace Harmless

variable {α β : Type} {x : Exec α}

theorem bind {f : α → Exec β} (hx : Harmless x) (hf : ∀ a, Harmless (f a)) : Harmless (x >>= f) := by
  intro t e v h
  change EStateM.bind x f t = _ at h
  unfold EStateM.bind at h
  split at h
  · exact hf _ _ _ _ h
  next hu =>
    cases h
    exact hx _ _ _ hu

theorem pure (a : α) : Harmless (Pure.pure a : Exec α) := fun _ _ _ h => nomatch h

theorem get : Harmless (MonadState.get : Exec Turn) := fun _ _ _ h => nomatch h

theorem modifyActive (f : Activation → Activation) : Harmless (Turn.modifyActive f) := fun _ _ _ h => nomatch h

theorem modifyMachine (f : Machine → Machine) : Harmless (Turn.modifyMachine f) := fun _ _ _ h => nomatch h

theorem onMachine (f : Machine → α × Machine) : Harmless (Turn.onMachine f) := fun _ _ _ h => nomatch h

theorem machineIs (f : Machine → α) : Harmless (Turn.machineIs f) := fun _ _ _ h => nomatch h

theorem throw {e : Fault} (he : e.isDecoding = false) : Harmless (MonadExcept.throw e : Exec α) := by
  intro t f u h
  cases h
  exact he

end Harmless

theorem Tame.harmless {α : Type} {c : Access} {n k : Nat} {x : Exec α} (hx : Tame c n k x) : Harmless x := by
  intro t f u h
  cases hx.blames h with
  | underflow _ => rfl
  | missing _ => rfl
  | handle _ _ hf => exact hf

namespace Harmless

theorem pop : Harmless Turn.pop := (Tame.pop : Tame {} 1 0 _).harmless

theorem own : Harmless Turn.own := (Tame.own : Tame {} 0 0 _).harmless

theorem onActive {α : Type} {f : Activation → Except Fault (α × Activation)}
    (hf : ∀ a e, f a = .error e → e.isDecoding = false) : Harmless (Turn.onActive f) := by
  intro t e u h
  unfold Turn.onActive at h
  split at h
  · cases h
  next he =>
    cases h
    exact hf _ _ he

theorem restore_error {a : Activation} {e : Fault} (h : a.restore = .error e) : e.isDecoding = false := by
  unfold Activation.restore at h
  split at h
  · cases h
    rfl
  · cases h

theorem restore : Harmless (Turn.onActive fun a => a.restore.map ((),·)) :=
  onActive fun a e h => by
    cases hr : a.restore with
    | error e' =>
      rw [hr] at h
      cases h
      exact restore_error hr
    | ok b =>
      rw [hr] at h
      cases h

theorem endCall : Harmless (Turn.onActive fun a => a.endCall.map ((),·)) :=
  onActive fun a e h => by
    unfold Activation.endCall Activation.leave at h
    split at h
    · cases h
    · cases hc : a.calls with
      | nil =>
        rw [hc] at h
        cases h
      | cons caller calls =>
        simp only [hc] at h
        cases hr : ({ a with calls := calls, frame := caller, warp := a.warp - 1 } : Activation).restore with
        | error e' =>
          simp only [hr] at h
          cases h
          exact restore_error hr
        | ok b =>
          simp only [hr] at h
          cases h

theorem popN (n : Nat) : Harmless (Turn.onActive (·.popN n)) :=
  onActive fun a e h => by
    unfold Activation.popN at h
    split at h
    · cases h
    · cases h
      rfl

theorem constant {s : Script} {index : UInt32} (h : index.toNat < s.constants.size) :
    Harmless (Turn.constant s index) := by
  unfold Turn.constant Script.constant?
  rw [Array.getElem?_eq_getElem h]
  exact pure _

theorem resumePoint {s : Script} {label : UInt32} (h : label.toNat < s.labels.size) :
    Harmless (Turn.resumePoint s label) := by
  unfold Turn.resumePoint Script.continuation?
  rw [if_pos h]
  exact pure _

theorem call (procedure : String) (args : List Value) (ret : Continuation) :
    Harmless (Turn.call procedure args ret) :=
  own.bind fun t => by
    cases t.scripts.procedure? procedure with
    | none => exact modifyActive _
    | some p =>
      refine (machineIs _).bind fun settings => get.bind fun u => ?_
      dsimp only
      split
      refine (throw rfl).bind fun _ => ?_
      all_goals exact (modifyActive _).bind fun _ => (machineIs _).bind fun _ => modifyActive _

theorem unlessRestarted (started : List Nat) (pc : Nat) : Harmless (Turn.unlessRestarted started pc) :=
  get.bind fun _ => by split <;> exact pure _

theorem stop (mode : Option StopMode) (pc : Nat) : Harmless (Turn.stop mode pc) := by
  match mode with
  | some .all => exact (modifyMachine _).bind fun _ => (modifyActive _).bind fun _ => pure _
  | some .thisScript => exact endCall.bind fun _ => pure _
  | some .otherScripts => exact get.bind fun _ => (modifyMachine _).bind fun _ => pure _
  | none => exact pure _

theorem perform {s : Script} {i : Instr} (h : i.refersInto s = true) : Harmless (Turn.perform s i) := by
  cases harity : i.arity? with
  | some p =>
    refine (Tame.perform harity ?_).harmless
    rintro index rfl
    simpa [Instr.refersInto] using h
  | none =>
    cases i with
    | save => exact modifyActive _
    | restore => exact restore
    | builtin id =>
      rw [Instr.arity?,Option.map_eq_none_iff] at harity
      change Harmless (Turn.callBuiltin id)
      unfold Turn.callBuiltin
      rw [harity]
      exact throw rfl
    | jump _ | jumpIf _ _ | queue _ | forceQueue _ | finish | endCall | call _ _ _ | broadcast
    | broadcastAndWait | sceneChanged | stop _ | deleteClone => exact pure _
    | _ => cases harity

theorem exec {s : Script} (pc : Nat) {i : Instr} (h : i.refersInto s = true) :
    Harmless (Turn.exec s pc i) := by
  cases i with
  | jump target | finish => exact pure _
  | jumpIf wanted target =>
    refine (pop.bind fun _ => pure _).bind fun b => ?_
    split <;> exact pure _
  | queue label | forceQueue label =>
    exact (resumePoint (by simpa [Instr.refersInto] using h)).bind fun _ => (modifyActive _).bind fun _ => pure _
  | endCall => exact stop (some .thisScript) pc
  | call procedure argc ret =>
    simp only [Instr.refersInto,Bool.and_eq_true,decide_eq_true_eq] at h
    exact (constant h.1).bind fun _ => (popN _).bind fun _ => (resumePoint h.2).bind fun _ =>
      (call _ _ _).bind fun _ => pure _
  | broadcast => exact (pop.bind fun _ => pure _).bind fun _ => (onMachine _).bind fun _ => unlessRestarted _ _
  | broadcastAndWait =>
    exact (pop.bind fun _ => pure _).bind fun _ => (onMachine _).bind fun _ => (modifyActive _).bind fun _ =>
      unlessRestarted _ _
  | sceneChanged => exact (machineIs _).bind fun _ => (onMachine _).bind fun _ => unlessRestarted _ _
  | stop mode => exact stop (StopMode.ofWord? mode) pc
  | deleteClone =>
    refine (get.bind fun _ => pure _).bind fun _ => own.bind fun _ => ?_
    split
    · exact (modifyMachine _).bind fun _ => pure _
    · exact pure _
  | _ => exact (perform h).bind fun _ => pure _

end Harmless

/-- Code that goes on only at given offsets. -/
def GoesTo (offsets : List Nat) (x : Exec Flow) : Prop :=
  ∀ t q u, x t = .ok (.next q) u → q ∈ offsets

namespace GoesTo

variable {α : Type} {offsets : List Nat}

theorem bind {x : Exec α} {f : α → Exec Flow} (hf : ∀ a, GoesTo offsets (f a)) : GoesTo offsets (x >>= f) := by
  intro t q v h
  change EStateM.bind x f t = _ at h
  unfold EStateM.bind at h
  split at h
  · exact hf _ _ _ _ h
  · cases h

theorem leave : GoesTo offsets (pure .leave) := by
  intro t q u h
  cases h

theorem next {pc : Nat} (h : pc ∈ offsets) : GoesTo offsets (pure (.next pc)) := by
  intro t q u hq
  cases hq
  exact h

theorem unlessRestarted (started : List Nat) (pc : Nat) : GoesTo [pc] (Turn.unlessRestarted started pc) :=
  bind fun _ => by
    split
    · exact leave
    · exact next (by simp)

theorem stop (mode : Option StopMode) (pc : Nat) : GoesTo [pc] (Turn.stop mode pc) := by
  match mode with
  | some .all => exact bind fun _ => bind fun _ => leave
  | some .thisScript => exact bind fun _ => leave
  | some .otherScripts => exact bind fun _ => bind fun _ => next (by simp)
  | none => exact next (by simp)

theorem exec (s : Script) (pc : Nat) (i : Instr) : GoesTo (i.successors pc) (Turn.exec s pc i) := by
  cases i with
  | jump target => exact next (by simp [Instr.successors])
  | jumpIf wanted target =>
    refine bind fun b => ?_
    split <;> exact next (by simp [Instr.successors])
  | queue label | forceQueue label => exact bind fun _ => bind fun _ => leave
  | finish => exact leave
  | endCall => exact bind fun _ => leave
  | call procedure argc ret => exact bind fun _ => bind fun _ => bind fun _ => bind fun _ => leave
  | broadcast | sceneChanged => exact bind fun _ => bind fun _ => unlessRestarted _ _
  | broadcastAndWait => exact bind fun _ => bind fun _ => bind fun _ => unlessRestarted _ _
  | stop mode => exact stop _ _
  | deleteClone =>
    refine bind fun _ => bind fun _ => ?_
    split
    · exact bind fun _ => leave
    · exact next (by simp [Instr.successors])
  | _ => exact bind fun _ => next (by simp [Instr.successors])

end GoesTo

/-! Control paths -/

namespace Instr

variable {o : Opcode} {a b c : UInt32} {q : Nat}

theorem mem_successors_ofWords {next : Nat} (h : q ∈ (ofWords o a b c).successors next) :
    q = next ∧ o.isTerminator = false ∨ o.isJump = true ∧ q = a.toNat := by
  cases o <;> simp [ofWords,successors,Opcode.isTerminator,Opcode.isJump] at h ⊢ <;> omega

theorem mem_targets_ofWords (h : q ∈ (ofWords o a b c).targets) : o.isJump = true ∧ q = a.toNat := by
  cases o <;> simp [ofWords,targets,Opcode.isJump] at h ⊢ <;> exact h

theorem refersInto_ofWords {s : Script} (hfirst : o.labelOperand? = some 0 → a.toNat < s.labels.size)
    (hthird : o.labelOperand? = some 2 → c.toNat < s.labels.size)
    (hconstant : o = .pushConstant ∨ o = .call → a.toNat < s.constants.size) : (ofWords o a b c).refersInto s = true := by
  cases o <;> simp_all [ofWords,refersInto,Opcode.labelOperand?]

end Instr

namespace Script

/-- The offsets to which control can come from `pc` over offsets with a property. -/
inductive Path (s : Script) (p : Nat → Prop) (pc : Nat) : Nat → Prop
  | start (h : p pc) : Path s p pc pc
  | step {q r next : Nat} {i : Instr} (h : Path s p pc q) (hfetch : s.fetch q = .ok (i,next))
      (hmem : r ∈ i.successors next) (hr : p r) : Path s p pc r

theorem Goes.path {s : Script} {t u : Turn} {pc q : Nat} (h : s.Goes t pc u q) :
    s.Path (fun _ => True) pc q := by
  induction h with
  | start => exact .start trivial
  | step _ hfetch hexec ih => exact ih.step hfetch (GoesTo.exec _ _ _ _ _ _ hexec) trivial

/-- An instruction stands at the offset, with labels and constants that exist, and performing it has no fault
of the code. -/
def SoundAt (s : Script) (pc : Nat) : Prop :=
  (∃ i next, s.fetch pc = .ok (i,next) ∧ i.refersInto s = true) ∧
  ∀ t m f, Machine.advance t s pc = .halted (.fault m f) → f.isDecoding = false

theorem soundAt_of_fetch {s : Script} {pc next : Nat} {i : Instr} (hfetch : s.fetch pc = .ok (i,next))
    (hrefers : i.refersInto s = true) : s.SoundAt pc := by
  refine ⟨⟨i,next,hfetch,hrefers⟩,?_⟩
  intro t m f h
  unfold Machine.advance at h
  rw [hfetch] at h
  dsimp only at h
  split at h
  next hexec =>
    cases h
    exact Harmless.exec next hrefers _ _ _ hexec
  · cases h
  · split at h <;> cases h

/-- Offsets at which instructions begin when the code is read from its start. -/
def Boundary (s : Script) (pc : Nat) : Prop :=
  ∃ instrs, Assembler.Walk s.code 0 instrs ∧ pc ∈ instrs.map Prod.fst

end Script

namespace Assembler

variable {a : Assembler} {instrs : List (Nat × Opcode)} {s : Script}

theorem Built.code_size (h : a.Built instrs s) : s.code.size = a.code.size :=
  (patched_elsewhere h.patched).1

theorem Built.fetch (h : a.Built instrs s) {pc : Nat} {o : Opcode} (hpc : (pc,o) ∈ instrs)
    (hf : pc ∉ a.fixups.toList) :
    s.fetch pc = .ok (.ofWords o (s.word (pc + 1)) (s.word (pc + 2)) (s.word (pc + 3)),
      pc + 1 + o.operandWords) ∧ (s.code[pc]?).bind Opcode.ofWord? = some o := by
  obtain ⟨hword,hlt,-⟩ := h.walk.mem hpc
  rw [← (patched_elsewhere h.patched).2 pc hf] at hword
  rw [← h.code_size] at hlt
  obtain ⟨w,hw,ho⟩ := Option.bind_eq_some_iff.1 hword
  exact ⟨by simp [Script.fetch,hw,ho,hlt],hword⟩

variable {pc : Nat} {code : Array UInt32}

theorem Built.start (h : a.Built instrs s) (hpc : pc ∈ instrs.map Prod.fst) (hf : pc ∉ a.fixups.toList) :
    ∃ i next, s.fetch pc = .ok (i,next) ∧ i.refersInto s = true ∧
      (∀ q ∈ i.targets, q ∈ instrs.map Prod.fst) ∧ ∀ q ∈ i.successors next, q ∈ instrs.map Prod.fst := by
  obtain ⟨⟨pc,o⟩,hmem,rfl⟩ := List.mem_map.1 hpc
  obtain ⟨hfetch,hword⟩ := h.fetch hmem hf
  obtain ⟨hlabel,hjump,hconstant⟩ := check_eq_ok (h.checked pc hpc) hword
  have hlabels : a.labels.size = s.labels.size := by
    simpa using congrArg List.length h.labels
  refine ⟨_,_,hfetch,?_,?_,?_⟩
  · rw [hlabels] at hlabel
    rw [← h.constants] at hconstant
    exact Instr.refersInto_ofWords (hlabel 0) (hlabel 2) hconstant
  · intro q hq
    obtain ⟨ho,rfl⟩ := Instr.mem_targets_ofWords hq
    exact hjump ho
  · intro q hq
    rcases Instr.mem_successors_ofWords hq with ⟨rfl,hterm⟩ | ⟨ho,rfl⟩
    · obtain ⟨-,-,hnext | hlast⟩ := h.walk.mem hmem
      · exact hnext
      · obtain ⟨e,he,hends⟩ := h.ends
        rw [hlast] at he
        cases he
        rw [hterm] at hends
        cases hends
    · exact hjump ho

/-- Control that comes from a label over offsets that are no operands of jumps stays among the starts of
instructions. -/
theorem Built.path (h : a.Built instrs s) {p : Nat → Prop} (hp : ∀ q ∈ instrs.map Prod.fst, p q → q ∉ a.fixups.toList)
    {l : Nat} (hl : l ∈ s.labels.toList) (hpath : s.Path p l pc) : pc ∈ instrs.map Prod.fst ∧ pc ∉ a.fixups.toList := by
  induction hpath with
  | start hs => exact ⟨h.aligned l hl,hp _ (h.aligned l hl) hs⟩
  | step _ hfetch hmem hr ih =>
    obtain ⟨i,next,hfetch',-,-,hnext⟩ := h.start ih.1 ih.2
    rw [hfetch] at hfetch'
    cases hfetch'
    exact ⟨hnext _ hmem,hp _ (hnext _ hmem) hr⟩

theorem Walk.patched {code' : Array UInt32} {fixups : List Nat} (hsize : code'.size = code.size)
    (hword : ∀ i, i ∉ fixups → code'[i]? = code[i]?) (h : Walk code pc instrs) (hf : ∀ f ∈ fixups, f ∉ instrs.map Prod.fst) :
    Walk code' pc instrs := by
  induction h with
  | stop hle => exact .stop (by omega)
  | step hw ho hlt _ ih =>
    refine .step ?_ ho (by omega) (ih fun f hmem hin => hf f hmem (List.mem_cons_of_mem _ hin))
    rw [hword _ fun hmem => hf _ hmem (by simp),hw]

theorem Walk.unique {instrs' : List (Nat × Opcode)} (h : Walk code pc instrs) (h' : Walk code pc instrs') :
    instrs = instrs' := by
  induction h generalizing instrs' with
  | stop hle =>
    cases h' with
    | stop => rfl
    | step hw ho hlt _ => omega
  | step hw ho hlt _ ih =>
    cases h' with
    | stop hle => omega
    | step hw' ho' hlt' hrest' =>
      rw [hw] at hw'
      cases hw'
      rw [ho] at ho'
      cases ho'
      rw [ih hrest']

/-- From every label, control meets sound instructions until it comes to the operand of a jump. If no such
operand was read as an opcode, it always does, jumps go to boundaries of the finished code, and no turn in
the script ends in a fault of the code. -/
theorem build_sound {id : Nat} (h : a.build id = .ok s) :
    (∀ l ∈ s.labels.toList, ∀ pc, s.Path (· ∉ a.fixups.toList) l pc → s.SoundAt pc) ∧
    ∀ starts, Walk a.code 0 starts → (∀ f ∈ a.fixups.toList, f ∉ starts.map Prod.fst) →
      ∀ l ∈ s.labels.toList,
        (∀ pc, s.Path (fun _ => True) l pc → s.SoundAt pc ∧
          ∀ i next, s.fetch pc = .ok (i,next) → ∀ q ∈ i.targets, s.Boundary q) ∧
        ∀ t u pc, s.Goes t l u pc → ∀ m f, Machine.advance u s pc = .halted (.fault m f) →
          f.isDecoding = false := by
  obtain ⟨instrs,hb⟩ := built_of_build h
  refine ⟨?_,?_⟩
  · intro l hl pc hpath
    obtain ⟨hstart,hf⟩ := hb.path (fun _ _ hq => hq) hl hpath
    obtain ⟨i,next,hfetch,hrefers,-⟩ := hb.start hstart hf
    exact Script.soundAt_of_fetch hfetch hrefers
  · intro starts hwalk hclean l hl
    obtain rfl := hb.walk.unique hwalk
    have hpath : ∀ pc, s.Path (fun _ => True) l pc → s.SoundAt pc ∧
        ∀ i next, s.fetch pc = .ok (i,next) → ∀ q ∈ i.targets, s.Boundary q := by
      intro pc hpath
      obtain ⟨hstart,hf⟩ := hb.path (fun q hq _ hmem => hclean q hmem hq) hl hpath
      obtain ⟨i,next,hfetch,hrefers,htargets,-⟩ := hb.start hstart hf
      refine ⟨Script.soundAt_of_fetch hfetch hrefers,?_⟩
      intro i' next' hfetch' q hq
      rw [hfetch] at hfetch'
      cases hfetch'
      obtain ⟨hsize,hword⟩ := patched_elsewhere hb.patched
      exact ⟨instrs,hwalk.patched hsize hword hclean,htargets q hq⟩
    exact ⟨hpath,fun t u pc hgoes => (hpath pc hgoes.path).1.2 u⟩

def sampleLoop : Assembler :=
  (((({ name := "loop" } : Assembler).here.pushBool true).jump .jumpIfTrue 1).pushText "over").op .finish

def sampleScript : Script where
  id := 0
  name := "loop"
  code := #[2,1,53,0,0,0,56]
  constants := #["over"]
  labels := #[0,0]

theorem build_sound_sampleLoop : sampleLoop.build 0 = .ok sampleScript ∧
    sampleScript.Path (fun _ => True) 0 6 ∧ sampleScript.SoundAt 6 := by
  have hbuild : sampleLoop.build 0 = .ok sampleScript := by cbv
  have hcode : sampleLoop.code = #[2,1,53,1,0,0,56] := by cbv
  have hfixups : sampleLoop.fixups = #[3] := by cbv
  have h0 : sampleScript.fetch 0 = .ok (.pushBool true,2) := rfl
  have h2 : sampleScript.fetch 2 = .ok (.jumpIf true 0,4) := rfl
  have h4 : sampleScript.fetch 4 = .ok (.pushConstant 0,6) := rfl
  have hpath : sampleScript.Path (fun _ => True) 0 6 :=
    (((Script.Path.start trivial).step h0 (by decide) trivial).step h2 (by decide) trivial).step h4 (by decide)
      trivial
  refine ⟨hbuild,hpath,?_⟩
  obtain ⟨-,hall⟩ := build_sound hbuild
  have hwalk : Walk sampleLoop.code 0 [(0,.pushBool),(2,.jumpIfTrue),(4,.pushConstant),(6,.finish)] := by
    rw [hcode]
    exact .step rfl rfl (by decide) (.step rfl rfl (by decide) (.step rfl rfl (by decide)
      (.step rfl rfl (by decide) (.stop (by decide)))))
  exact ((hall _ hwalk (by rw [hfixups]; decide) 0 (by decide)).1 6 hpath).1

/-- A jump written in the place of an operand, so that its own operand is read as an opcode. -/
def strayJump : Assembler :=
  ((((({ name := "stray" } : Assembler).word Opcode.pushBool.word).newLabel.jump .jump 1).word 4294967295).word
    0).place 1 |>.op .finish

def strayScript : Script where
  id := 0
  name := "stray"
  code := #[2,51,5,4294967295,0,56]
  constants := #[]
  labels := #[0,5]

/-- The operand of the stray jump becomes an opcode without operands when the script is built, and what were
its operands are met as instructions. -/
theorem strayJump_faults : strayJump.build 0 = .ok strayScript ∧ 0 ∈ strayScript.labels.toList ∧
    strayScript.Path (fun _ => True) 0 3 ∧ ¬strayScript.SoundAt 3 ∧
    ∀ t : Turn, Machine.run 3 t strayScript 0 = .fault t.machine (.invalidOpcode "stray" 3 4294967295) := by
  have h0 : strayScript.fetch 0 = .ok (.pushBool true,2) := rfl
  have h2 : strayScript.fetch 2 = .ok (.unary .toText,3) := rfl
  have h3 : strayScript.fetch 3 = .error (.invalidOpcode "stray" 3 4294967295) := rfl
  refine ⟨rfl,by decide,?_,?_,fun t => rfl⟩
  · exact ((Script.Path.start trivial).step h0 (by decide) trivial).step h2 (by decide) trivial
  · rintro ⟨⟨i,next,hfetch,-⟩,-⟩
    rw [h3] at hfetch
    cases hfetch

end Assembler

end SpriteMachine
