import SpriteMachine.Proofs.Builtins
import SpriteMachine.Proofs.Layout
import SpriteMachine.Proofs.Resolution

/-!
A tally of directives: how many operands are sure to be on the stack, how many locals a block has saved, and
which of its labels are placed. Directives that pass the tally leave the emitter in good order.
-/

namespace SpriteMachine

/-- A label of a block, with the locals that the block had saved where the label was made. -/
structure Mark where
  saves : Nat
  placed : Bool

/-- What is known about a block while its directives are worked off. -/
structure Level where
  saves : Nat := 0
  marks : List Mark := []
  /-- Of what the handle is that was looked up. -/
  bound : Option DataKind := none
  /-- How many jumps to its labels were written. -/
  uses : Nat := 0

/-- Whether a block can be left. -/
def Level.isDone (l : Level) : Bool :=
  l.saves == 0 && l.marks.all Mark.placed && l.marks.length.ble l.uses

structure Tally where
  depth : Nat := 0
  level : Level := {}
  outer : List Level := []

/-- The variable or list that an instruction works on. -/
def Instr.handle? : Instr → Option (DataKind × Handle)
  | .pushVar h | .setVar h | .changeVar h | .watchVar h _ => some (.variable,h)
  | .list _ h | .watchList h _ => some (.list,h)
  | _ => none

namespace Tally

/-- Takes operands off. -/
def take (t : Tally) : Nat → Option Tally
  | 0 => some t
  | n + 1 =>
    match t.depth with
    | 0 => none
    | d + 1 => take { t with depth := d } n

def push (t : Tally) (n : Nat) : Tally :=
  { t with depth := t.depth + n }

/-- Passes an instruction that goes on with the next one. -/
def operate (t : Tally) (i : Instr) : Option Tally :=
  match i.arity? with
  | some (n,k) => (t.take n).map (·.push k)
  | none => none

/-- Whether a block may perform an instruction: one that sets locals only after it has saved those that were there. -/
def guards (t : Tally) (i : Instr) : Bool :=
  !i.setsLocals || decide (0 < t.level.saves)

/-- Passes an instruction that names no constant, label or handle. -/
def perform (t : Tally) (i : Instr) : Option Tally :=
  match i with
  | .save => some { t with level.saves := t.level.saves + 1 }
  | .restore =>
    match t.level.saves with
    | 0 => none
    | n + 1 => some { t with level.saves := n }
  | .broadcast => t.take 1
  | .broadcastAndWait => if t.guards .broadcastAndWait then t.take 1 else none
  | .sceneChanged | .stop _ | .deleteClone | .finish | .endCall => some t
  | .pushConstant _ => none
  | i => if i.handle?.isNone && t.guards i then t.operate i else none

/-- The label that a block refers to, if it has saved as many locals as where the label was made. -/
def mark? (t : Tally) (i : Nat) : Option Mark :=
  (t.level.marks[i]?).filter fun m => m.saves == t.level.saves

def use (t : Tally) : Tally :=
  { t with level.uses := t.level.uses + 1 }

@[simp] def step (t : Tally) : Directive → Option Tally
  | .op o ws => if ws.length = o.operandWords then t.perform (.ofOperands o ws) else none
  | .pushNumber _ | .pushText _ | .pushBool _ | .pushVariable _ | .pushList _ => some (t.push 1)
  | .enter => some { t with level := {}, outer := t.level :: t.outer }
  | .leave =>
    match t.outer with
    | [] => none
    | l :: rest => if t.level.isDone then some { t with level := l, outer := rest } else none
  | .label => some { t with level.marks := t.level.marks ++ [⟨t.level.saves,false⟩] }
  | .place i =>
    match t.mark? i with
    | some ⟨n,false⟩ => some { t with depth := 0, level.marks := t.level.marks.set i ⟨n,true⟩ }
    | _ => none
  | .here => some { t with depth := 0, level.marks := t.level.marks ++ [⟨t.level.saves,true⟩] }
  | .jump o i =>
    match o, t.mark? i with
    | .jump, some _ => some t.use
    | .jumpIfFalse, some _ | .jumpIfTrue, some _ => (t.take 1).map use
    | _, _ => none
  | .resume o i =>
    match o, t.mark? i with
    | .queue, some _ | .forceQueue, some _ => some t.use
    | _, _ => none
  | .bindVariable _ => some { t with level.bound := some .variable }
  | .bindList _ => some { t with level.bound := some .list }
  | .bound o ws =>
    let i := Instr.ofOperands o (0 :: ws)
    if ws.length + 1 = o.operandWords ∧ t.level.bound.isSome ∧ i.handle?.map Prod.fst = t.level.bound then t.operate i
    else none
  | .call _ argc => (t.take argc).map fun t => { t with depth := 0 }
  | .visual _ | .flush | .warn _ => some t

def run (t : Tally) (ds : List Directive) : Option Tally :=
  ds.foldlM step t

theorem run_cons (t : Tally) (d : Directive) (ds : List Directive) : t.run (d :: ds) = (t.step d).bind (·.run ds) := by
  simp [run,List.foldlM_cons]

theorem run_append (t : Tally) (ds ds' : List Directive) : t.run (ds ++ ds') = (t.run ds).bind (·.run ds') := by
  simp [run,List.foldlM_append]

variable {t u : Tally} {n i : Nat} {o : Opcode} {ws : List UInt32}

theorem take_eq_some : t.take n = some u ↔ n ≤ t.depth ∧ u = { t with depth := t.depth - n } := by
  induction n generalizing t with
  | zero => simp [take,eq_comm]
  | succ n ih =>
    obtain ⟨d,level,outer⟩ := t
    cases d with
    | zero => simp [take]
    | succ d => simp [take,ih]

/-! What passes -/

theorem mark?_eq_some {m : Mark} : t.mark? i = some m ↔ t.level.marks[i]? = some m ∧ m.saves = t.level.saves := by
  simp [mark?,Option.filter_eq_some_iff]

theorem step_op : t.step (.op o ws) = some u ↔ ws.length = o.operandWords ∧ t.perform (.ofOperands o ws) = some u := by
  simp [step]

theorem step_leave :
    t.step .leave = some u ↔ ∃ l rest, t.outer = l :: rest ∧ t.level.isDone = true ∧
      { t with level := l, outer := rest } = u := by
  obtain ⟨depth,level,outer⟩ := t
  cases outer with
  | nil | cons l rest => simp [step]

theorem step_place :
    t.step (.place i) = some u ↔ t.mark? i = some ⟨t.level.saves,false⟩ ∧
      { t with depth := 0, level.marks := t.level.marks.set i ⟨t.level.saves,true⟩ } = u := by
  cases hm : t.mark? i with
  | none => simp [step,hm]
  | some m =>
    obtain ⟨n,placed⟩ := m
    obtain rfl : n = t.level.saves := (mark?_eq_some.1 hm).2
    cases placed <;> simp [step,hm]

theorem step_jump :
    t.step (.jump o i) = some u ↔ (∃ m, t.mark? i = some m) ∧
      (o = .jump ∧ t.use = u ∨
        (o = .jumpIfFalse ∨ o = .jumpIfTrue) ∧ ∃ v, t.take 1 = some v ∧ v.use = u) := by
  cases hm : t.mark? i with
  | none | some m => cases o <;> simp [step,hm]

theorem step_resume :
    t.step (.resume o i) = some u ↔ (∃ m, t.mark? i = some m) ∧ (o = .queue ∨ o = .forceQueue) ∧ t.use = u := by
  cases hm : t.mark? i with
  | none | some m => cases o <;> simp [step,hm]

theorem step_bound :
    t.step (.bound o ws) = some u ↔ (ws.length + 1 = o.operandWords ∧ t.level.bound.isSome ∧
      (Instr.ofOperands o (0 :: ws)).handle?.map Prod.fst = t.level.bound) ∧
      t.operate (.ofOperands o (0 :: ws)) = some u := by
  simp [step]

theorem step_call {procedure : String} {argc : Nat} :
    t.step (.call procedure argc) = some u ↔ ∃ v, t.take argc = some v ∧ { v with depth := 0 } = u := by
  simp [step]

/-! More operands, and blocks around, do no harm -/

def onto (t : Tally) (levels : List Level) : Tally :=
  { t with outer := t.outer ++ levels }

theorem push_push (t : Tally) (j k : Nat) : (t.push j).push k = t.push (j + k) := by
  simp [push,Nat.add_assoc]

section Onto

variable (levels : List Level)

theorem take_onto (h : t.take n = some u) (k : Nat) : ((t.onto levels).push k).take n = some ((u.onto levels).push k) := by
  obtain ⟨hle,rfl⟩ := take_eq_some.1 h
  refine take_eq_some.2 ⟨Nat.le_add_right_of_le hle,?_⟩
  simp only [push,onto,Tally.mk.injEq,and_self,and_true]
  omega

theorem operate_onto {i : Instr} (h : t.operate i = some u) (k : Nat) :
    ((t.onto levels).push k).operate i = some ((u.onto levels).push k) := by
  unfold operate at h ⊢
  split at h
  next n j hi =>
    obtain ⟨v,hv,rfl⟩ := Option.map_eq_some_iff.1 h
    rw [take_onto levels hv k,Option.map_some,push_push,Nat.add_comm,← push_push]
    rfl
  next => cases h

theorem perform_broadcastAndWait :
    t.perform .broadcastAndWait = some u ↔ t.guards .broadcastAndWait = true ∧ t.take 1 = some u := by
  simp [perform]

theorem perform_onto {i : Instr} (h : t.perform i = some u) (k : Nat) :
    ((t.onto levels).push k).perform i = some ((u.onto levels).push k) := by
  have hplain : (if i.handle?.isNone && t.guards i then t.operate i else none) = some u →
      (if i.handle?.isNone && ((t.onto levels).push k).guards i then ((t.onto levels).push k).operate i else none) =
        some ((u.onto levels).push k) := by
    intro h
    change (if i.handle?.isNone && t.guards i then _ else none) = _
    split at h
    next hc => rw [if_pos hc,operate_onto levels h k]
    next => cases h
  cases i with
  | save | sceneChanged | stop mode | deleteClone | finish | endCall =>
    cases h
    rfl
  | restore =>
    obtain ⟨depth,⟨saves,marks,bound,uses⟩,outer⟩ := t
    cases saves with
    | zero => cases h
    | succ n =>
      cases h
      rfl
  | broadcast => exact take_onto levels h k
  | broadcastAndWait =>
    obtain ⟨hguard,h⟩ := perform_broadcastAndWait.1 h
    exact perform_broadcastAndWait.2 ⟨hguard,take_onto levels h k⟩
  | pushConstant index => cases h
  | _ => exact hplain h

theorem step_onto {d : Directive} (h : t.step d = some u) (k : Nat) :
    ∃ j, ((t.onto levels).push k).step d = some ((u.onto levels).push j) := by
  cases d with
  | op o ws =>
    obtain ⟨hlen,h⟩ := step_op.1 h
    exact ⟨k,step_op.2 ⟨hlen,perform_onto levels h k⟩⟩
  | pushNumber _ | pushText _ | pushBool _ | pushVariable _ | pushList _ =>
    cases h
    refine ⟨k,?_⟩
    rw [step,push_push,Nat.add_comm,← push_push]
    rfl
  | enter | label | bindVariable _ | bindList _ | visual _ | flush | warn _ =>
    cases h
    exact ⟨k,rfl⟩
  | here =>
    cases h
    exact ⟨0,rfl⟩
  | leave =>
    obtain ⟨l,rest,houter,hdone,rfl⟩ := step_leave.1 h
    exact ⟨k,step_leave.2 ⟨l,rest ++ levels,by rw [push,onto,houter]; rfl,hdone,rfl⟩⟩
  | place i =>
    obtain ⟨hm,rfl⟩ := step_place.1 h
    exact ⟨0,step_place.2 ⟨hm,rfl⟩⟩
  | jump o i =>
    obtain ⟨hm,⟨ho,rfl⟩ | ⟨ho,v,hv,rfl⟩⟩ := step_jump.1 h
    · exact ⟨k,step_jump.2 ⟨hm,.inl ⟨ho,rfl⟩⟩⟩
    · exact ⟨k,step_jump.2 ⟨hm,.inr ⟨ho,_,take_onto levels hv k,rfl⟩⟩⟩
  | resume o i =>
    obtain ⟨hm,ho,rfl⟩ := step_resume.1 h
    exact ⟨k,step_resume.2 ⟨hm,ho,rfl⟩⟩
  | bound o ws =>
    obtain ⟨hc,h⟩ := step_bound.1 h
    exact ⟨k,step_bound.2 ⟨hc,operate_onto levels h k⟩⟩
  | call procedure argc =>
    obtain ⟨v,hv,rfl⟩ := step_call.1 h
    exact ⟨0,step_call.2 ⟨_,take_onto levels hv k,rfl⟩⟩

theorem run_onto {ds : List Directive} (h : t.run ds = some u) (k : Nat) :
    ∃ j, ((t.onto levels).push k).run ds = some ((u.onto levels).push j) := by
  induction ds generalizing t k with
  | nil =>
    cases h
    exact ⟨k,rfl⟩
  | cons d ds ih =>
    rw [run_cons] at h
    obtain ⟨v,hv,h⟩ := Option.bind_eq_some_iff.1 h
    obtain ⟨j,hj⟩ := step_onto levels hv k
    obtain ⟨j',hj'⟩ := ih h j
    exact ⟨j',by rw [run_cons,hj,Option.bind_some,hj']⟩

end Onto

theorem run_push {ds : List Directive} (h : t.run ds = some u) (k : Nat) : ∃ j, (t.push k).run ds = some (u.push j) := by
  have honto : ∀ t : Tally, t.onto [] = t := fun t => by simp [onto]
  simpa only [honto] using run_onto [] h k

/-- Directives pass, and lead to a tally with perhaps some operands more. -/
def Reaches (t : Tally) (ds : List Directive) (u : Tally) : Prop :=
  ∃ k, t.run ds = some (u.push k)

namespace Reaches

variable {t u v : Tally} {ds ds' : List Directive}

theorem nil (t : Tally) : t.Reaches [] t := ⟨0,rfl⟩

theorem append (h : t.Reaches ds u) (h' : u.Reaches ds' v) : t.Reaches (ds ++ ds') v := by
  obtain ⟨k,hk⟩ := h
  obtain ⟨j,hj⟩ := h'
  obtain ⟨j',hj'⟩ := run_push hj k
  exact ⟨j + j',by rw [run_append,hk,Option.bind_some,hj',push_push]⟩

theorem step {d : Directive} (h : t.step d = some u) : t.Reaches [d] u :=
  ⟨0,by rw [run_cons,h]; rfl⟩

end Reaches

end Tally

/-! The emitter -/

/-- Whether a directive leaves labels and the scope of the block as they are. -/
def Directive.keepsScope : Directive → Bool
  | .enter | .leave | .label | .place _ | .here | .bindVariable _ | .bindList _ | .call .. => false
  | _ => true

theorem Emitter.step_keepsScope (e : Emitter) {d : Directive} (hd : d.keepsScope = true) :
    (e.step d).scope = e.scope ∧ (e.step d).outer = e.outer ∧ (e.step d).code.labels = e.code.labels ∧
      e.symbols.Grows (e.step d).symbols := by
  cases d with
  | pushVariable r =>
    refine ⟨by simp [step],by simp [step],by simp [step],?_⟩
    simpa [step] using (e.symbols.variableHandle_spec r).1
  | pushList r =>
    refine ⟨by simp [step],by simp [step],by simp [step],?_⟩
    simpa [step] using (e.symbols.listHandle_spec r).1
  | warn message => exact ⟨rfl,rfl,rfl,.warn _ _⟩
  | op _ _ | pushNumber _ | pushText _ | pushBool _ | jump _ _ | resume _ _ | bound _ _ | visual _ | flush =>
    simp [step,assemble,Assembler.pushNumber,Assembler.pushText,Assembler.pushBool,Assembler.jump,
      Assembler.word,Assembler.resumeAt,Symbols.Grows.refl]
  | _ => cases hd

/-- Whether a directive gives the block a label. -/
def Directive.marks : Directive → Bool
  | .label | .here => true
  | _ => false

theorem Emitter.step_scopes (e : Emitter) {d : Directive} (henter : d ≠ .enter) (hleave : d ≠ .leave) :
    (e.step d).outer = e.outer ∧ (e.step d).scope.labels =
      if d.marks then e.scope.labels.push e.code.labels.size else e.scope.labels := by
  cases d with
  | enter => exact absurd rfl henter
  | leave => exact absurd rfl hleave
  | label | here | place _ | call _ _ | bindVariable _ | bindList _ =>
    simp [step,label,place,bind,assemble,Assembler.nextLabel,Directive.marks]
  | _ => exact ⟨(e.step_keepsScope rfl).2.1,congrArg Scope.labels (e.step_keepsScope rfl).1⟩

/-- The scope of a block has the labels of its level, and the handle that it looked up. -/
structure Level.Fits (labels : Array (Option Nat)) (symbols : Symbols) (l : Level) (sc : Scope) : Prop where
  size : sc.labels.size = l.marks.length
  placed : ∀ {i : Nat} {m : Mark} {label : Nat}, l.marks[i]? = some m → sc.labels[i]? = some label →
    ∃ x : Option Nat, labels[label]? = some x ∧ x.isSome = m.placed
  handle : ∀ {kind : DataKind}, l.bound = some kind → symbols.Has kind sc.handle

namespace Level.Fits

variable {labels labels' : Array (Option Nat)} {symbols symbols' : Symbols} {l : Level} {sc : Scope}

theorem mem_labels (h : l.Fits labels symbols sc) {label : Nat} (hl : label ∈ sc.labels) : label < labels.size := by
  obtain ⟨i,hi,hlabel⟩ := Array.mem_iff_getElem.1 hl
  obtain ⟨m,hm⟩ : ∃ m, l.marks[i]? = some m := ⟨_,List.getElem?_eq_getElem (by rw [← h.size]; exact hi)⟩
  obtain ⟨x,hx,-⟩ := h.placed hm (by rw [Array.getElem?_eq_getElem hi,hlabel])
  exact (Array.getElem?_eq_some_iff.1 hx).1

theorem mono (h : l.Fits labels symbols sc) (hlabels : ∀ label ∈ sc.labels, labels'[label]? = labels[label]?)
    (hsymbols : symbols.Grows symbols') : l.Fits labels' symbols' sc where
  size := h.size
  placed hm hl := by
    obtain ⟨x,hx,hp⟩ := h.placed hm hl
    exact ⟨x,by rw [hlabels _ (Array.mem_of_getElem? hl),hx],hp⟩
  handle hb := (h.handle hb).mono hsymbols

theorem mono_all {ls : List Level} {scs : List Scope} (h : List.Forall₂ (Level.Fits labels symbols) ls scs)
    (hlabels : ∀ label ∈ scs.flatMap fun sc => sc.labels.toList, labels'[label]? = labels[label]?)
    (hsymbols : symbols.Grows symbols') : List.Forall₂ (Level.Fits labels' symbols') ls scs := by
  induction h with
  | nil => exact .nil
  | cons hfits _ ih =>
    refine .cons (hfits.mono (fun label hl => hlabels label ?_) hsymbols) (ih fun label hl => hlabels label ?_)
    · exact List.mem_flatMap.2 ⟨_,List.mem_cons_self,Array.mem_toList_iff.2 hl⟩
    · rw [List.flatMap_cons]
      exact List.mem_append_right _ hl

end Level.Fits

namespace Tally

def uses (t : Tally) : Nat :=
  ((t.level :: t.outer).map Level.uses).sum

def marks (t : Tally) : Nat :=
  ((t.level :: t.outer).map fun l => l.marks.length).sum

/-- An emitter that has worked off directives with this tally. -/
structure Fits (t : Tally) (e : Emitter) : Prop where
  levels : List.Forall₂ (Level.Fits e.code.labels e.symbols) (t.level :: t.outer) (e.scope :: e.outer)
  distinct : ((e.scope :: e.outer).flatMap fun sc => sc.labels.toList).Nodup
  budget : e.code.labels.size + t.uses ≤ 1 + e.pc + t.marks
  neat : e.code.Neat

namespace Fits

variable {t u : Tally} {e e' : Emitter}

theorem level (h : t.Fits e) : t.level.Fits e.code.labels e.symbols e.scope :=
  (List.forall₂_cons.1 h.levels).1

theorem outer (h : t.Fits e) : List.Forall₂ (Level.Fits e.code.labels e.symbols) t.outer e.outer :=
  (List.forall₂_cons.1 h.levels).2

theorem labelAt_eq (h : t.Fits e) {i : Nat} {m : Mark} (hi : t.level.marks[i]? = some m) :
    e.scope.labels[i]? = some (e.labelAt i) := by
  have hlt : i < e.scope.labels.size := by
    rw [h.level.size]
    exact (List.getElem?_eq_some_iff.1 hi).1
  rw [Emitter.labelAt,Array.getElem?_eq_getElem hlt,Option.getD_some]

theorem same (h : t.Fits e) (hcode : e.code.Grows e'.code) (hlabels : e'.code.labels = e.code.labels)
    (hsymbols : e.symbols.Grows e'.symbols) (hscope : e'.scope.labels = e.scope.labels)
    (houter : e'.outer = e.outer) (hmarks : u.level.marks = t.level.marks) (houter' : u.outer = t.outer)
    (hbound : ∀ kind, u.level.bound = some kind → e'.symbols.Has kind e'.scope.handle)
    (huses : u.level.uses + e.pc ≤ t.level.uses + e'.pc) : u.Fits e' where
  levels := by
    refine .cons ⟨by rw [hscope,hmarks,h.level.size],fun hm hl => ?_,hbound _⟩ ?_
    · rw [hmarks] at hm
      rw [hscope] at hl
      rw [hlabels]
      exact h.level.placed hm hl
    · rw [houter,houter',hlabels]
      exact Level.Fits.mono_all h.outer (fun _ _ => rfl) hsymbols
  distinct := by
    have := h.distinct
    rwa [List.flatMap_cons,← hscope,← houter] at this
  budget := by
    have := h.budget
    simp only [uses,marks,List.map_cons,List.sum_cons,houter',hmarks,hlabels] at this ⊢
    omega
  neat := hcode.neat h.neat

theorem flush (h : t.Fits e) : t.Fits e.flush :=
  h.same e.flush_grows e.flush_labels (by rw [e.flush_symbols]; exact .refl _) (by rw [e.flush_scope])
    e.flush_outer rfl rfl (fun kind hb => by
      rw [e.flush_symbols,e.flush_scope]
      exact h.level.handle hb) (Nat.add_le_add_left e.flush_grows.size _)

theorem lt_of_mem (h : t.Fits e) {label : Nat}
    (hl : label ∈ (e.scope :: e.outer).flatMap fun sc => sc.labels.toList) : label < e.code.labels.size := by
  obtain ⟨sc,hsc,hl⟩ := List.mem_flatMap.1 hl
  have hlevels := h.levels
  generalize t.level :: t.outer = levels, e.scope :: e.outer = scopes at hsc hlevels
  induction hlevels with
  | nil => cases hsc
  | cons hfits _ ih =>
    rcases List.mem_cons.1 hsc with rfl | hsc
    · exact hfits.mem_labels (Array.mem_toList_iff.1 hl)
    · exact ih hsc

theorem label (h : t.Fits e) (n : Nat) :
    Fits { t with level.marks := t.level.marks ++ [⟨n,false⟩] } e.label := by
  have hold : ∀ {label : Nat}, label < e.code.labels.size →
      e.label.code.labels[label]? = e.code.labels[label]? := by
    intro label hl
    simp [Emitter.label,Assembler.newLabel,Array.getElem?_push,Nat.ne_of_lt hl]
  have hnew : e.label.code.labels[e.code.labels.size]? = some none := by
    simp [Emitter.label,Assembler.newLabel]
  refine ⟨.cons ⟨?_,?_,?_⟩ ?_,?_,?_,(Assembler.Grows.newLabel _).neat h.neat⟩
  · simp [Emitter.label,h.level.size]
  · intro i m label hm hl
    simp only [Emitter.label,Assembler.nextLabel,Array.getElem?_push] at hl
    split at hl
    next hi =>
      cases hl
      rw [hi,h.level.size,List.getElem?_concat_length] at hm
      cases hm
      exact ⟨none,hnew,rfl⟩
    next hi =>
      have hlt : i < t.level.marks.length := by
        rw [← h.level.size]
        exact (Array.getElem?_eq_some_iff.1 hl).1
      rw [List.getElem?_append_left hlt] at hm
      obtain ⟨x,hx,hp⟩ := h.level.placed hm hl
      exact ⟨x,by rw [hold (Array.getElem?_eq_some_iff.1 hx).1,hx],hp⟩
  · exact h.level.handle
  · exact Level.Fits.mono_all h.outer (fun label hm => hold (h.lt_of_mem (List.mem_append_right _ hm))) (.refl _)
  · have hfresh : e.code.labels.size ∉ (e.scope :: e.outer).flatMap fun sc => sc.labels.toList :=
      fun hm => Nat.lt_irrefl _ (h.lt_of_mem hm)
    have hd := h.distinct
    simp only [List.flatMap_cons] at hd hfresh ⊢
    simp only [Emitter.label,Assembler.nextLabel,Array.toList_push,List.append_assoc,List.singleton_append]
    exact (List.perm_middle.nodup_iff).2 (List.nodup_cons.2 ⟨hfresh,hd⟩)
  · have hbudget := h.budget
    simp only [uses,marks,List.map_cons,List.sum_cons,List.length_append,List.length_singleton] at hbudget ⊢
    simp only [Emitter.label,Assembler.newLabel,Array.size_push,Emitter.pc] at hbudget ⊢
    omega

theorem place (h : t.Fits e) {i n : Nat} (hi : t.level.marks[i]? = some ⟨n,false⟩) (k : Nat) :
    Fits { t with depth := k, level.marks := t.level.marks.set i ⟨n,true⟩ }
      (e.assemble (·.place (e.labelAt i))) ∧ e.code.labels[e.labelAt i]? = some none := by
  have hlabel := h.labelAt_eq hi
  generalize e.labelAt i = label at hlabel ⊢
  obtain ⟨x,hx,hp⟩ := h.level.placed hi hlabel
  obtain rfl : x = none := by simpa using hp
  have hlt : label < e.code.labels.size := (Array.getElem?_eq_some_iff.1 hx).1
  have hd := h.distinct
  rw [List.flatMap_cons,List.nodup_append] at hd
  have hold : ∀ {other : Nat}, other ≠ label →
      (e.code.place label).labels[other]? = e.code.labels[other]? := by
    intro other hne
    exact Array.getElem?_setIfInBounds_ne (Ne.symm hne)
  have hnew : (e.code.place label).labels[label]? = some (some e.pc) := by
    simp [Assembler.place,hlt,Emitter.pc]
  refine ⟨⟨.cons ⟨?_,?_,?_⟩ ?_,h.distinct,?_,(Assembler.Grows.place _ _).neat h.neat⟩,hx⟩
  · simp [Emitter.assemble,h.level.size]
  · intro j m other hm hl
    change e.scope.labels[j]? = some other at hl
    simp only [List.getElem?_set] at hm
    split at hm
    next hj =>
      subst hj
      obtain rfl : label = other := by simpa [hlabel] using hl
      split at hm
      · cases hm
        exact ⟨_,hnew,rfl⟩
      · cases hm
    next hj =>
      obtain ⟨x,hx,hp⟩ := h.level.placed hm hl
      refine ⟨x,(hold ?_).trans hx,hp⟩
      rintro rfl
      have hlen := (Array.getElem?_eq_some_iff.1 hlabel).1
      exact hj ((List.getElem?_inj hlen hd.1).1 (by simp [hlabel,hl]))
  · exact h.level.handle
  · refine Level.Fits.mono_all h.outer (fun other hm => hold ?_) (.refl _)
    exact fun heq => hd.2.2 label (Array.mem_toList_iff.2 (Array.mem_of_getElem? hlabel)) other hm heq.symm
  · have hbudget := h.budget
    simp only [uses,marks,List.map_cons,List.sum_cons,List.length_set] at hbudget ⊢
    simpa [Emitter.assemble,Assembler.place,Emitter.pc] using hbudget

theorem settles_label (e : Emitter) : e.code.Settles e.label.code := by
  intro label pc hl
  change (e.code.labels.push none)[label]? = _
  rw [Array.getElem?_push,if_neg (Nat.ne_of_lt (Array.getElem?_eq_some_iff.1 hl).1),hl]

theorem settles_place {e : Emitter} {label : Nat} (h : e.code.labels[label]? = some none) :
    e.code.Settles (e.assemble (·.place label)).code := by
  intro other pc hl
  have hne : label ≠ other := by
    rintro rfl
    rw [h] at hl
    cases hl
  change (e.code.labels.setIfInBounds _ _)[other]? = _
  rw [Array.getElem?_setIfInBounds_ne hne,hl]

theorem enter (h : t.Fits e) : Fits { t with level := {}, outer := t.level :: t.outer } (e.step .enter) where
  levels := .cons ⟨rfl,fun hm => by simp at hm,fun hb => nomatch hb⟩ h.levels
  distinct := by simpa [Emitter.step] using h.distinct
  budget := by simpa [uses,marks,Emitter.step,Emitter.pc] using h.budget
  neat := h.neat

theorem outer_leave (h : t.Fits e) {l : Level} {rest : List Level} (houter : t.outer = l :: rest) :
    ∃ sc scs, e.outer = sc :: scs ∧ e.step .leave = { e with scope := sc, outer := scs } := by
  have hlevels := h.outer
  rw [houter] at hlevels
  cases hscopes : e.outer with
  | nil =>
    rw [hscopes] at hlevels
    cases hlevels
  | cons sc scs => exact ⟨sc,scs,rfl,by simp [Emitter.step,hscopes]⟩

theorem leave (h : t.Fits e) {l : Level} {rest : List Level} (houter : t.outer = l :: rest)
    (hdone : t.level.isDone = true) : Fits { t with level := l, outer := rest } (e.step .leave) := by
  obtain ⟨sc,scs,hscopes,hstep⟩ := h.outer_leave houter
  have hlevels := h.outer
  have hd := h.distinct
  have hbudget := h.budget
  rw [houter,hscopes] at hlevels
  rw [List.flatMap_cons,hscopes] at hd
  rw [hstep]
  refine ⟨hlevels,(List.nodup_append.1 hd).2.1,?_,h.neat⟩
  have hle : t.level.marks.length ≤ t.level.uses := by
    simp only [Level.isDone,Bool.and_eq_true] at hdone
    exact Nat.le_of_ble_eq_true hdone.2
  simp only [uses,marks,houter,List.map_cons,List.sum_cons,Emitter.pc] at hbudget ⊢
  omega

theorem call (h : t.Fits e) (procedure : String) (argc k : Nat) :
    Fits { t with depth := k } (e.step (.call procedure argc)) := by
  have hf := h.flush
  have hlabels := e.step_call_labels procedure argc
  have hold : ∀ {label : Nat}, label < e.code.labels.size →
      (e.step (.call procedure argc)).code.labels[label]? = e.code.labels[label]? := by
    intro label hl
    rw [hlabels,Array.getElem?_push,if_neg (Nat.ne_of_lt hl)]
  have hscopes : (e.step (.call procedure argc)).scope :: (e.step (.call procedure argc)).outer =
      e.scope :: e.outer := by simp [Emitter.step,Emitter.assemble]
  refine ⟨?_,?_,?_,(e.step_grows _).neat h.neat⟩
  · rw [hscopes]
    exact Level.Fits.mono_all h.levels (fun label hm => hold (h.lt_of_mem hm))
      (by simp [Emitter.step,Emitter.assemble,Symbols.Grows.refl])
  · rw [hscopes]
    exact h.distinct
  · have hbudget := h.budget
    have hpc := e.step_call_pc procedure argc
    have hle : e.pc ≤ e.flush.pc := e.flush_grows.size
    simp only [uses,marks] at hbudget ⊢
    rw [hlabels,Array.size_push]
    omega

end Fits

theorem operate_same {t u : Tally} {i : Instr} (h : t.operate i = some u) : u.level = t.level ∧ u.outer = t.outer := by
  unfold operate at h
  split at h
  next n k hi =>
    obtain ⟨v,hv,rfl⟩ := Option.map_eq_some_iff.1 h
    obtain ⟨-,rfl⟩ := take_eq_some.1 hv
    exact ⟨rfl,rfl⟩
  next => cases h

theorem perform_same {t u : Tally} {i : Instr} (h : t.perform i = some u) :
    ∃ n, u.level = { t.level with saves := n } ∧ u.outer = t.outer := by
  have hplain : (if i.handle?.isNone && t.guards i then t.operate i else none) = some u →
      ∃ n, u.level = { t.level with saves := n } ∧ u.outer = t.outer := by
    intro h
    split at h
    · obtain ⟨hlevel,houter⟩ := operate_same h
      exact ⟨t.level.saves,by rw [hlevel],houter⟩
    · cases h
  cases i with
  | save | sceneChanged | stop mode | deleteClone | finish | endCall =>
    cases h
    exact ⟨_,rfl,rfl⟩
  | restore =>
    obtain ⟨depth,⟨saves,marks,bound,uses⟩,outer⟩ := t
    cases saves with
    | zero => cases h
    | succ n =>
      cases h
      exact ⟨_,rfl,rfl⟩
  | broadcast =>
    obtain ⟨-,rfl⟩ := take_eq_some.1 h
    exact ⟨_,rfl,rfl⟩
  | broadcastAndWait =>
    obtain ⟨-,rfl⟩ := take_eq_some.1 (perform_broadcastAndWait.1 h).2
    exact ⟨_,rfl,rfl⟩
  | pushConstant index => cases h
  | _ => exact hplain h

section Step

variable {t u : Tally} {d : Directive}

theorem step_keepsScope (e : Emitter) (hk : d.keepsScope = true) (h : t.step d = some u) :
    u.level.marks = t.level.marks ∧ u.level.bound = t.level.bound ∧ u.outer = t.outer ∧
      u.level.uses + e.pc ≤ t.level.uses + (e.step d).pc := by
  have hle : e.pc ≤ (e.step d).pc := (e.step_grows d).size
  have hflush : e.pc ≤ e.flush.pc := e.flush_grows.size
  cases d with
  | op o ws =>
    obtain ⟨n,hlevel,houter⟩ := perform_same (step_op.1 h).2
    rw [hlevel]
    exact ⟨rfl,rfl,houter,Nat.add_le_add_left hle _⟩
  | bound o ws =>
    obtain ⟨hlevel,houter⟩ := operate_same (step_bound.1 h).2
    rw [hlevel]
    exact ⟨rfl,rfl,houter,Nat.add_le_add_left hle _⟩
  | pushNumber _ | pushText _ | pushBool _ | pushVariable _ | pushList _ | visual _ | flush | warn _ =>
    cases h
    exact ⟨rfl,rfl,rfl,Nat.add_le_add_left hle _⟩
  | jump o i =>
    have hpc : (e.step (.jump o i)).pc = e.flush.pc + 2 := by
      simp [Emitter.step,Emitter.assemble,Assembler.jump,Assembler.word,Emitter.pc]
    obtain ⟨k,rfl⟩ : ∃ k, u = { t.use with depth := k } := by
      obtain ⟨-,⟨-,rfl⟩ | ⟨-,v,hv,rfl⟩⟩ := step_jump.1 h
      · exact ⟨t.depth,rfl⟩
      · obtain ⟨-,rfl⟩ := take_eq_some.1 hv
        exact ⟨_,rfl⟩
    exact ⟨rfl,rfl,rfl,by simp only [use]; omega⟩
  | resume o i =>
    have hpc : (e.step (.resume o i)).pc = e.flush.pc + 2 := by
      simp [Emitter.step,Emitter.assemble,Assembler.resumeAt,Assembler.op_size,Emitter.pc]
    obtain ⟨-,-,rfl⟩ := step_resume.1 h
    exact ⟨rfl,rfl,rfl,by simp only [use]; omega⟩
  | _ => cases hk

theorem step_levels (e : Emitter) (henter : d ≠ .enter) (hleave : d ≠ .leave) (h : t.step d = some u) :
    u.outer = t.outer ∧ u.level.marks.map Mark.saves =
      if d.marks then t.level.marks.map Mark.saves ++ [t.level.saves] else t.level.marks.map Mark.saves := by
  cases d with
  | enter => exact absurd rfl henter
  | leave => exact absurd rfl hleave
  | label | here | bindVariable r | bindList r =>
    cases h
    simp [Directive.marks]
  | place i =>
    obtain ⟨hm,rfl⟩ := step_place.1 h
    obtain ⟨hlt,hi⟩ := List.getElem?_eq_some_iff.1 (mark?_eq_some.1 hm).1
    have hlt' : i < (t.level.marks.map Mark.saves).length := by simpa using hlt
    have hsaves : t.level.saves = (t.level.marks.map Mark.saves)[i] := by simp [hi]
    exact ⟨rfl,List.map_set.trans ((congrArg _ hsaves).trans (List.set_getElem_self hlt'))⟩
  | call procedure argc =>
    obtain ⟨v,hv,rfl⟩ := step_call.1 h
    obtain ⟨-,rfl⟩ := take_eq_some.1 hv
    exact ⟨rfl,rfl⟩
  | _ =>
    obtain ⟨hmarks,-,houter,-⟩ := step_keepsScope e rfl h
    exact ⟨houter,by rw [hmarks]; rfl⟩

end Step

namespace Fits

variable {t u : Tally} {e : Emitter}

theorem keeps (h : t.Fits e) {d : Directive} (hk : d.keepsScope = true) (hd : t.step d = some u) :
    u.Fits (e.step d) ∧ e.code.Settles (e.step d).code := by
  obtain ⟨hmarks,hbound,houter,huses⟩ := step_keepsScope e hk hd
  obtain ⟨hscope,houter',hlabels,hsymbols⟩ := e.step_keepsScope hk
  refine ⟨h.same (e.step_grows d) hlabels hsymbols (by rw [hscope]) houter' hmarks houter ?_ huses,.of_eq hlabels⟩
  intro kind hb
  rw [hscope]
  exact (h.level.handle (hbound ▸ hb)).mono hsymbols

theorem step (h : t.Fits e) {d : Directive} (hd : t.step d = some u) :
    u.Fits (e.step d) ∧ e.code.Settles (e.step d).code := by
  cases d with
  | enter =>
    cases hd
    exact ⟨h.enter,.refl _⟩
  | leave =>
    obtain ⟨l,rest,houter,hdone,rfl⟩ := step_leave.1 hd
    exact ⟨h.leave houter hdone,.refl _⟩
  | label =>
    cases hd
    exact ⟨h.label _,settles_label e⟩
  | place i =>
    obtain ⟨hm,rfl⟩ := step_place.1 hd
    obtain ⟨hfits,hnone⟩ := h.flush.place (mark?_eq_some.1 hm).1 0
    rw [e.flush_labelAt] at hfits hnone
    exact ⟨hfits,(Assembler.Settles.of_eq e.flush_labels).trans (settles_place hnone)⟩
  | here =>
    cases hd
    have hlast : (t.level.marks ++ [⟨t.level.saves,false⟩])[t.level.marks.length]? = some ⟨t.level.saves,false⟩ :=
      List.getElem?_concat_length
    obtain ⟨hfits,hnone⟩ := (h.flush.label t.level.saves).place hlast 0
    have hindex : t.level.marks.length = e.flush.label.scope.labels.size - 1 := by
      simp [Emitter.label,h.level.size]
    have hset : (t.level.marks ++ [Mark.mk t.level.saves false]).set t.level.marks.length ⟨t.level.saves,true⟩ =
        t.level.marks ++ [⟨t.level.saves,true⟩] := by simp
    simp only [hset] at hfits
    rw [hindex] at hfits hnone
    exact ⟨hfits,(Assembler.Settles.of_eq e.flush_labels).trans ((settles_label _).trans (settles_place hnone))⟩
  | bindVariable r =>
    cases hd
    obtain ⟨hgrows,hhas⟩ := e.symbols.variableHandle_spec r
    refine ⟨h.same (e.step_grows _) rfl hgrows rfl rfl rfl rfl (fun kind hb => ?_) (Nat.le_refl _),.refl _⟩
    cases hb
    exact hhas
  | bindList r =>
    cases hd
    obtain ⟨hgrows,hhas⟩ := e.symbols.listHandle_spec r
    refine ⟨h.same (e.step_grows _) rfl hgrows rfl rfl rfl rfl (fun kind hb => ?_) (Nat.le_refl _),.refl _⟩
    cases hb
    exact hhas
  | call procedure argc =>
    obtain ⟨v,hv,rfl⟩ := step_call.1 hd
    obtain ⟨-,rfl⟩ := take_eq_some.1 hv
    refine ⟨h.call procedure argc 0,fun label pc hl => ?_⟩
    rw [e.step_call_labels,Array.getElem?_push,
      if_neg (Nat.ne_of_lt (Array.getElem?_eq_some_iff.1 hl).1),hl]
  | _ => exact h.keeps rfl hd

theorem run (h : t.Fits e) {ds : List Directive} (hd : t.run ds = some u) :
    u.Fits (e.run ds) ∧ e.code.Settles (e.run ds).code := by
  induction ds generalizing t e with
  | nil =>
    cases hd
    exact ⟨h,.refl _⟩
  | cons d ds ih =>
    rw [run_cons] at hd
    obtain ⟨v,hv,hd⟩ := Option.bind_eq_some_iff.1 hd
    obtain ⟨hfits,hsettles⟩ := h.step hv
    obtain ⟨hfits',hsettles'⟩ := ih hfits hd
    exact ⟨hfits',hsettles.trans hsettles'⟩

end Fits

end Tally

end SpriteMachine
