import SpriteMachine.Proofs.Regions
import SpriteMachine.Proofs.Trees

/-!
The code of a block whose value is wanted only reads and computes: it neither jumps nor writes anything but operands.
Control that is in such code goes through it from instruction to instruction.
-/

namespace SpriteMachine

/-- Builtins that only give a value. -/
def Builtin.isQuery : Builtin → Bool
  | .motion .x | .motion .y | .motion .direction => true
  | .looks .costumeNumberName | .looks .backdropNumberName | .looks .size => true
  | .sound .volume => true
  | .control .counter => true
  | .sensing a =>
    match a with
    | .ask | .takeTicket | .currentTicket | .endAsk | .setDragMode | .resetTimer => false
    | _ => true
  | .music .tempo => true
  | _ => false

def ListAction.isQuery : ListAction → Bool
  | .contents | .item | .itemNumber | .length | .contains => true
  | .add | .delete | .clear | .insert | .replace => false

/-- Instructions that only give a value. -/
def Instr.isQuery : Instr → Bool
  | .pushConstant _ | .pushNumber _ | .pushBool _ | .unary _ | .binary _ | .random | .pushVar _ | .pushArg .. => true
  | .list action _ => action.isQuery
  | .builtin id => (Palette.builtin? id).any Builtin.isQuery
  | _ => false

/-- Directives that write no other instructions, and make no labels. -/
def Directive.isQuery : Directive → Bool
  | .op o ws => (Instr.ofOperands o ws).isQuery
  | .bound o ws => (Instr.ofOperands o (0 :: ws)).handle?.isSome && (Instr.ofOperands o (0 :: ws)).isQuery
  | .pushNumber _ | .pushText _ | .pushBool _ | .pushVariable _ | .pushList _ | .enter | .leave | .bindVariable _
  | .bindList _ | .warn _ => true
  | .label | .place _ | .here | .jump .. | .resume .. | .call .. | .visual _ | .flush => false

/-! Reporters of the palette -/

def Step.isQuery (b : Option Builtin) : Step → Bool
  | .input _ | .number _ | .text _ | .condition _ | .inputs => true
  | .callSelf => b.any Builtin.isQuery
  | .emit d => d.isQuery
  | .substack _ | .callEntry _ => false

/-- The steps of an entry that gives a value only read and compute. -/
def Entry.Asks (e : Entry) : Prop :=
  e.reporter = true → ∀ site, (e.steps site).all (Step.isQuery e.builtin) = true

namespace Palette

open Entry

set_option maxRecDepth 2000 in
theorem entries_ask : ∀ {e : Entry}, e ∈ entries.toList → e.Asks := by
  simp only [entries,motion,looks,sound,events,control,sensing,operators,data,procedures,pen,music,List.cons_append,
    List.nil_append,List.forall_mem_cons,List.not_mem_nil,false_imp_iff,implies_true,and_true]
  and_intros
  all_goals first
    | exact fun _ _ => rfl
    -- The recipes that look at a field of their block have two forms.
    | intro _ site
      simp only [steps,value,comparison,mathFunction,withList,parameter]
      split <;> rfl
    | exact fun h => absurd h Bool.false_ne_true

end Palette

/-! Block trees -/

def IsQuery (ds : List Directive) : Prop :=
  ∀ d ∈ ds, d.isQuery = true

theorem isQuery_of_isSupport (d : Directive) (h : d.isSupport = true) : d.isQuery = true := by
  cases d with
  | op o ws =>
    simp only [Directive.isSupport,Bool.or_eq_true,decide_eq_true_eq] at h
    rcases h with ((rfl | rfl) | rfl) | rfl <;> rfl
  | pushNumber _ | pushText _ | pushBool _ | enter | leave | warn _ => rfl
  | _ => cases h

theorem isQuery_reporterCode {site : Site} {slots : List SlotCode} (hslots : ∀ c ∈ slots, IsQuery c.reporter) :
    IsQuery (reporterCode site slots) := by
  have hfind : ∀ name c, stepCode.find slots name = some c → IsQuery c.reporter := fun name c hc =>
    hslots c (List.mem_of_find?_eq_some hc)
  unfold reporterCode
  dsimp only
  split
  · exact forall_primitiveCode isQuery_of_isSupport (fun _ => rfl) (fun _ => rfl) _
  · split
    next e id hentry =>
      split
      next hr =>
        obtain ⟨he,-,hb⟩ := Palette.find?_eq_some hentry
        have hsteps := List.all_eq_true.1 (Palette.entries_ask he hr site)
        have hcode : IsQuery ((e.steps site).flatMap (stepCode site.params slots e id)) := by
          intro d hd
          obtain ⟨s,hs,hd⟩ := List.mem_flatMap.1 hd
          have hquery := hsteps s hs
          cases s with
          | input name => exact forall_inputCode isQuery_of_isSupport (hfind name) d hd
          | number name => exact forall_numberCode isQuery_of_isSupport (hfind name) d hd
          | text name => exact forall_textCode isQuery_of_isSupport (hfind name) d hd
          | condition name => exact forall_conditionCode isQuery_of_isSupport (hfind name) d hd
          | inputs =>
            obtain ⟨name,-,hd⟩ := List.mem_flatMap.1 hd
            exact forall_inputCode isQuery_of_isSupport (hfind name) d hd
          | callSelf =>
            cases List.mem_singleton.1 hd
            change (Palette.builtin? (UInt32.ofNat id)).any Builtin.isQuery = true
            rw [hb]
            exact hquery
          | emit d' =>
            cases List.mem_singleton.1 hd
            exact hquery
          | substack name | callEntry opcode => cases hquery
        exact List.forall_mem_cons.2 ⟨rfl,List.forall_mem_append.2 ⟨hcode,forall_supports isQuery_of_isSupport rfl⟩⟩
      · exact forall_supports isQuery_of_isSupport rfl
    · exact forall_supports isQuery_of_isSupport rfl

theorem isQuery_slotCode {params : List String} {name : String} {blocks : List Block} {shadow : Option Block}
    (hblocks : ∀ b ∈ blocks, IsQuery (expand params b).reporter)
    (hshadow : ∀ b, shadow = some b → IsQuery (expand params b).reporter) :
    IsQuery (expandSlot params (.mk name blocks shadow)).reporter := by
  cases blocks with
  | cons b rest => exact hblocks b List.mem_cons_self
  | nil =>
    cases shadow with
    | none => exact nofun
    | some b => exact hshadow b rfl

theorem isQuery_expand (params : List String) : ∀ b : Block, IsQuery (expand params b).reporter := by
  refine Block.induction (S := fun s => IsQuery (expandSlot params s).reporter) ?_ fun _ _ _ => isQuery_slotCode
  rintro ⟨opcode,mutation,slots,fields⟩ hslots
  refine isQuery_reporterCode ?_
  rw [expandSlots_eq_map]
  exact List.forall_mem_map.2 hslots

theorem isQuery_expandSlots (params : List String) (slots : List Slot) :
    ∀ c ∈ expandSlots params slots, IsQuery c.reporter := by
  rw [expandSlots_eq_map]
  exact List.forall_mem_map.2 fun ⟨_,_,_⟩ _ =>
    isQuery_slotCode (fun b _ => isQuery_expand params b) fun b _ => isQuery_expand params b

/-! Control in such code -/

namespace Directive

theorem flushes_of_isQuery {d : Directive} (h : d.isQuery = true) : d.flushes = false := by
  cases d with
  | op o ws | bound o ws => cases o <;> first | rfl | cases h
  | label | place _ | here | jump _ _ | resume _ _ | call _ _ | visual _ | flush => cases h
  | _ => rfl

theorem isQuery_written {d : Directive} (h : d.isQuery = true) {s : Script} {e : Emitter} {i : Instr}
    (hi : e.written s d = some i) : i.isQuery = true := by
  cases d with
  | op o ws =>
    cases hi
    exact h
  | bound o ws =>
    cases hi
    cases o with
    | callBuiltin => cases h
    | _ => first | rfl | cases h
  | pushNumber _ | pushText _ | pushBool _ | pushVariable _ | pushList _ =>
    cases hi
    rfl
  | label | place _ | here | jump _ _ | resume _ _ | call _ _ | visual _ | flush => cases h
  | enter | leave | bindVariable _ | bindList _ | warn _ => cases hi

end Directive

def Amid (first : Emitter) (done ds : List Directive) (pc : Nat) : Prop :=
  ∃ ds₁ ds₂, ds = ds₁ ++ ds₂ ∧ pc = (first.run (done ++ ds₁)).pc

namespace Emission

variable {s : Script} {first : Emitter} {done ds rest : List Directive} {d : Directive}

theorem label_at (h : Emission s first (done ++ rest)) {label pc : Nat}
    (hl : (first.run done).code.labels[label]? = some (some pc)) : s.labels[label]? = some pc := by
  obtain ⟨t,saves,hc⟩ := h.course
  exact h.label_eq hc hl

/-- Control that is in code that only reads and computes goes on in it until it comes to the end. -/
theorem steps_query (h : Emission s first (done ++ (ds ++ rest))) (hds : IsQuery ds) {pc : Nat}
    (hpc : Amid first done ds pc) : pc = (first.run (done ++ ds)).pc ∨
      ∃ i next, s.fetch pc = .ok (i,next) ∧ i.isQuery = true ∧ Amid first done ds next := by
  obtain ⟨ds₁,ds₂,hsplit,rfl⟩ := hpc
  induction ds₂ generalizing ds₁ with
  | nil =>
    rw [hsplit,List.append_nil]
    exact .inl rfl
  | cons d ds₂ ih =>
    have hquery : d.isQuery = true := hds d (by simp [hsplit])
    have hbefore : (first.run (done ++ ds₁)).before d = first.run (done ++ ds₁) := by
      rw [Emitter.before,Directive.flushes_of_isQuery hquery]
      rfl
    have hrun : first.run (done ++ (ds₁ ++ [d])) = (first.run (done ++ ds₁)).step d := by
      rw [← List.append_assoc,Emitter.run_append]
      rfl
    have hcons : ds = (ds₁ ++ [d]) ++ ds₂ := by simp [hsplit]
    cases hi : (first.run (done ++ ds₁)).written s d with
    | none =>
      have hstep := Script.Holds.pc_step hi
      rw [hbefore,← hrun] at hstep
      rw [← hstep]
      exact ih _ hcons
    | some i =>
      have hplace : done ++ (ds ++ rest) = (done ++ ds₁) ++ d :: (ds₂ ++ rest) := by simp [hsplit]
      rw [hplace] at h
      have hfetch := h.fetch_at hi
      rw [hbefore] at hfetch
      exact .inr ⟨i,_,hfetch,Directive.isQuery_written hquery hi,ds₁ ++ [d],ds₂,hcons,by rw [← List.append_assoc]⟩

end Emission

end SpriteMachine
