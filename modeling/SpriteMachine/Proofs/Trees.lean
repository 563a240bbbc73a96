import SpriteMachine.Proofs.Recipes

/-!
Block trees and their code. Every directive of a script stands for a value in a slot or the bounds of a block, calls a
builtin, or is written by a block of the script's trees: by a primitive, or as the palette says.
-/

namespace SpriteMachine

mutual

/-- A block and all blocks in its slots. -/
def Block.tree : Block → List Block
  | .mk opcode mutation slots fields => .mk opcode mutation slots fields :: Slot.forest slots

def Slot.forest : List Slot → List Block
  | [] => []
  | s :: rest => s.tree ++ Slot.forest rest

def Slot.tree : Slot → List Block
  | .mk _ blocks shadow => Block.forest blocks ++ Block.shadowTree shadow

def Block.forest : List Block → List Block
  | [] => []
  | b :: rest => b.tree ++ Block.forest rest

def Block.shadowTree : Option Block → List Block
  | none => []
  | some b => b.tree

end

/-- The directives that stand for values in slots, and for the bounds of blocks. -/
def Directive.isSupport : Directive → Bool
  | .op o _ => o = .toNumber || o = .toString || o = .pushArgNumber || o = .pushArgBoolean
  | .pushNumber _ | .pushText _ | .pushBool _ | .enter | .leave | .warn _ => true
  | _ => false

def Block.Writes (params : List String) (b : Block) (d : Directive) : Prop :=
  (∃ p, b.primitive? = some p ∧ d ∈ primitiveCode p) ∨
    ∃ e ∈ Palette.entries.toList, e.opcode = b.opcode ∧ Step.emit d ∈ e.steps ⟨b,params⟩

def Block.Tells (P : Directive → Prop) (params : List String) (blocks : List Block) : Prop :=
  ∀ b ∈ blocks, ∀ d, b.Writes params d → P d

/-- A property of the directives that blocks of all kinds have. -/
structure Directive.Common (P : Directive → Prop) : Prop where
  support : ∀ d : Directive, d.isSupport = true → P d
  call : ∀ id, P (.op .callBuiltin [id])

variable {P : Directive → Prop} {params : List String}

section Slots

variable (hsupport : ∀ d : Directive, d.isSupport = true → P d)

include hsupport

theorem forall_supports {ds : List Directive} (h : ds.all Directive.isSupport = true) : ∀ d ∈ ds, P d :=
  fun d hd => hsupport d (List.all_eq_true.1 h d hd)

theorem forall_primitiveCode (hvariable : ∀ r, P (.pushVariable r)) (hlist : ∀ r, P (.pushList r)) (p : Primitive) :
    ∀ d ∈ primitiveCode p, P d := by
  cases p with
  | text s | messageOf r => exact forall_supports hsupport rfl
  | variableOf r => exact List.forall_mem_singleton.2 (hvariable r)
  | listOf r => exact List.forall_mem_singleton.2 (hlist r)
  | number written | colour written =>
    simp only [primitiveCode]
    split <;> exact forall_supports hsupport rfl

variable {c : Option SlotCode} (hc : ∀ s, c = some s → ∀ d ∈ s.reporter, P d)
include hc

theorem forall_inputCode : ∀ d ∈ SlotCode.inputCode c, P d := by
  unfold SlotCode.inputCode
  split
  · exact hc _ rfl
  · exact forall_supports hsupport rfl

theorem forall_numberCode : ∀ d ∈ SlotCode.numberCode params c, P d := by
  unfold SlotCode.numberCode
  split
  · split
    · exact forall_supports hsupport rfl
    · exact forall_supports hsupport rfl
    · exact List.forall_mem_append.2 ⟨hc _ rfl,forall_supports hsupport rfl⟩
  · exact forall_supports hsupport rfl

theorem forall_textCode : ∀ d ∈ SlotCode.textCode c, P d := by
  unfold SlotCode.textCode
  split
  · exact forall_supports hsupport rfl
  · exact List.forall_mem_append.2 ⟨forall_inputCode hsupport hc,forall_supports hsupport rfl⟩

theorem forall_conditionCode : ∀ d ∈ SlotCode.conditionCode params c, P d := by
  unfold SlotCode.conditionCode
  split
  · split
    · exact forall_supports hsupport rfl
    · exact hc _ rfl
  · exact forall_supports hsupport rfl

end Slots

variable {slots : List SlotCode} {b : Block} {blocks : List Block}

theorem forall_entryCode (hP : Directive.Common P) {site : Site} {e : Entry} (id : Nat)
    (hslots : ∀ c ∈ slots, (∀ d ∈ c.reporter, P d) ∧ ∀ d ∈ c.statements, P d) (hemit : ∀ d, Step.emit d ∈ e.steps site → P d) :
    ∀ d ∈ entryCode site slots e id, P d := by
  have hfind : ∀ name c, stepCode.find slots name = some c → ∀ d ∈ c.reporter, P d := fun name c hc =>
    (hslots c (List.mem_of_find?_eq_some hc)).1
  intro d hd
  change d ∈ .enter :: ((e.steps site).flatMap (stepCode site.params slots e id) ++ [.leave]) at hd
  rw [List.mem_cons,List.mem_append,List.mem_singleton,List.mem_flatMap] at hd
  rcases hd with rfl | ⟨x,hx,hd⟩ | rfl
  · exact hP.support _ rfl
  · cases x with
    | input name => exact forall_inputCode hP.support (hfind name) d hd
    | number name => exact forall_numberCode hP.support (hfind name) d hd
    | text name => exact forall_textCode hP.support (hfind name) d hd
    | condition name => exact forall_conditionCode hP.support (hfind name) d hd
    | substack name =>
      simp only [stepCode,SlotCode.substackCode] at hd
      split at hd
      next c hc => exact (hslots c (List.mem_of_find?_eq_some hc)).2 d hd
      · cases hd
    | inputs =>
      obtain ⟨name,-,hd⟩ := List.mem_flatMap.1 hd
      exact forall_inputCode hP.support (hfind name) d hd
    | callSelf =>
      cases List.mem_singleton.1 hd
      exact hP.call _
    | callEntry opcode =>
      simp only [stepCode,callEntryCode] at hd
      split at hd
      · cases List.mem_singleton.1 hd
        exact hP.call _
      · cases List.mem_singleton.1 hd
        exact hP.support _ rfl
    | emit d' =>
      cases List.mem_singleton.1 hd
      exact hemit _ hx
  · exact hP.support _ rfl

theorem forall_blockCode (hP : Directive.Common P) (hb : ∀ d, b.Writes params d → P d)
    (hslots : ∀ c ∈ slots, (∀ d ∈ c.reporter, P d) ∧ ∀ d ∈ c.statements, P d) :
    (∀ d ∈ statementCode ⟨b,params⟩ slots, P d) ∧ ∀ d ∈ reporterCode ⟨b,params⟩ slots, P d := by
  have hentry : ∀ {e : Entry} {id : Nat}, Palette.find? b.opcode = some (e,id) →
      ∀ d ∈ entryCode ⟨b,params⟩ slots e id, P d := by
    intro e id hfind
    obtain ⟨he,hopcode,-⟩ := Palette.find?_eq_some hfind
    exact forall_entryCode hP id hslots fun d hd => hb d (.inr ⟨e,he,hopcode,hd⟩)
  refine ⟨?_,?_⟩
  · unfold statementCode
    split
    next e id hfind =>
      split
      · exact forall_supports hP.support rfl
      · exact hentry hfind
    · exact forall_supports hP.support rfl
  · unfold reporterCode
    dsimp only
    split
    next p hp => exact fun d hd => hb d (.inl ⟨p,hp,hd⟩)
    · split
      next e id hfind =>
        split
        · exact hentry hfind
        · exact forall_supports hP.support rfl
      · exact forall_supports hP.support rfl

theorem mem_forest (hb : b ∈ blocks) : b.tree ⊆ Block.forest blocks := by
  induction blocks with
  | nil => cases hb
  | cons b' rest ih =>
    rw [Block.forest]
    rcases List.mem_cons.1 hb with rfl | hb
    · exact List.subset_append_left _ _
    · exact List.Subset.trans (ih hb) (List.subset_append_right _ _)

theorem mem_slotForest {s : Slot} {slots : List Slot} (hs : s ∈ slots) : s.tree ⊆ Slot.forest slots := by
  induction slots with
  | nil => cases hs
  | cons s' rest ih =>
    rw [Slot.forest]
    rcases List.mem_cons.1 hs with rfl | hs
    · exact List.subset_append_left _ _
    · exact List.Subset.trans (ih hs) (List.subset_append_right _ _)

theorem forall_expand (hP : Directive.Common P) : ∀ b : Block, Block.Tells P params b.tree →
    (∀ d ∈ (expand params b).statement, P d) ∧ ∀ d ∈ (expand params b).reporter, P d := by
  refine Block.induction (S := fun s => Block.Tells P params s.tree →
    (∀ d ∈ (expandSlot params s).reporter, P d) ∧ ∀ d ∈ (expandSlot params s).statements, P d) ?_ ?_
  · rintro ⟨opcode,mutation,slots,fields⟩ hslots h
    rw [Block.tree] at h
    refine forall_blockCode hP (h _ List.mem_cons_self) ?_
    rw [expandSlots_eq_map]
    refine List.forall_mem_map.2 fun s hs => hslots s hs fun b hb => h b ?_
    exact List.mem_cons_of_mem _ (mem_slotForest hs hb)
  · intro name blocks shadow hblocks hshadow h
    rw [Slot.tree] at h
    have hstack : ∀ b ∈ blocks, _ := fun b hb => hblocks b hb fun b' hb' =>
      h b' (List.mem_append_left _ (mem_forest hb hb'))
    refine ⟨?_,fun d hd => ?_⟩
    · cases blocks with
      | cons b rest => exact (hstack b List.mem_cons_self).2
      | nil =>
        cases shadow with
        | none => exact nofun
        | some b => exact (hshadow b rfl fun b' hb' => h b' (List.mem_append_right _ (by rwa [Block.shadowTree]))).2
    · change d ∈ (expandBlocks params blocks).flatMap BlockCode.statement at hd
      rw [expandBlocks_eq_map,List.flatMap_map] at hd
      obtain ⟨b,hb,hd⟩ := List.mem_flatMap.1 hd
      exact (hstack b hb).1 d hd

/-- Every directive of a script is a support, the call of a builtin, or written by a block of its trees. -/
theorem forall_expandStack (hP : Directive.Common P) (h : Block.Tells P params (Block.forest blocks)) :
    ∀ d ∈ expandStack params blocks, P d := by
  intro d hd
  rw [expandStack,expandBlocks_eq_map,List.flatMap_map] at hd
  obtain ⟨b,hb,hd⟩ := List.mem_flatMap.1 hd
  exact (forall_expand hP b fun b' hb' => h b' (mem_forest hb hb')).1 d hd

end SpriteMachine
