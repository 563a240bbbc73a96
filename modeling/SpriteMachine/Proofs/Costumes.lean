import SpriteMachine.Proofs.Layers
import SpriteMachine.Proofs.Poses

/-!
The number of the costume that a target wears is always that of a costume it has. A text that names no costume, and that
stands for no number either, leaves it as it is.
-/

namespace SpriteMachine

/-- Where there are costumes, one of them is worn. -/
def Pose.Dressed (q : Pose) : Prop :=
  0 < q.costumes.size → q.costume < q.costumes.size

/-- What can be done about the costume of a target. -/
inductive CostumeMove
  | set (v : Value)
  | next
  | previous
  | clone

namespace Target

variable {t t' : Target}

def wear (t : Target) : CostumeMove → Target
  | .set v => t.setCostume v
  | .next => t.nextCostume
  | .previous => t.previousCostume
  | .clone => t.makeClone

theorem Redressed.dressed (h : t.Redressed t') (ht : t.pose.Dressed) : t'.pose.Dressed ∧ t'.costumes = t.costumes := by
  obtain ⟨c,rfl,rfl | hlt⟩ := h
  · exact ⟨ht,rfl⟩
  · exact ⟨fun _ => hlt,rfl⟩

theorem dressed_wear (ht : t.pose.Dressed) (move : CostumeMove) :
    (t.wear move).pose.Dressed ∧ (t.wear move).costumes = t.costumes := by
  cases move with
  | set v => exact (t.redressed_setCostume v).dressed ht
  | next => exact t.redressed_nextCostume.dressed ht
  | previous => exact t.redressed_previousCostume.dressed ht
  | clone => exact ⟨ht,rfl⟩

theorem dressed_foldl_wear (ht : t.pose.Dressed) (moves : List CostumeMove) :
    (moves.foldl wear t).pose.Dressed ∧ (moves.foldl wear t).costumes = t.costumes := by
  induction moves generalizing t with
  | nil => exact ⟨ht,rfl⟩
  | cons move moves ih =>
    obtain ⟨hdressed,hcostumes⟩ := dressed_wear ht move
    obtain ⟨hrest,heq⟩ := ih hdressed
    exact ⟨hrest,heq.trans hcostumes⟩

/-- A text or a truth value that names no costume, neither by name nor by its place, and that has no number in it. -/
structure Ignores (t : Target) (v : Value) : Prop where
  text : ∀ x, v ≠ .number x
  name : ∀ c ∈ t.costumes, c.name ≠ v.toText
  next : v.toText ≠ if t.isStage then "next backdrop" else "next costume"
  previous : v.toText ≠ if t.isStage then "previous backdrop" else "previous costume"
  number : hasDigit v.toText = false ∨ (readNumber v.toText).isFinite = false

theorem setCostume_of_ignores {v : Value} (h : t.Ignores v) : t.setCostume v = t := by
  obtain ⟨htext,hname,hnext,hprevious,hnumber⟩ := h
  have hfind : (t.costumes.findIdx? fun c => c.name == v.toText) = none := by
    rw [Array.findIdx?_eq_none_iff]
    exact fun c hc => beq_eq_false_iff_ne.2 (hname c hc)
  have hread : ¬ ((readNumber v.toText).isFinite && hasDigit v.toText) = true := by
    rcases hnumber with h | h <;> simp [h]
  unfold setCostume
  split
  · rfl
  · split
    next n => exact absurd rfl (htext n)
    · rw [namedCostume,hfind]
      dsimp only
      rw [if_neg (by simpa using hnext),if_neg (by simpa using hprevious),if_neg hread]

end Target

theorem Target.Change.dressed {i : Instr} {t t' : Target} (h : t.Change i t') (ht : t.pose.Dressed) : t'.pose.Dressed := by
  cases h with
  | costume v => exact ((t.redressed_setCostume v).dressed ht).1
  | nextCostume => exact (t.redressed_nextCostume.dressed ht).1
  | direction degrees =>
    unfold setDirection
    split <;> exact ht
  | bounce _ =>
    unfold Target.bounce
    dsimp only
    split <;> exact ht
  | position fenced p => cases fenced <;> exact ht
  | _ => exact ht

theorem costume_of_compile {project : Project} {program : Program} {settings : Settings} {clock : Clock} {σ : Phase}
    {id : Nat} {t : Target} (hcompile : compile project = .ok program)
    (hsteps : Phase.Steps (.idle (.ofProgram program settings clock)) σ) (ht : σ.machine.targets.get? id = some t)
    (moves : List CostumeMove) :
    (0 < t.costumes.size → (moves.foldl Target.wear t).costume < t.costumes.size) ∧
      ∀ v, (moves.foldl Target.wear t).Ignores v → (moves.foldl Target.wear t).setCostume v = moves.foldl Target.wear t := by
  have hdressed : t.pose.Dressed := by
    refine posed_of_compile hcompile hsteps (fun d _ hsize => ?_) (fun _ _ hchange => hchange.dressed) ht
    simp [Declaration.pose] at hsize ⊢
    omega
  obtain ⟨hworn,heq⟩ := Target.dressed_foldl_wear hdressed moves
  refine ⟨fun hsize => ?_,fun v hv => Target.setCostume_of_ignores hv⟩
  rw [← heq] at hsize ⊢
  exact hworn hsize

/-! A sprite with two costumes that is said to wear the eighth, and a clone of it. -/

def wardrobe : Project where
  stage := { name := "Stage", isStage := true }
  sprites := [{ name := "Cat", isStage := false, costumes := [{ name := "day" },{ name := "night" }], costume := 7 }]

def wardrobeClone? (p : Program) : Option Target :=
  ((HostAction.createClone 1).apply (Machine.ofProgram p shallow {})).targets.get? 2

theorem wardrobe_works : ∃ p ∈ (compile wardrobe).toOption, ∃ t ∈ wardrobeClone? p,
    t.costumes.size = 2 ∧ t.costume = 1 ∧ t.isStage = false ∧ ∀ c ∈ t.costumes, c.name ≠ "zebra" := by
  decide +kernel

theorem costume_of_compile_wardrobe : ∃ p t, compile wardrobe = .ok p ∧ wardrobeClone? p = some t ∧ t.costume = 1 ∧
    ([.set (.number (-1e300)),.previous,.clone].foldl Target.wear t).costume < 2 ∧
    t.setCostume (.text "zebra") = t := by
  obtain ⟨p,hp,t,ht,hsize,hworn,hstage,hnames⟩ := wardrobe_works
  have hcompile := Except.mem_toOption.1 hp
  have hsteps : Phase.Steps (.idle (.ofProgram p shallow {})) (.idle ((HostAction.createClone 1).apply _)) :=
    .single (.host _ _)
  have hlt := (costume_of_compile hcompile hsteps ht [.set (.number (-1e300)),.previous,.clone]).1 (by omega)
  have hzebra : t.Ignores (.text "zebra") := by
    refine ⟨fun x hx => (nomatch hx),hnames,?_,?_,.inl (by decide)⟩
    · simp [hstage,Value.toText]
    · simp [hstage,Value.toText]
  exact ⟨p,t,hcompile,ht,hworn,by rwa [hsize] at hlt,(costume_of_compile hcompile hsteps ht []).2 _ hzebra⟩

end SpriteMachine
