import SpriteMachine.Proofs.Layers
import SpriteMachine.Proofs.Poses
import SpriteMachine.Proofs.WholeNumbers

/-!
The directions that targets face in. Those that are set are brought between -180 and 180, exactly and by whole turns. Those
of the project are taken as they are, and so are those that pointing towards something and bouncing off the edge come to.
-/

namespace SpriteMachine.Double

open Float.Model UnpackedFloat

/-! Doubles from their parts -/

theorem toBits_ofBits {w : UInt64} (h : w.toNat / 2 ^ 52 % 2048 ≠ 2047) : (Float.ofBits w).toBits = w := by
  have hexponent : (@unpackExponent Format.binary64 w.toBitVec).toNat = w.toNat / 2 ^ 52 % 2048 := by
    simp only [unpackExponent,BitVec.toNat_cast,BitVec.extractLsb_toNat]
    rw [Nat.shiftRight_eq_div_pow]
    rfl
  have hvalid : Format.binary64.Valid w.toBitVec := by
    refine ⟨fun htop => absurd ?_ h⟩
    rw [← hexponent,htop]
    rfl
  exact congrArg Float.toBits (ofBits_toBits (.ofModel ⟨w,hvalid⟩))

theorem parts?_ofBits (field fraction : Nat) (hfield : field < 2047) (hfraction : fraction < 2 ^ 52) :
    parts? (Float.ofBits (UInt64.ofNat (field * 2 ^ 52 + fraction))) =
      some (if field = 0 then ⟨false,fraction,-1074⟩ else ⟨false,2 ^ 52 + fraction,field - 1075⟩) := by
  have hword : (UInt64.ofNat (field * 2 ^ 52 + fraction)).toNat = field * 2 ^ 52 + fraction :=
    UInt64.toNat_ofNat_of_lt' (by simp only [UInt64.size]; omega)
  have hbits := toBits_ofBits (w := UInt64.ofNat (field * 2 ^ 52 + fraction)) (by rw [hword]; omega)
  have hfield' : (field * 2 ^ 52 + fraction) / 2 ^ 52 % 2048 = field := by omega
  have hfraction' : (field * 2 ^ 52 + fraction) % 2 ^ 52 = fraction := by omega
  have hsign : (field * 2 ^ 52 + fraction) / 2 ^ 63 = 0 := by omega
  simp only [parts?,hbits,hword,Nat.pow_eq,hfield',hfraction',hsign]
  rw [if_neg (by omega)]
  split <;> rfl

theorem parts?_pow2 {q : Int} (hlow : -1074 ≤ q) (hhigh : q ≤ 971) :
    ∃ m e, parts? (pow2 q) = some ⟨false,m,e⟩ ∧ (m : ℚ) * 2 ^ e = 2 ^ q := by
  unfold pow2
  split
  next hsmall =>
    have hlt : 2 ^ (q + 1074).toNat < 2 ^ 52 := Nat.pow_lt_pow_right (by decide) (by omega)
    have hparts := parts?_ofBits 0 _ (by decide) hlt
    rw [Nat.zero_mul,Nat.zero_add,if_pos rfl] at hparts
    refine ⟨_,_,hparts,?_⟩
    rw [Nat.cast_pow,Nat.cast_ofNat,← zpow_natCast,← zpow_add₀ (by norm_num)]
    congr 1
    omega
  next hlarge =>
    have hparts := parts?_ofBits (q + 1023).toNat 0 (by omega) (by decide)
    rw [Nat.add_zero,if_neg (by omega)] at hparts
    refine ⟨_,_,hparts,?_⟩
    rw [Nat.add_zero,Nat.cast_pow,Nat.cast_ofNat,← zpow_natCast,← zpow_add₀ (by norm_num)]
    congr 1
    omega

variable {x y : Float} {m : Nat} {e : Int}

theorem parts?_neg (h : parts? x = some ⟨false,m,e⟩) : parts? (-x) = some ⟨true,m,e⟩ := by
  obtain ⟨hunpack,hfits,he⟩ := unpack_of_parts h
  have hneg : (signed .positive m e).neg = signed .negative m e := by
    unfold signed
    split <;> rfl
  change parts? (.ofModel (Float.Model.pack x.toModel.unpack.neg)) = _
  rw [hunpack]
  exact hneg ▸ parts?_pack (s := .negative) hfits he

/-- A mantissa of 53 bits gives an exact number. -/
theorem toRat_ofParts (neg : Bool) {r : Nat} (hr : r < 2 ^ 53) (hlow : -1074 ≤ e) (hhigh : e ≤ 971) :
    (ofParts ⟨neg,r,e⟩).isFinite = true ∧ toRat (ofParts ⟨neg,r,e⟩) = (signOf neg).apply r * 2 ^ e := by
  obtain ⟨n,k,hn,-,-,hnvalue⟩ := parts?_ofNat hr
  obtain ⟨n',k',hn',hpvalue⟩ := parts?_pow2 hlow hhigh
  obtain ⟨m,d,hfits,hd,hvalue⟩ := exists_fits hr hlow
  have hparts := parts?_mul hn hn' hfits (hd.trans hhigh) (by rw [hvalue,hnvalue,hpvalue])
  cases neg with
  | false =>
    refine ⟨isFinite_of_parts hparts,?_⟩
    rw [ofParts,if_neg Bool.false_ne_true,toRat_of_parts hparts]
    exact hvalue
  | true =>
    refine ⟨isFinite_of_parts (parts?_neg hparts),?_⟩
    rw [ofParts,if_pos rfl,toRat_of_parts (parts?_neg hparts)]
    change ((-(m : Int) : Int) : ℚ) * 2 ^ d = ((-(r : Int) : Int) : ℚ) * 2 ^ e
    push_cast
    linarith

/-- The remainder of a division is exact. -/
theorem toRat_remainder (hx : x.isFinite = true) (hy : parts? y = some ⟨false,m,e⟩) (hm : 0 < m) :
    (remainder x y).isFinite = true ∧ |toRat (remainder x y)| < toRat y ∧
      ∃ k : ℤ, toRat x = toRat (remainder x y) + k * toRat y := by
  obtain ⟨⟨neg,n,d⟩,hp⟩ := parts_of_isFinite hx
  obtain ⟨-,hfits,hmax⟩ := unpack_of_parts hp
  obtain ⟨-,hfits',hmax'⟩ := unpack_of_parts hy
  dsimp only at hfits hmax hfits' hmax'
  have hvalue : toRat y = m * 2 ^ e := toRat_of_parts hy
  have hpos : 0 < toRat y := hvalue ▸ mul_zpow_pos.2 hm
  unfold remainder
  simp only [hp,hy,if_neg hm.ne']
  split
  next hzero =>
    have hx0 : toRat x = 0 := by
      rw [toRat_of_parts hp,hzero]
      cases neg <;> simp [signOf,Sign.apply]
    exact ⟨hx,by rwa [hx0,abs_zero],0,by simp⟩
  next hzero =>
    simp only [Nat.pow_eq]
    have hless : n * 2 ^ (d - min d e).toNat % (m * 2 ^ (e - min d e).toNat) < 2 ^ 53 := by
      rcases le_total d e with hle | hle
      · rw [min_eq_left hle,Int.sub_self]
        exact Nat.lt_of_le_of_lt (Nat.mod_le _ _) (by simpa using hfits.lt)
      · rw [min_eq_right hle,Int.sub_self]
        exact Nat.lt_trans (Nat.mod_lt _ (by simpa using hm)) (by simpa using hfits'.lt)
    have hleast := le_min hfits.least hfits'.least
    obtain ⟨hfinite,hexact⟩ := toRat_ofParts neg hless hleast ((min_le_left d e).trans hmax)
    refine ⟨hfinite,?_⟩
    have hunit : (0 : ℚ) < 2 ^ min d e := by positivity
    rw [hexact,toRat_of_parts hp,hvalue,mul_zpow_eq m (min_le_right d e)]
    have hx' : ((signOf neg).apply n : ℚ) * 2 ^ d = (signOf neg).apply (n * 2 ^ (d - min d e).toNat : Nat) * 2 ^ min d e := by
      have := mul_zpow_eq n (min_le_left d e)
      cases neg <;> simp [signOf,Sign.apply] at this ⊢ <;> linarith
    have hb : 0 < m * 2 ^ (e - min d e).toNat := by positivity
    dsimp only
    rw [hx']
    generalize n * 2 ^ (d - min d e).toNat = a
    generalize m * 2 ^ (e - min d e).toNat = b at hb
    have hdivision : (a : ℚ) = (a % b : Nat) + (a / b : Nat) * b := by exact_mod_cast (Nat.mod_add_div' a b).symm
    constructor
    · rw [abs_mul,abs_of_pos hunit]
      refine mul_lt_mul_of_pos_right ?_ hunit
      have hmod := Nat.mod_lt a hb
      generalize a % b = r at hmod
      cases neg <;> simpa [signOf,Sign.apply] using hmod
    · refine ⟨(signOf neg).apply (a / b : Nat),?_⟩
      cases neg <;> simp only [signOf,Sign.apply,Bool.false_eq_true,if_false,if_true,Int.cast_neg,Int.cast_natCast] <;>
        rw [hdivision] <;> ring

theorem toRat_angles : toRat 180.0 = 180 ∧ toRat (-180.0) = -180 ∧ toRat 360.0 = 360 ∧ toRat (-360.0) = -360 := by
  have hunpack : (180.0 : Float).toModel.unpack = .finite .positive (45 * 2 ^ 47) (-45) (by decide) ∧
      (-180.0 : Float).toModel.unpack = .finite .negative (45 * 2 ^ 47) (-45) (by decide) ∧
      (360.0 : Float).toModel.unpack = .finite .positive (45 * 2 ^ 47) (-44) (by decide) ∧
      (-360.0 : Float).toModel.unpack = .finite .negative (45 * 2 ^ 47) (-44) (by decide) := ⟨rfl,rfl,rfl,rfl⟩
  simp only [toRat,hunpack,rational]
  norm_num [Sign.apply]

theorem le_iff_toRat (hx : x.isFinite = true) (hy : y.isFinite = true) : x ≤ y ↔ toRat x ≤ toRat y := by
  change (decide (x.toModel ≤ y.toModel) = true) ↔ _
  rw [decide_eq_true_iff]
  change (x.toModel.unpack.compare y.toModel.unpack).any (·.isLE) = true ↔ _
  rw [compare_toRat hx hy,Option.any_some,Ordering.isLE_iff_ne_gt,compare_gt_iff_gt,not_lt]

end SpriteMachine.Double

namespace SpriteMachine

/-- A direction as the player shows it. -/
def Wrapped (d : Float) : Prop :=
  -180.0 < d ∧ d ≤ 180.0

open Double in
theorem wrapped_wrapDegrees {x : Float} (hx : x.isFinite = true) :
    Wrapped (Target.wrapDegrees x) ∧ ∃ k : ℤ, toRat x = toRat (Target.wrapDegrees x) + k * 360 := by
  obtain ⟨h180,hneg180,h360,hneg360⟩ := toRat_angles
  obtain ⟨hfinite,hlt,k,hk⟩ := toRat_remainder (y := 360.0) (m := 45 * 2 ^ 47) (e := -44) hx (by decide +kernel) (by decide)
  rw [h360] at hlt hk
  rw [Wrapped]
  unfold Target.wrapDegrees
  generalize remainder x 360.0 = d at hfinite hlt hk
  rw [abs_lt] at hlt
  dsimp only
  have habove : (d > 180.0) ↔ 180 < toRat d := by rw [gt_iff_lt,lt_iff_toRat rfl hfinite,h180]
  have hbelow : ∀ {d : Float}, d.isFinite = true → (d ≤ -180.0 ↔ toRat d ≤ -180) := fun hd => by
    rw [le_iff_toRat hd rfl,hneg180]
  have hwrapped : ∀ {d : Float}, d.isFinite = true → (Wrapped d ↔ -180 < toRat d ∧ toRat d ≤ 180) := fun hd => by
    rw [Wrapped,lt_iff_toRat rfl hd,le_iff_toRat hd rfl,h180,hneg180]
  by_cases hhigh : d > 180.0
  · have hhigh' := habove.1 hhigh
    have habs : |toRat d| = toRat d := abs_of_pos (by linarith)
    obtain ⟨s,m,j,h,hd,-⟩ := unpack_of_between (x := d) (by rw [habs]; linarith) (by rw [habs]; linarith)
    obtain ⟨hfinite',hsub⟩ := toRat_add_whole (x := d) (y := -360.0) (c := -360) (by rw [habs]; linarith)
      (by rw [habs]; linarith) rfl (by rw [hneg360]; norm_num) (by rw [abs_le,habs]; push_cast; constructor <;> linarith)
    rw [← sub_eq_add hd (y := 360.0) rfl rfl] at hfinite' hsub
    push_cast at hsub
    have hlow : ¬ d - 360.0 ≤ -180.0 := by
      rw [hbelow hfinite',hsub]
      linarith
    rw [if_pos hhigh,if_neg hlow,← Wrapped,hwrapped hfinite',hsub]
    exact ⟨⟨by linarith,by linarith⟩,k + 1,by push_cast; linarith⟩
  · rw [if_neg hhigh]
    rw [habove] at hhigh
    by_cases hlow : d ≤ -180.0
    · have hlow' := (hbelow hfinite).1 hlow
      have habs : |toRat d| = -toRat d := abs_of_neg (by linarith)
      obtain ⟨hfinite',hadd⟩ := toRat_add_whole (x := d) (y := 360.0) (c := 360) (by rw [habs]; linarith)
        (by rw [habs]; linarith) rfl (by rw [h360]; norm_num) (by rw [abs_le,habs]; push_cast; constructor <;> linarith)
      push_cast at hadd
      rw [if_pos hlow,← Wrapped,hwrapped hfinite',hadd]
      exact ⟨⟨by linarith,by linarith⟩,k - 1,by push_cast; linarith⟩
    · rw [if_neg hlow,← Wrapped,hwrapped hfinite]
      rw [hbelow hfinite] at hlow
      exact ⟨⟨by linarith,by linarith⟩,k,hk⟩

/-- A direction that an instruction computes and does not wrap. -/
inductive Aims (i : Instr) : Float → Prop
  | towards (p q : Point) (hi : i.builtin? = some (.motion .pointTowards)) : Aims i (directionTo p q)
  | bounce (x y : Float) (hi : i.builtin? = some (.motion .bounce)) : Aims i (Float.atan2 y x * 180.0 / pi + 90.0)

theorem Target.Change.faces {i : Instr} {t t' : Target} (h : t.Change i t') :
    t'.direction = t.direction ∨ Wrapped t'.direction ∨ Aims i t'.direction := by
  cases h with
  | direction degrees =>
    unfold setDirection
    split
    next hfinite => exact .inr (.inl (wrapped_wrapDegrees hfinite).1)
    · exact .inl rfl
  | towards p hi => exact .inr (.inr (.towards _ _ hi))
  | bounce hi =>
    unfold Target.bounce
    dsimp only
    split
    · exact .inl rfl
    · exact .inr (.inr (.bounce _ _ hi))
  | position fenced p => cases fenced <;> exact .inl rfl
  | costume v =>
    obtain ⟨c,heq,-⟩ := t.redressed_setCostume v
    exact .inl (by rw [heq])
  | nextCostume =>
    obtain ⟨c,heq,-⟩ := t.redressed_nextCostume
    exact .inl (by rw [heq])
  | _ => exact .inl rfl

/-- Where the directions of targets come from: they are wrapped, or in the project, or computed by an instruction that was
met and that does not wrap them. -/
inductive Faced (project : Project) (first : Phase) : Float → Prop
  | wrapped {x : Float} (h : Wrapped x) : Faced project first x
  | declared {d : Declaration} {p : Placement} (hd : d ∈ project.stage :: project.sprites) (hp : d.placement = some p) :
      Faced project first p.direction
  | aimed {t : Turn} {s : Script} {pc next : Nat} {i : Instr} {x : Float} (hsteps : Phase.Steps first (.turn t s pc))
      (hfetch : s.fetch pc = .ok (i,next)) (h : Aims i x) : Faced project first x

theorem direction_of_compile {project : Project} {program : Program} {settings : Settings} {clock : Clock} {σ : Phase}
    {id : Nat} {t : Target} (hcompile : compile project = .ok program)
    (hsteps : Phase.Steps (.idle (.ofProgram program settings clock)) σ) (ht : σ.machine.targets.get? id = some t) :
    Faced project (.idle (.ofProgram program settings clock)) t.direction ∧
    (∀ x : Float, x.isFinite = true → Wrapped (t.setDirection x).direction ∧
      ∃ k : ℤ, Double.toRat x = Double.toRat (t.setDirection x).direction + k * 360) ∧
    ∀ x : Float, x.isFinite = false → t.setDirection x = t := by
  refine ⟨?_,fun x hx => ?_,fun x hx => ?_⟩
  · refine posed_of_compile (P := fun q => Faced project _ q.direction) hcompile hsteps (fun d hd => ?_)
      (fun hturn hfetch hchange hx => ?_) ht
    · rw [Declaration.pose]
      cases hp : d.placement with
      | none =>
        have hright : Wrapped 90.0 := ⟨by decide +kernel,by decide +kernel⟩
        exact .wrapped hright
      | some p => exact .declared hd hp
    · rcases hchange.faces with heq | hwrapped | haims
      · simpa only [Target.pose,heq] using hx
      · exact .wrapped hwrapped
      · exact .aimed hturn hfetch haims
  · rw [Target.setDirection,if_pos hx]
    exact wrapped_wrapDegrees hx
  · rw [Target.setDirection,if_neg (by rw [hx]; decide)]

/-! A sprite that the project has face in the direction 270. -/

def sideways : Project where
  stage := { name := "Stage", isStage := true }
  sprites := [{ name := "Cat", isStage := false, placement := some { direction := 270.0 } }]

theorem sideways_faces : ∃ p ∈ (compile sideways).toOption, ∃ t ∈ (Machine.ofProgram p shallow {}).targets.get? 1,
    ¬ t.direction ≤ 180.0 := by
  decide +kernel

theorem direction_of_compile_sideways : ∃ p t, compile sideways = .ok p ∧
    (Machine.ofProgram p shallow {}).targets.get? 1 = some t ∧
    Faced sideways (.idle (.ofProgram p shallow {})) t.direction ∧ Wrapped (t.setDirection 450.0).direction := by
  obtain ⟨p,hp,t,ht,-⟩ := sideways_faces
  have hcompile := Except.mem_toOption.1 hp
  have hstart : Phase.Steps (.idle (.ofProgram p shallow {})) (.idle (.ofProgram p shallow {})) := .refl
  obtain ⟨hfaced,hset,-⟩ := direction_of_compile hcompile hstart ht
  exact ⟨p,t,hcompile,ht,hfaced,(hset 450.0 rfl).1⟩

theorem not_wrapped_sideways : ∃ p t, compile sideways = .ok p ∧
    (Machine.ofProgram p shallow {}).targets.get? 1 = some t ∧ ¬ Wrapped t.direction := by
  obtain ⟨p,hp,t,ht,hnot⟩ := sideways_faces
  exact ⟨p,t,Except.mem_toOption.1 hp,ht,fun hwrapped => hnot hwrapped.2⟩

end SpriteMachine
