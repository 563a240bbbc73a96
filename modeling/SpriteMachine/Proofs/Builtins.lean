import SpriteMachine.Proofs.Discipline

/-!
What each builtin takes off the operand stack and puts back, and that builtins keep the discipline of code
that falls through.
-/

namespace SpriteMachine

/-- How many operands an action takes, and how many results it gives. -/
def MotionAction.arity : MotionAction → Nat × Nat
  | .goToPoint => (2,0)
  | .glideTo => (2,1)
  | .glideToPoint => (3,1)
  | .bounce => (0,0)
  | .glideStep | .x | .y | .direction => (0,1)
  | _ => (1,0)

def LooksAction.arity : LooksAction → Nat × Nat
  | .sayFor _ | .changeEffect | .setEffect => (2,0)
  | .endSay | .nextCostume | .nextBackdrop | .clearEffects | .show | .hide => (0,0)
  | .costumeNumberName | .backdropNumberName => (1,1)
  | .size => (0,1)
  | _ => (1,0)

def SoundAction.arity : SoundAction → Nat × Nat
  | .playUntilDone => (1,1)
  | .stopAll | .clearEffects => (0,0)
  | .volume => (0,1)
  | _ => (1,0)

def ControlAction.arity : ControlAction → Nat × Nat
  | .createClone => (1,0)
  | .incrementCounter | .clearCounter => (0,0)
  | .counter => (0,1)

def SensingAction.arity : SensingAction → Nat × Nat
  | .ask | .setDragMode => (1,0)
  | .endAsk | .resetTimer => (0,0)
  | .touchingObject | .touchingColour | .distanceTo | .keyPressed | .currentDate => (1,1)
  | .colourTouchingColour | .propertyOf => (2,1)
  | _ => (0,1)

def PenAction.arity : PenAction → Nat × Nat
  | .clear | .stamp | .down | .up => (0,0)
  | .setParam _ | .changeParam _ => (2,0)
  | _ => (1,0)

def MusicAction.arity : MusicAction → Nat × Nat
  | .playNote | .playDrum => (2,1)
  | .rest => (1,1)
  | .tempo => (0,1)
  | _ => (1,0)

def Builtin.arity : Builtin → Nat × Nat
  | .motion a => a.arity
  | .looks a => a.arity
  | .sound a => a.arity
  | .control a => a.arity
  | .sensing a => a.arity
  | .pen a => a.arity
  | .music a => a.arity

def Builtin.usesLocals : Builtin → Bool
  | .motion a => a = .glideTo || a = .glideToPoint || a = .glideStep
  | .looks a => a = .sayFor true || a = .sayFor false || a = .endSay
  | .sound a => a = .playUntilDone
  | .sensing a => a = .ask || a = .endAsk
  | _ => false

/-- Whether a builtin sets locals of a block that waits. -/
def Builtin.setsLocals : Builtin → Bool
  | .motion .glideTo | .motion .glideToPoint | .looks (.sayFor _) | .sound .playUntilDone | .sensing .ask => true
  | _ => false

theorem Machine.place?_withVisual (m : Machine) (b : Bool) (name : String) :
    (m.withVisual b).place? name = ((m.place? name).1,(m.place? name).2.withVisual b) := by
  have ho : (m.withVisual b).object? name = m.object? name := rfl
  have hr : (m.withVisual b).random = m.random := rfl
  simp only [place?,ho,hr]
  split
  · rfl
  · split <;> rfl

theorem Machine.playSound?_withVisual (m : Machine) (b : Bool) (id : Nat) (v : Value) :
    (m.withVisual b).playSound? id v = (m.playSound? id v).map fun x => (x.1,x.2.withVisual b) := by
  have ht : (m.withVisual b).targets = m.targets := rfl
  unfold playSound?
  rw [ht]
  cases m.targets.get? id with
  | none => rfl
  | some t =>
    simp only [Option.bind_eq_bind,Option.bind_some]
    cases t.sound? v with
    | none => rfl
    | some s =>
      simp only [Option.bind_some]
      split <;> rfl

namespace Mild

variable {i : Instr} {c : Access} {n : Nat}

theorem place (name : String) : Mild i c n n (Turn.onMachine (·.place? name)) :=
  onMachine (fun _ m => .place? m name) fun m b => by
    rw [Machine.place?_withVisual]
    exact ⟨rfl,b,rfl⟩

theorem beginGlide (seconds : Float) (p : Point) : Mild i { locals := true } n n (Turn.beginGlide seconds p) :=
  own.bind fun _ => (machineIs _ fun _ _ => rfl).bind fun _ => (setLocal 0 _ rfl).bind fun _ => (setLocal 1 _ rfl).bind fun _ =>
    (setLocal 2 _ rfl).bind fun _ => (setLocal 3 _ rfl).bind fun _ => (setLocal 4 _ rfl).bind fun _ => setLocal 5 _ rfl

theorem glideStep : Mild i { locals := true } n (n + 1) Turn.glideStep :=
  (machineIs _ fun _ _ => rfl).bind fun _ => (numberIn 0 rfl).bind fun _ => (numberIn 1 rfl).bind fun _ => (numberIn 2 rfl).bind fun _ =>
    (numberIn 4 rfl).bind fun _ => (numberIn 3 rfl).bind fun _ => (numberIn 5 rfl).bind fun _ => (moveOwn _).bind fun _ => push _

theorem motion {a : MotionAction} (hi : i.builtin? = some (.motion a)) :
    Mild i { locals := (Builtin.motion a).usesLocals } a.arity.1 a.arity.2 (Turn.motion a) := by
  cases a with
  | moveSteps | changeX | setX | changeY | setY => exact popNumber.bind fun _ => own.bind fun _ => moveOwn _
  | turnRight | turnLeft | pointInDirection => exact popNumber.bind fun _ => modifyOwn fun _ => .direction _
  | setRotation => exact popNumber.bind fun _ => modifyOwn fun _ => .rotation _
  | goTo =>
    refine popText.bind fun name => (place name).bind fun p => ?_
    cases p with
    | none => exact pure _
    | some p => exact moveOwn p
  | goToPoint => exact popPair.bind fun _ => moveOwn _
  | glideTo =>
    refine popPair.bind fun v => (place v.2.toText).bind fun p => ?_
    cases p with
    | none => exact push _
    | some p => exact (beginGlide _ p).bind fun _ => push _
  | glideToPoint => exact popTriple.bind fun _ => (beginGlide _ _).bind fun _ => push _
  | glideStep => exact glideStep
  | pointTowards =>
    refine popText.bind fun name => (place name).bind fun p => ?_
    cases p with
    | none => exact pure _
    | some p => exact modifyOwn fun _ => .towards p hi
  | bounce => exact modifyOwn fun _ => .bounce hi
  | x | y | direction => exact own.bind fun _ => push _

theorem sayOwn (text : String) (thinking : Bool) : Mild i c n n (Turn.sayOwn text thinking) :=
  (modifyOwn fun _ => .bubble _ _).bind fun _ => own.bind fun _ => pure _

theorem endBubble (number : Float) : Mild i c n n (Turn.endBubble number) := by
  refine modifyOwn fun t => ?_
  split
  · exact .bubble _ _
  · exact .refl

theorem looks {a : LooksAction} (hi : i.builtin? = some (.looks a)) :
    Mild i { locals := (Builtin.looks a).usesLocals } a.arity.1 a.arity.2 (Turn.looks a) := by
  cases a with
  | say thinking => exact popText.bind fun _ => modifyOwn fun _ => .bubble _ _
  | sayFor thinking =>
    cases thinking <;> exact popPair.bind fun _ => (sayOwn _ _).bind fun _ => (machineIs _ fun _ _ => rfl).bind fun _ =>
      (setLocal 0 _ rfl).bind fun _ => (setLocal 1 _ rfl).bind fun _ => setLocal 2 _ rfl
  | endSay => exact (numberIn 2 rfl).bind fun _ => endBubble _
  | switchCostume => exact pop.bind fun _ => modifyOwn fun _ => .costume _
  | nextCostume => exact modifyOwn fun _ => .nextCostume
  | switchBackdrop => exact pop.bind fun _ => modifyStage fun _ => .costume _
  | nextBackdrop => exact modifyStage fun _ => .nextCostume
  | changeSize | setSize => exact popNumber.bind fun _ => modifyOwn fun _ => .scale _
  | changeEffect | setEffect => exact popPair.bind fun _ => modifyOwn fun _ => .effects _
  | clearEffects => exact modifyOwn fun _ => .effects _
  | «show» => exact modifyOwn fun _ => .visible true hi
  | hide => exact modifyOwn fun _ => .visible false hi
  | toLayer =>
    exact popBool.bind fun front => modifyOwnMachine (fun _ _ => .moveLayer _ _) fun id =>
      .moveLayer id (fun m => if front then m.children.length else 0) fun _ _ => rfl
  | shiftLayer =>
    exact popNumber.bind fun layers => modifyOwnMachine (fun _ _ => .moveLayer _ _) fun id => .moveLayer id (fun m =>
      Double.toIndex (Double.atLeast 0.0 (Float.ofNat (m.children.idxOf id) + layers))) fun _ _ => rfl
  | costumeNumberName => exact popText.bind fun _ => own.bind fun _ => push _
  | backdropNumberName => exact popText.bind fun _ => (machineIs _ fun _ _ => rfl).bind fun _ => push _
  | size => exact own.bind fun _ => push _

theorem playOwn (v : Value) : Mild i c n n (Turn.playOwn v) := by
  refine ownId.bind fun id => onMachine (fun own m => ?_) fun m b => ?_
  · split
    next hplay => exact .playSound? hplay
    · exact .refl
  · rw [Machine.playSound?_withVisual]
    cases m.playSound? id v with
    | none | some p => exact ⟨rfl,b,rfl⟩

theorem sound (a : SoundAction) : Mild i { locals := (Builtin.sound a).usesLocals } a.arity.1 a.arity.2 (Turn.sound a) := by
  cases a with
  | play => exact pop.bind fun _ => (playOwn _).bind fun _ => pure _
  | playUntilDone =>
    refine pop.bind fun v => (playOwn v).bind fun d => ?_
    cases d with
    | none => exact push _
    | some d => exact (machineIs _ fun _ _ => rfl).bind fun _ => (setLocal 0 _ rfl).bind fun _ => (setLocal 1 _ rfl).bind fun _ => push _
  | stopAll => exact hostCall _
  | changeVolume | setVolume => exact popNumber.bind fun _ => modifyOwn fun _ => .volume _
  | setPitch | changePitch => exact popNumber.bind fun _ => modifyOwn fun _ => .pitch _
  | clearEffects => exact modifyOwn fun _ => .pitch _
  | volume => exact own.bind fun _ => push _

def cloneAny : Option Nat → Exec Unit
  | some id => Turn.modifyMachine fun m => (m.createClone id).2
  | none => Pure.pure ()

theorem createCloneOf (hi : i.builtin? = some (.control .createClone)) (name : String) :
    Mild i c n n (Turn.createCloneOf name) := by
  have hclone : ∀ parent : Option Nat, Mild i c n n (cloneAny parent) := by
    intro parent
    cases parent with
    | none => exact pure _
    | some id => exact modifyMachine (fun _ _ => .clone .refl hi id) (.createClone id)
  unfold Turn.createCloneOf
  split
  · exact (ownId.map some).bind hclone
  · exact (machineIs _ fun _ _ => rfl).bind hclone

theorem control {a : ControlAction} (hi : i.builtin? = some (.control a)) :
    Mild i c a.arity.1 a.arity.2 (Turn.control a) := by
  cases a with
  | createClone => exact popText.bind fun _ => createCloneOf hi _
  | incrementCounter | clearCounter => exact modifyPanel fun _ _ => .panel .refl fun _ => rfl
  | counter => exact (machineIs _ fun _ _ => rfl).bind fun _ => push _

theorem ask (hi : i.builtin? = some (.sensing .ask)) : Mild i { locals := true } (n + 1) n Turn.ask := by
  have hprompt : ∀ question : Option String, Mild i { locals := true } n n (do
      Turn.modifyMachine (·.modifyPanel fun p => { p with question, promptVisible := true })
      Turn.modifyMachine Machine.setVisual) := fun question =>
    (modifyPanel fun _ _ => .prompt .refl hi question).bind fun _ =>
      modifyMachine (fun _ _ => .visual .refl (.inl hi)) fun _ _ => ⟨true,rfl⟩
  refine popText.bind fun question => own.bind fun t => ?_
  dsimp only
  split
  · exact (sayOwn _ _).bind fun _ => (setLocal 1 _ rfl).bind fun _ => hprompt _
  · exact (setLocal 1 _ rfl).bind fun _ => hprompt _

theorem touchingColour (id : Nat) (colour : UInt32) : Mild i c n n (Turn.onMachine (·.touchingColour id colour)) := by
  refine onMachine (fun _ m => .touchingColour m id colour) fun m b => ?_
  have ht : (m.withVisual b).targets = m.targets := rfl
  simp only [Machine.touchingColour,ht]
  split <;> exact ⟨rfl,b,rfl⟩

theorem colourTouchingColour (id : Nat) (mask colour : UInt32) :
    Mild i c n n (Turn.onMachine (·.colourTouchingColour id mask colour)) := by
  refine onMachine (fun _ m => .colourTouchingColour m id mask colour) fun m b => ?_
  have ht : (m.withVisual b).targets = m.targets := rfl
  simp only [Machine.colourTouchingColour,ht]
  split <;> exact ⟨rfl,b,rfl⟩

theorem sensing {a : SensingAction} (hi : i.builtin? = some (.sensing a)) :
    Mild i { locals := (Builtin.sensing a).usesLocals } a.arity.1 a.arity.2 (Turn.sensing a) := by
  cases a with
  | ask => exact ask hi
  | takeTicket => exact (machineIs _ fun _ _ => rfl).bind fun _ => (push _).bind fun _ => modifyPanel fun _ _ => .ticket .refl hi
  | endAsk => exact (numberIn 1 rfl).bind fun _ => endBubble _
  | setDragMode => exact popBool.bind fun _ => modifyOwn fun _ => .draggable _
  | resetTimer => exact modifyMachine (fun _ _ => .aside .refl rfl (.read .refl)) fun _ b => ⟨b,rfl⟩
  | touchingObject => exact popText.bind fun _ => ownId.bind fun _ => (machineIs _ fun _ _ => rfl).bind fun _ => push _
  | touchingColour => exact pop.bind fun _ => ownId.bind fun _ => (touchingColour _ _).bind fun _ => push _
  | colourTouchingColour =>
    exact popPair.bind fun _ => ownId.bind fun _ => (colourTouchingColour _ _ _).bind fun _ => push _
  | distanceTo =>
    refine popText.bind fun name => (machineIs _ fun _ _ => rfl).bind fun p => ?_
    cases p with
    | none => exact push _
    | some p => exact own.bind fun _ => push _
  | propertyOf =>
    refine popPair.bind fun v => (machineIs _ fun _ _ => rfl).bind fun t => ?_
    cases t with
    | none | some t => exact push _
  | keyPressed | currentDate => exact popText.bind fun _ => (machineIs _ fun _ _ => rfl).bind fun _ => push _
  | currentTicket | answer | mouseDown | mouseX | mouseY | timer | daysSince2000 | username =>
    exact (machineIs _ fun _ _ => rfl).bind fun _ => push _

theorem modifyPen {f : Pen → Pen} (hf : ∀ p, (f p).down = p.down) : Mild i c n n (Turn.modifyPen f) :=
  modifyOwn fun t => .pen _ (hf t.pen)

theorem pen {a : PenAction} (hi : i.builtin? = some (.pen a)) : Mild i c a.arity.1 a.arity.2 (Turn.pen a) := by
  cases a with
  | clear => exact hostCall _
  | stamp =>
    refine ownId.bind fun id => (machineIs _ fun _ _ => rfl).bind fun t => ?_
    cases t with
    | none => exact pure _
    | some t => exact hostCall _
  | down => exact (modifyOwn fun _ => .penDown true hi).bind fun _ => own.bind fun _ => hostCall _
  | up => exact modifyOwn fun _ => .penDown false hi
  | setColour => exact pop.bind fun _ => modifyPen fun _ => rfl
  | setParam folded | changeParam folded => exact popPair.bind fun _ => modifyPen fun _ => rfl
  | setSize | changeSize => exact popNumber.bind fun _ => modifyPen fun _ => rfl

theorem music (a : MusicAction) : Mild i c a.arity.1 a.arity.2 (Turn.music a) := by
  cases a with
  | playNote | playDrum =>
    exact popPair.bind fun _ => own.bind fun _ => (machineIs _ fun _ _ => rfl).bind fun _ => (hostCall _).bind fun _ => push _
  | rest => exact popNumber.bind fun _ => (machineIs _ fun _ _ => rfl).bind fun _ => push _
  | setTempo | changeTempo => exact popNumber.bind fun _ => modifyPanel fun _ _ => .panel .refl fun _ => rfl
  | setInstrument => exact popNumber.bind fun _ => modifyOwn fun _ => .instrument _
  | tempo => exact (machineIs _ fun _ _ => rfl).bind fun _ => push _

theorem builtin {b : Builtin} (hi : i.builtin? = some b) :
    Mild i { locals := b.usesLocals } b.arity.1 b.arity.2 (Turn.builtin b) := by
  cases b with
  | motion a => exact motion hi
  | looks a => exact looks hi
  | sound a => exact sound a
  | control a => exact control hi
  | sensing a => exact sensing hi
  | pen a => exact pen hi
  | music a => exact music a

end Mild

/-! Instructions -/

def ListAction.results : ListAction → Nat
  | .contents | .item | .itemNumber | .length | .contains => 1
  | .add | .delete | .clear | .insert | .replace => 0

theorem ListAction.apply_result (action : ListAction) (l : Items) (top second : Value) (r : Random) :
    (action.apply l top second r).2.1 = none ∧ action.results = 0 ∨
    ∃ v, (action.apply l top second r).2.1 = some v ∧ action.results = 1 := by
  cases action with
  | contents | itemNumber | length | contains => exact .inr ⟨_,rfl,rfl⟩
  | add | clear => exact .inl ⟨rfl,rfl⟩
  | delete =>
    unfold apply
    rcases l.delete top r with ⟨l',r'⟩
    exact .inl ⟨rfl,rfl⟩
  | insert =>
    unfold apply
    rcases l.insert top second r with ⟨l',r'⟩
    exact .inl ⟨rfl,rfl⟩
  | replace =>
    unfold apply
    rcases l.replace second top r with ⟨l',r'⟩
    exact .inl ⟨rfl,rfl⟩
  | item =>
    unfold apply
    rcases l.item top r with ⟨v,r'⟩
    exact .inr ⟨v,rfl,rfl⟩

namespace Instr

/-- The operands and results of an instruction that goes on with the next one and leaves saved locals alone. -/
def arity? : Instr → Option (Nat × Nat)
  | .pushConstant _ | .pushNumber _ | .pushBool _ | .pushVar _ | .pushLocal _ | .pushArg .. | .running
  | .waitElapsed _ | .pushNow => some (0,1)
  | .pop | .setVar _ | .changeVar _ | .setLocal _ => some (1,0)
  | .unary _ => some (1,1)
  | .binary _ | .random => some (2,1)
  | .watchVar .. | .watchList .. | .decLocal _ | .visual _ => some (0,0)
  | .list action _ => some (action.operands,action.results)
  | .builtin id => (Palette.builtin? id).map Builtin.arity
  | _ => none

/-- Whether an instruction sets locals of the block that waits. -/
def setsLocals : Instr → Bool
  | .setLocal _ | .decLocal _ | .broadcastAndWait => true
  | .builtin id => (Palette.builtin? id).any Builtin.setsLocals
  | _ => false

def access : Instr → Access
  | .pushLocal _ | .setLocal _ | .decLocal _ | .running | .waitElapsed _ => { locals := true }
  | .pushVar h | .setVar h | .changeVar h | .watchVar h _ => { handles := fun kind h' => kind = .variable ∧ h' = h }
  | .list _ h | .watchList h _ => { handles := fun kind h' => kind = .list ∧ h' = h }
  | .builtin id => { locals := (Palette.builtin? id).any Builtin.usesLocals }
  | _ => {}

end Instr

namespace Tame

variable {c : Access} {n : Nat}

theorem finds {α : Type} {x : Exec (Nat × α)} {kind : DataKind} {h : Handle} {word : String} {get : Target → Option α}
    (hc : c.handles kind h) (hx : Finds x h word get) (hget : ∀ t, get t = none → t.shape.count kind ≤ h.index) :
    Tame c n n x := by
  refine lookup (g := fun m own => m.datum own h word get) (fun t => ?_) (fun _ _ _ => rfl) fun {t f} hf => ?_
  · rw [hx]
    cases t.machine.datum t.active.target h word get <;> rfl
  have hbad : ¬t.machine.Resolves t.active.target kind h ∧ f.isDecoding = false := by
    unfold Machine.datum at hf
    unfold Machine.Resolves Machine.shape?
    cases hy : t.machine.targets.get? (h.owner t.active.target) with
    | none =>
      rw [hy] at hf
      cases hf
      simp [Fault.isDecoding]
    | some y =>
      rw [hy] at hf
      dsimp only at hf
      split at hf <;> cases hf
      next hnone =>
        refine ⟨?_,rfl⟩
        rintro ⟨σ,hσ,hlt⟩
        cases hσ
        exact absurd hlt (Nat.not_lt.2 (hget y hnone))
  exact .handle hc hbad.1 hbad.2

theorem getVariable {h : Handle} (hc : c.handles .variable h) : Tame c n n (Turn.getVariable h) := by
  refine finds hc (.getVariable h) fun t hnone => ?_
  rw [t.count_shape]
  simpa [Table.get?,DataTables.count,Table.size] using hnone

theorem getList {h : Handle} (hc : c.handles .list h) : Tame c n n (Turn.getList h) := by
  refine finds hc (.getList h) fun t hnone => ?_
  rw [t.count_shape]
  simpa [Table.get?,DataTables.count,Table.size] using hnone

theorem changeList {h : Handle} (hc : c.handles .list h) {k : Nat}
    {f : Items → Random → Items × Option Value × Random}
    (hk : ∀ l r, (f l r).2.1 = none ∧ k = 0 ∨ ∃ v, (f l r).2.1 = some v ∧ k = 1) :
    Tame c 0 k (do
      let (owner,items) ← Turn.getList h
      let (items,result,random) := f items (← Turn.machineIs Machine.random)
      Turn.modifyMachine fun m => { m with random }.setListAt owner h.index items
      match result with
      | some v => Turn.push v
      | none => Pure.pure ()) := by
  refine (getList hc).bind fun found => ?_
  rcases found with ⟨owner,items⟩
  refine (machineIs fun _ _ => rfl).bind fun random => ?_
  have hresult := hk items random
  generalize f items random = changed at hresult ⊢
  rcases changed with ⟨items',result,random'⟩
  have hmodify : Tame c 0 0
      (Turn.modifyMachine fun m => { m with random := random' }.setListAt owner h.index items') :=
    modifyMachine (fun m => .alike .refl (.trans (.random m random') (.setListAt _ _ _ _)))
      fun _ b => ⟨b,rfl⟩
  rcases hresult with ⟨rfl,rfl⟩ | ⟨v,rfl,rfl⟩
  · exact hmodify.bind fun _ => pure _
  · exact hmodify.bind fun _ => push v

theorem listAction {h : Handle} (hc : c.handles .list h) (action : ListAction) :
    Tame c action.operands action.results (Turn.listAction action h) := by
  have hnone : Tame c 0 0 (Turn.popIf false) := pure _
  have hrest := fun top second => changeList hc (k := action.results)
    (f := fun l r => action.apply l top second r) fun l r => action.apply_result l top second r
  cases action with
  | contents | clear | length => exact hnone.bind fun top => hnone.bind (hrest top)
  | add | delete | item | itemNumber | contains => exact pop.bind fun top => hnone.bind (hrest top)
  | insert | replace => exact pop.bind fun top => pop.bind (hrest top)

theorem random (x y : Value) : Tame c n n (Turn.onMachine fun m =>
    let (z,random) := Random.between x y m.random
    (z,{ m with random })) :=
  onMachine (fun m => .alike .refl (.random m _)) fun _ b => ⟨rfl,b,rfl⟩

theorem setVariable (owner index : Nat) (v : Value) :
    Tame c n n (Turn.modifyMachine (·.setVariableAt owner index v)) :=
  modifyMachine (fun m => .nudged .refl (.setVariableAt m _ _ _)) fun _ b => ⟨b,rfl⟩

theorem setWatcher (owner : Nat) (data : Watched) (visible : Bool) :
    Tame c n n (Turn.modifyMachine (·.setWatcher owner data visible)) := by
  refine modifyMachine (fun m => .nudged .refl (.setWatcher m _ _ _)) fun m b => ?_
  have ho : (m.withVisual b).watcherOwner owner = m.watcherOwner owner := rfl
  have hw : (m.withVisual b).watchers = m.watchers := rfl
  simp only [Machine.setWatcher,ho,hw]
  split <;> exact ⟨b,rfl⟩

theorem callBuiltin {id : UInt32} {b : Builtin} (h : Palette.builtin? id = some b) :
    Tame { locals := b.usesLocals } b.arity.1 b.arity.2 (Turn.callBuiltin id) := by
  unfold Turn.callBuiltin
  rw [h]
  exact (Mild.builtin (i := .builtin id) h).toTame

theorem perform {s : Script} {i : Instr} {n k : Nat} (harity : i.arity? = some (n,k))
    (hconstant : ∀ index, i = .pushConstant index → index.toNat < s.constants.size) :
    Tame i.access n k (Turn.perform s i) := by
  cases i with
  | pushConstant index =>
    cases harity
    obtain ⟨text,htext⟩ : ∃ text, s.constants[index.toNat]? = some text :=
      ⟨_,Array.getElem?_eq_getElem (hconstant _ rfl)⟩
    have hc : Tame {} 0 0 (Turn.constant s index) := by
      unfold Turn.constant Script.constant?
      rw [htext]
      exact pure text
    exact hc.bind fun _ => push _
  | pushNumber x | pushBool b => cases harity; exact push _
  | pop => cases harity; exact pop.bind fun _ => pure _
  | unary f => cases harity; exact pop.bind fun _ => push _
  | binary f => cases harity; exact popPair.bind fun _ => push _
  | random => cases harity; exact popPair.bind fun _ => (random _ _).bind fun _ => push _
  | pushVar h =>
    cases harity
    have hc : (Instr.pushVar h).access.handles .variable h := ⟨rfl,rfl⟩
    exact (getVariable hc).bind fun _ => push _
  | setVar h =>
    cases harity
    have hc : (Instr.setVar h).access.handles .variable h := ⟨rfl,rfl⟩
    exact pop.bind fun _ => (getVariable hc).bind fun _ => setVariable _ _ _
  | changeVar h =>
    cases harity
    have hc : (Instr.changeVar h).access.handles .variable h := ⟨rfl,rfl⟩
    exact popNumber.bind fun _ => (getVariable hc).bind fun _ => setVariable _ _ _
  | watchVar h visible =>
    cases harity
    have hc : (Instr.watchVar h visible).access.handles .variable h := ⟨rfl,rfl⟩
    exact (getVariable hc).bind fun _ => setWatcher _ _ _
  | list action h =>
    cases harity
    have hc : (Instr.list action h).access.handles .list h := ⟨rfl,rfl⟩
    exact listAction hc action
  | watchList h visible =>
    cases harity
    have hc : (Instr.watchList h visible).access.handles .list h := ⟨rfl,rfl⟩
    exact (getList hc).bind fun _ => setWatcher _ _ _
  | pushLocal slot => cases harity; exact (getLocal slot rfl).bind fun _ => push _
  | setLocal slot => cases harity; exact pop.bind fun _ => setLocal slot _ rfl
  | decLocal slot => cases harity; exact (numberIn slot rfl).bind fun _ => setLocal slot _ rfl
  | pushArg form index =>
    cases harity
    exact (reads (f := fun t => t.active.frame.args) fun h => h.args).bind fun args =>
      push (form.read args[index.toNat]?)
  | running =>
    cases harity
    have hthreads : Tame { locals := true } 0 0 (do return (← get).active.locals.threads : Exec (List Nat)) :=
      reads (f := fun t => t.active.locals.threads) fun h => by rw [h.locals rfl]
    have hany : ∀ waited : List Nat, Tame { locals := true } 0 0 (Turn.machineIs fun m =>
        m.queue.any fun t => t.any fun t => waited.contains t.base) := fun waited => machineIs fun _ _ => rfl
    have hwaiting : Tame { locals := true } 0 0 Turn.isWaiting := hthreads.bind hany
    exact hwaiting.bind fun _ => push _
  | waitElapsed slot =>
    cases harity
    exact (machineIs fun _ _ => rfl).bind fun _ => (numberIn slot rfl).bind fun _ => (numberIn _ rfl).bind fun _ => push _
  | pushNow => cases harity; exact (machineIs fun _ _ => rfl).bind fun _ => push _
  | visual tier =>
    cases harity
    exact ownId.bind fun id => modifyMachine (fun m => .alike .refl (.visualCheck m id _)) (.visualCheck id _)
  | builtin id =>
    rw [Instr.arity?,Option.map_eq_some_iff] at harity
    obtain ⟨b,hb,hn⟩ := harity
    have haccess : (Instr.builtin id).access = { locals := b.usesLocals } := by
      rw [Instr.access,hb]
      rfl
    have htame := callBuiltin hb
    rw [hn] at htame
    rw [haccess]
    exact htame
  | _ => cases harity

end Tame

end SpriteMachine
