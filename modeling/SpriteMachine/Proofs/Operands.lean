import SpriteMachine.Proofs.Evaluation
import SpriteMachine.Proofs.Resolution
import SpriteMachine.Proofs.Transfers

/-!
What an expression sees of a turn, and what the instructions do that give it values: one equation each.
-/

namespace SpriteMachine

/-! Reading and writing back -/

variable {α : Type} {i id : Nat}

theorem Table.get?_of_lt {t : Table α} (h : i < t.size) : ∃ v, t.get? i = some v := by
  obtain ⟨entry,hentry⟩ : ∃ entry, t.entries[i]? = some entry := ⟨_,Array.getElem?_eq_getElem h⟩
  exact ⟨entry.2,by rw [Table.get?,hentry,Option.map_some]⟩

theorem Table.modify_self {t : Table α} {v : α} {f : α → α} (h : t.get? i = some v) (hf : f v = v) : t.modify i f = t := by
  obtain ⟨entry,hentry,rfl⟩ := Option.map_eq_some_iff.1 h
  refine congrArg Table.mk (Array.ext_getElem? fun j => ?_)
  rw [Array.getElem?_modify]
  split
  next hj => rw [← hj,hentry,Option.map_some,hf]
  next => rfl

theorem Arena.modify_self {a : Arena α} {v : α} {f : α → α} (h : a.get? id = some v) (hf : f v = v) : a.modify id f = a := by
  have hslot : a.slots[id]? = some (some v) := Option.join_eq_some_iff.1 h
  refine congrArg Arena.mk (Array.ext_getElem? fun j => ?_)
  rw [Array.getElem?_modify]
  split
  next hj => rw [← hj,hslot,Option.map_some,Option.map_some,hf]
  next => rfl

theorem Machine.setListAt_self {m : Machine} {index : Nat} {x : Target} {l : ListVariable} (hx : m.targets.get? id = some x)
    (hl : x.data.lists.get? index = some l) : m.setListAt id index l.list = m := by
  have htargets := Arena.modify_self (f := fun t : Target => { t with
    data := { t.data with lists := t.data.lists.modify index fun y => { y with list := l.list } } }) hx (by
      rw [Table.modify_self hl rfl])
  exact congrArg (fun targets => { m with targets }) htargets

/-! What an expression sees of a turn -/

namespace Turn

def world (params : List String) (t : Turn) : World where
  own := ((t.machine.targets.get? t.active.target).map Target.data).getD {}
  stage := t.machine.stage.data
  params
  args := t.active.frame.args

/-- The turn after code that gives a value: the operands are gone, and some random numbers are drawn. -/
def giving (t : Turn) (rest : List Value) (v : Value) (r : Random) : Turn :=
  { machine := { t.machine with random := r }, active := { t.active with stack := v :: rest } }

variable {s : Script} {t : Turn} {v : Value} {rest : List Value} {params : List String} {h : Handle}

theorem tables_world {x : Target}
    (hx : t.machine.targets.get? (h.owner t.active.target) = some x) : (t.world params).tables h = x.data := by
  unfold World.tables world
  unfold Handle.owner at hx
  split at hx
  next hs => rw [if_pos hs,Machine.stage,hx,Option.getD_some]
  next hs => rw [if_neg hs,hx,Option.map_some,Option.getD_some]

theorem getVariable_ok (params : List String) (hr : t.machine.Resolves t.active.target .variable h) :
    getVariable h t = .ok (h.owner t.active.target,(t.world params).variableAt h) t := by
  obtain ⟨σ,hσ,hlt⟩ := hr
  obtain ⟨x,hx,rfl⟩ := Option.map_eq_some_iff.1 hσ
  rw [x.count_shape] at hlt
  obtain ⟨y,hy⟩ := Table.get?_of_lt hlt
  rw [World.variableAt,tables_world hx,hy]
  exact (Finds.getVariable h).ok hx (by rw [hy]; rfl)

theorem getList_ok (params : List String) (hr : t.machine.Resolves t.active.target .list h) :
    ∃ owner, getList h t = .ok (owner,(t.world params).listAt h) t ∧
      t.machine.setListAt owner h.index ((t.world params).listAt h) = t.machine := by
  obtain ⟨σ,hσ,hlt⟩ := hr
  obtain ⟨x,hx,rfl⟩ := Option.map_eq_some_iff.1 hσ
  obtain ⟨l,hl⟩ := Table.get?_of_lt hlt
  rw [World.listAt,tables_world hx,hl]
  exact ⟨_,(Finds.getList h).ok hx (by rw [hl]; rfl),Machine.setListAt_self hx hl⟩

/-! One equation for each instruction -/

theorem perform_unary (hs : t.active.stack = v :: rest) (f : UnaryOperator) :
    perform s (.unary f) t = .ok () (t.giving rest (f.apply v) t.machine.random) := by
  simp only [perform,bind,EStateM.bind,pop_cons hs]
  rfl

variable {x y : Value}

theorem popPair_cons (hs : t.active.stack = y :: x :: rest) : popPair t = .ok (x,y) (t.withStack rest) := by
  simp only [popPair,onActive,Activation.pop₂,hs,Except.map]
  rfl

theorem perform_binary (hs : t.active.stack = y :: x :: rest) (f : BinaryOperator) :
    perform s (.binary f) t = .ok () (t.giving rest (f.apply x y) t.machine.random) := by
  simp only [perform,bind,EStateM.bind,popPair_cons hs]
  rfl

theorem perform_random (hs : t.active.stack = y :: x :: rest) :
    perform s .random t = .ok () (t.giving rest (.number (Random.between x y t.machine.random).1)
      (Random.between x y t.machine.random).2) := by
  simp only [perform,bind,EStateM.bind,popPair_cons hs]
  rfl

theorem perform_pushVar (params : List String) (hr : t.machine.Resolves t.active.target .variable h) :
    perform s (.pushVar h) t =
      .ok () (t.giving t.active.stack ((t.world params).variableAt h) t.machine.random) := by
  simp only [perform,bind,EStateM.bind,getVariable_ok params hr]
  rfl

theorem perform_setVar (hs : t.active.stack = v :: rest) (hr : t.machine.Resolves t.active.target .variable h) :
    perform s (.setVar h) t = .ok () { t.withStack rest with
      machine := t.machine.setVariableAt (h.owner t.active.target) h.index v } := by
  have hread : getVariable h (t.withStack rest) = _ := getVariable_ok (t := t.withStack rest) [] hr
  simp only [perform,bind,EStateM.bind,pop_cons hs,hread]
  rfl

theorem perform_list (params : List String) {action : ListAction} {ops : List Value} (hs : t.active.stack = ops ++ rest)
    (hops : ops.length = action.operands) (hone : action.operands ≤ 1)
    (hr : t.machine.Resolves t.active.target .list h) {r : Random}
    (happly : action.apply ((t.world params).listAt h) (ops.headD default) default t.machine.random =
      ((t.world params).listAt h,some v,r)) :
    perform s (.list action h) t = .ok () (t.giving rest v r) := by
  have htop : popIf (1 ≤ action.operands) t = .ok (ops.headD default) (t.withStack rest) := by
    match ops, hops with
    | [], hops =>
      rw [← hops]
      have hrest : t.withStack rest = t := by rw [withStack,← List.nil_append rest,← hs]
      rw [hrest]
      rfl
    | [x], hops =>
      rw [← hops]
      exact pop_cons hs
    | _ :: _ :: _, hops => simp at hops; omega
  have hsecond : popIf (2 ≤ action.operands) (t.withStack rest) = .ok default (t.withStack rest) := by
    rw [decide_eq_false (by omega)]
    rfl
  obtain ⟨owner,hread,hwrite⟩ := getList_ok (t := t.withStack rest) params hr
  have hsame : ({ t.machine with random := r } : Machine).setListAt owner h.index ((t.world params).listAt h) =
      { t.machine with random := r } := congrArg (fun m : Machine => { m with random := r }) hwrite
  replace happly : action.apply (((t.withStack rest).world params).listAt h) (ops.headD default) default
      (t.withStack rest).machine.random = (((t.withStack rest).world params).listAt h,some v,r) := happly
  simp only [perform,listAction,bind,EStateM.bind,htop,hsecond,hread,machineIs,get,getThe,MonadStateOf.get,
    EStateM.get,pure,EStateM.pure,happly]
  exact congrArg (fun m => EStateM.Result.ok () (Turn.mk m { t.active with stack := v :: rest })) hsame

end Turn

/-! Names are resolved without regard to warnings -/

namespace Symbols

theorem variableHandle_quiet (s : Symbols) (r : Reference) :
    (s.quiet.variableHandle r).1 = (s.variableHandle r).1 ∧
      (s.quiet.variableHandle r).2.quiet = (s.variableHandle r).2.quiet := by
  have hlookup : lookup? s.quiet.isStage s.quiet.own.vars s.quiet.stage.vars r =
    lookup? s.isStage s.own.vars s.stage.vars r := rfl
  unfold variableHandle
  rw [hlookup]
  cases lookup? s.isStage s.own.vars s.stage.vars r with
  | some h => exact ⟨rfl,rfl⟩
  | none => cases hs : s.isStage <;> simp [addVariable,warn,quiet,hs]

theorem listHandle_quiet (s : Symbols) (r : Reference) :
    (s.quiet.listHandle r).1 = (s.listHandle r).1 ∧
      (s.quiet.listHandle r).2.quiet = (s.listHandle r).2.quiet := by
  have hlookup : lookup? s.quiet.isStage s.quiet.own.lists s.quiet.stage.lists r =
    lookup? s.isStage s.own.lists s.stage.lists r := rfl
  unfold listHandle
  rw [hlookup]
  cases lookup? s.isStage s.own.lists s.stage.lists r with
  | some h => exact ⟨rfl,rfl⟩
  | none => cases hs : s.isStage <;> simp [addList,warn,quiet,hs]

end Symbols

end SpriteMachine
