import SpriteMachine.Proofs.Origins

/-!
Names of variables. In a project whose variables are identified by their names, a name in a script leads to the stage's
variable of that name if there is one, and else to the target's own; so it was when the script was compiled, and so it
is in the tables of the program.
-/

namespace SpriteMachine

/-! Tables in which names are ids -/

namespace Table

section Ids

variable {α : Type} {t : Table α} {n : String} {i : Nat}

/-- The ids, in the order of the table. -/
def ids (t : Table α) : List String :=
  t.entries.toList.map Prod.fst

theorem indexOf?_eq (t : Table α) (n : String) : t.indexOf? n = t.ids.findIdx? (· == n) := by
  obtain ⟨⟨entries⟩⟩ := t
  simp [indexOf?,ids,List.findIdx?_map,Function.comp_def]

theorem map_insert (f : String × α → String) (t : Table α) (id : String) (v : α) :
    (t.insert id v).entries.toList.map f = (t.indexOf? id).elim (t.entries.toList.map f ++ [f (id,v)])
      fun i => (t.entries.toList.map f).set i (f (id,v)) := by
  unfold insert
  cases t.indexOf? id with
  | none => simp
  | some i => simp [List.map_set]

theorem ids_getElem? (h : t.indexOf? n = some i) : t.ids[i]? = some n := by
  rw [indexOf?_eq,List.findIdx?_eq_some_iff_getElem] at h
  obtain ⟨hi,hn,-⟩ := h
  rw [List.getElem?_eq_getElem hi,eq_of_beq hn]

theorem ids_insert (t : Table α) (id : String) (v : α) :
    (t.insert id v).ids = (t.indexOf? id).elim (t.ids ++ [id]) fun _ => t.ids := by
  rw [ids,map_insert]
  cases h : t.indexOf? id with
  | none => rfl
  | some i =>
    obtain ⟨hi,hid⟩ := List.getElem?_eq_some_iff.1 (ids_getElem? h)
    change t.ids.set i id = t.ids
    conv_lhs => rw [← hid,List.set_getElem_self]

theorem indexOf?_insert_of_some (h : t.indexOf? n = some i) (id : String) (v : α) : (t.insert id v).indexOf? n = some i := by
  rw [indexOf?_eq] at h ⊢
  rw [ids_insert]
  cases t.indexOf? id with
  | none => simp [List.findIdx?_append,h]
  | some j => exact h

theorem indexOf?_insert_self (t : Table α) (id : String) (v : α) : (t.insert id v).indexOf? id = some (t.indexFor id) := by
  cases h : t.indexOf? id with
  | some i => rw [indexOf?_insert_of_some h,indexFor,h,Option.getD_some]
  | none =>
    have hsize : t.ids.length = t.size := by simp [ids,size]
    rw [indexFor,h,Option.getD_none,indexOf?_eq,ids_insert,h,← hsize]
    rw [indexOf?_eq] at h
    simp [List.findIdx?_append,h]

end Ids

variable {t : Table Variable} {n : String}

def ByName (t : Table Variable) : Prop :=
  t.names = t.ids

theorem ByName.insert (h : t.ByName) {v : Variable} (hv : v.name = n) : (t.insert n v).ByName := by
  unfold ByName names
  rw [ids,map_insert,map_insert,hv]
  change (t.indexOf? n).elim (t.names ++ [n]) (fun i => t.names.set i n) = _
  rw [h]
  rfl

theorem findIdx?_eq (t : Table Variable) (n : String) : t.findIdx? (fun v => v.name == n) = t.names.findIdx? (· == n) := by
  obtain ⟨⟨entries⟩⟩ := t
  simp [findIdx?,names,List.findIdx?_map,Function.comp_def]

theorem ByName.findIdx? (h : t.ByName) (n : String) : t.findIdx? (fun v => v.name == n) = t.indexOf? n := by
  rw [findIdx?_eq,h,indexOf?_eq]

theorem ByName.resolve? (h : t.ByName) {r : Reference} (hr : r.id = r.name) : t.resolve? r = t.indexOf? r.name := by
  have hname : t.findIdx? (fun v => Named.name v == r.name) = t.indexOf? r.name := h.findIdx? r.name
  rw [Table.resolve?,hr,hname]
  cases t.indexOf? r.name <;> rfl

end Table

/-- Where a name leads among the names that a target has and those of the stage: to the stage if that has it. -/
def resolveName (isStage : Bool) (own stage : List String) (n : String) : Option (Nat × Bool) :=
  match stage.findIdx? (· == n) with
  | some i => some (i,true)
  | none => if isStage then none else (own.findIdx? (· == n)).map (·,false)

theorem resolveName_cases {isStage onStage : Bool} {own stage : List String} {n : String} {i : Nat}
    (h : resolveName isStage own stage n = some (i,onStage)) :
    (onStage = true ∧ stage.findIdx? (· == n) = some i) ∨
      (onStage = false ∧ stage.findIdx? (· == n) = none ∧ isStage = false ∧ own.findIdx? (· == n) = some i) := by
  unfold resolveName at h
  split at h
  next j hj =>
    cases h
    exact .inl ⟨rfl,hj⟩
  next hnone =>
    cases isStage with
    | true => cases h
    | false =>
      obtain ⟨j,hj,heq⟩ := Option.map_eq_some_iff.1 h
      cases heq
      exact .inr ⟨rfl,hnone,rfl,hj⟩

/-! Symbols -/

namespace Symbols

variable {s s' s'' : Symbols} {n : String}

structure ByName (s : Symbols) : Prop where
  own : s.own.vars.ByName
  stage : s.stage.vars.ByName

/-- Where the variable with a name is: on the stage, or else on the target itself. -/
def find? (s : Symbols) (n : String) : Option (Nat × Bool) :=
  match s.stage.vars.indexOf? n with
  | some i => some (i,true)
  | none => if s.isStage then none else (s.own.vars.indexOf? n).map (·,false)

theorem ByName.find?_eq (h : s.ByName) (n : String) :
    s.find? n = resolveName s.isStage s.own.vars.names s.stage.vars.names n := by
  rw [h.own,h.stage,find?,resolveName,Table.indexOf?_eq,Table.indexOf?_eq]

/-- Variables are declared; on the stage only its own scripts do so. -/
structure Declares (s s' : Symbols) : Prop where
  isStage : s'.isStage = s.isStage
  own : s.isStage = false → ∀ {n : String} {i : Nat}, s.own.vars.indexOf? n = some i → s'.own.vars.indexOf? n = some i
  stage : ∀ {n : String} {i : Nat}, s.stage.vars.indexOf? n = some i → s'.stage.vars.indexOf? n = some i
  fixed : s.isStage = false → s'.stage.vars = s.stage.vars

theorem Declares.refl (s : Symbols) : s.Declares s := ⟨rfl,fun _ => id,id,fun _ => rfl⟩

theorem Declares.trans (h : s.Declares s') (h' : s'.Declares s'') : s.Declares s'' :=
  ⟨h'.isStage.trans h.isStage,fun hs _ _ hn => h'.own (h.isStage.trans hs) (h.own hs hn),fun hn => h'.stage (h.stage hn),
    fun hs => (h'.fixed (h.isStage.trans hs)).trans (h.fixed hs)⟩

theorem Declares.find? (h : s.Declares s') {x : Nat × Bool} (hx : s.find? n = some x) : s'.find? n = some x := by
  unfold Symbols.find? at hx ⊢
  split at hx
  next i hi =>
    rw [h.stage hi]
    exact hx
  next hnone =>
    cases hs : s.isStage with
    | true =>
      rw [hs] at hx
      cases hx
    | false =>
      rw [hs,if_neg Bool.false_ne_true] at hx
      obtain ⟨i,hi,rfl⟩ := Option.map_eq_some_iff.1 hx
      rw [h.fixed hs,hnone,h.isStage,hs,h.own hs hi]
      rfl

theorem Declares.warn (s : Symbols) (message : String) : s.Declares (s.warn message) :=
  ⟨rfl,fun _ => id,id,fun _ => rfl⟩

theorem Declares.addVariable (s : Symbols) (r : Reference) (v : Variable) : s.Declares (s.addVariable r v).2 := by
  unfold Symbols.addVariable
  split
  next hs =>
    exact ⟨rfl,fun _ => id,fun hn => Table.indexOf?_insert_of_some hn _ _,fun hs' => by rw [hs] at hs'; cases hs'⟩
  · exact ⟨rfl,fun _ _ _ hn => Table.indexOf?_insert_of_some hn _ _,id,fun _ => rfl⟩

theorem Declares.addList (s : Symbols) (r : Reference) (l : ListVariable) : s.Declares (s.addList r l).2 := by
  unfold Symbols.addList
  split <;> exact ⟨rfl,fun _ => id,id,fun _ => rfl⟩

theorem ByName.addVariable (h : s.ByName) {r : Reference} (hr : r.id = r.name) (v : Value) :
    (s.addVariable r ⟨r.name,v⟩).2.ByName := by
  unfold Symbols.addVariable
  split
  · exact ⟨h.own,h.stage.insert hr.symm⟩
  · exact ⟨h.own.insert hr.symm,h.stage⟩

theorem ByName.addList (h : s.ByName) (r : Reference) (l : ListVariable) : (s.addList r l).2.ByName := by
  unfold Symbols.addList
  split <;> exact ⟨h.own,h.stage⟩

theorem ByName.lookup? (h : s.ByName) {r : Reference} (hr : r.id = r.name) :
    lookup? s.isStage s.own.vars s.stage.vars r = (s.find? r.name).map fun x => .make x.1 x.2 := by
  unfold Symbols.lookup? Symbols.find?
  rw [h.own.resolve? hr,h.stage.resolve? hr,hr]
  cases s.stage.vars.indexOf? r.name with
  | some i => rfl
  | none =>
    cases s.isStage with
    | true => rfl
    | false => cases s.own.vars.indexOf? r.name <;> rfl

theorem Declares.variableHandle (s : Symbols) (r : Reference) : s.Declares (s.variableHandle r).2 := by
  unfold Symbols.variableHandle
  split
  · exact .refl s
  · exact (Declares.warn s _).trans (.addVariable _ _ _)

theorem Declares.listHandle (s : Symbols) (r : Reference) : s.Declares (s.listHandle r).2 := by
  unfold Symbols.listHandle
  split
  · exact .refl s
  · exact (Declares.warn s _).trans (.addList _ _ _)

theorem ByName.warn (h : s.ByName) (message : String) : (s.warn message).ByName := ⟨h.own,h.stage⟩

theorem ByName.variableHandle (h : s.ByName) {r : Reference} (hr : r.id = r.name) : (s.variableHandle r).2.ByName ∧
    ∃ x, (s.variableHandle r).2.find? r.name = some x ∧ (s.variableHandle r).1 = .make x.1 x.2 := by
  unfold Symbols.variableHandle
  rw [h.lookup? hr]
  cases hx : s.find? r.name with
  | some x => exact ⟨h,x,hx,rfl⟩
  | none =>
    refine ⟨(h.warn _).addVariable hr _,?_⟩
    unfold Symbols.find? at hx
    split at hx
    · cases hx
    next hnone =>
      simp only [Option.map_none,Symbols.addVariable]
      split
      next hs =>
        refine ⟨(s.stage.vars.indexFor r.id,true),?_,rfl⟩
        simp [Symbols.find?,Symbols.warn,hr,Table.indexOf?_insert_self]
      next hs =>
        refine ⟨(s.own.vars.indexFor r.id,false),?_,rfl⟩
        have hs : s.isStage = false := by simpa [Symbols.warn] using hs
        simp [Symbols.find?,Symbols.warn,hnone,hs,hr,Table.indexOf?_insert_self]

theorem ByName.listHandle (h : s.ByName) (r : Reference) : (s.listHandle r).2.ByName := by
  unfold Symbols.listHandle
  split
  · exact h
  · exact (h.warn _).addList _ _

end Symbols

/-! Scripts -/

/-- Variables are referred to by their names. -/
def Directive.IsByName : Directive → Prop
  | .pushVariable r | .bindVariable r => r.id = r.name
  | _ => True

namespace Emitter

theorem declares_step (e : Emitter) (d : Directive) : e.symbols.Declares (e.step d).symbols := by
  have hsame : ∀ {s : Symbols}, s = e.symbols → e.symbols.Declares s := by
    rintro _ rfl
    exact .refl _
  cases d with
  | pushVariable r =>
    rw [step,op_symbols]
    exact .variableHandle _ r
  | pushList r =>
    rw [step,op_symbols]
    exact .listHandle _ r
  | bindVariable r => exact .variableHandle _ r
  | bindList r => exact .listHandle _ r
  | warn message => exact .warn _ message
  | op o ws | bound o ws => exact hsame (op_symbols _ _ _)
  | _ => exact hsame (by simp [step,place,label,assemble])

theorem declares_run (e : Emitter) (ds : List Directive) : e.symbols.Declares (e.run ds).symbols := by
  induction ds generalizing e with
  | nil => exact .refl _
  | cons d ds ih => exact (e.declares_step d).trans (ih _)

theorem byName_step {e : Emitter} {d : Directive} (he : e.symbols.ByName) (hd : d.IsByName) :
    (e.step d).symbols.ByName := by
  have hsame : ∀ {s : Symbols}, s = e.symbols → s.ByName := by
    rintro _ rfl
    exact he
  cases d with
  | pushVariable r =>
    rw [step,op_symbols]
    exact (he.variableHandle hd).1
  | pushList r =>
    rw [step,op_symbols]
    exact he.listHandle r
  | bindVariable r => exact (he.variableHandle hd).1
  | bindList r => exact he.listHandle r
  | warn message => exact he.warn message
  | op o ws | bound o ws => exact hsame (op_symbols _ _ _)
  | _ => exact hsame (by simp [step,place,label,assemble])

theorem byName_run {e : Emitter} {ds : List Directive} (he : e.symbols.ByName) (hds : ∀ d ∈ ds, d.IsByName) :
    (e.run ds).symbols.ByName := by
  induction ds generalizing e with
  | nil => exact he
  | cons d ds ih =>
    obtain ⟨hd,hds⟩ := List.forall_mem_cons.1 hds
    exact ih (byName_step he hd) hds

end Emitter

/-- If the block names a variable, then by its name. -/
def Block.IsByName (b : Block) : Prop :=
  ∀ r, b.named? = some r → r.id = r.name

theorem isByName_expandStack {params : List String} {blocks : List Block} (h : ∀ b ∈ Block.forest blocks, b.IsByName) :
    ∀ d ∈ expandStack params blocks, d.IsByName := by
  refine forall_expandStack ⟨fun d hd => ?_,fun _ => trivial⟩ fun b hb d hd => ?_
  · cases d with
    | pushVariable r | bindVariable r => cases hd
    | _ => trivial
  · have hadmissible := hd.isAdmissible
    cases d with
    | pushVariable r | bindVariable r => exact h b hb r (of_decide_eq_true hadmissible)
    | _ => trivial

/-! Projects -/

/-- Variables are identified by their names, where they are declared and where scripts refer to them. -/
structure Declaration.IsByName (d : Declaration) : Prop where
  vars : ∀ v ∈ d.vars, v.id = v.name
  blocks : ∀ x ∈ d.scripts, ∀ b ∈ Block.forest x.blocks, b.IsByName

def Project.IsByName (project : Project) : Prop :=
  ∀ d ∈ project.stage :: project.sprites, d.IsByName

namespace Compile

variable {d : Declaration} {target : String} {x y : Sprites} {ds : List Declaration}

theorem byName_declareData (h : d.IsByName) : (declareData d).vars.ByName := by
  have hfold : ∀ (vars : List VariableDecl) (t : Table Variable), t.ByName → (∀ v ∈ vars, v.id = v.name) →
      (vars.foldl (fun t v => t.insert v.id ⟨v.name,v.value⟩) t).ByName := by
    intro vars
    induction vars with
    | nil => exact fun t ht _ => ht
    | cons v vars ih =>
      intro t ht hvars
      obtain ⟨hv,hvars⟩ := List.forall_mem_cons.1 hvars
      exact ih _ (ht.insert hv.symm) hvars
  exact hfold d.vars .empty rfl h.vars

variable {p q : Progress}

theorem stack_cases {x : Stack} (h : stack target p x = .ok q) :
    q.symbols = p.symbols ∨ (∃ message, q.symbols = p.symbols.warn message) ∨
      ∃ name o s, Ends o ∧ script p.symbols name x.params x.blocks o p.next = .ok (s,q.symbols) := by
  have hlistener : ∀ {e}, x.params = [] → listener target p e x.blocks = .ok q →
      ∃ name o s, Ends o ∧ script p.symbols name x.params x.blocks o p.next = .ok (s,q.symbols) := by
    intro e hparams h
    obtain ⟨⟨s,after⟩,hs,h⟩ := Except.bind_eq_ok.1 h
    cases h
    exact ⟨_,.finish,s,.inl rfl,by rw [hparams]; exact hs⟩
  unfold stack at h
  split at h
  · split at h
    · cases h
      exact .inl rfl
    · cases h
      exact .inr (.inl ⟨_,rfl⟩)
  · split at h
    · cases h
      exact .inl rfl
    · split at h
      next proto hhat =>
        obtain ⟨⟨s,after⟩,hs,h⟩ := Except.bind_eq_ok.1 h
        cases h
        exact .inr (.inr ⟨_,.endCall,s,.inr rfl,by rw [Stack.params,hhat]; exact hs⟩)
      next key hhat =>
        split at h
        · exact .inr (.inr (hlistener (by rw [Stack.params,hhat]) h))
        · cases h
          exact .inr (.inl ⟨_,rfl⟩)
      next hproc _ =>
        have hparams : x.params = [] := by
          unfold Stack.params
          split
          next heq => exact absurd heq (hproc _)
          · rfl
        split at h
        · exact .inr (.inr (hlistener hparams h))
        · cases h
          exact .inl rfl

theorem script_symbols {symbols after : Symbols} {name : String} {params : List String} {blocks : List Block} {o : Opcode}
    {id : Nat} {s : Script} (h : script symbols name params blocks o id = .ok (s,after)) :
    after = ((Emitter.start symbols name).run (expandStack params blocks)).symbols := by
  obtain ⟨s',-,h⟩ := Except.bind_eq_ok.1 h
  cases h
  exact Emitter.op_symbols _ _ _

theorem declares_stack {x : Stack} (h : stack target p x = .ok q) : p.symbols.Declares q.symbols := by
  rcases stack_cases h with heq | ⟨message,heq⟩ | ⟨name,o,s,-,hs⟩
  · rw [heq]
    exact .refl _
  · rw [heq]
    exact .warn _ _
  · rw [script_symbols hs]
    exact Emitter.declares_run (.start p.symbols name) _

theorem byName_stack {x : Stack} (h : stack target p x = .ok q) (hp : p.symbols.ByName)
    (hx : ∀ b ∈ Block.forest x.blocks, b.IsByName) : q.symbols.ByName := by
  rcases stack_cases h with heq | ⟨message,heq⟩ | ⟨name,o,s,-,hs⟩
  · rw [heq]
    exact hp
  · rw [heq]
    exact hp.warn _
  · rw [script_symbols hs]
    exact Emitter.byName_run (e := .start p.symbols name) hp (isByName_expandStack hx)

theorem declares_stacks {xs : List Stack} (h : xs.foldlM (stack target) p = .ok q) :
    p.symbols.Declares q.symbols :=
  Except.foldlM_keeps (p := fun q : Progress => p.symbols.Declares q.symbols) (fun _ hstack hp => hp.trans (declares_stack hstack))
    h (.refl _)

/-- The symbols with which the scripts of the stage begin. -/
def stageSymbols (d : Declaration) : Symbols where
  isStage := true
  stage := declareData d

def spriteSymbols (d : Declaration) (stage : DataTables) : Symbols where
  isStage := false
  own := declareData d
  stage := stage

/-- The sprites are to come. -/
def Progress.toSprites (p : Progress) : Sprites where
  stage := p.symbols.stage
  next := p.next
  warnings := Warnings.extend {} p.symbols.warnings

/-- The course of compiling a project: the target with a number is under way, some of its stacks are still to come, and
this is what there is so far. -/
inductive Compiling (project : Project) : Nat → List Stack → Progress → Prop
  | stage : Compiling project 0 project.stage.scripts { symbols := stageSymbols project.stage, next := 0 }
  | sprite {k : Nat} {d : Declaration} {p : Progress} {x : Sprites} (hd : project.sprites[k]? = some d)
      (hstage : Compiling project 0 [] p) (hx : (project.sprites.take k).foldlM sprite p.toSprites = .ok x) :
      Compiling project (k + 1) d.scripts { symbols := spriteSymbols d x.stage, next := x.next }
  | stack {k : Nat} {d : Declaration} {x : Stack} {rest : List Stack} {p q : Progress}
      (hd : (project.stage :: project.sprites)[k]? = some d) (h : Compiling project k (x :: rest) p)
      (hq : Compile.stack d.name p x = .ok q) : Compiling project k rest q

theorem stage_sprites (h : ds.foldlM sprite x = .ok y) : y.stage.vars = x.stage.vars := by
  refine Except.foldlM_keeps (p := fun y : Sprites => y.stage.vars = x.stage.vars) (fun _ hz hx => ?_) h rfl
  obtain ⟨p,hp,hz⟩ := Except.bind_eq_ok.1 hz
  cases hz
  exact ((declares_stacks hp).fixed rfl).trans hx

variable {project : Project} {program : Program} {k : Nat} {rest : List Stack} {p : Progress}

theorem Compiling.byName (h : Compiling project k rest p) (hproject : project.IsByName) :
    p.symbols.ByName ∧ ∀ x ∈ rest, ∀ b ∈ Block.forest x.blocks, b.IsByName := by
  induction h with
  | stage =>
    have hd := hproject _ List.mem_cons_self
    exact ⟨⟨rfl,byName_declareData hd⟩,hd.blocks⟩
  | @sprite k d p x hd _ hx ih =>
    have hd := hproject _ (List.mem_cons_of_mem _ (List.mem_of_getElem? hd))
    refine ⟨⟨byName_declareData hd,?_⟩,hd.blocks⟩
    have hstage : x.stage.vars = p.symbols.stage.vars := stage_sprites hx
    change x.stage.vars.ByName
    rw [hstage]
    exact ih.1.stage
  | stack _ _ hq ih =>
    obtain ⟨hx,hrest⟩ := List.forall_mem_cons.1 ih.2
    exact ⟨byName_stack hq ih.1 hx,hrest⟩

theorem targets_sprites (h : ds.foldlM sprite x = .ok y) :
    y.targets.size = x.targets.size + ds.length ∧ ∀ i < x.targets.size, y.targets[i]? = x.targets[i]? := by
  induction ds generalizing x with
  | nil =>
    cases h
    exact ⟨rfl,fun _ _ => rfl⟩
  | cons d ds ih =>
    rw [List.foldlM_cons] at h
    obtain ⟨z,hz,h⟩ := Except.bind_eq_ok.1 h
    obtain ⟨p,-,hz⟩ := Except.bind_eq_ok.1 hz
    cases hz
    obtain ⟨hsize,hkept⟩ := ih h
    rw [Array.size_push] at hsize hkept
    refine ⟨by rw [hsize,List.length_cons]; omega,fun i hi => ?_⟩
    rw [hkept i (Nat.lt_succ_of_lt hi),Array.getElem?_push_lt hi,Array.getElem?_eq_getElem hi]

theorem sprites_at {z : Sprites} (h : ds.foldlM sprite x = .ok y) (hd : ds[k]? = some d)
    (hz : (ds.take k).foldlM sprite x = .ok z) :
    ∃ q, scripts d (spriteSymbols d z.stage) z.next = .ok q ∧ y.stage.vars = q.symbols.stage.vars ∧
      y.targets[x.targets.size + k]? = some (buildTarget d .sprite q.symbols.own q.scripts) := by
  obtain ⟨hk,hget⟩ := List.getElem?_eq_some_iff.1 hd
  have hsplit : ds = ds.take k ++ d :: ds.drop (k + 1) := by
    rw [← hget,← List.drop_eq_getElem_cons,List.take_append_drop]
  rw [hsplit,List.foldlM_append,hz] at h
  change (d :: ds.drop (k + 1)).foldlM sprite z = .ok y at h
  rw [List.foldlM_cons] at h
  obtain ⟨z',hz',h⟩ := Except.bind_eq_ok.1 h
  obtain ⟨q,hq,hz'⟩ := Except.bind_eq_ok.1 hz'
  cases hz'
  refine ⟨q,hq,stage_sprites h,?_⟩
  have hsize : z.targets.size = x.targets.size + k := by
    rw [(targets_sprites hz).1,List.length_take_of_le (Nat.le_of_lt hk)]
  rw [(targets_sprites h).2 _ (by rw [Array.size_push]; omega),← hsize,Array.getElem?_push_size]

section Course

variable {q : Progress} (hq : scripts project.stage (stageSymbols project.stage) 0 = .ok q)

include hq

theorem Compiling.stage_rest (h : Compiling project 0 rest p) : rest.foldlM (Compile.stack project.stage.name) p = .ok q := by
  generalize hk : 0 = k at h
  induction h with
  | stage => exact hq
  | sprite _ _ _ _ => cases hk
  | stack hd _ hstack ih =>
    subst hk
    cases hd
    have hrest := ih rfl
    rw [List.foldlM_cons,hstack] at hrest
    exact hrest

theorem Compiling.sprite_rest {d : Declaration} (hd : project.sprites[k]? = some d) (h : Compiling project (k + 1) rest p) :
    ∃ x, (project.sprites.take k).foldlM Compile.sprite q.toSprites = .ok x ∧
      rest.foldlM (Compile.stack d.name) p = scripts d (spriteSymbols d x.stage) x.next := by
  generalize hk : k + 1 = k' at h
  induction h with
  | stage => cases hk
  | @sprite k' d' p' x hd' hstage hx _ =>
    cases hk
    rw [hd] at hd'
    cases hd'
    have hp : p' = q := Except.ok.inj (hstage.stage_rest hq)
    rw [hp] at hx
    exact ⟨x,hx,rfl⟩
  | stack hd' _ hstack ih =>
    subst hk
    rw [List.getElem?_cons_succ,hd] at hd'
    cases hd'
    obtain ⟨x,hx,hrest⟩ := ih rfl
    rw [List.foldlM_cons,hstack] at hrest
    exact ⟨x,hx,hrest⟩

end Course

theorem Compiling.finish (hd : (project.stage :: project.sprites)[k]? = some d) (h : Compiling project k rest p)
    (hq : rest.foldlM (Compile.stack d.name) p = .ok q) : Compiling project k [] q := by
  induction rest generalizing p with
  | nil =>
    cases hq
    exact h
  | cons x rest ih =>
    rw [List.foldlM_cons] at hq
    obtain ⟨p',hp',hq⟩ := Except.bind_eq_ok.1 hq
    exact ih (.stack hd h hp') hq

theorem Compiling.finishes (hcompile : compile project = .ok program) (h : Compiling project k rest p) {x : Target}
    (hx : (program.stage :: program.sprites)[k]? = some x) :
    ∃ q, Compiling project k [] q ∧ p.symbols.Declares q.symbols ∧ x.isStage = q.symbols.isStage ∧
      (q.symbols.isStage = false → x.data.vars = q.symbols.own.vars) ∧ program.stage.data.vars = q.symbols.stage.vars := by
  obtain ⟨-,hcompile⟩ := Except.throw_or_eq_ok.1 hcompile
  obtain ⟨q,hq,hcompile⟩ := Except.bind_eq_ok.1 hcompile
  obtain ⟨y,hy,hcompile⟩ := Except.bind_eq_ok.1 hcompile
  cases hcompile
  have hstage : (buildTarget project.stage .stage y.stage q.scripts).data.vars = q.symbols.stage.vars := by
    rw [data_buildTarget]
    exact stage_sprites hy
  have hkind : ∀ d kind data scripts, (buildTarget d kind data scripts).isStage = decide (kind = .stage) := by
    intro d kind data scripts
    rw [Target.isStage,kind_buildTarget]
  cases k with
  | zero =>
    cases hx
    have hs : q.symbols.isStage = true := (declares_stacks hq).isStage
    have hrest := h.stage_rest hq
    refine ⟨q,h.finish rfl hrest,declares_stacks hrest,?_,fun hs' => ?_,hstage⟩
    · rw [hs,hkind]
      rfl
    · rw [hs] at hs'
      cases hs'
  | succ k =>
    have hlt : k < project.sprites.length := by
      have hlt := (List.getElem?_eq_some_iff.1 hx).1
      rw [List.length_cons,Array.length_toList,(targets_sprites hy).1] at hlt
      simpa using hlt
    have hd : project.sprites[k]? = some project.sprites[k] := List.getElem?_eq_getElem hlt
    obtain ⟨z,hz,hrest⟩ := h.sprite_rest hq hd
    obtain ⟨r,hr,hvars,hget⟩ := sprites_at hy hd hz
    change y.targets[0 + k]? = _ at hget
    rw [List.getElem?_cons_succ,Array.getElem?_toList] at hx
    rw [Nat.zero_add,hx] at hget
    cases hget
    rw [hr] at hrest
    have hs : r.symbols.isStage = false := (declares_stacks hr).isStage
    refine ⟨r,h.finish hd hrest,declares_stacks hrest,?_,fun _ => ?_,hstage.trans ?_⟩
    · rw [hs,hkind]
      rfl
    · rw [data_buildTarget]
    · rw [← hvars]
      exact (stage_sprites hy).symm

theorem Compiling.resolveName (hcompile : compile project = .ok program) (hproject : project.IsByName)
    (h : Compiling project k rest p) {y : Target} (hy : (program.stage :: program.sprites)[k]? = some y) {n : String}
    {x : Nat × Bool} (hx : p.symbols.find? n = some x) :
    resolveName y.isStage y.data.vars.names program.stage.data.vars.names n = some x := by
  obtain ⟨q,hq,hdeclares,hstage,hown,hvars⟩ := h.finishes hcompile hy
  have hfind := hdeclares.find? hx
  rw [(hq.byName hproject).1.find?_eq] at hfind
  rw [hvars,hstage]
  cases hs : q.symbols.isStage with
  | true =>
    rw [hs] at hfind
    exact hfind
  | false =>
    rw [hown hs,← hs]
    exact hfind

end Compile

end SpriteMachine
