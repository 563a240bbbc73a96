import SpriteMachine.Block
import SpriteMachine.Target
import SpriteMachine.Warnings

/-!
Symbols: the variables and lists that the scripts of a target can refer to, its own and those of the stage.
Names that are not known are declared on the way, with a warning.
-/

namespace SpriteMachine

/-- A value with a name. -/
class Named (α : Type) where
  name : α → String

instance : Named Variable := ⟨Variable.name⟩

instance : Named ListVariable := ⟨ListVariable.name⟩

/-- The index of an id, else that of the first entry with the name. -/
def Table.resolve? {α : Type} [Named α] (t : Table α) (r : Reference) : Option Nat :=
  t.indexOf? r.id <|> t.findIdx? fun v => Named.name v == r.name

structure Symbols where
  isStage : Bool
  /-- Empty for the stage, whose own tables are those of the stage. -/
  own : DataTables := {}
  stage : DataTables
  warnings : Warnings := {}

namespace Symbols

/-- Where a reference leads, if it is known: on the stage by id, on the target by id or name, on the stage by
name. -/
def lookup? {α : Type} [Named α] (isStage : Bool) (own stage : Table α) (r : Reference) : Option Handle :=
  match stage.indexOf? r.id with
  | some i => some (.make i true)
  | none =>
    match (if isStage then none else own.resolve? r) with
    | some i => some (.make i false)
    | none => (stage.resolve? r).map fun i => .make i true

def warn (s : Symbols) (message : String) : Symbols :=
  { s with warnings := s.warnings.add message }

def addVariable (s : Symbols) (r : Reference) (v : Variable) : Handle × Symbols :=
  if s.isStage then
    (.make (s.stage.vars.indexFor r.id) true,
      { s with stage.vars := s.stage.vars.insert r.id v })
  else
    (.make (s.own.vars.indexFor r.id) false,
      { s with own.vars := s.own.vars.insert r.id v })

def addList (s : Symbols) (r : Reference) (l : ListVariable) : Handle × Symbols :=
  if s.isStage then
    (.make (s.stage.lists.indexFor r.id) true,{ s with stage.lists := s.stage.lists.insert r.id l })
  else
    (.make (s.own.lists.indexFor r.id) false,{ s with own.lists := s.own.lists.insert r.id l })

/-- The handle of a variable. An unknown one is declared with the value zero. -/
def variableHandle (s : Symbols) (r : Reference) : Handle × Symbols :=
  match lookup? s.isStage s.own.vars s.stage.vars r with
  | some h => (h,s)
  | none => (s.warn s!"unknown variable {r.name}").addVariable r ⟨r.name,.number 0.0⟩

/-- The handle of a list. An unknown one is declared without items. -/
def listHandle (s : Symbols) (r : Reference) : Handle × Symbols :=
  match lookup? s.isStage s.own.lists s.stage.lists r with
  | some h => (h,s)
  | none => (s.warn s!"unknown list {r.name}").addList r ⟨r.name,.empty⟩

end Symbols

end SpriteMachine
