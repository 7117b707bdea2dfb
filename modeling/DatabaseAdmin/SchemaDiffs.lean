import DatabaseAdmin.DdlCommon

/-! The canonical diff of two schema models: what is paired with what, which sides each entry has
and which fields of a pair differ. -/
namespace DatabaseAdmin.SchemaDiffs
open CodeUnits SchemaModels MigrationScripts DdlCommon

inductive DiffStatus where
  | added | removed | changed | same
  deriving DecidableEq

inductive Field where
  | aspect (of : ColumnAspect)
  | columns | unique | method | predicate | comment | references | onUpdate | onDelete | deferrable
  | expression | kind | collation | engine | partitioning | definition | primaryKey | columnOrder
  | language | returnType | arguments | deterministic | start | increment | minValue | maxValue | cycle
  | ownedBy | values | table | timing | events | orientation | condition | statement
  deriving DecidableEq

structure FieldDiff where
  field : Field
  source : Option Text
  target : Option Text
  deriving DecidableEq

def Sided (status : DiffStatus) (source target : Bool) : Prop :=
  match status with
  | .added => source = true ∧ target = false
  | .removed => source = false ∧ target = true
  | _ => source = true ∧ target = true

structure ObjectDiff (α : Type) where
  name : Text
  status : DiffStatus
  source : Option α
  target : Option α
  fields : List FieldDiff
  sided : Sided status source.isSome target.isSome

structure KeyChange where
  source : List Text
  target : List Text
  deriving DecidableEq

structure TableDiffEntry extends ObjectDiff TableModel where
  tableKind : TableKind
  columns : List (ObjectDiff ColumnModel)
  indexes : List (ObjectDiff IndexModel)
  foreignKeys : List (ObjectDiff ForeignKeyModel)
  checks : List (ObjectDiff CheckModel)
  primaryKey : Option KeyChange
  columnOrderChanged : Bool

structure NamespaceDiff where
  name : Text
  sourceName : Option Text
  targetName : Option Text
  status : DiffStatus
  fields : List FieldDiff
  tables : List TableDiffEntry
  views : List TableDiffEntry
  routines : List (ObjectDiff RoutineModel)
  sequences : List (ObjectDiff SequenceModel)
  enums : List (ObjectDiff EnumTypeModel)
  triggers : List (ObjectDiff TriggerModel)

structure DiffCounts where
  added : Nat
  removed : Nat
  changed : Nat
  deriving DecidableEq

structure DiffOptions where
  ignoreCase : Bool
  ignoreCollation : Bool
  ignoreComments : Bool
  ignoreIndexNames : Bool
  namespaceMap : List (Text × Text)
  deriving DecidableEq

structure SchemaDiff where
  sourceEngine : EngineKind
  targetEngine : EngineKind
  namespaces : List NamespaceDiff
  summary : DiffCounts
  notes : List Text

def isViewKind (kind : TableKind) : Bool := kind = .view ∨ kind = .materializedView

def stripWord (word : String) (text : Text) : Option Text :=
  if startsWith (units word) (text.map lowerUnit) then some (text.drop (units word).length) else none

def orSkip (word : String) (text : Text) : Text := (stripWord word text).getD text

def viewWrapperRest (text : Text) : Option Text := do
  let text ← stripWord "create " text
  let text := orSkip "or replace " text
  let text := (stripWord "temp " text).getD (orSkip "temporary " text)
  let text ← stripWord "view " (orSkip "materialized " text)
  let rest := text.drop 1
  let i ← indexOf (units " as ") (rest.map lowerUnit)
  return rest.drop (i + 4)

def isSemicolon (c : CodeUnit) : Bool := c == 59

def normalizeBody (s : Option Text) : Option Text :=
  match s with
  | none => none
  | some s =>
      let text := trim ((normalizeSpace s).rdropWhile isSemicolon)
      let body := match viewWrapperRest text with
        | some rest => trim rest
        | none => text
      if body = [] then none else some body

end DatabaseAdmin.SchemaDiffs
