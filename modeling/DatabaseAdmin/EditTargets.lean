import Mathlib.Data.List.Basic

/-! How the three SQL connectors decide that a result's rows can be edited, each from its own
driver's description of the columns, and where the grid then reads the key. -/
namespace DatabaseAdmin.EditTargets

structure ColumnMeta where
  name : String
  table : Option String
  schema : Option String
  isKey : Bool
  deriving DecidableEq

structure EditTarget where
  schema : Option String
  table : String
  keyColumns : List String
  deriving DecidableEq

structure Verdict where
  editTarget : Option EditTarget
  readOnlyReason : Option String
  deriving DecidableEq

def refuse (reason : String) : Verdict := ⟨none, some reason⟩

def grant (target : EditTarget) : Verdict := ⟨some target, none⟩

def distinct {α : Type} [DecidableEq α] : List α → List α
  | [] => []
  | x :: rest => x :: (distinct rest).filter (fun y => y ≠ x)

def commas (names : List String) : String := ", ".intercalate names

def truthy (text : String) : Option String := if text = "" then none else some text

section Postgres

structure FieldDef where
  name : String
  tableID : Nat

structure RelationInfo where
  schema : String
  name : String
  kind : Char
  primaryKey : List String
  uniqueKey : List String

def tableIds (fields : List FieldDef) : List Nat :=
  distinct ((fields.map FieldDef.tableID).filter (fun id => 0 < id))

def relationKey (rel : RelationInfo) : List String :=
  if rel.primaryKey = [] then rel.uniqueKey else rel.primaryKey

def describeColumns (relations : Nat → Option RelationInfo) (fields : List FieldDef) :
    List ColumnMeta :=
  fields.map fun f =>
    let rel := if 0 < f.tableID then relations f.tableID else none
    ⟨f.name, rel.map RelationInfo.name, rel.map RelationInfo.schema, false⟩

def describeResult (readOnly : Bool) (relations : Nat → Option RelationInfo)
    (fields : List FieldDef) : List ColumnMeta × Verdict :=
  let columns := describeColumns relations fields
  if readOnly then (columns, refuse "This connection is read-only.")
  else if fields = [] then (columns, ⟨none, none⟩)
  else match tableIds fields with
    | [] => (columns, refuse "Result is not backed by a table.")
    | [id] => match relations id with
      | none => (columns, refuse "Source table could not be resolved.")
      | some rel =>
          if rel.kind ≠ 'r' ∧ rel.kind ≠ 'p' ∧ rel.kind ≠ 'f' then
            (columns, refuse "Views and materialized views are read-only.")
          else
            let key := relationKey rel
            let missing := key.filter (fun k => k ∉ columns.map ColumnMeta.name)
            if key = [] then
              (columns, refuse (rel.name ++ " has no primary key or non-nullable unique index."))
            else if missing ≠ [] then
              (columns, refuse ("Include " ++ commas missing ++ " in the result to edit these rows."))
            else (columns.map (fun c => { c with isKey := decide (c.name ∈ key) }),
              grant ⟨some rel.schema, rel.name, key⟩)
    | _ => (columns, refuse "Result combines more than one table.")

end Postgres

section Mysql

structure FieldPacket where
  name : String
  orgName : String
  orgTable : String
  schema : String
  db : String
  flags : Option Nat

def notNullFlag : Nat := 1
def priKeyFlag : Nat := 2
def uniqueKeyFlag : Nat := 4

def flagged (flag : Nat) (f : FieldPacket) : Bool :=
  f.flags.any (fun flags => flags &&& flag ≠ 0)

def sourceName (f : FieldPacket) : String := (truthy f.orgName).getD f.name

def keyNames (fields : List FieldPacket) : List String :=
  let primary := (fields.filter (flagged priKeyFlag)).map sourceName
  if primary = [] then
    (fields.filter (fun f => flagged uniqueKeyFlag f && flagged notNullFlag f)).map sourceName
  else primary

def editTargetFor (fields : List FieldPacket) : Verdict :=
  match fields with
  | [] => ⟨none, none⟩
  | first :: _ => match distinct (fields.filterMap (fun f => truthy f.orgTable)) with
    | [] => refuse "The result has no source table."
    | [table] => match fields.find? (fun f => f.orgName = "") with
      | some expression => refuse
          ("Column \"" ++ expression.name ++ "\" is an expression, so the result is read-only.")
      | none =>
          if keyNames fields = [] then
            refuse "No primary or unique key is present in the result, so rows cannot be addressed."
          else grant ⟨(truthy first.schema).or (truthy first.db), table, keyNames fields⟩
    | _ => refuse "The result joins more than one table, so rows cannot be updated."

end Mysql

section Sqlite

structure ColumnDefinition where
  name : String
  column : Option String
  table : Option String
  database : Option String

inductive TableKind where
  | table | view
  deriving DecidableEq

structure IndexFacts where
  columns : List (Option String)
  unique : Bool
  predicate : Option String

structure TableFacts where
  kind : Option TableKind
  columns : List (String × Bool)
  indexes : List IndexFacts
  primaryKey : List String
  hasRowid : Bool

inductive KeyKind where
  | pk | unique | rowid
  deriving DecidableEq

def uniqueNames (facts : TableFacts) (idx : IndexFacts) : Option (List String) :=
  let nullable := (facts.columns.filter Prod.snd).map Prod.fst
  let names := idx.columns.filterMap (fun name => name.bind truthy)
  if idx.unique ∧ names.length = idx.columns.length ∧ ∀ name ∈ names, name ∉ nullable then
    some names
  else none

def editKeyFor (facts : TableFacts) : Option (List String × KeyKind) :=
  if facts.primaryKey ≠ [] then some (facts.primaryKey, .pk)
  else match facts.indexes.findSome? (uniqueNames facts) with
    | some names => some (names, .unique)
    | none => if facts.hasRowid then some (["rowid"], .rowid) else none

structure RealColumn where
  name : String
  schema : String
  table : String
  column : String
  deriving DecidableEq

def realColumn (d : ColumnDefinition) : Option RealColumn :=
  match d.table.bind truthy, d.column.bind truthy with
  | some table, some column => some ⟨d.name, d.database.getD "main", table, column⟩
  | _, _ => none

def keyHits (real : List RealColumn) (kind : KeyKind) (table : String) : List String →
    Except String (List String)
  | [] => .ok []
  | k :: rest => match real.find? (fun o => o.column = k) with
    | none => .error
        (if kind = .rowid then
          table ++ " has no primary key; add \"rowid\" to the SELECT list to edit rows."
        else "Key column \"" ++ k ++ "\" is missing from the result.")
    | some hit => (keyHits real kind table rest).map (fun names => hit.name :: names)

def detectEditability (tableFacts : String → String → Option TableFacts)
    (defs : List ColumnDefinition) : Verdict :=
  match defs.filterMap realColumn with
  | [] => refuse "No column in this result comes from a table."
  | first :: rest =>
      let tables := distinct ((first :: rest).map (fun o => o.schema ++ "." ++ o.table))
      if tables.length > 1 then
        refuse ("This result joins " ++ toString tables.length ++ " tables (" ++ commas tables ++
          "); only single-table results are editable.")
      else match tableFacts first.schema first.table with
        | none => refuse ("Could not read the definition of " ++ first.schema ++ "." ++ first.table ++ ".")
        | some facts =>
            if facts.kind ≠ some .table then
              refuse (first.schema ++ "." ++ first.table ++ " is a view.")
            else match editKeyFor facts with
              | none => refuse (first.table ++
                  " has no primary key and no non-null unique index, so rows cannot be identified.")
              | some (columns, kind) => match keyHits (first :: rest) kind first.table columns with
                | .error reason => refuse reason
                | .ok names => grant ⟨some first.schema, first.table, names⟩

end Sqlite

section Grid

structure Editability where
  editable : Bool
  reason : Option String
  schema : Option String
  table : Option String
  keyColumns : List String
  keyIndexes : List Nat
  deriving DecidableEq

def uneditable (reason : String) : Editability := ⟨false, some reason, none, none, [], []⟩

def keyIndexOf (columns : List String) (name : String) : Option Nat :=
  columns.findIdx? (fun c => c = name)

def keyIndexesOf (columns : List String) : List String → Except String (List Nat)
  | [] => .ok []
  | name :: rest => match keyIndexOf columns name with
    | none => .error
        ("The result does not include the key column \"" ++ name ++ "\", so rows cannot be addressed.")
    | some i => (keyIndexesOf columns rest).map (fun indexes => i :: indexes)

def editabilityOf (columns : List String) (verdict : Verdict) (veto : Option (Option String)) :
    Editability :=
  match veto with
  | some reason => uneditable (reason.getD "This connection is read-only.")
  | none => match verdict.editTarget with
    | none => uneditable (verdict.readOnlyReason.getD
        "This result is not a simple single-table select, so there is no row to write back to.")
    | some target =>
        if target.keyColumns = [] then uneditable (verdict.readOnlyReason.getD (target.table ++
          " has no primary key or unique index, so a row cannot be addressed unambiguously."))
        else match keyIndexesOf columns target.keyColumns with
          | .error reason => uneditable reason
          | .ok indexes =>
              ⟨true, none, target.schema, some target.table, target.keyColumns, indexes⟩

end Grid

end DatabaseAdmin.EditTargets
