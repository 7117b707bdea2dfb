import DatabaseAdmin.SqlQuote
import DatabaseAdmin.Templates

/-! The statements of a changeset in PostgreSQL and MySQL: the parameterized form that runs and the
text that the preview shows. -/
namespace DatabaseAdmin.ChangeStatements
open CodeUnits Templates

structure NumberText where
  text : Text
  spelled : ∃ c ∈ text.head?, c ≠ ('?' : Char).toNat

inductive CellTag where
  | bytes | bit | other
  deriving DecidableEq

inductive Cell where
  | null
  | string (text : Text)
  | number (n : NumberText)
  | boolean (value : Bool)
  | tagged (tag : CellTag) (v : Text)

abbrev Record := List (Text × Cell)

def present (key : Record) (col : Text) : Option Cell :=
  match key.lookup col with
  | none | some .null => none
  | some cell => some cell

inductive ChangeOp where
  | insert (values : Record)
  | update (key values : Record)
  | delete (key : Record)

structure Changeset where
  schema : Option Text
  table : Text
  keyColumns : List Text
  changes : List ChangeOp

structure ChangePreview where
  statements : List Text
  expectedAffected : List Nat
  warnings : List Text

def join (sep : String) (parts : List Text) : Text := List.intercalate (units sep) parts

def gather {β : Type} (out : ChangeOp → Except String (List β)) : List ChangeOp → Except String (List β)
  | [] => .ok []
  | change :: rest => do
      let statements ← out change
      let more ← gather out rest
      return statements ++ more

theorem bindOk {ε β γ : Type} {x : Except ε β} {f : β → Except ε γ} {r : γ} (ok : (x >>= f) = .ok r) :
    ∃ b, x = .ok b ∧ f b = .ok r := by
  cases x with
  | error message => simp [bind, Except.bind] at ok
  | ok b => exact ⟨b, rfl, ok⟩

section Postgres
variable {π : Type}

structure PgBound (π : Type) where
  param : π
  literal : Text

structure PgChangeStatement (π : Type) where
  text : Text
  params : List π
  display : Text
  expected : Nat

def escapeIdentifier (name : Text) : Text :=
  doubleQuote :: replaceUnit doubleQuote [doubleQuote, doubleQuote] name ++ [doubleQuote]

def pgQualify (schema : Option Text) (name : Text) : Text :=
  match schema with
  | none | some [] => escapeIdentifier name
  | some schema => escapeIdentifier schema ++ units "." ++ escapeIdentifier name

structure WhereBuild (π : Type) where
  terms : List Text
  displayTerms : List Text
  params : List π

variable (bound : Cell → Except String (PgBound π))

def keyTerms (key : Record) : Nat → List Text → Except String (WhereBuild π)
  | _, [] => .ok ⟨[], [], []⟩
  | n, col :: rest => match present key col with
    | none => do
        let b ← keyTerms key n rest
        let term := escapeIdentifier col ++ units " IS NULL"
        return ⟨term :: b.terms, term :: b.displayTerms, b.params⟩
    | some cell => do
        let v ← bound cell
        let b ← keyTerms key (n + 1) rest
        let ident := escapeIdentifier col
        return ⟨(ident ++ units " = " ++ dollar n) :: b.terms, (ident ++ units " = " ++ v.literal) :: b.displayTerms,
          v.param :: b.params⟩

def keyNames (key : Record) (keyColumns : List Text) : List Text :=
  if keyColumns ≠ [] then keyColumns else key.map Prod.fst

def buildKeyWhere (key : Record) (keyColumns : List Text) (start : Nat) : Except String (WhereBuild π) :=
  keyTerms bound key start (keyNames key keyColumns)

def boundEntries : Record → Except String (List (Text × PgBound π))
  | [] => .ok []
  | (c, cell) :: rest => do
      let v ← bound cell
      let tail ← boundEntries rest
      return (c, v) :: tail

def pgChange (target : Text) (cs : Changeset) :
    ChangeOp → Except String (List (PgChangeStatement π) × List Text)
  | .insert values => do
      let entries ← boundEntries bound values
      if entries = [] then
        let text := units "INSERT INTO " ++ target ++ units " DEFAULT VALUES"
        return ([⟨text, [], text ++ units ";", 1⟩], [])
      else
        let cols := join ", " (entries.map fun e => escapeIdentifier e.1)
        let numbers := join ", " (entries.mapIdx fun i _ => dollar (i + 1))
        let literals := join ", " (entries.map fun e => e.2.literal)
        let front := units "INSERT INTO " ++ target ++ units " (" ++ cols ++ units ") VALUES ("
        return ([⟨front ++ numbers ++ units ")", entries.map fun e => e.2.param,
          front ++ literals ++ units ");", 1⟩], [])
  | .update key values => do
      let entries ← boundEntries bound values
      if entries = [] then
        return ([], [units "Skipped an update with no changed columns on " ++ cs.table ++ units "."])
      else
        let sets := join ", " (entries.mapIdx fun i e => escapeIdentifier e.1 ++ units " = " ++ dollar (i + 1))
        let setDisplay := join ", " (entries.map fun e => escapeIdentifier e.1 ++ units " = " ++ e.2.literal)
        let b ← buildKeyWhere bound key cs.keyColumns (entries.length + 1)
        if b.terms = [] then
          return ([], [units "Skipped an update on " ++ cs.table ++ units ": the row key is empty."])
        else
          return ([⟨units "UPDATE " ++ target ++ units " SET " ++ sets ++ units " WHERE " ++ join " AND " b.terms,
            (entries.map fun e => e.2.param) ++ b.params,
            units "UPDATE " ++ target ++ units " SET " ++ setDisplay ++ units " WHERE " ++
              join " AND " b.displayTerms ++ units ";", 1⟩], [])
  | .delete key => do
      let b ← buildKeyWhere bound key cs.keyColumns 1
      if b.terms = [] then
        return ([], [units "Skipped a delete on " ++ cs.table ++ units ": the row key is empty."])
      else
        return ([⟨units "DELETE FROM " ++ target ++ units " WHERE " ++ join " AND " b.terms, b.params,
          units "DELETE FROM " ++ target ++ units " WHERE " ++ join " AND " b.displayTerms ++ units ";", 1⟩], [])

def noKeyWarning : Text := units ("This result has no primary key or non-nullable unique index, so updates and " ++
  "deletes cannot be targeted safely.")

def pgChanges (target : Text) (cs : Changeset) :
    List ChangeOp → Except String (List (PgChangeStatement π) × List Text)
  | [] => .ok ([], [])
  | change :: rest => do
      let (statements, warnings) ← pgChange bound target cs change
      let (more, warned) ← pgChanges target cs rest
      return (statements ++ more, warnings ++ warned)

def buildPgChangeStatements (cs : Changeset) : Except String (List (PgChangeStatement π) × List Text) := do
  let (statements, warnings) ← pgChanges bound (pgQualify cs.schema cs.table) cs cs.changes
  return (statements, (if cs.keyColumns = [] then [noKeyWarning] else []) ++ warnings)

def pgPreview (readOnly : Bool) (cs : Changeset) : Except String ChangePreview := do
  let (statements, warnings) ← buildPgChangeStatements bound cs
  return ⟨statements.map PgChangeStatement.display, statements.map PgChangeStatement.expected, warnings ++
    if readOnly then [units "This connection is read-only; the apply will be rejected by the server."] else []⟩

end Postgres

section Mysql

inductive Param where
  | null
  | number (n : NumberText)
  | boolean (value : Bool)
  | bytes (content : List Nat)
  | text (v : Text)

structure PreparedStatement where
  sql : Text
  params : List Param
  expected : Nat

def bitBytes (v : Text) : List Nat :=
  let bits := v.filter fun c => c = ('0' : Char).toNat ∨ c = ('1' : Char).toNat
  let padded := List.replicate ((bits.length + 7) / 8 * 8 - bits.length) ('0' : Char).toNat ++ bits
  (List.range (padded.length / 8)).map fun i =>
    ((padded.drop (i * 8)).take 8).foldl (fun byte c => 2 * byte + (c - ('0' : Char).toNat)) 0

def cellToParam (base64 : Text → List Nat) : Cell → Param
  | .null => .null
  | .string text => .text text
  | .number n => .number n
  | .boolean value => .boolean value
  | .tagged .bytes v => .bytes (base64 v)
  | .tagged .bit v => .bytes (bitBytes v)
  | .tagged .other v => .text v

def hexByte (b : Nat) : Text :=
  let digits := Nat.toDigits 16 b
  (List.replicate (2 - digits.length) '0' ++ digits).map Char.toNat

-- `none` is `undefined`, a parameter past the end.
def renderLiteral (engine : EngineKind) : Option Param → Except String Text
  | none | some .null => .ok (units "NULL")
  | some (.number n) => .ok n.text
  | some (.boolean value) => .ok (units (if value then "1" else "0"))
  | some (.bytes content) => .ok (units "X'" ++ content.flatMap hexByte ++ units "'")
  | some (.text v) => quoteLiteral (.string v) engine

def renderFrom (engine : EngineKind) : Option CodeUnit → Text → List Param → Except String Text
  | _, [], _ => .ok []
  | some quote, c :: rest, params =>
      if c = backslash then
        match rest with
        | [] => .ok [c]
        | d :: rest => (renderFrom engine (some quote) rest params).map fun out => c :: d :: out
      else (renderFrom engine (if c = quote then none else some quote) rest params).map (c :: ·)
  | none, c :: rest, params =>
      if isQuote c then (renderFrom engine (some c) rest params).map (c :: ·)
      else if c = ('?' : Char).toNat then do
        let literal ← renderLiteral engine params.head?
        let out ← renderFrom engine none rest params.tail
        return literal ++ out
      else (renderFrom engine none rest params).map (c :: ·)

def renderWithParams (engine : EngineKind) (sql : Text) (params : List Param) : Except String Text :=
  renderFrom engine none sql params

def quoteQualified (engine : EngineKind) (parts : List (Option Text)) : Except String Text := do
  let given := parts.filterMap fun p => p.filter (· ≠ [])
  if given = [] then throw "quoteQualified: no name parts given"
  let quoted ← given.mapM (quoteIdent · engine)
  return join "." quoted

variable (engine : EngineKind) (base64 : Text → List Nat)

def whereForKey (key : Record) : List Text → Except String (List Text × List Param)
  | [] => .ok ([], [])
  | col :: rest => do
      let ident ← quoteIdent col engine
      let (parts, params) ← whereForKey key rest
      match present key col with
      | none => return ((ident ++ units " IS NULL") :: parts, params)
      | some cell => return ((ident ++ units " = ?") :: parts, cellToParam base64 cell :: params)

def quotedNames : Record → Except String (List Text)
  | [] => .ok []
  | (c, _) :: rest => do
      let ident ← quoteIdent c engine
      let tail ← quotedNames rest
      return ident :: tail

def recordParams (values : Record) : List Param := values.map fun e => cellToParam base64 e.2

def changeStatement (target : Text) (keyColumns : List Text) : ChangeOp → Except String (List PreparedStatement)
  | .insert values => do
      if values = [] then return [⟨units "INSERT INTO " ++ target ++ units " () VALUES ()", [], 1⟩]
      else
        let names ← quotedNames engine values
        return [⟨units "INSERT INTO " ++ target ++ units " (" ++ join ", " names ++ units ") VALUES (" ++
          join ", " (values.map fun _ => units "?") ++ units ")", recordParams base64 values, 1⟩]
  | .update key values => do
      if values = [] then return []
      else
        let names ← quotedNames engine values
        let (parts, params) ← whereForKey engine base64 key keyColumns
        return [⟨units "UPDATE " ++ target ++ units " SET " ++ join ", " (names.map fun n => n ++ units " = ?") ++
          units " WHERE " ++ join " AND " parts, recordParams base64 values ++ params, 1⟩]
  | .delete key => do
      let (parts, params) ← whereForKey engine base64 key keyColumns
      return [⟨units "DELETE FROM " ++ target ++ units " WHERE " ++ join " AND " parts, params, 1⟩]

def buildChangesetStatements (cs : Changeset) : Except String (List PreparedStatement) := do
  let target ← quoteQualified engine [cs.schema, cs.table]
  gather (changeStatement engine base64 target cs.keyColumns) cs.changes

def refusedWarning : Text :=
  units "This result has no primary or unique key, so rows cannot be addressed safely. Edits are refused."

def applicable (keyColumns : List Text) : ChangeOp → Bool × List Text
  | .insert values => if values = [] then (false, [units "An empty inserted row was skipped."]) else (true, [])
  | .update key values =>
      let missing := keyColumns.filter fun c => (key.lookup c).isNone
      if missing ≠ [] then (false, [missingWarning missing]) else (decide (values ≠ []), [])
  | .delete key =>
      let missing := keyColumns.filter fun c => (key.lookup c).isNone
      if missing ≠ [] then (false, [missingWarning missing]) else (true, [])
where
  missingWarning (missing : List Text) : Text :=
    units "Row key is missing " ++ join ", " missing ++ units "; that change was skipped."

def isInsert : ChangeOp → Bool
  | .insert _ => true
  | _ => false

def selectApplicableChanges (cs : Changeset) : Changeset × List Text :=
  if cs.changes.any (fun c => !isInsert c) && cs.keyColumns.isEmpty then ({ cs with changes := [] }, [refusedWarning])
  else ({ cs with changes := cs.changes.filter fun c => (applicable cs.keyColumns c).1 },
    cs.changes.flatMap fun c => (applicable cs.keyColumns c).2)

def previewChangesetSql (cs : Changeset) : Except String ChangePreview := do
  let (changeset, warnings) := selectApplicableChanges cs
  let prepared ← buildChangesetStatements engine base64 changeset
  let statements ← prepared.mapM fun p => renderWithParams engine p.sql p.params
  return ⟨statements, prepared.map PreparedStatement.expected, warnings⟩

end Mysql

end DatabaseAdmin.ChangeStatements
