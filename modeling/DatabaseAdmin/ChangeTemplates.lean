import DatabaseAdmin.ChangeStatements

/-! What a changeset's statements are as texts with holes, the same for both engines, and where the
MySQL preview reads the holes right. -/
namespace DatabaseAdmin.ChangeStatements
open CodeUnits Templates

inductive Filled (α : Type) where
  | insert (entries : List (Text × α))
  | update (entries : List (Text × α)) (keys : List (Text × Option α))
  | delete (keys : List (Text × Option α))

section Shapes
variable {α : Type}

def termTemplate : Text × Option α → Template α
  | (ident, none) => raw (ident ++ units " IS NULL")
  | (ident, some v) => raw (ident ++ units " = ") ++ hole v

def assignTemplate (e : Text × α) : Template α := raw (e.1 ++ units " = ") ++ hole e.2

def whereTemplate (keys : List (Text × Option α)) : Template α := joined (units " AND ") (keys.map termTemplate)

def template (bare target : Text) : Filled α → Template α
  | .insert entries =>
      if entries.isEmpty then raw (units "INSERT INTO " ++ target ++ bare)
      else raw (units "INSERT INTO " ++ target ++ units " (" ++ join ", " (entries.map Prod.fst) ++
        units ") VALUES (") ++ joined (units ", ") (entries.map fun e => hole e.2) ++ raw (units ")")
  | .update entries keys => raw (units "UPDATE " ++ target ++ units " SET ") ++
      joined (units ", ") (entries.map assignTemplate) ++ raw (units " WHERE ") ++ whereTemplate keys
  | .delete keys => raw (units "DELETE FROM " ++ target ++ units " WHERE ") ++ whereTemplate keys

end Shapes

theorem entryValues {α : Type} (entries : List (Text × α)) :
    (entries.map fun e => (hole e.2 : Template α)).flatMap values = entries.map Prod.snd := by
  induction entries with
  | nil => rfl
  | cons e rest ih => simpa using ih

theorem assignHoles {α : Type} (e : Text × α) : holes (assignTemplate e) = e.1 ++ units " = ?" := by
  simp [assignTemplate, units]

theorem assignValues {α : Type} (entries : List (Text × α)) :
    (entries.map assignTemplate).flatMap values = entries.map Prod.snd := by
  induction entries with
  | nil => rfl
  | cons e rest ih => simpa [assignTemplate] using ih

theorem filledValues {α : Type} (bare target : Text) (f : Filled α) : values (template bare target f) = match f with
    | .insert entries => entries.map Prod.snd
    | .update entries keys => entries.map Prod.snd ++ keys.filterMap Prod.snd
    | .delete keys => keys.filterMap Prod.snd := by
  have terms (keys : List (Text × Option α)) : values (whereTemplate keys) = keys.filterMap Prod.snd := by
    rw [whereTemplate, valuesJoined]
    induction keys with
    | nil => rfl
    | cons k rest ih =>
      obtain ⟨ident, v⟩ := k
      cases v <;> simp_all [termTemplate]
  cases f with
  | insert entries =>
    cases entries with
    | nil => exact valuesRaw _
    | cons e rest => simp [template, valuesJoined, entryValues]
  | update entries keys => simp [template, valuesJoined, assignValues, terms]
  | delete keys => simp [template, terms]

section Mysql
variable (engine : EngineKind) (base64 : Text → List Nat)

def mysqlEntries : Record → Except String (List (Text × Param))
  | [] => .ok []
  | (c, cell) :: rest => do
      let ident ← quoteIdent c engine
      let tail ← mysqlEntries rest
      return (ident, cellToParam base64 cell) :: tail

def mysqlKeys (key : Record) : List Text → Except String (List (Text × Option Param))
  | [] => .ok []
  | col :: rest => do
      let ident ← quoteIdent col engine
      let tail ← mysqlKeys key rest
      return (ident, (present key col).map (cellToParam base64)) :: tail

def mysqlFilled (keyColumns : List Text) : ChangeOp → Except String (List (Filled Param))
  | .insert values => do return [.insert (← mysqlEntries engine base64 values)]
  | .update key values =>
      if values = [] then .ok []
      else do
        let entries ← mysqlEntries engine base64 values
        return [.update entries (← mysqlKeys engine base64 key keyColumns)]
  | .delete key => do return [.delete (← mysqlKeys engine base64 key keyColumns)]

def mysqlTemplate (target : Text) : Filled Param → Template Param := template (units " () VALUES ()") target

def mysqlTemplates (cs : Changeset) : Except String (List (Template Param)) := do
  let target ← quoteQualified engine [cs.schema, cs.table]
  let filled ← gather (mysqlFilled engine base64 cs.keyColumns) cs.changes
  return filled.map (mysqlTemplate target)

def prepared (t : Template Param) : PreparedStatement := ⟨holes t, values t, 1⟩

variable {engine base64}

variable (base64) in
theorem quotedNamesOf (values : Record) :
    quotedNames engine values = (mysqlEntries engine base64 values).map (List.map Prod.fst) := by
  induction values with
  | nil => rfl
  | cons e rest ih =>
    simp only [quotedNames, mysqlEntries, ih]
    cases quoteIdent e.1 engine with
    | error message => rfl
    | ok ident => cases mysqlEntries engine base64 rest <;> rfl

theorem recordParamsOf {values : Record} {entries : List (Text × Param)}
    (quoted : mysqlEntries engine base64 values = .ok entries) :
    recordParams base64 values = entries.map Prod.snd := by
  induction values generalizing entries with
  | nil =>
    cases quoted
    rfl
  | cons e rest ih =>
    simp only [mysqlEntries] at quoted
    cases name : quoteIdent e.1 engine with
    | error message => simp [name, bind, Except.bind] at quoted
    | ok ident =>
      cases more : mysqlEntries engine base64 rest with
      | error message => simp [name, more, bind, Except.bind] at quoted
      | ok tail =>
        simp only [name, more, bind, Except.bind, pure, Except.pure, Except.ok.injEq] at quoted
        subst quoted
        simpa [recordParams] using ih more

theorem whereForKeyOf (key : Record) (cols : List Text) : whereForKey engine base64 key cols =
    (mysqlKeys engine base64 key cols).map fun keys =>
      ((keys.map termTemplate).map holes, (keys.map termTemplate).flatMap values) := by
  induction cols with
  | nil => rfl
  | cons col rest ih =>
    simp only [whereForKey, mysqlKeys, ih]
    cases quoteIdent col engine with
    | error message => rfl
    | ok ident =>
      cases mysqlKeys engine base64 key rest with
      | error message => rfl
      | ok tail =>
        cases present key col with
        | none => simp [bind, Except.bind, pure, Except.pure, Except.map, termTemplate]
        | some cell => simp [bind, Except.bind, pure, Except.pure, Except.map, termTemplate, units]

theorem placeholders {β γ : Type} {xs : List β} {ys : List γ} (long : xs.length = ys.length) (t : Text) :
    xs.map (fun _ => t) = ys.map (fun _ => t) := by
  rw [List.map_const', List.map_const', long]

theorem changeStatementOf (target : Text) (keyColumns : List Text) (change : ChangeOp) :
    changeStatement engine base64 target keyColumns change =
      (mysqlFilled engine base64 keyColumns change).map (List.map (prepared ∘ mysqlTemplate target)) := by
  cases change with
  | insert record =>
    simp only [changeStatement, mysqlFilled, quotedNamesOf base64]
    cases record with
    | nil => simp [mysqlEntries, bind, Except.bind, pure, Except.pure, Except.map, prepared, mysqlTemplate, template]
    | cons e rest =>
      cases entries : mysqlEntries engine base64 (e :: rest) with
      | error message => simp [bind, Except.bind, Except.map]
      | ok filled =>
        have params := recordParamsOf entries
        have long : (e :: rest).length = filled.length := by simpa [recordParams] using congrArg List.length params
        have some : filled ≠ [] := fun none => by simp [none] at long
        simp [bind, Except.bind, pure, Except.pure, Except.map, prepared, mysqlTemplate, template, some, params,
          holesJoined, valuesJoined, join, placeholders long, entryValues, Function.comp_def]
  | update key record =>
    simp only [changeStatement, mysqlFilled, quotedNamesOf base64, whereForKeyOf]
    by_cases empty : record = []
    · simp [empty, Except.map, pure, Except.pure]
    · simp only [if_neg empty]
      cases entries : mysqlEntries engine base64 record with
      | error message => simp [bind, Except.bind, Except.map]
      | ok filled =>
        cases mysqlKeys engine base64 key keyColumns with
        | error message => simp [bind, Except.bind, Except.map]
        | ok keys =>
          simp [bind, Except.bind, pure, Except.pure, Except.map, prepared, mysqlTemplate, template, whereTemplate,
            holesJoined, valuesJoined, join, recordParamsOf entries, assignValues, assignHoles, Function.comp_def]
  | delete key =>
    simp only [changeStatement, mysqlFilled, whereForKeyOf]
    cases mysqlKeys engine base64 key keyColumns with
    | error message => rfl
    | ok keys =>
      simp [bind, Except.bind, pure, Except.pure, Except.map, prepared, mysqlTemplate, template, whereTemplate,
        holesJoined, valuesJoined, join]

theorem gatherMapped {β γ : Type} (out : ChangeOp → Except String (List β)) (g : β → γ) (changes : List ChangeOp) :
    gather (fun c => (out c).map (List.map g)) changes = (gather out changes).map (List.map g) := by
  induction changes with
  | nil => rfl
  | cons change rest ih =>
    simp only [gather, ih]
    cases out change with
    | error message => rfl
    | ok first =>
      cases gather out rest with
      | error message => rfl
      | ok more => simp [bind, Except.bind, pure, Except.pure, Except.map]

theorem builtOf (cs : Changeset) : buildChangesetStatements engine base64 cs =
    (mysqlTemplates engine base64 cs).map (List.map prepared) := by
  simp only [buildChangesetStatements, mysqlTemplates]
  cases quoteQualified engine [cs.schema, cs.table] with
  | error message => rfl
  | ok target =>
    have each : changeStatement engine base64 target cs.keyColumns = fun c =>
        (mysqlFilled engine base64 cs.keyColumns c).map (List.map (prepared ∘ mysqlTemplate target)) :=
      funext (changeStatementOf target cs.keyColumns)
    simp only [bind, Except.bind, each, gatherMapped]
    cases gather (mysqlFilled engine base64 cs.keyColumns) cs.changes with
    | error message => rfl
    | ok filled => simp [Except.map, pure, Except.pure]

end Mysql

section Postgres
variable {π : Type} (bound : Cell → Except String (PgBound π))

def pgKeys (key : Record) : List Text → Except String (List (Text × Option (PgBound π)))
  | [] => .ok []
  | col :: rest => match present key col with
    | none => do return (escapeIdentifier col, none) :: (← pgKeys key rest)
    | some cell => do
        let v ← bound cell
        return (escapeIdentifier col, some v) :: (← pgKeys key rest)

def pgQuoted (entries : List (Text × PgBound π)) : List (Text × PgBound π) :=
  entries.map fun e => (escapeIdentifier e.1, e.2)

def pgEntries (values : Record) : Except String (List (Text × PgBound π)) := (boundEntries bound values).map pgQuoted

def pgFilled (keyColumns : List Text) : ChangeOp → Except String (List (Filled (PgBound π)))
  | .insert values => do return [.insert (← pgEntries bound values)]
  | .update key values =>
      if values = [] then .ok []
      else do
        let entries ← pgEntries bound values
        let keys ← pgKeys bound key (keyNames key keyColumns)
        return if keys = [] then [] else [.update entries keys]
  | .delete key => do
      let keys ← pgKeys bound key (keyNames key keyColumns)
      return if keys = [] then [] else [.delete keys]

def pgTemplate (target : Text) : Filled (PgBound π) → Template (PgBound π) := template (units " DEFAULT VALUES") target

def pgTemplates (cs : Changeset) : Except String (List (Template (PgBound π))) :=
  (gather (pgFilled bound cs.keyColumns) cs.changes).map (List.map (pgTemplate (pgQualify cs.schema cs.table)))

def pgShown (t : Template (PgBound π)) : Text := shown PgBound.literal t ++ units ";"

def pgBoundForm (t : Template (PgBound π)) : PgChangeStatement π :=
  ⟨numbered 1 t, (values t).map PgBound.param, pgShown t, 1⟩

variable {bound}

theorem keyTermsOf (key : Record) (n : Nat) (cols : List Text) : keyTerms bound key n cols =
    (pgKeys bound key cols).map fun keys => ⟨numberedEach n (keys.map termTemplate),
      (keys.map termTemplate).map (shown PgBound.literal),
      ((keys.map termTemplate).flatMap values).map PgBound.param⟩ := by
  induction cols generalizing n with
  | nil => rfl
  | cons col rest ih =>
    simp only [keyTerms, pgKeys]
    cases present key col with
    | none =>
      simp only [ih]
      cases pgKeys bound key rest with
      | error message => rfl
      | ok keys => simp [bind, Except.bind, pure, Except.pure, Except.map, termTemplate, numberedEach]
    | some cell =>
      simp only [ih]
      cases bound cell with
      | error message => rfl
      | ok v =>
        cases pgKeys bound key rest with
        | error message => rfl
        | ok keys =>
          simp [bind, Except.bind, pure, Except.pure, Except.map, termTemplate, numberedEach, numberedAppend]

theorem holesNumbered {α : Type} (n : Nat) (entries : List (Text × α)) :
    numberedEach n (entries.map fun e => (hole e.2 : Template α)) = entries.mapIdx fun i _ => dollar (i + n) := by
  induction entries generalizing n with
  | nil => rfl
  | cons e rest ih =>
    simp only [List.map_cons, numberedEach, numberedHole, valuesHole, List.length_singleton, ih, List.mapIdx_cons,
      Nat.zero_add, Nat.add_assoc, Nat.add_comm 1]

theorem setNumbers (n : Nat) (entries : List (Text × PgBound π)) :
    numberedEach n ((pgQuoted entries).map assignTemplate) =
      entries.mapIdx fun i e => escapeIdentifier e.1 ++ (units " = " ++ dollar (i + n)) := by
  induction entries generalizing n with
  | nil => rfl
  | cons e rest ih =>
    have one : (values (assignTemplate (escapeIdentifier e.1, e.2))).length = 1 := by simp [assignTemplate]
    simp only [pgQuoted] at ih
    simp only [pgQuoted, List.map_cons, numberedEach, one, ih, List.mapIdx_cons, Nat.zero_add, Nat.add_assoc,
      Nat.add_comm 1]
    simp [assignTemplate, numberedAppend]

theorem setShown (entries : List (Text × PgBound π)) :
    ((pgQuoted entries).map assignTemplate).map (shown PgBound.literal) =
      entries.map fun e => escapeIdentifier e.1 ++ (units " = " ++ e.2.literal) := by
  simp [pgQuoted, assignTemplate]

theorem setValues (entries : List (Text × PgBound π)) :
    ((pgQuoted entries).map assignTemplate).flatMap values = entries.map Prod.snd := by
  rw [assignValues, pgQuoted, List.map_map]
  rfl

theorem termsEmpty {α : Type} {n : Nat} {keys : List (Text × Option α)} :
    numberedEach n (keys.map termTemplate) = [] ↔ keys = [] := by
  cases keys <;> simp [numberedEach]

theorem boundSome {record : Record} {entries : List (Text × PgBound π)} (ok : boundEntries bound record = .ok entries) :
    entries = [] ↔ record = [] := by
  cases record with
  | nil =>
    cases ok
    simp
  | cons e rest =>
    simp only [boundEntries] at ok
    cases first : bound e.2 with
    | error message => simp [first, bind, Except.bind] at ok
    | ok v =>
      cases more : boundEntries bound rest with
      | error message => simp [first, more, bind, Except.bind] at ok
      | ok tail =>
        simp only [first, more, bind, Except.bind, pure, Except.pure, Except.ok.injEq] at ok
        simp [← ok]

variable (bound)

theorem pgChangeOf (target : Text) (cs : Changeset) (change : ChangeOp) :
    (pgChange bound target cs change).map Prod.fst =
      (pgFilled bound cs.keyColumns change).map (List.map (pgBoundForm ∘ pgTemplate target)) := by
  cases change with
  | insert record =>
    simp only [pgChange, pgFilled, pgEntries]
    cases boundEntries bound record with
    | error message => rfl
    | ok entries =>
      by_cases empty : entries = []
      · simp [empty, bind, Except.bind, pure, Except.pure, Except.map, pgBoundForm, pgTemplate, template, pgShown,
          pgQuoted]
      · have closed : units ");" = units ")" ++ units ";" := rfl
        simp [empty, bind, Except.bind, pure, Except.pure, Except.map, pgBoundForm, pgTemplate, template, pgShown,
          numberedAppend, numberedJoined, valuesJoined, shownJoined, join, pgQuoted, holesNumbered, entryValues,
          Function.comp_def, closed]
  | update key record =>
    simp only [pgChange, pgFilled, buildKeyWhere, keyTermsOf, pgEntries]
    cases ok : boundEntries bound record with
    | error message =>
      have some : record ≠ [] := by
        rintro rfl
        simp [boundEntries] at ok
      simp [some, bind, Except.bind, Except.map]
    | ok entries =>
      have same := boundSome ok
      by_cases empty : record = []
      · simp [empty, same.mpr empty, bind, Except.bind, pure, Except.pure, Except.map]
      · have some : entries ≠ [] := fun none => empty (same.mp none)
        cases pgKeys bound key (keyNames key cs.keyColumns) with
        | error message => simp [empty, some, bind, Except.bind, Except.map]
        | ok keys =>
          by_cases keyless : keys = []
          · simp [empty, some, keyless, numberedEach, bind, Except.bind, pure, Except.pure, Except.map]
          · simp [empty, some, keyless, termsEmpty, bind, Except.bind, pure, Except.pure, Except.map, pgBoundForm,
              pgTemplate, template, pgShown, whereTemplate, numberedAppend, numberedJoined, valuesJoined, shownJoined,
              join, setNumbers, setShown, setValues, -List.map_map]
            rw [Nat.add_comm 1, List.map_map]
            exact ⟨rfl, rfl⟩
  | delete key =>
    simp only [pgChange, pgFilled, buildKeyWhere, keyTermsOf]
    cases pgKeys bound key (keyNames key cs.keyColumns) with
    | error message => rfl
    | ok keys =>
      by_cases empty : keys = []
      · simp [empty, numberedEach, bind, Except.bind, pure, Except.pure, Except.map]
      · simp [empty, termsEmpty, bind, Except.bind, pure, Except.pure, Except.map, pgBoundForm, pgTemplate, template, pgShown,
          whereTemplate, numberedAppend, numberedJoined, valuesJoined, shownJoined, join]

theorem pgChangesGathered (target : Text) (cs : Changeset) (changes : List ChangeOp) :
    (pgChanges bound target cs changes).map Prod.fst =
      gather (fun c => (pgChange bound target cs c).map Prod.fst) changes := by
  induction changes with
  | nil => rfl
  | cons change rest ih =>
    simp only [pgChanges, gather, ← ih]
    cases pgChange bound target cs change with
    | error message => rfl
    | ok first => cases pgChanges bound target cs rest <;> rfl

theorem pgBuiltOf (cs : Changeset) : (buildPgChangeStatements bound cs).map Prod.fst =
    (pgTemplates bound cs).map (List.map pgBoundForm) := by
  have each := funext (pgChangeOf bound (pgQualify cs.schema cs.table) cs)
  have gathered := pgChangesGathered bound (pgQualify cs.schema cs.table) cs cs.changes
  rw [each, gatherMapped] at gathered
  have fst : (buildPgChangeStatements bound cs).map Prod.fst =
      (pgChanges bound (pgQualify cs.schema cs.table) cs cs.changes).map Prod.fst := by
    simp only [buildPgChangeStatements]
    cases pgChanges bound (pgQualify cs.schema cs.table) cs cs.changes <;> rfl
  rw [fst, gathered, pgTemplates]
  cases gather (pgFilled bound cs.keyColumns) cs.changes with
  | error message => rfl
  | ok filled => simp [Except.map]

end Postgres

end DatabaseAdmin.ChangeStatements
