import DatabaseAdmin.SqliteChanges

/-! The rows that a changeset's statements find, against the rows whose keys the changes carry. -/
namespace DatabaseAdmin.RowAddresses
open CodeUnits Templates
open ChangeStatements (Filled template escapeIdentifier)

section Terms
variable {κ α σ : Type}

abbrev RowKey (κ : Type) := List (Text × κ)

inductive OwnTerm (null : κ) (named : Text → Text → Prop) (reads : κ → α → Prop) (key : RowKey κ) (col : Text) :
    Text × Option α → Prop where
  | isNull {ident} (name : named col ident) (own : key.lookup col = some null) : OwnTerm null named reads key col (ident, none)
  | equals {ident cell v} (name : named col ident) (own : key.lookup col = some cell) (given : cell ≠ null) (read : reads cell v) :
      OwnTerm null named reads key col (ident, some v)

def terms : Filled α → Option (List (Text × Option α))
  | .insert _ => none
  | .update _ keys | .delete keys => some keys

def Addressed (term : RowKey κ → Text → Text × Option α → Prop) (form : Filled α → σ) (keyColumns : List Text) (key : RowKey κ)
    (s : σ) : Prop :=
  ∃ f keys, s = form f ∧ terms f = some keys ∧ List.Forall₂ (term key) keyColumns keys

def Carries (keyColumns : List Text) (key : RowKey κ) : Prop := ∀ col ∈ keyColumns, (key.lookup col).isSome

theorem termCarried {null : κ} {named : Text → Text → Prop} {reads : κ → α → Prop} {key : RowKey κ} {cols : List Text}
    {keys : List (Text × Option α)} (own : List.Forall₂ (OwnTerm null named reads key) cols keys) : Carries cols key := by
  induction own with
  | nil => exact nofun
  | cons term rest ih =>
    refine List.forall_mem_cons.mpr ⟨?_, ih⟩
    cases term with
    | isNull name own => rw [own]; rfl
    | equals name own => rw [own]; rfl

theorem ownFirst {key inherited : RowKey κ} {col : Text} {cell : κ} (own : key.lookup col = some cell) :
    (key ++ inherited).lookup col = some cell := by
  rw [List.lookup_append, own]
  rfl

theorem pairsIff {β : Type} {R P : α → β → Prop} {Q : α → Prop} {xs : List α} {ys : List β} (pairs : List.Forall₂ R xs ys)
    (each : ∀ x y, R x y → (P x y ↔ Q x)) : List.Forall₂ P xs ys ↔ ∀ x ∈ xs, Q x := by
  induction pairs with
  | nil => exact iff_of_true .nil nofun
  | cons pair rest ih => rw [List.forall₂_cons, List.forall_mem_cons, each _ _ pair, ih]

theorem addressedIff {null : κ} {named : Text → Text → Prop} {reads : κ → α → Prop} {form : Filled α → σ} {cols : List Text}
    {key : RowKey κ} {f : Filled α} {keys : List (Text × Option α)} (listed : terms f = some keys)
    (own : Carries cols key → List.Forall₂ (OwnTerm null named reads key) cols keys) :
    Addressed (OwnTerm null named reads) form cols key (form f) ↔ Carries cols key :=
  ⟨fun ⟨_, _, _, _, pairs⟩ => termCarried pairs, fun carried => ⟨f, keys, rfl, listed, own carried⟩⟩

end Terms

section Changes
open ChangeStatements

def rowKey : ChangeOp → Option Record
  | .insert _ => none
  | .update key _ | .delete key => some key

structure Accepted (cs : Changeset) : Prop where
  keyed : cs.changes.any (fun c => !isInsert c) → cs.keyColumns ≠ []
  edited : ∀ key values, .update key values ∈ cs.changes → values ≠ []

def seen (inherited : Record) : ChangeOp → ChangeOp
  | .insert values => .insert values
  | .update key values => .update (key ++ inherited) values
  | .delete key => .delete (key ++ inherited)

def readChanges (inherited : Record) (cs : Changeset) : Changeset := { cs with changes := cs.changes.map (seen inherited) }

theorem gatherPairs {β : Type} {out : ChangeOp → Except String (List β)} {g : ChangeOp → ChangeOp} {P : ChangeOp → β → Prop}
    {changes : List ChangeOp} {all : List β}
    (each : ∀ change ∈ changes, ∀ part, out (g change) = .ok part → ∃ x, part = [x] ∧ P change x)
    (ok : gather out (changes.map g) = .ok all) : List.Forall₂ P changes all := by
  induction changes generalizing all with
  | nil =>
    cases ok
    exact .nil
  | cons change rest ih =>
    obtain ⟨head, tail⟩ := List.forall_mem_cons.mp each
    obtain ⟨first, read, ok⟩ := bindOk ok
    obtain ⟨more, later, ok⟩ := bindOk ok
    cases ok
    obtain ⟨x, rfl, here⟩ := head first read
    exact .cons here (ih tail later)

theorem presentOwn {key inherited : Record} {col : Text} {cell : Cell} (own : key.lookup col = some cell) :
    present (key ++ inherited) col = if cell matches .null then none else some cell := by
  rw [present, ownFirst own]
  cases cell <;> rfl

section Postgres
variable {π : Type} (bound : Cell → Except String (PgBound π))

abbrev pgTerm : Record → Text → Text × Option (PgBound π) → Prop :=
  OwnTerm .null (fun col ident => ident = escapeIdentifier col) fun cell v => bound cell = .ok v

def pgForm (cs : Changeset) (f : Filled (PgBound π)) : PgChangeStatement π :=
  pgBoundForm (pgTemplate (pgQualify cs.schema cs.table) f)

variable {bound}

theorem pgKeysOwn {key inherited : Record} {cols : List Text} {keys : List (Text × Option (PgBound π))}
    (carried : Carries cols key) (ok : pgKeys bound (key ++ inherited) cols = .ok keys) :
    List.Forall₂ (pgTerm bound key) cols keys := by
  induction cols generalizing keys with
  | nil =>
    cases ok
    exact .nil
  | cons col rest ih =>
    obtain ⟨here, later⟩ := List.forall_mem_cons.mp carried
    obtain ⟨cell, own⟩ := Option.isSome_iff_exists.mp here
    simp only [pgKeys, presentOwn own] at ok
    cases cell with
    | null =>
      obtain ⟨tail, read, ok⟩ := bindOk ok
      cases ok
      exact .cons (.isNull rfl own) (ih later read)
    | _ =>
      obtain ⟨v, encoded, ok⟩ := bindOk ok
      obtain ⟨tail, read, ok⟩ := bindOk ok
      cases ok
      exact .cons (.equals rfl own (by rintro ⟨⟩) encoded) (ih later read)

theorem pgKeysSome {key : Record} {cols : List Text} {keys : List (Text × Option (PgBound π))} (named : cols ≠ [])
    (ok : pgKeys bound key cols = .ok keys) : keys ≠ [] := by
  cases cols with
  | nil => contradiction
  | cons col rest =>
    simp only [pgKeys] at ok
    cases here : present key col with
    | none =>
      rw [here] at ok
      obtain ⟨tail, _, ok⟩ := bindOk ok
      cases ok
      exact List.cons_ne_nil _ _
    | some cell =>
      rw [here] at ok
      obtain ⟨v, _, ok⟩ := bindOk ok
      obtain ⟨tail, _, ok⟩ := bindOk ok
      cases ok
      exact List.cons_ne_nil _ _

theorem pgFilledOf {inherited : Record} {cs : Changeset} (accepted : Accepted cs) {change : ChangeOp}
    (member : change ∈ cs.changes) {part : List (Filled (PgBound π))}
    (ok : pgFilled bound cs.keyColumns (seen inherited change) = .ok part) : ∃ f, part = [f] ∧
      ((∀ key ∈ rowKey change, Addressed (pgTerm bound) (pgForm cs) cs.keyColumns key (pgForm cs f)) ↔
        ∀ key ∈ rowKey change, Carries cs.keyColumns key) := by
  cases change with
  | insert values =>
    obtain ⟨entries, _, ok⟩ := bindOk ok
    cases ok
    exact ⟨_, rfl, iff_of_true nofun nofun⟩
  | update key values =>
    have named := accepted.keyed (List.any_eq_true.mpr ⟨_, member, rfl⟩)
    simp only [seen, pgFilled, if_neg (accepted.edited key values member), keyNames, if_pos named] at ok
    obtain ⟨entries, _, ok⟩ := bindOk ok
    obtain ⟨keys, read, ok⟩ := bindOk ok
    rw [if_neg (pgKeysSome named read)] at ok
    cases ok
    refine ⟨_, rfl, forall₂_congr fun other row => ?_⟩
    cases row
    exact addressedIff rfl fun carried => pgKeysOwn carried read
  | delete key =>
    have named := accepted.keyed (List.any_eq_true.mpr ⟨_, member, rfl⟩)
    simp only [seen, pgFilled, keyNames, if_pos named] at ok
    obtain ⟨keys, read, ok⟩ := bindOk ok
    rw [if_neg (pgKeysSome named read)] at ok
    cases ok
    refine ⟨_, rfl, forall₂_congr fun other row => ?_⟩
    cases row
    exact addressedIff rfl fun carried => pgKeysOwn carried read

theorem pgAddressed {inherited : Record} {cs : Changeset} (accepted : Accepted cs) {statements : List (PgChangeStatement π)}
    {warnings : List Text} (ok : buildPgChangeStatements bound (readChanges inherited cs) = .ok (statements, warnings)) :
    List.Forall₂ (fun change s => ∀ key ∈ rowKey change, Addressed (pgTerm bound) (pgForm cs) cs.keyColumns key s)
      cs.changes statements ↔ ∀ change ∈ cs.changes, ∀ key ∈ rowKey change, Carries cs.keyColumns key := by
  have built := pgBuiltOf bound (readChanges inherited cs)
  rw [ok, pgTemplates] at built
  cases gathered : gather (pgFilled bound cs.keyColumns) (cs.changes.map (seen inherited)) with
  | error message =>
    simp only [readChanges, gathered] at built
    contradiction
  | ok fs =>
    have made : statements = fs.map (pgForm cs) := by
      simp only [readChanges, gathered, Except.map, Except.ok.injEq, List.map_map] at built
      exact built
    rw [made, List.forall₂_map_right_iff]
    exact pairsIff (gatherPairs (fun change member part => pgFilledOf accepted member) gathered) fun _ _ each => each

end Postgres

section Mysql
variable (engine : EngineKind) (base64 : Text → List Nat)

abbrev mysqlTerm : Record → Text → Text × Option Param → Prop :=
  OwnTerm .null (fun col ident => quoteIdent col engine = .ok ident) fun cell v => v = cellToParam base64 cell

def mysqlForm (target : Text) (f : Filled Param) : PreparedStatement := prepared (mysqlTemplate target f)

def kept (inherited : Record) (cs : Changeset) : List ChangeOp :=
  cs.changes.filter fun change => (applicable cs.keyColumns (seen inherited change)).1

variable {engine base64}

theorem mysqlKeysOwn {key inherited : Record} {cols : List Text} {keys : List (Text × Option Param)}
    (carried : Carries cols key) (ok : mysqlKeys engine base64 (key ++ inherited) cols = .ok keys) :
    List.Forall₂ (mysqlTerm engine base64 key) cols keys := by
  induction cols generalizing keys with
  | nil =>
    cases ok
    exact .nil
  | cons col rest ih =>
    obtain ⟨here, later⟩ := List.forall_mem_cons.mp carried
    obtain ⟨cell, own⟩ := Option.isSome_iff_exists.mp here
    simp only [mysqlKeys, presentOwn own] at ok
    obtain ⟨ident, named, ok⟩ := bindOk ok
    obtain ⟨tail, read, ok⟩ := bindOk ok
    cases ok
    cases cell with
    | null => exact .cons (.isNull named own) (ih later read)
    | _ => exact .cons (.equals named own (by rintro ⟨⟩) rfl) (ih later read)

theorem mysqlFilledOf {inherited : Record} {cs : Changeset} (accepted : Accepted cs) {target : Text} {change : ChangeOp}
    (member : change ∈ cs.changes) {part : List (Filled Param)}
    (ok : mysqlFilled engine base64 cs.keyColumns (seen inherited change) = .ok part) : ∃ f, part = [f] ∧
      ((∀ key ∈ rowKey change,
          Addressed (mysqlTerm engine base64) (mysqlForm target) cs.keyColumns key (mysqlForm target f)) ↔
        ∀ key ∈ rowKey change, Carries cs.keyColumns key) := by
  cases change with
  | insert values =>
    obtain ⟨entries, _, ok⟩ := bindOk ok
    cases ok
    exact ⟨_, rfl, iff_of_true nofun nofun⟩
  | update key values =>
    simp only [seen, mysqlFilled, if_neg (accepted.edited key values member)] at ok
    obtain ⟨entries, _, ok⟩ := bindOk ok
    obtain ⟨keys, read, ok⟩ := bindOk ok
    cases ok
    refine ⟨_, rfl, forall₂_congr fun other row => ?_⟩
    cases row
    exact addressedIff rfl fun carried => mysqlKeysOwn carried read
  | delete key =>
    obtain ⟨keys, read, ok⟩ := bindOk ok
    cases ok
    refine ⟨_, rfl, forall₂_congr fun other row => ?_⟩
    cases row
    exact addressedIff rfl fun carried => mysqlKeysOwn carried read

theorem seenInsert (inherited : Record) (change : ChangeOp) : isInsert (seen inherited change) = isInsert change := by
  cases change <;> rfl

theorem keptRead {inherited : Record} {cs : Changeset} (accepted : Accepted cs) :
    (selectApplicableChanges (readChanges inherited cs)).1 = { cs with changes := (kept inherited cs).map (seen inherited) } := by
  have keyed : ¬ (((readChanges inherited cs).changes.any fun c => !isInsert c) && (readChanges inherited cs).keyColumns.isEmpty) := by
    rw [Bool.and_eq_true, List.isEmpty_iff]
    rintro ⟨some, none⟩
    simp only [readChanges, List.any_map, Function.comp_def, seenInsert] at some
    exact accepted.keyed some none
  rw [selectApplicableChanges, if_neg keyed]
  simp only [readChanges, List.filter_map, kept, Function.comp_def]

theorem keptIff {inherited : Record} {cs : Changeset} (accepted : Accepted cs) {change : ChangeOp} (member : change ∈ cs.changes)
    {key : Record} (row : rowKey change = some key) :
    change ∈ kept inherited cs ↔ ∀ col ∈ cs.keyColumns, (key ++ inherited).lookup col ≠ none := by
  have none : cs.keyColumns.filter (fun c => ((key ++ inherited).lookup c).isNone) = [] ↔
      ∀ col ∈ cs.keyColumns, (key ++ inherited).lookup col ≠ none := by
    simp only [List.filter_eq_nil_iff, Option.isNone_iff_eq_none, ne_eq]
  have skipped {missing warned : List Text} {rest : Bool × List Text} (fine : rest.1 = true) :
      (if missing ≠ [] then (false, warned) else rest).1 = true ↔ missing = [] := by
    by_cases empty : missing = [] <;> simp [empty, fine]
  rw [kept, List.mem_filter, and_iff_right member, ← none]
  cases change with
  | insert values => contradiction
  | update key' values =>
    cases row
    exact skipped (decide_eq_true (accepted.edited key values member))
  | delete key' =>
    cases row
    exact skipped rfl

theorem keptCarry {inherited : Record} {cs : Changeset} (accepted : Accepted cs) :
    (∀ change ∈ kept inherited cs, ∀ key ∈ rowKey change, Carries cs.keyColumns key) ↔
      ∀ change ∈ cs.changes, ∀ key ∈ rowKey change,
        Carries cs.keyColumns key ∨ ∃ col ∈ cs.keyColumns, (key ++ inherited).lookup col = none := by
  constructor
  · intro all change member key row
    by_cases left : ∃ col ∈ cs.keyColumns, (key ++ inherited).lookup col = none
    · exact .inr left
    · exact .inl (all change ((keptIff accepted member row).mpr fun col listed none => left ⟨col, listed, none⟩) key row)
  · intro all change inside key row
    have member := (List.mem_filter.mp inside).1
    rcases all change member key row with carried | ⟨col, listed, none⟩
    · exact carried
    · exact absurd none ((keptIff accepted member row).mp inside col listed)

theorem mysqlAddressed {inherited : Record} {cs : Changeset} (accepted : Accepted cs) {statements : List PreparedStatement}
    (ok : buildChangesetStatements engine base64 (selectApplicableChanges (readChanges inherited cs)).1 = .ok statements) :
    ∃ target, quoteQualified engine [cs.schema, cs.table] = .ok target ∧
      (List.Forall₂ (fun change s => ∀ key ∈ rowKey change,
          Addressed (mysqlTerm engine base64) (mysqlForm target) cs.keyColumns key s) (kept inherited cs) statements ↔
        ∀ change ∈ cs.changes, ∀ key ∈ rowKey change,
          Carries cs.keyColumns key ∨ ∃ col ∈ cs.keyColumns, (key ++ inherited).lookup col = none) := by
  rw [keptRead accepted, builtOf] at ok
  cases listed : mysqlTemplates engine base64 { cs with changes := (kept inherited cs).map (seen inherited) } with
  | error message =>
    rw [listed] at ok
    contradiction
  | ok ts =>
    rw [listed] at ok
    cases ok
    obtain ⟨target, quoted, listed⟩ := bindOk listed
    obtain ⟨fs, gathered, listed⟩ := bindOk listed
    cases listed
    refine ⟨target, quoted, ?_⟩
    rw [← keptCarry accepted, List.map_map, List.forall₂_map_right_iff]
    exact pairsIff (gatherPairs (fun change inside part => mysqlFilledOf accepted (List.mem_filter.mp inside).1) gathered)
      fun _ _ each => each

end Mysql

end Changes

namespace Sqlite
open SqliteChanges WireCells

def rowKey : ChangeOp → Option Record
  | .insert _ => none
  | .update key _ | .delete key => some key

structure Accepted (cs : Changeset) : Prop where
  keyed : cs.changes.any (fun c => !isInsert c) → cs.keyColumns ≠ []
  edited : ∀ key values, .update key values ∈ cs.changes → values ≠ []

def seen (inherited : Record) : ChangeOp → ChangeOp
  | .insert values => .insert values
  | .update key values => .update (key ++ inherited) values
  | .delete key => .delete (key ++ inherited)

def readChanges (inherited : Record) (cs : Changeset) : Changeset := { cs with changes := cs.changes.map (seen inherited) }

abbrev ownTerm : Record → Text → Text × Option Cell → Prop :=
  OwnTerm .null (fun col name => name = col) fun cell v => v = cell

def form (cs : Changeset) (f : Filled Cell) : BuiltStatement := push (holes (statement cs f)) (values (statement cs f))

theorem presentOwn {key inherited : Record} {col : Text} {cell : Cell} (own : key.lookup col = some cell) :
    present (key ++ inherited) col = if cell matches .null then none else some cell := by
  rw [present, ownFirst own]
  cases cell <;> rfl

theorem keysOwn {key inherited : Record} {cols : List Text} (carried : Carries cols key) :
    List.Forall₂ (ownTerm key) cols (cols.map fun col => (col, present (key ++ inherited) col)) := by
  induction cols with
  | nil => exact .nil
  | cons col rest ih =>
    obtain ⟨here, later⟩ := List.forall_mem_cons.mp carried
    obtain ⟨cell, own⟩ := Option.isSome_iff_exists.mp here
    rw [List.map_cons, presentOwn own]
    cases cell with
    | null => exact .cons (.isNull rfl own) (ih later)
    | _ => exact .cons (.equals rfl own nofun rfl) (ih later)

theorem wantedOf {inherited : Record} {cs : Changeset} (accepted : Accepted cs) {change : ChangeOp} (member : change ∈ cs.changes) :
    ∃ f, wanted cs.keyColumns (seen inherited change) = [f] ∧
      ((∀ key ∈ rowKey change, Addressed ownTerm (form cs) cs.keyColumns key (form cs f)) ↔
        ∀ key ∈ rowKey change, Carries cs.keyColumns key) := by
  cases change with
  | insert values => exact ⟨_, rfl, iff_of_true nofun nofun⟩
  | update key values =>
    refine ⟨_, if_neg (accepted.edited key values member), forall₂_congr fun other row => ?_⟩
    cases row
    exact addressedIff rfl keysOwn
  | delete key =>
    refine ⟨_, rfl, forall₂_congr fun other row => ?_⟩
    cases row
    exact addressedIff rfl keysOwn

theorem addressed {inherited : Record} {cs : Changeset} (accepted : Accepted cs) {statements : List BuiltStatement}
    {warnings : List Text} (ok : buildChangeStatements (readChanges inherited cs) = .ok (statements, warnings)) :
    List.Forall₂ (fun change s => ∀ key ∈ rowKey change, Addressed ownTerm (form cs) cs.keyColumns key s) cs.changes statements ↔
      ∀ change ∈ cs.changes, ∀ key ∈ rowKey change, Carries cs.keyColumns key := by
  have made : statements = ((cs.changes.map (seen inherited)).flatMap (wanted cs.keyColumns)).map (form cs) := builtStatements ok
  have pairs : List.Forall₂ (fun change s => (∀ key ∈ rowKey change, Addressed ownTerm (form cs) cs.keyColumns key s) ↔
      ∀ key ∈ rowKey change, Carries cs.keyColumns key) cs.changes statements := by
    rw [made, List.forall₂_map_right_iff]
    have each (change : ChangeOp) (member : change ∈ cs.changes) := @wantedOf inherited cs accepted change member
    generalize cs.changes = changes at each ⊢
    induction changes with
    | nil => exact .nil
    | cons change rest ih =>
      obtain ⟨⟨f, single, here⟩, later⟩ := List.forall_mem_cons.mp each
      rw [List.map_cons, List.flatMap_cons, single]
      exact .cons here (ih later)
  exact pairsIff pairs fun _ _ each => each

end Sqlite

section Builders
open ChangeStatements

theorem rowsAddressed (inherited : Record) (cs : Changeset) :
    (Accepted cs →
      (∀ (π : Type) (bound : Cell → Except String (PgBound π)) (statements : List (PgChangeStatement π)) (warnings : List Text),
        buildPgChangeStatements bound (readChanges inherited cs) = .ok (statements, warnings) →
          (List.Forall₂ (fun change s => ∀ key ∈ rowKey change, Addressed (pgTerm bound) (pgForm cs) cs.keyColumns key s)
            cs.changes statements ↔ ∀ change ∈ cs.changes, ∀ key ∈ rowKey change, Carries cs.keyColumns key)) ∧
      ∀ (engine : EngineKind) (base64 : Text → List Nat) (statements : List PreparedStatement),
        buildChangesetStatements engine base64 (selectApplicableChanges (readChanges inherited cs)).1 = .ok statements →
          ∃ target, quoteQualified engine [cs.schema, cs.table] = .ok target ∧
            (List.Forall₂ (fun change s => ∀ key ∈ rowKey change,
                Addressed (mysqlTerm engine base64) (mysqlForm target) cs.keyColumns key s) (kept inherited cs) statements ↔
              ∀ change ∈ cs.changes, ∀ key ∈ rowKey change,
                Carries cs.keyColumns key ∨ ∃ col ∈ cs.keyColumns, (key ++ inherited).lookup col = none)) ∧
    ∀ (inherited : SqliteChanges.Record) (cs : SqliteChanges.Changeset), Sqlite.Accepted cs →
      ∀ (statements : List SqliteChanges.BuiltStatement) (warnings : List Text),
        SqliteChanges.buildChangeStatements (Sqlite.readChanges inherited cs) = .ok (statements, warnings) →
          (List.Forall₂ (fun change s => ∀ key ∈ Sqlite.rowKey change,
              Addressed Sqlite.ownTerm (Sqlite.form cs) cs.keyColumns key s) cs.changes statements ↔
            ∀ change ∈ cs.changes, ∀ key ∈ Sqlite.rowKey change, Carries cs.keyColumns key) :=
  ⟨fun accepted => ⟨fun _ _ _ _ => pgAddressed accepted, fun _ _ _ => mysqlAddressed accepted⟩,
    fun _ _ accepted _ _ => Sqlite.addressed accepted⟩

def textBound : Cell → Except String (PgBound Text)
  | .string text => .ok ⟨text, apostrophe :: text ++ [apostrophe]⟩
  | _ => .error "not a text"

def oneDelete (key : Record) : Changeset := ⟨none, units "t", [units "id"], [.delete key]⟩

theorem oneAccepted (key : Record) : Accepted (oneDelete key) where
  keyed _ := List.cons_ne_nil _ _
  edited _ _ member := by simp [oneDelete] at member

theorem carriedKeyAddressed : ∃ s, buildPgChangeStatements textBound
      (readChanges [] (oneDelete [(units "id", .string (units "7"))])) = .ok ([s], []) ∧
    Addressed (pgTerm textBound) (pgForm (oneDelete [])) [units "id"] [(units "id", .string (units "7"))] s := by
  have ok : ∃ s, buildPgChangeStatements textBound (readChanges [] (oneDelete [(units "id", .string (units "7"))])) =
      .ok ([s], []) := ⟨_, rfl⟩
  obtain ⟨s, ok⟩ := ok
  have all := (((rowsAddressed [] _).1 (oneAccepted _)).1 _ textBound _ _ ok).mpr fun change member key row => by
    cases List.mem_singleton.mp member
    cases row
    exact List.forall_mem_singleton.mpr rfl
  exact ⟨s, ok, (List.forall₂_cons.mp all).1 _ rfl⟩

theorem missingKeyMatched : ¬ ∀ (inherited : Record) (cs : Changeset), Accepted cs → ∀ (π : Type)
    (bound : Cell → Except String (PgBound π)) (statements : List (PgChangeStatement π)) (warnings : List Text),
    buildPgChangeStatements bound (readChanges inherited cs) = .ok (statements, warnings) →
      List.Forall₂ (fun change s => ∀ key ∈ rowKey change, Addressed (pgTerm bound) (pgForm cs) cs.keyColumns key s)
        cs.changes statements := by
  intro all
  have one : buildPgChangeStatements textBound (readChanges [] (oneDelete [])) =
      .ok ([⟨units "DELETE FROM \"t\" WHERE \"id\" IS NULL", [], units "DELETE FROM \"t\" WHERE \"id\" IS NULL;", 1⟩], []) := rfl
  obtain ⟨f, keys, -, -, pairs⟩ := (List.forall₂_cons.mp (all [] _ (oneAccepted []) _ textBound _ _ one)).1 [] rfl
  exact absurd (termCarried pairs _ List.mem_cons_self) nofun

end Builders

end DatabaseAdmin.RowAddresses
