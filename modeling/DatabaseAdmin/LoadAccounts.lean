import DatabaseAdmin.PacketBudgets
import DatabaseAdmin.PgLoads

/-! What the loaders report of a load that goes on after errors: how many rows were loaded, how many
failed, and which. -/
namespace DatabaseAdmin.LoadAccounts
open CodeUnits WireCells LoadTables PacketBudgets
open ImportRuns (OnConflict)
open PgLoads (requireKeys rechunk rechunkFrom batchRows)

section Servers

structure ServerError where
  message : Text
  code : Option Text

inductive Outcome (σ : Type) where
  | stored (after : σ)
  | ignored
  | rejected (error : ServerError)

-- What the server does with a row sent by itself, and whether it refuses a statement of several rows as a whole.
structure Server (σ : Type) where
  send : σ → Row → Outcome σ
  refuses : σ → List Row → Option ServerError

structure Stored (σ : Type) where
  state : σ
  rows : List Row

variable {σ : Type} (server : Server σ)

def eachRow : Stored σ → List Row → Except ServerError (Stored σ)
  | table, [] => .ok table
  | table, row :: rows =>
      match server.send table.state row with
      | .stored after => eachRow ⟨after, table.rows ++ [row]⟩ rows
      | .ignored => eachRow table rows
      | .rejected error => .error error

def statement (table : Stored σ) (rows : List Row) : Except ServerError (Stored σ) :=
  match rows with
  | [row] => eachRow server table [row]
  | rows =>
      match server.refuses table.state rows with
      | some error => .error error
      | none => eachRow server table rows

end Servers

section Tracking

structure LoadOptions where
  onConflict : OnConflict
  batchSize : Nat
  dryRun : Bool
  continueOnError : Bool
  maxErrors : Option Nat
  inTransaction : Bool

inductive Failure where
  | width (values columns : Nat)
  | keys (mode : OnConflict)
  | server (error : ServerError)

def modeWord : OnConflict → Text
  | .insert => units "insert"
  | .ignore => units "ignore"
  | .upsert => units "upsert"
  | .replace => units "replace"

def errorMessage : Failure → Text
  | .width values columns => units "Row has " ++ units (toString values) ++ units " values but " ++
      units (toString columns) ++ units " target columns are mapped"
  | .keys mode => units "On-conflict \"" ++ modeWord mode ++
      units "\" needs a unique key: the target table has no primary key and none was chosen."
  | .server error => error.message

def errorCode : Failure → Option Text
  | .server error => error.code
  | _ => none

structure LoadError where
  row : Nat
  message : Text
  code : Option Text
  sample : Text

def truncate (s : Text) (n : Nat) : Text := if s.length ≤ n then s else s.take n ++ [8230]

def sampleText : Cell → Text
  | .null => units "NULL"
  | .boolean value => units (if value then "true" else "false")
  | .number n => n.text
  | .tagged .bytes v _ => units "<" ++ units (toString v.length) ++ units " b64>"
  | .tagged _ v _ => v
  | .string text => text

def loadError (row : Nat) (failure : Failure) (sample : Row) : LoadError :=
  ⟨row, errorMessage failure, errorCode failure, truncate ((units " | ").intercalate (sample.map sampleText)) 240⟩

structure Tracker where
  rows : Nat
  batches : Nat
  skipped : Nat
  errors : List LoadError

def newTracker : Tracker := ⟨0, 0, 0, []⟩

def Tracker.advance (t : Tracker) (rows : Nat) : Tracker := { t with rows := t.rows + rows, batches := t.batches + 1 }

def maxErrors (opts : LoadOptions) : Nat := opts.maxErrors.getD 1000

def Tracker.fail (opts : LoadOptions) (t : Tracker) (row : Nat) (failure : Failure) (sample : Row) : Tracker :=
  { t with
    skipped := t.skipped + 1
    errors := if maxErrors opts ≤ t.errors.length then t.errors else t.errors ++ [loadError row failure sample] }

def runAll {α β ε : Type} (step : α → β → α × Option ε) : α → List β → α × Option ε
  | a, [] => (a, none)
  | a, b :: bs =>
      match step a b with
      | (a, none) => runAll step a bs
      | (a, some thrown) => (a, some thrown)

def checkWidth (table : LoadTable) (row : Row) : Option Failure :=
  if row.length = table.columns.length then none else some (.width row.length table.columns.length)

end Tracking

section DryRun
variable (table : LoadTable) (opts : LoadOptions)

def dryRow (t : Tracker) (numbered : Row × Nat) : Tracker × Option Failure :=
  match checkWidth table numbered.1 with
  | none => (t, none)
  | some failure => if opts.continueOnError then (t.fail opts (numbered.2 + 1) failure numbered.1, none) else (t, some failure)

def dryBatch (t : Tracker) (batch : List (Row × Nat)) : Tracker × Option Failure :=
  match runAll (dryRow table opts) t batch with
  | (t, none) => (t.advance batch.length, none)
  | (t, some failure) => (t, some failure)

def dryRun (rows : List Row) : Tracker × Option Failure :=
  runAll (dryBatch table opts) newTracker (rechunk (max 1 opts.batchSize) rows.zipIdx)

end DryRun

section Postgres
variable {σ : Type} (server : Server σ) (table : LoadTable) (opts : LoadOptions)

inductive Query where
  | savepoint (name : Text)
  | release (name : Text)
  | rollbackTo (name : Text)
  | insert (rows : List Row)

-- After an error a transaction takes nothing but a way back.
structure Session (σ : Type) where
  stored : Stored σ
  transaction : Bool
  failed : Bool
  saves : List (Text × Stored σ)

def abortedError : ServerError := ⟨units "current transaction is aborted, commands ignored until end of transaction block", some (units "25P02")⟩

def outsideError : ServerError := ⟨units "SAVEPOINT can only be used in transaction blocks", some (units "25P01")⟩

def unsavedError : ServerError := ⟨units "savepoint does not exist", some (units "3B001")⟩

def Session.fail (s : Session σ) (error : ServerError) : Session σ × Option ServerError :=
  ({ s with failed := s.transaction }, some error)

def Session.query (s : Session σ) : Query → Session σ × Option ServerError
  | .savepoint name =>
      if s.failed then s.fail abortedError
      else if s.transaction then ({ s with saves := (name, s.stored) :: s.saves }, none)
      else s.fail outsideError
  | .release name =>
      if s.failed then s.fail abortedError
      else
        match s.saves.dropWhile (·.1 ≠ name) with
        | [] => s.fail unsavedError
        | _ :: saves => ({ s with saves := saves }, none)
  | .rollbackTo name =>
      match s.saves.dropWhile (·.1 ≠ name) with
      | [] => s.fail unsavedError
      | save :: saves => ({ s with stored := save.2, failed := false, saves := save :: saves }, none)
  | .insert rows =>
      if s.failed then s.fail abortedError
      else
        match statement server s.stored rows with
        | .ok after => ({ s with stored := after }, none)
        | .error error => s.fail error

def batchPoint : Text := units "dbadmin_import"
def rowPoint : Text := units "dbadmin_import_row"

def attempt (name : Text) (rows : List Row) : List Query :=
  if opts.inTransaction then [.savepoint name, .insert rows, .release name] else [.insert rows]

def wayBack (name : Text) : List Query := if opts.inTransaction then [.rollbackTo name] else []

def pgInsertSql (rows : List Row) : Option Failure :=
  match rows.findSome? (checkWidth table) with
  | some failure => some failure
  | none => if requireKeys table opts.onConflict then none else some (.keys opts.onConflict)

structure PgLoad (σ : Type) where
  session : Session σ
  tracker : Tracker

structure PgRetry (σ : Type) extends PgLoad σ where
  ok : Nat

def pgRow (load : PgRetry σ) (numbered : Row × Nat) : PgRetry σ × Option Failure :=
  match pgInsertSql table opts [numbered.1] with
  | some failure => (load, some failure)
  | none =>
      match runAll (Session.query server) load.session (attempt opts rowPoint [numbered.1]) with
      | (session, none) => ({ load with session := session, ok := load.ok + 1 }, none)
      | (session, some error) =>
          match runAll (Session.query server) session (wayBack opts rowPoint) with
          | (session, none) =>
              ({ load with session := session, tracker := load.tracker.fail opts (numbered.2 + 1) (.server error) numbered.1 }, none)
          | (session, some worse) => ({ load with session := session }, some (.server worse))

def pgBatch (load : PgLoad σ) (batch : List (Row × Nat)) : PgLoad σ × Option Failure :=
  match pgInsertSql table opts (batch.map Prod.fst) with
  | some failure => (load, some failure)
  | none =>
      match runAll (Session.query server) load.session (attempt opts batchPoint (batch.map Prod.fst)) with
      | (session, none) => (⟨session, load.tracker.advance batch.length⟩, none)
      | (session, some error) =>
          match runAll (Session.query server) session (wayBack opts batchPoint) with
          | (session, some worse) => (⟨session, load.tracker⟩, some (.server worse))
          | (session, none) =>
              if opts.continueOnError then
                match runAll (pgRow server table opts) ⟨⟨session, load.tracker⟩, 0⟩ batch with
                | (retry, none) => (⟨retry.session, retry.tracker.advance retry.ok⟩, none)
                | (retry, some failure) => (retry.toPgLoad, some failure)
              else (⟨session, load.tracker⟩, some (.server error))

def pgInsertBatches (start : σ) (rows : List Row) : PgLoad σ × Option Failure :=
  runAll (pgBatch server table opts) ⟨⟨⟨start, []⟩, opts.inTransaction, false, []⟩, newTracker⟩
    (rechunk (batchRows table opts.batchSize) rows.zipIdx)

end Postgres

section Mysql
variable {σ : Type} (server : Server σ) (table : LoadTable) (opts : LoadOptions) (packet : Nat)

-- `statements` are the first attempts that were sent.
structure MysqlLoad (σ : Type) where
  stored : Stored σ
  tracker : Tracker
  pending : List (Row × Nat)
  pendingBytes : Nat
  statements : List (List Row)

structure MysqlRetry (σ : Type) where
  stored : Stored σ
  tracker : Tracker
  ok : Nat

def mysqlRetry (load : MysqlRetry σ) (numbered : Row × Nat) : MysqlRetry σ :=
  match statement server load.stored [numbered.1] with
  | .ok after => { load with stored := after, ok := load.ok + 1 }
  | .error error => { load with tracker := load.tracker.fail opts (numbered.2 + 1) (.server error) numbered.1 }

def mysqlFlush (load : MysqlLoad σ) : MysqlLoad σ × Option Failure :=
  if load.pending = [] then (load, none)
  else
    let rows := load.pending
    let load := { load with pending := [], pendingBytes := 0, statements := load.statements ++ [rows.map Prod.fst] }
    match statement server load.stored (rows.map Prod.fst) with
    | .ok after => ({ load with stored := after, tracker := load.tracker.advance rows.length }, none)
    | .error error =>
        if opts.continueOnError then
          let retry := rows.foldl (mysqlRetry server opts) ⟨load.stored, load.tracker, 0⟩
          ({ load with stored := retry.stored, tracker := retry.tracker.advance retry.ok }, none)
        else (load, some (.server error))

def mysqlRow (load : MysqlLoad σ) (numbered : Row × Nat) : MysqlLoad σ × Option Failure :=
  match checkWidth table numbered.1 with
  | some failure => (load, some failure)
  | none =>
      let load := { load with
        pending := load.pending ++ [numbered]
        pendingBytes := load.pendingBytes + rowBytes numbered.1 }
      if opts.batchSize ≤ load.pending.length ∨ budget packet ≤ load.pendingBytes then mysqlFlush server opts load else (load, none)

def mysqlInsertBatches (start : σ) (rows : List Row) : MysqlLoad σ × Option Failure :=
  match runAll (mysqlRow server table opts packet) ⟨⟨start, []⟩, newTracker, [], 0, []⟩ rows.zipIdx with
  | (load, none) => mysqlFlush server opts load
  | (load, some failure) => (load, some failure)

end Mysql

section Sqlite
variable {σ : Type} (server : Server σ) (table : LoadTable) (opts : LoadOptions)

structure SqliteLoad (σ : Type) where
  stored : Stored σ
  tracker : Tracker

structure SqliteRetry (σ : Type) extends SqliteLoad σ where
  ok : Nat

def sqliteRun (stored : Stored σ) (row : Row) : Stored σ × Option Failure :=
  match checkWidth table row with
  | some failure => (stored, some failure)
  | none =>
      match eachRow server stored [row] with
      | .ok after => (after, none)
      | .error error => (stored, some (.server error))

def sqliteRetry (load : SqliteRetry σ) (numbered : Row × Nat) : SqliteRetry σ :=
  match sqliteRun server table load.stored numbered.1 with
  | (stored, none) => { load with stored := stored, ok := load.ok + 1 }
  | (stored, some failure) =>
      { load with stored := stored, tracker := load.tracker.fail opts (numbered.2 + 1) failure numbered.1 }

def sqliteBatch (load : SqliteLoad σ) (batch : List (Row × Nat)) : SqliteLoad σ × Option Failure :=
  match runAll (sqliteRun server table) load.stored (batch.map Prod.fst) with
  | (stored, none) => (⟨stored, load.tracker.advance batch.length⟩, none)
  -- The savepoint brings back what the batch found.
  | (_, some failure) =>
      if opts.continueOnError then
        let retry := batch.foldl (sqliteRetry server table opts) ⟨load, 0⟩
        (⟨retry.stored, retry.tracker.advance retry.ok⟩, none)
      else (load, some failure)

def sqliteKeys (mode : OnConflict) : Bool := mode ≠ .upsert || !table.keyColumns.isEmpty

def loadSqlite (start : σ) (rows : List Row) : SqliteLoad σ × Option Failure :=
  if sqliteKeys table opts.onConflict then
    runAll (sqliteBatch server table opts) ⟨⟨start, []⟩, newTracker⟩ (rechunk (max 1 opts.batchSize) rows.zipIdx)
  else (⟨⟨start, []⟩, newTracker⟩, some (.keys opts.onConflict))

end Sqlite

section Accounts
variable {σ : Type} (server : Server σ) (table : LoadTable)

structure Account (σ : Type) where
  stored : Stored σ
  accepted : Nat
  ignored : Nat
  failures : List LoadError

def settleRow (a : Account σ) (numbered : Row × Nat) : Account σ :=
  match checkWidth table numbered.1 with
  | some failure => { a with failures := a.failures ++ [loadError (numbered.2 + 1) failure numbered.1] }
  | none =>
      match server.send a.stored.state numbered.1 with
      | .stored after => { a with stored := ⟨after, a.stored.rows ++ [numbered.1]⟩, accepted := a.accepted + 1 }
      | .ignored => { a with accepted := a.accepted + 1, ignored := a.ignored + 1 }
      | .rejected error => { a with failures := a.failures ++ [loadError (numbered.2 + 1) (.server error) numbered.1] }

def settle (a : Account σ) (rows : List (Row × Nat)) : Account σ := rows.foldl (settleRow server table) a

def opened (start : σ) : Account σ := ⟨⟨start, []⟩, 0, 0, []⟩

theorem settledSums (a : Account σ) (rows : List (Row × Nat)) :
    (settle server table a rows).accepted + (settle server table a rows).failures.length =
        a.accepted + a.failures.length + rows.length ∧
      (settle server table a rows).stored.rows.length + (settle server table a rows).ignored + a.accepted =
        (settle server table a rows).accepted + a.stored.rows.length + a.ignored := by
  induction rows generalizing a with
  | nil => exact ⟨rfl, by simp only [settle, List.foldl_nil]; omega⟩
  | cons row rows ih =>
    have later := ih (settleRow server table a row)
    have step : (settleRow server table a row).accepted + (settleRow server table a row).failures.length =
          a.accepted + a.failures.length + 1 ∧
        (settleRow server table a row).stored.rows.length + (settleRow server table a row).ignored + a.accepted =
          (settleRow server table a row).accepted + a.stored.rows.length + a.ignored := by
      unfold settleRow
      split
      · simp only [List.length_append, List.length_singleton]
        omega
      · split <;> simp only [List.length_append, List.length_singleton] <;> omega
    rw [settle, List.foldl_cons, ← settle, List.length_cons]
    omega

theorem settledFlat (a : Account σ) (groups : List (List (Row × Nat))) :
    groups.foldl (settle server table) a = settle server table a groups.flatten := by
  induction groups generalizing a with
  | nil => rfl
  | cons group groups ih => rw [List.foldl_cons, ih, List.flatten_cons, settle, settle, settle, List.foldl_append]

structure Matches (opts : LoadOptions) (t : Tracker) (a : Account σ) : Prop where
  rows : t.rows = a.accepted
  skipped : t.skipped = a.failures.length
  errors : t.errors = a.failures.take (maxErrors opts)

theorem failMatches {opts : LoadOptions} {t : Tracker} {a : Account σ} (matches' : Matches opts t a) (row : Nat)
    (failure : Failure) (sample : Row) :
    Matches opts (t.fail opts row failure sample) { a with failures := a.failures ++ [loadError row failure sample] } := by
  refine ⟨matches'.rows, by simp [Tracker.fail, matches'.skipped], ?_⟩
  have sized : t.errors.length = min (maxErrors opts) a.failures.length := by rw [matches'.errors, List.length_take]
  simp only [Tracker.fail]
  split
  · rename_i full
    rw [matches'.errors, List.take_append_of_le_length (by omega)]
  · rename_i room
    have short : a.failures.length < maxErrors opts := by omega
    rw [matches'.errors, List.take_of_length_le (by omega), List.take_of_length_le (by simp; omega)]

def Wide (rows : List (Row × Nat)) : Prop := ∀ numbered ∈ rows, checkWidth table numbered.1 = none

theorem eachSettles {a : Account σ} {rows : List (Row × Nat)} (wide : Wide table rows) {after : Stored σ}
    (done : eachRow server a.stored (rows.map Prod.fst) = .ok after) :
    (settle server table a rows).stored = after ∧ (settle server table a rows).accepted = a.accepted + rows.length ∧
      (settle server table a rows).failures = a.failures := by
  induction rows generalizing a with
  | nil => exact ⟨Except.ok.inj done, rfl, rfl⟩
  | cons row rows ih =>
    have own := wide row List.mem_cons_self
    have rest : Wide table rows := fun r member => wide r (List.mem_cons_of_mem _ member)
    simp only [List.map_cons, eachRow] at done
    rw [settle, List.foldl_cons, ← settle, List.length_cons]
    cases sent : server.send a.stored.state row.1 with
    | stored next =>
      simp only [sent] at done
      have step : settleRow server table a row =
          { a with stored := ⟨next, a.stored.rows ++ [row.1]⟩, accepted := a.accepted + 1 } := by
        simp [settleRow, own, sent]
      have later := ih (a := settleRow server table a row) rest (by rwa [step])
      simp only [step] at later ⊢
      exact ⟨later.1, by omega, later.2.2⟩
    | ignored =>
      simp only [sent] at done
      have step : settleRow server table a row = { a with accepted := a.accepted + 1, ignored := a.ignored + 1 } := by
        simp [settleRow, own, sent]
      have later := ih (a := settleRow server table a row) rest (by rwa [step])
      simp only [step] at later ⊢
      exact ⟨later.1, by omega, later.2.2⟩
    | rejected error => simp [sent] at done

theorem statementEach {stored after : Stored σ} {rows : List Row} (done : statement server stored rows = .ok after) :
    eachRow server stored rows = .ok after := by
  unfold statement at done
  split at done
  · exact done
  · split at done
    · contradiction
    · exact done

end Accounts

section Steps
variable {α β γ ε : Type} (step : α → β → α × Option ε)

theorem runKeeps (holds : α → γ → Prop) (next : γ → β → γ) (bs : List β)
    (keeps : ∀ b ∈ bs, ∀ a c, holds a c → ∃ a', step a b = (a', none) ∧ holds a' (next c b)) {a : α} {c : γ} (start : holds a c) :
    ∃ a', runAll step a bs = (a', none) ∧ holds a' (bs.foldl next c) := by
  induction bs generalizing a c with
  | nil => exact ⟨a, rfl, start⟩
  | cons b bs ih =>
    obtain ⟨a', stepped, held⟩ := keeps b List.mem_cons_self a c start
    obtain ⟨last, ran, kept⟩ := ih (fun b member => keeps b (List.mem_cons_of_mem _ member)) held
    exact ⟨last, by rw [runAll, stepped]; exact ran, kept⟩

theorem runThrows {bs : List β} {b : β} (member : b ∈ bs) (throws : ∀ a, (step a b).2 ≠ none) (a : α) :
    (runAll step a bs).2 ≠ none := by
  induction bs generalizing a with
  | nil => contradiction
  | cons other bs ih =>
    rw [runAll]
    split
    · rename_i a' calm
      rcases List.mem_cons.mp member with rfl | later
      · exact absurd (by rw [calm]) (throws a)
      · exact ih later a'
    · simp

end Steps

section Single
variable {σ : Type} (server : Server σ) (table : LoadTable) {opts : LoadOptions} {t : Tracker} {a : Account σ}

structure Retried (opts : LoadOptions) (stored : Stored σ) (t : Tracker) (ok : Nat) (a : Account σ) : Prop where
  stored : stored = a.stored
  tracked : Matches opts { t with rows := t.rows + ok } a

theorem sentStored {numbered : Row × Nat} (wide : checkWidth table numbered.1 = none) {after : Stored σ} {stored : Stored σ} {ok : Nat}
    (retried : Retried opts stored t ok a) (done : eachRow server stored [numbered.1] = .ok after) :
    Retried opts after t (ok + 1) (settleRow server table a numbered) := by
  obtain ⟨same, tracked⟩ := retried
  subst same
  have only : Wide table [numbered] := by simpa [Wide] using wide
  have one := eachSettles server table only done
  simp only [settle, List.foldl_cons, List.foldl_nil, List.length_singleton] at one
  refine ⟨one.1.symm, ?_, ?_, ?_⟩
  · rw [one.2.1, ← tracked.rows]
    exact (Nat.add_assoc _ _ _).symm
  · rw [one.2.2]
    exact tracked.skipped
  · rw [one.2.2]
    exact tracked.errors

theorem sentRejected {numbered : Row × Nat} (wide : checkWidth table numbered.1 = none) {error : ServerError} {stored : Stored σ}
    {ok : Nat} (retried : Retried opts stored t ok a) (refused : eachRow server stored [numbered.1] = .error error) :
    Retried opts stored (t.fail opts (numbered.2 + 1) (.server error) numbered.1) ok (settleRow server table a numbered) := by
  obtain ⟨same, tracked⟩ := retried
  subst same
  have rejected : server.send a.stored.state numbered.1 = .rejected error := by
    unfold eachRow at refused
    split at refused
    · contradiction
    · contradiction
    · rename_i sent
      cases refused
      exact sent
  have step : settleRow server table a numbered =
      { a with failures := a.failures ++ [loadError (numbered.2 + 1) (.server error) numbered.1] } := by
    simp [settleRow, wide, rejected]
  rw [step]
  exact ⟨rfl, failMatches tracked _ _ _⟩

theorem widthFailed {numbered : Row × Nat} {failure : Failure} (narrow : checkWidth table numbered.1 = some failure)
    {stored : Stored σ} {ok : Nat} (retried : Retried opts stored t ok a) :
    Retried opts stored (t.fail opts (numbered.2 + 1) failure numbered.1) ok (settleRow server table a numbered) := by
  obtain ⟨same, tracked⟩ := retried
  subst same
  have step : settleRow server table a numbered =
      { a with failures := a.failures ++ [loadError (numbered.2 + 1) failure numbered.1] } := by
    simp [settleRow, narrow]
  rw [step]
  exact ⟨rfl, failMatches tracked _ _ _⟩

theorem advanced {ok : Nat} (tracked : Matches opts { t with rows := t.rows + ok } a) : Matches opts (t.advance ok) a :=
  ⟨tracked.rows, tracked.skipped, tracked.errors⟩

theorem wholeAdvanced {batch : List (Row × Nat)} (wide : Wide table batch) {after : Stored σ}
    (tracked : Matches opts t a) (done : eachRow server a.stored (batch.map Prod.fst) = .ok after) :
    after = (settle server table a batch).stored ∧ Matches opts (t.advance batch.length) (settle server table a batch) := by
  have all := eachSettles server table wide done
  refine ⟨all.1.symm, ?_, ?_, ?_⟩
  · rw [all.2.1, ← tracked.rows]
    rfl
  · rw [all.2.2]
    exact tracked.skipped
  · rw [all.2.2]
    exact tracked.errors

theorem retriedStart {stored : Stored σ} (same : stored = a.stored) (tracked : Matches opts t a) : Retried opts stored t 0 a :=
  ⟨same, tracked⟩

end Single

section Postgres
variable {σ : Type} (server : Server σ) (table : LoadTable) {opts : LoadOptions}

structure Calm (opts : LoadOptions) (s : Session σ) (stored : Stored σ) : Prop where
  stored : s.stored = stored
  transaction : s.transaction = opts.inTransaction
  failed : s.failed = false

theorem attempted {s : Session σ} {stored : Stored σ} (calm : Calm opts s stored) (name : Text) (rows : List Row) :
    match statement server stored rows with
    | .ok after => ∃ s', runAll (Session.query server) s (attempt opts name rows) = (s', none) ∧ Calm opts s' after
    | .error error => ∃ s', runAll (Session.query server) s (attempt opts name rows) = (s', some error) ∧
        ∃ s'', runAll (Session.query server) s' (wayBack opts name) = (s'', none) ∧ Calm opts s'' stored := by
  obtain ⟨rfl, kind, quiet⟩ := calm
  cases inside : opts.inTransaction with
  | false =>
    rw [inside] at kind
    cases done : statement server s.stored rows with
    | ok after =>
      exact ⟨{ s with stored := after }, by simp [attempt, inside, runAll, Session.query, quiet, done], rfl,
        by rw [inside]; exact kind, quiet⟩
    | error error =>
      refine ⟨{ s with failed := s.transaction }, by simp [attempt, inside, runAll, Session.query, quiet, done, Session.fail],
        { s with failed := s.transaction }, by simp [wayBack, inside, runAll], rfl, by rw [inside]; exact kind, kind⟩
  | true =>
    rw [inside] at kind
    cases done : statement server s.stored rows with
    | ok after =>
      refine ⟨{ s with stored := after }, ?_, rfl, by rw [inside]; exact kind, quiet⟩
      simp [attempt, inside, runAll, Session.query, quiet, kind, done]
    | error error =>
      refine ⟨{ s with saves := (name, s.stored) :: s.saves, failed := true }, ?_,
        { s with saves := (name, s.stored) :: s.saves, failed := false }, ?_, rfl, by rw [inside]; exact kind, rfl⟩
      · simp [attempt, inside, runAll, Session.query, quiet, kind, done, Session.fail]
      · simp [wayBack, inside, runAll, Session.query]

theorem pgInsertWide {rows : List (Row × Nat)} (keyed : requireKeys table opts.onConflict = true) (wide : Wide table rows) :
    pgInsertSql table opts (rows.map Prod.fst) = none := by
  have none' : (rows.map Prod.fst).findSome? (checkWidth table) = none := by
    rw [List.findSome?_eq_none_iff]
    exact List.forall_mem_map.mpr wide
  simp [pgInsertSql, none', keyed]

theorem pgInsertNarrow {rows : List (Row × Nat)} {row : Row × Nat} (member : row ∈ rows)
    (narrow : checkWidth table row.1 ≠ none) : pgInsertSql table opts (rows.map Prod.fst) ≠ none := by
  cases found : (rows.map Prod.fst).findSome? (checkWidth table) with
  | none => exact absurd (List.findSome?_eq_none_iff.mp found row.1 (List.mem_map_of_mem member)) narrow
  | some failure => simp [pgInsertSql, found]

structure PgHolds (opts : LoadOptions) (load : PgLoad σ) (a : Account σ) : Prop where
  calm : Calm opts load.session a.stored
  tracked : Matches opts load.tracker a

structure PgRetries (opts : LoadOptions) (load : PgRetry σ) (a : Account σ) : Prop where
  calm : Calm opts load.session a.stored
  retried : Retried opts a.stored load.tracker load.ok a

theorem pgRowKeeps (keyed : requireKeys table opts.onConflict = true) {numbered : Row × Nat}
    (wide : checkWidth table numbered.1 = none) {load : PgRetry σ} {a : Account σ} (holds : PgRetries opts load a) :
    ∃ load', pgRow server table opts load numbered = (load', none) ∧ PgRetries opts load' (settleRow server table a numbered) := by
  have only : Wide table [numbered] := by simpa [Wide] using wide
  have legal := pgInsertWide table keyed only
  have tried := attempted server holds.calm rowPoint [numbered.1]
  have single : statement server a.stored [numbered.1] = eachRow server a.stored [numbered.1] := rfl
  simp only [pgRow, show pgInsertSql table opts [numbered.1] = none from legal]
  cases done : eachRow server a.stored [numbered.1] with
  | ok after =>
    rw [single, done] at tried
    obtain ⟨s', ran, calm⟩ := tried
    have next := sentStored server table wide holds.retried done
    exact ⟨_, by rw [ran], next.stored ▸ calm, ⟨rfl, next.tracked⟩⟩
  | error error =>
    rw [single, done] at tried
    obtain ⟨s', ran, s'', back, calm⟩ := tried
    have next := sentRejected server table wide holds.retried done
    exact ⟨_, by rw [ran]; simp only [back]; rfl, next.stored ▸ calm, ⟨rfl, next.tracked⟩⟩

theorem pgBatchKeeps (going : opts.continueOnError = true) (keyed : requireKeys table opts.onConflict = true)
    {batch : List (Row × Nat)} (wide : Wide table batch) {load : PgLoad σ} {a : Account σ} (holds : PgHolds opts load a) :
    ∃ load', pgBatch server table opts load batch = (load', none) ∧ PgHolds opts load' (settle server table a batch) := by
  have tried := attempted server holds.calm batchPoint (batch.map Prod.fst)
  simp only [pgBatch, pgInsertWide table keyed wide]
  cases done : statement server a.stored (batch.map Prod.fst) with
  | ok after =>
    rw [done] at tried
    obtain ⟨s', ran, calm⟩ := tried
    have next := wholeAdvanced server table wide holds.tracked (statementEach server done)
    exact ⟨_, by rw [ran], next.1 ▸ calm, next.2⟩
  | error error =>
    rw [done] at tried
    obtain ⟨s', ran, s'', back, calm⟩ := tried
    have start : PgRetries opts ⟨⟨s'', load.tracker⟩, 0⟩ a := ⟨calm, retriedStart rfl holds.tracked⟩
    obtain ⟨retry, retried, kept⟩ := runKeeps (pgRow server table opts) (PgRetries opts)
      (settleRow server table) batch (fun numbered member load a => pgRowKeeps server table keyed (wide numbered member)) start
    exact ⟨⟨retry.session, retry.tracker.advance retry.ok⟩, by rw [ran]; simp only [back, going, if_true, retried], kept.calm,
      advanced kept.retried.tracked⟩

end Postgres

section Mysql
variable {σ : Type} (server : Server σ) (table : LoadTable) {opts : LoadOptions} (packet : Nat)

structure MysqlHolds (opts : LoadOptions) (load : MysqlLoad σ) (c : Account σ) : Prop where
  wide : Wide table load.pending
  settled : ∃ a : Account σ, load.stored = a.stored ∧ Matches opts load.tracker a ∧ settle server table a load.pending = c

theorem mysqlRetries {rows : List (Row × Nat)} (wide : Wide table rows) (load : MysqlRetry σ) {a : Account σ}
    (retried : Retried opts load.stored load.tracker load.ok a) :
    Retried opts (rows.foldl (mysqlRetry server opts) load).stored (rows.foldl (mysqlRetry server opts) load).tracker
      (rows.foldl (mysqlRetry server opts) load).ok (settle server table a rows) := by
  induction rows generalizing load a with
  | nil => exact retried
  | cons row rows ih =>
    have own := wide row List.mem_cons_self
    refine ih (fun r member => wide r (List.mem_cons_of_mem _ member)) _ ?_
    have single : statement server load.stored [row.1] = eachRow server load.stored [row.1] := rfl
    unfold mysqlRetry
    rw [single]
    split
    · rename_i after done
      exact sentStored server table own retried done
    · rename_i error refused
      exact sentRejected server table own retried refused

theorem mysqlFlushKeeps (going : opts.continueOnError = true) {load : MysqlLoad σ} {c : Account σ}
    (holds : MysqlHolds server table opts load c) :
    ∃ load', mysqlFlush server opts load = (load', none) ∧ load'.pending = [] ∧ MysqlHolds server table opts load' c := by
  unfold mysqlFlush
  split
  · rename_i empty
    exact ⟨load, rfl, empty, holds⟩
  · obtain ⟨wide, a, same, tracked, rfl⟩ := holds
    have none' : Wide table ([] : List (Row × Nat)) := by simp [Wide]
    cases done : statement server load.stored (load.pending.map Prod.fst) with
    | ok after =>
      simp only [done]
      have each := statementEach server done
      rw [same] at each
      have next := wholeAdvanced server table wide tracked each
      exact ⟨_, rfl, rfl, none', settle server table a load.pending, next.1, next.2, rfl⟩
    | error error =>
      simp only [done]
      have next := mysqlRetries server table wide ⟨load.stored, load.tracker, 0⟩ (retriedStart same tracked)
      exact ⟨_, rfl, rfl, none', settle server table a load.pending, next.stored, advanced next.tracked, rfl⟩

theorem mysqlRowKeeps (going : opts.continueOnError = true) {numbered : Row × Nat} (own : checkWidth table numbered.1 = none)
    {load : MysqlLoad σ} {c : Account σ} (holds : MysqlHolds server table opts load c) :
    ∃ load', mysqlRow server table opts packet load numbered = (load', none) ∧
      MysqlHolds server table opts load' (settleRow server table c numbered) := by
  obtain ⟨wide, a, same, tracked, rfl⟩ := holds
  have grown : MysqlHolds server table opts
      { load with pending := load.pending ++ [numbered], pendingBytes := load.pendingBytes + rowBytes numbered.1 }
      (settleRow server table (settle server table a load.pending) numbered) := by
    refine ⟨?_, a, same, tracked, by simp [settle, List.foldl_append]⟩
    intro row member
    rcases List.mem_append.mp member with before | last
    · exact wide row before
    · rw [List.mem_singleton.mp last]
      exact own
  simp only [mysqlRow, own]
  split
  · obtain ⟨load', sent, -, kept⟩ := mysqlFlushKeeps server table going grown
    exact ⟨load', sent, kept⟩
  · exact ⟨_, rfl, grown⟩

end Mysql

section Sqlite
variable {σ : Type} (server : Server σ) (table : LoadTable) {opts : LoadOptions}

theorem sqliteRetries (rows : List (Row × Nat)) (load : SqliteRetry σ) {a : Account σ}
    (retried : Retried opts load.stored load.tracker load.ok a) :
    Retried opts (rows.foldl (sqliteRetry server table opts) load).stored (rows.foldl (sqliteRetry server table opts) load).tracker
      (rows.foldl (sqliteRetry server table opts) load).ok (settle server table a rows) := by
  induction rows generalizing load a with
  | nil => exact retried
  | cons row rows ih =>
    refine ih _ ?_
    cases own : checkWidth table row.1 with
    | some failure =>
      simp only [sqliteRetry, sqliteRun, own]
      exact widthFailed server table own retried
    | none =>
      cases done : eachRow server load.stored [row.1] with
      | ok after =>
        simp only [sqliteRetry, sqliteRun, own, done]
        exact sentStored server table own retried done
      | error error =>
        simp only [sqliteRetry, sqliteRun, own, done]
        exact sentRejected server table own retried done

theorem sqliteWhole {stored after : Stored σ} {rows : List (Row × Nat)}
    (ran : runAll (sqliteRun server table) stored (rows.map Prod.fst) = (after, none)) :
    Wide table rows ∧ eachRow server stored (rows.map Prod.fst) = .ok after := by
  induction rows generalizing stored with
  | nil =>
    cases ran
    exact ⟨by simp [Wide], rfl⟩
  | cons row rows ih =>
    simp only [List.map_cons, runAll, sqliteRun, eachRow] at ran
    cases own : checkWidth table row.1 with
    | some failure => simp [own] at ran
    | none =>
      simp only [own] at ran
      simp only [List.map_cons, eachRow]
      cases sent : server.send stored.state row.1 with
      | rejected error => simp [sent] at ran
      | stored next =>
        simp only [sent] at ran
        have later := ih ran
        exact ⟨List.forall_mem_cons.mpr ⟨own, later.1⟩, later.2⟩
      | ignored =>
        simp only [sent] at ran
        have later := ih ran
        exact ⟨List.forall_mem_cons.mpr ⟨own, later.1⟩, later.2⟩

structure SqliteHolds (opts : LoadOptions) (load : SqliteLoad σ) (a : Account σ) : Prop where
  stored : load.stored = a.stored
  tracked : Matches opts load.tracker a

theorem sqliteBatchKeeps (going : opts.continueOnError = true) (batch : List (Row × Nat)) {load : SqliteLoad σ} {a : Account σ}
    (holds : SqliteHolds opts load a) :
    ∃ load', sqliteBatch server table opts load batch = (load', none) ∧ SqliteHolds opts load' (settle server table a batch) := by
  obtain ⟨same, tracked⟩ := holds
  unfold sqliteBatch
  split
  · rename_i after ran
    obtain ⟨wide, done⟩ := sqliteWhole server table ran
    rw [same] at done
    have next := wholeAdvanced server table wide tracked done
    exact ⟨_, rfl, next.1, next.2⟩
  · rw [if_pos going]
    have next := sqliteRetries server table batch ⟨load, 0⟩ (retriedStart same tracked)
    exact ⟨_, rfl, next.stored, advanced next.tracked⟩

end Sqlite

section DryRun
variable (table : LoadTable) {opts : LoadOptions}

def isWide (row : Row) : Bool := (checkWidth table row).isNone

def checking : Server Unit := ⟨fun _ _ => .stored (), fun _ _ => none⟩

structure DryHolds (opts : LoadOptions) (count : Nat) (t : Tracker) (a : Account Unit) : Prop where
  rows : t.rows = count
  tracked : Matches opts { t with rows := a.accepted } a

theorem dryRowKeeps (going : opts.continueOnError = true) (numbered : Row × Nat) {count : Nat} {t : Tracker} {a : Account Unit}
    (holds : DryHolds opts count t a) :
    ∃ t', dryRow table opts t numbered = (t', none) ∧ DryHolds opts count t' (settleRow checking table a numbered) := by
  cases own : checkWidth table numbered.1 with
  | none =>
    have step : settleRow checking table a numbered =
        { a with stored := ⟨(), a.stored.rows ++ [numbered.1]⟩, accepted := a.accepted + 1 } := by
      simp [settleRow, own, checking]
    rw [step]
    exact ⟨t, by simp [dryRow, own], holds.rows, rfl, holds.tracked.skipped, holds.tracked.errors⟩
  | some failure =>
    have step : settleRow checking table a numbered =
        { a with failures := a.failures ++ [loadError (numbered.2 + 1) failure numbered.1] } := by
      simp [settleRow, own]
    rw [step]
    exact ⟨t.fail opts (numbered.2 + 1) failure numbered.1, by simp [dryRow, own, going], holds.rows,
      failMatches holds.tracked _ _ _⟩

def Dry (opts : LoadOptions) (t : Tracker) (a : Account Unit) : Prop := DryHolds opts (a.accepted + a.failures.length) t a

theorem dryBatchKeeps (going : opts.continueOnError = true) (batch : List (Row × Nat)) {t : Tracker} {a : Account Unit}
    (holds : Dry opts t a) :
    ∃ t', dryBatch table opts t batch = (t', none) ∧ Dry opts t' (settle checking table a batch) := by
  obtain ⟨t', ran, kept⟩ := runKeeps (dryRow table opts) (DryHolds opts (a.accepted + a.failures.length))
    (settleRow checking table) batch (fun numbered _ t a => dryRowKeeps table going numbered) holds
  refine ⟨t'.advance batch.length, by rw [dryBatch, ran], ?_, kept.tracked.rows, kept.tracked.skipped, kept.tracked.errors⟩
  rw [(settledSums checking table a batch).1]
  exact congrArg (· + batch.length) kept.rows

theorem checkedRows (a : Account Unit) (rows : List (Row × Nat)) :
    (settle checking table a rows).accepted = a.accepted + (rows.filter fun numbered => isWide table numbered.1).length := by
  induction rows generalizing a with
  | nil => rfl
  | cons row rows ih =>
    rw [settle, List.foldl_cons, ← settle, ih, List.filter_cons]
    cases own : checkWidth table row.1 with
    | none =>
      simp only [settleRow, own, checking, isWide, Option.isNone_none, if_true, List.length_cons]
      omega
    | some failure => simp [settleRow, own, isWide]

end DryRun

section Results
variable {σ : Type} (server : Server σ) (table : LoadTable) (opts : LoadOptions) (packet : Nat)

inductive Loader where
  | postgres | mysql | sqlite
  deriving DecidableEq

structure Loaded (σ : Type) where
  stored : Stored σ
  tracker : Tracker
  thrown : Option Failure

def load (loader : Loader) (start : σ) (batches : List (List Row)) : Loaded σ :=
  if opts.dryRun then
    let run := dryRun table opts batches.flatten
    ⟨⟨start, []⟩, run.1, run.2⟩
  else
    match loader with
    | .postgres =>
        let run := pgInsertBatches server table opts start batches.flatten
        ⟨run.1.session.stored, run.1.tracker, run.2⟩
    | .mysql =>
        let run := mysqlInsertBatches server table opts packet start batches.flatten
        ⟨run.1.stored, run.1.tracker, run.2⟩
    | .sqlite =>
        let run := loadSqlite server table opts start batches.flatten
        ⟨run.1.stored, run.1.tracker, run.2⟩

def dueFailures (start : σ) (rows : List Row) : List LoadError :=
  if opts.dryRun then (settle checking table (opened ()) rows.zipIdx).failures
  else (settle server table (opened start) rows.zipIdx).failures

def storedCount (rows : List Row) (stored : Stored σ) : Nat :=
  if opts.dryRun then (rows.filter (isWide table)).length else stored.rows.length

structure Balanced (loader : Loader) (start : σ) (batches : List (List Row)) : Prop where
  returned : (load server table opts packet loader start batches).thrown = none
  balance : (load server table opts packet loader start batches).tracker.rows +
    (load server table opts packet loader start batches).tracker.skipped = batches.flatten.length
  loaded : (load server table opts packet loader start batches).tracker.rows =
    storedCount table opts batches.flatten (load server table opts packet loader start batches).stored
  reported : (load server table opts packet loader start batches).tracker.errors =
    (dueFailures server table opts start batches.flatten).take (maxErrors opts)

def keyed (loader : Loader) : Bool :=
  match loader with
  | .postgres => requireKeys table opts.onConflict
  | .mysql => true
  | .sqlite => sqliteKeys table opts.onConflict

def AllStored (start : σ) (rows : List Row) : Prop := (settle server table (opened start) rows.zipIdx).ignored = 0

def Countable (loader : Loader) (start : σ) (rows : List Row) : Prop :=
  if opts.dryRun then ∀ row ∈ rows, isWide table row = true
  else (loader ≠ .sqlite → ∀ row ∈ rows, isWide table row = true) ∧ AllStored server table start rows

variable {server table opts packet} {loader : Loader} {start : σ} {batches : List (List Row)}

theorem wideRows {rows : List Row} : (∀ row ∈ rows, isWide table row = true) ↔ Wide table rows.zipIdx := by
  simp only [isWide, Option.isNone_iff_eq_none, Wide]
  constructor
  · exact fun each numbered member => each numbered.1 (List.fst_mem_of_mem_zipIdx member)
  · intro each row member
    obtain ⟨i, inside, rfl⟩ := List.mem_iff_getElem.mp member
    exact each (rows[i], i) (List.mk_mem_zipIdx_iff_getElem?.mpr (List.getElem?_eq_getElem inside))

theorem dryBalanced (dry : opts.dryRun = true) (going : opts.continueOnError = true) :
    Balanced server table opts packet loader start batches ↔ ∀ row ∈ batches.flatten, isWide table row = true := by
  have first : Dry opts newTracker (opened ()) := ⟨rfl, rfl, rfl, by simp [newTracker, opened]⟩
  obtain ⟨t, ran, kept⟩ := runKeeps (dryBatch table opts) (Dry opts) (settle checking table)
    (rechunk (max 1 opts.batchSize) batches.flatten.zipIdx) (fun batch _ t a => dryBatchKeeps table going batch) first
  have flat : (rechunk (max 1 opts.batchSize) batches.flatten.zipIdx).flatten = batches.flatten.zipIdx :=
    PgLoads.rechunkFlat [] batches.flatten.zipIdx
  rw [settledFlat, flat] at kept
  have sums := settledSums checking table (opened ()) batches.flatten.zipIdx
  have passed := checkedRows table (opened ()) batches.flatten.zipIdx
  have counted : (batches.flatten.zipIdx.filter fun numbered => isWide table numbered.1).length =
      (batches.flatten.filter (isWide table)).length := by
    conv_rhs => rw [← List.zipIdx_map_fst 0 batches.flatten, List.filter_map, List.length_map]
    rfl
  have whole : load server table opts packet loader start batches = ⟨⟨start, []⟩, t, none⟩ := by
    simp only [load, dry, if_true, dryRun, ran]
  simp only [opened, List.length_nil, Nat.zero_add, Nat.add_zero, List.length_zipIdx] at sums passed
  rw [counted] at passed
  rw [← List.length_filter_eq_length_iff]
  have rows := kept.rows
  have skipped := kept.tracked.skipped
  simp only [opened] at rows skipped
  constructor
  · intro balanced
    have balance : t.rows + t.skipped = batches.flatten.length := by
      have own := balanced.balance
      rwa [whole] at own
    omega
  · intro full
    refine ⟨by rw [whole], ?_, ?_, ?_⟩
    · rw [whole]
      show t.rows + t.skipped = _
      omega
    · rw [whole, storedCount, if_pos dry]
      show t.rows = _
      omega
    · rw [whole, dueFailures, if_pos dry]
      exact kept.tracked.errors

theorem settledBalanced (wet : opts.dryRun = false)
    (returned : (load server table opts packet loader start batches).thrown = none)
    (stored : (load server table opts packet loader start batches).stored =
      (settle server table (opened start) batches.flatten.zipIdx).stored)
    (tracked : Matches opts (load server table opts packet loader start batches).tracker
      (settle server table (opened start) batches.flatten.zipIdx)) :
    Balanced server table opts packet loader start batches ↔ AllStored server table start batches.flatten := by
  have sums := settledSums server table (opened start) batches.flatten.zipIdx
  have rows := tracked.rows
  have skipped := tracked.skipped
  simp only [opened, List.length_nil, Nat.zero_add, Nat.add_zero, List.length_zipIdx] at sums rows skipped
  have count : storedCount table opts batches.flatten (load server table opts packet loader start batches).stored =
      (settle server table (opened start) batches.flatten.zipIdx).stored.rows.length := by
    rw [storedCount, if_neg (by simp [wet]), stored]
  simp only [opened] at count
  constructor
  · intro balanced
    have loaded := balanced.loaded
    rw [count] at loaded
    show (settle server table (opened start) batches.flatten.zipIdx).ignored = 0
    simp only [opened]
    omega
  · intro all
    have none' : (settle server table (opened start) batches.flatten.zipIdx).ignored = 0 := all
    simp only [opened] at none'
    refine ⟨returned, by omega, by rw [count]; omega, ?_⟩
    rw [dueFailures, if_neg (by simp [wet])]
    exact tracked.errors

variable (going : opts.continueOnError = true) (wet : opts.dryRun = false)
include going wet

theorem pgBalanced (keys : requireKeys table opts.onConflict = true) :
    Balanced server table opts packet .postgres start batches ↔
      (∀ row ∈ batches.flatten, isWide table row = true) ∧ AllStored server table start batches.flatten := by
  have flat : (rechunk (batchRows table opts.batchSize) batches.flatten.zipIdx).flatten = batches.flatten.zipIdx :=
    PgLoads.rechunkFlat [] batches.flatten.zipIdx
  have whole : load server table opts packet .postgres start batches =
      ⟨(pgInsertBatches server table opts start batches.flatten).1.session.stored,
        (pgInsertBatches server table opts start batches.flatten).1.tracker,
        (pgInsertBatches server table opts start batches.flatten).2⟩ := by
    simp [load, wet]
  rw [wideRows]
  by_cases wide : Wide table batches.flatten.zipIdx
  · rw [and_iff_right wide]
    have first : PgHolds opts ⟨⟨⟨start, []⟩, opts.inTransaction, false, []⟩, newTracker⟩ (opened start) :=
      ⟨⟨rfl, rfl, rfl⟩, rfl, rfl, by simp [newTracker, opened]⟩
    have each : ∀ batch ∈ rechunk (batchRows table opts.batchSize) batches.flatten.zipIdx, Wide table batch :=
      fun batch member row inside => wide row (flat ▸ List.mem_flatten_of_mem member inside)
    obtain ⟨last, ran, kept⟩ := runKeeps (pgBatch server table opts) (PgHolds opts) (settle server table)
      (rechunk (batchRows table opts.batchSize) batches.flatten.zipIdx) (fun batch member load a => pgBatchKeeps server table going keys (each batch member)) first
    rw [settledFlat, flat] at kept
    have done : pgInsertBatches server table opts start batches.flatten = (last, none) := ran
    rw [done] at whole
    exact settledBalanced wet (by rw [whole]) (by rw [whole]; exact kept.calm.stored) (by rw [whole]; exact kept.tracked)
  · refine iff_of_false (fun balanced => ?_) fun both => wide both.1
    unfold Wide at wide
    push Not at wide
    obtain ⟨row, member, narrow⟩ := wide
    obtain ⟨batch, among, inside⟩ := List.mem_flatten.mp (flat ▸ member)
    have returned := balanced.returned
    rw [whole] at returned
    refine runThrows (pgBatch server table opts) among (fun load => ?_) _ returned
    have throws := @pgInsertNarrow table opts batch row inside narrow
    unfold pgBatch
    split
    · simp
    · contradiction

theorem mysqlBalanced : Balanced server table opts packet .mysql start batches ↔
    (∀ row ∈ batches.flatten, isWide table row = true) ∧ AllStored server table start batches.flatten := by
  have whole : load server table opts packet .mysql start batches =
      ⟨(mysqlInsertBatches server table opts packet start batches.flatten).1.stored,
        (mysqlInsertBatches server table opts packet start batches.flatten).1.tracker,
        (mysqlInsertBatches server table opts packet start batches.flatten).2⟩ := by
    simp [load, wet]
  rw [wideRows]
  by_cases wide : Wide table batches.flatten.zipIdx
  · rw [and_iff_right wide]
    have first : MysqlHolds server table opts ⟨⟨start, []⟩, newTracker, [], 0, []⟩ (opened start) :=
      ⟨by simp [Wide], opened start, rfl, ⟨rfl, rfl, by simp [newTracker, opened]⟩, rfl⟩
    obtain ⟨last, ran, kept⟩ := runKeeps (mysqlRow server table opts packet) (MysqlHolds server table opts) (settleRow server table)
      batches.flatten.zipIdx (fun row member load a => mysqlRowKeeps server table packet going (wide row member)) first
    obtain ⟨end', sent, empty, held⟩ := mysqlFlushKeeps server table going kept
    have done : mysqlInsertBatches server table opts packet start batches.flatten = (end', none) := by
      rw [mysqlInsertBatches, ran]
      exact sent
    obtain ⟨-, a, stored, tracked, same⟩ := held
    rw [empty] at same
    have account : a = settle server table (opened start) batches.flatten.zipIdx := same
    subst account
    rw [done] at whole
    exact settledBalanced wet (by rw [whole]) (by rw [whole]; exact stored) (by rw [whole]; exact tracked)
  · refine iff_of_false (fun balanced => ?_) fun both => wide both.1
    unfold Wide at wide
    push Not at wide
    obtain ⟨row, member, narrow⟩ := wide
    have returned := balanced.returned
    rw [whole] at returned
    have throws := runThrows (mysqlRow server table opts packet) member (fun load => by
      unfold mysqlRow
      split
      · simp
      · contradiction) ⟨⟨start, []⟩, newTracker, [], 0, []⟩
    refine throws ?_
    simp only [mysqlInsertBatches] at returned
    split at returned
    · rename_i ran
      rw [ran]
    · contradiction

theorem sqliteBalanced (keys : sqliteKeys table opts.onConflict = true) :
    Balanced server table opts packet .sqlite start batches ↔ AllStored server table start batches.flatten := by
  have flat : (rechunk (max 1 opts.batchSize) batches.flatten.zipIdx).flatten = batches.flatten.zipIdx :=
    PgLoads.rechunkFlat [] batches.flatten.zipIdx
  have first : SqliteHolds opts ⟨⟨start, []⟩, newTracker⟩ (opened start) := ⟨rfl, rfl, rfl, by simp [newTracker, opened]⟩
  obtain ⟨last, ran, kept⟩ := runKeeps (sqliteBatch server table opts) (SqliteHolds opts) (settle server table)
    (rechunk (max 1 opts.batchSize) batches.flatten.zipIdx) (fun batch _ load a => sqliteBatchKeeps server table going batch)
    first
  rw [settledFlat, flat] at kept
  have whole : load server table opts packet .sqlite start batches = ⟨last.stored, last.tracker, none⟩ := by
    simp [load, wet, loadSqlite, keys, ran]
  exact settledBalanced wet (by rw [whole]) (by rw [whole]; exact kept.stored) (by rw [whole]; exact kept.tracked)

end Results

section Main

theorem loadBalances {σ : Type} (server : Server σ) (table : LoadTable) (opts : LoadOptions) (packet : Nat) (loader : Loader) (start : σ)
    (batches : List (List Row)) (going : opts.continueOnError = true) (keys : keyed table opts loader = true) :
    Balanced server table opts packet loader start batches ↔ Countable server table opts loader start batches.flatten := by
  unfold Countable
  cases dry : opts.dryRun with
  | true => exact dryBalanced dry going
  | false =>
    cases loader with
    | postgres => simpa using pgBalanced going dry keys
    | mysql => simpa using mysqlBalanced going dry
    | sqlite => simpa using sqliteBalanced going dry keys

section Examples

def oneColumn : LoadTable := ⟨none, units "t", [units "a"], [], [], by decide⟩

def afterErrors (dryRun : Bool) : LoadOptions := ⟨.insert, 2, dryRun, true, none, false⟩

def strict : Server Unit :=
  ⟨fun _ row => if row = [.null] then .rejected ⟨units "not null", none⟩ else .stored (), fun _ _ => none⟩

theorem strictBalanced : Balanced strict oneColumn (afterErrors false) 64 .sqlite () [[[.boolean true], [.null]], [[]]] :=
  (loadBalances strict oneColumn (afterErrors false) 64 .sqlite () [[[.boolean true], [.null]], [[]]] rfl (by decide)).mpr
    ⟨by simp, rfl⟩

-- A dry run counts a row of another width as loaded and as skipped.
theorem narrowTwice : ¬∀ (σ : Type) (server : Server σ) (table : LoadTable) (opts : LoadOptions) (packet : Nat) (loader : Loader)
    (start : σ) (batches : List (List Row)), opts.continueOnError = true → keyed table opts loader = true →
    Balanced server table opts packet loader start batches := by
  intro balanced
  have balance := (balanced Unit strict oneColumn (afterErrors true) 64 .postgres () [[[]]] rfl (by decide)).balance
  have counted : (load strict oneColumn (afterErrors true) 64 .postgres () [[[]]]).tracker.rows +
      (load strict oneColumn (afterErrors true) 64 .postgres () [[[]]]).tracker.skipped = 2 := rfl
  rw [counted] at balance
  contradiction

end Examples

end Main

end DatabaseAdmin.LoadAccounts
