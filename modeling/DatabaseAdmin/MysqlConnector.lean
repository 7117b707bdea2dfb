import DatabaseAdmin.ConnectorPool

/-! The MySQL connector's operations on its pool. The server's side of a connection is its
current database and whether a transaction is open. -/
namespace DatabaseAdmin.MysqlConnector
open CodeUnits ConnectorPool Function

structure MysqlSession where
  db : Option Text
  inTx : Bool
  deriving DecidableEq

def beginTransaction (σ : MysqlSession) : MysqlSession := { σ with inTx := true }

def endTransaction (σ : MysqlSession) : MysqlSession := { σ with inTx := false }

inductive MysqlStatement where
  | begins
  | ends
  | uses (db : Text)
  | other (answer : MysqlSession → MysqlSession)

def MysqlStatement.effect : MysqlStatement → MysqlSession → MysqlSession
  | .begins, σ => beginTransaction σ
  | .ends, σ => endTransaction σ
  | .uses db, σ => { σ with db := some db }
  | .other answer, σ => answer σ

inductive SessionCommand where
  | begin | commit | rollback
  deriving DecidableEq

def SessionCommand.effect : SessionCommand → MysqlSession → MysqlSession
  | .begin, σ => beginTransaction σ
  | .commit, σ => endTransaction σ
  | .rollback, σ => endTransaction σ

def SessionCommand.refused : SessionCommand → MysqlSession → MysqlSession
  | .commit, σ => endTransaction σ
  | _, σ => σ

inductive ChangeOutcome where
  | matched | mismatched | error
  deriving DecidableEq

structure MysqlConfig where
  database : Option Text
  readOnly : Bool

def nonEmpty (name : Option Text) : Option Text := name.filter (fun text => !text.isEmpty)

def MysqlConfig.want (cfg : MysqlConfig) (database : Option Text) : Option Text :=
  nonEmpty (database.or cfg.database)

def MysqlConfig.asked (cfg : MysqlConfig) (database : Option Text) : Option Text :=
  (nonEmpty database).or (nonEmpty cfg.database)

abbrev MysqlState (κ ι : Type) := PoolState κ ι MysqlSession (Option Text)

def MysqlConfig.connected (cfg : MysqlConfig) (κ ι : Type) : MysqlState κ ι :=
  opened κ ι (Option Text) ⟨nonEmpty cfg.database, false⟩

inductive MysqlAction (κ ι : Type) where
  | query (lease : LeaseOf κ ι) (database : Option Text) (known : Bool)
      (statement : MysqlStatement) (keeps : Option ι)
  | stream (lease : LeaseOf κ ι) (database : Option Text) (known : Bool) (statement : MysqlStatement)
  | fetchMore (cursor : ι) (ends : Bool)
  | closeCursor (cursor : ι)
  | countTable (client : κ) (schema : Option Text) (statement : MysqlStatement)
  | explain (client : κ) (statement : MysqlStatement)
  | applyChangeset (client : κ) (schema : Option Text) (known : Bool) (outcomes : List ChangeOutcome)
  | openSession (id : ι) (client : κ)
  | sessionCommand (id : ι) (cmd : SessionCommand) (ok : Bool)
  | closeSession (id : ι)

section Operations
variable {κ ι : Type} [DecidableEq κ] [DecidableEq ι]

def sendMysql (s : MysqlState κ ι) (c : κ) (asked : Option Text) (f : MysqlSession → MysqlSession) :
    MysqlState κ ι :=
  send MysqlSession.db s c asked f

-- `known` is whether the server accepts the USE; a refusal fails the request.
def ensureDatabase (cfg : MysqlConfig) (s : MysqlState κ ι) (c : κ) (database : Option Text)
    (known : Bool) : Option (MysqlState κ ι) :=
  match cfg.want database with
  | none => some s
  | some want =>
      if s.cache c = some want then some s
      else if known then some (remember (answer s c (fun σ => { σ with db := some want })) c want)
      else none

def query (cfg : MysqlConfig) (database : Option Text) (known : Bool) (statement : MysqlStatement)
    (keeps : Option ι) (s : MysqlState κ ι) (c : κ) (pinned : Bool) : Option (MysqlState κ ι) :=
  match ensureDatabase cfg s c database known with
  | none => finishRead s c pinned none
  | some s => finishRead (sendMysql s c (cfg.asked database) statement.effect) c pinned keeps

def poolQuery (cfg : MysqlConfig) (s : MysqlState κ ι) (c : κ) (database : Option Text)
    (statement : MysqlStatement) : MysqlState κ ι :=
  release (sendMysql s c (cfg.asked database) statement.effect) c

def applyStatements (asked : Option Text) (s : MysqlState κ ι) (c : κ) :
    List ChangeOutcome → MysqlState κ ι
  | [] => answer s c endTransaction
  | .matched :: rest => applyStatements asked (sendMysql s c asked id) c rest
  | .mismatched :: _ | .error :: _ => answer (sendMysql s c asked id) c endTransaction

def applyChangeset (cfg : MysqlConfig) (s : MysqlState κ ι) (c : κ) (schema : Option Text)
    (known : Bool) (outcomes : List ChangeOutcome) : MysqlState κ ι :=
  match ensureDatabase cfg s c schema known with
  | none => release (answer s c endTransaction) c
  | some s => release (applyStatements (cfg.asked schema) (answer s c beginTransaction) c outcomes) c

def sessionCommand (s : MysqlState κ ι) (id : ι) (cmd : SessionCommand) (ok : Bool) :
    MysqlState κ ι :=
  match s.sessions id with
  | none => s
  | some e =>
      if ok then flagSession (answer s e.client cmd.effect) id e.client (decide (cmd = .begin))
      else answer s e.client cmd.refused

def closeSession (s : MysqlState κ ι) (id : ι) : MysqlState κ ι :=
  match s.sessions id with
  | none => s
  | some e =>
      if e.inTransaction then endSession (answer s e.client endTransaction) id e.client
      else endSession s id e.client

def step (cfg : MysqlConfig) (s : MysqlState κ ι) : MysqlAction κ ι → Option (MysqlState κ ι)
  | .query lease database known statement keeps =>
      withLease s lease (query cfg database known statement keeps)
  | .stream lease database known statement =>
      withLease s lease (query cfg database known statement none)
  | .fetchMore cursor ends => some (fetchMore s cursor ends)
  | .closeCursor cursor => some (closeCursor s cursor)
  | .countTable c schema statement =>
      (checkout s c).map (fun s => poolQuery cfg s c schema statement)
  | .explain c statement => (checkout s c).map (fun s => poolQuery cfg s c none statement)
  | .applyChangeset c schema known outcomes =>
      if cfg.readOnly || outcomes.isEmpty then some s
      else (checkout s c).map (fun s => applyChangeset cfg s c schema known outcomes)
  | .openSession id c => openSession s id c
  | .sessionCommand id cmd ok => some (sessionCommand s id cmd ok)
  | .closeSession id => some (closeSession s id)

omit [DecidableEq ι] in
theorem ensureHeld {cfg : MysqlConfig} (s : MysqlState κ ι) (c : κ) (database : Option Text) (known : Bool)
    (h : Option (Holder ι)) : ensureDatabase cfg (hold s c h) c database known =
      (ensureDatabase cfg s c database known).map (fun s => hold s c h) := by
  unfold ensureDatabase
  split
  · rfl
  · rw [apply_ite (Option.map (fun s => hold s c h)), apply_ite (Option.map (fun s => hold s c h))]
    rfl

end Operations

end DatabaseAdmin.MysqlConnector
