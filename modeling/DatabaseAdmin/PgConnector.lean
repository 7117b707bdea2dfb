import DatabaseAdmin.ConnectorPool
import DatabaseAdmin.SqlQuote

/-! The PostgreSQL connector's operations on its pool. The server's side of a client is its
search_path and its transaction block; a SET made inside a block is undone with it. -/
namespace DatabaseAdmin.PgConnector
open CodeUnits ConnectorPool Function

structure PgSession where
  path : Text
  inTx : Bool
  failed : Bool
  saved : Text
  deriving DecidableEq

def beginTx (σ : PgSession) : PgSession :=
  if σ.inTx then σ else { σ with inTx := true, failed := false, saved := σ.path }

def rollbackTx (σ : PgSession) : PgSession :=
  if σ.inTx then { σ with path := σ.saved, inTx := false, failed := false } else σ

def commitTx (σ : PgSession) : PgSession :=
  if σ.failed then rollbackTx σ else { σ with inTx := false }

def raise (σ : PgSession) : PgSession := { σ with failed := σ.inTx }

def setPath (want : Text) (σ : PgSession) : Option PgSession :=
  if σ.inTx && σ.failed then none else some { σ with path := want }

inductive PgStatement where
  | begins
  | commits
  | rollsBack
  | setsPath (path : Text)
  | other (answer : PgSession → PgSession)

def PgStatement.effect : PgStatement → PgSession → PgSession
  | .begins, σ => beginTx σ
  | .commits, σ => commitTx σ
  | .rollsBack, σ => rollbackTx σ
  | .setsPath path, σ => (setPath path σ).getD σ
  | .other answer, σ => answer σ

inductive SessionCommand where
  | begin | commit | rollback
  deriving DecidableEq

def SessionCommand.effect : SessionCommand → PgSession → PgSession
  | .begin, σ => beginTx σ
  | .commit, σ => commitTx σ
  | .rollback, σ => rollbackTx σ

-- A refused COMMIT rolls the block back, any other refusal leaves it failed.
def SessionCommand.refused : SessionCommand → PgSession → PgSession
  | .commit, σ => rollbackTx σ
  | _, σ => raise σ

inductive ChangeOutcome where
  | matched | mismatched | error
  deriving DecidableEq

structure PgConfig where
  defaultSchema : Option Text
  readOnly : Bool

def escapeIdentifier (name : Text) : Text :=
  doubleQuote :: replaceUnit doubleQuote [doubleQuote, doubleQuote] name ++ [doubleQuote]

def pathOf (schema : Option Text) (fallback : Text) : Text :=
  match schema with
  | some (c :: rest) => escapeIdentifier (c :: rest) ++ units ", \"$user\", public"
  | _ => fallback

def PgConfig.defaultSearchPath (cfg : PgConfig) : Text :=
  pathOf cfg.defaultSchema (units "\"$user\", public")

abbrev PgState (κ ι : Type) := PoolState κ ι PgSession Text

def PgConfig.connected (cfg : PgConfig) (κ ι : Type) : PgState κ ι :=
  opened κ ι Text ⟨cfg.defaultSearchPath, false, false, []⟩

inductive PgAction (κ ι : Type) where
  | query (lease : LeaseOf κ ι) (schema : Option Text) (statement : PgStatement) (keeps : Option ι)
  | stream (lease : LeaseOf κ ι) (schema : Option Text) (statement : PgStatement)
  | fetchMore (cursor : ι) (ends : Bool)
  | closeCursor (cursor : ι)
  | countTable (client : κ) (statement : PgStatement)
  | applyChangeset (client : κ) (outcomes : List ChangeOutcome)
  | explain (client : κ) (analyze : Bool) (statement : PgStatement)
  | openSession (id : ι) (client : κ)
  | sessionCommand (id : ι) (cmd : SessionCommand) (ok : Bool)
  | closeSession (id : ι)

section Operations
variable {κ ι : Type} [DecidableEq κ] [DecidableEq ι]

def sendPg (s : PgState κ ι) (c : κ) (asked : Text) (f : PgSession → PgSession) : PgState κ ι :=
  send PgSession.path s c asked f

-- `none` when the server refuses the SET, which fails the request.
def ensureSearchPath (cfg : PgConfig) (s : PgState κ ι) (c : κ) (schema : Option Text) :
    Option (PgState κ ι) :=
  let want := pathOf schema cfg.defaultSearchPath
  if (s.cache c).getD cfg.defaultSearchPath = want then some (remember s c want)
  else (setPath want (s.server c)).map (fun σ => remember (answer s c (fun _ => σ)) c want)

def query (cfg : PgConfig) (schema : Option Text) (statement : PgStatement) (keeps : Option ι)
    (s : PgState κ ι) (c : κ) (pinned : Bool) : Option (PgState κ ι) :=
  match ensureSearchPath cfg s c schema with
  | none => finishRead s c pinned none
  | some s => finishRead (sendPg s c (pathOf schema cfg.defaultSearchPath) statement.effect) c pinned
      keeps

def countTable (cfg : PgConfig) (s : PgState κ ι) (c : κ) (statement : PgStatement) : PgState κ ι :=
  release (sendPg s c cfg.defaultSearchPath statement.effect) c

def applyStatements (cfg : PgConfig) (s : PgState κ ι) (c : κ) : List ChangeOutcome → PgState κ ι
  | [] => answer s c commitTx
  | .matched :: rest => applyStatements cfg (sendPg s c cfg.defaultSearchPath id) c rest
  | .mismatched :: _ => answer (sendPg s c cfg.defaultSearchPath id) c rollbackTx
  | .error :: _ => answer (sendPg s c cfg.defaultSearchPath raise) c rollbackTx

def applyChangeset (cfg : PgConfig) (s : PgState κ ι) (c : κ) (outcomes : List ChangeOutcome) :
    PgState κ ι :=
  release (applyStatements cfg (answer s c beginTx) c outcomes) c

def explain (cfg : PgConfig) (s : PgState κ ι) (c : κ) (analyze : Bool) (statement : PgStatement) :
    PgState κ ι :=
  if analyze then
    release (answer (sendPg (answer s c beginTx) c cfg.defaultSearchPath statement.effect) c
      rollbackTx) c
  else release (sendPg s c cfg.defaultSearchPath statement.effect) c

def sessionCommand (s : PgState κ ι) (id : ι) (cmd : SessionCommand) (ok : Bool) : PgState κ ι :=
  match s.sessions id with
  | none => s
  | some e =>
      if ok then flagSession (answer s e.client cmd.effect) id e.client (decide (cmd = .begin))
      else answer s e.client cmd.refused

def closeSession (s : PgState κ ι) (id : ι) : PgState κ ι :=
  match s.sessions id with
  | none => s
  | some e =>
      if e.inTransaction then endSession (answer s e.client rollbackTx) id e.client
      else endSession s id e.client

def step (cfg : PgConfig) (s : PgState κ ι) : PgAction κ ι → Option (PgState κ ι)
  | .query lease schema statement keeps => withLease s lease (query cfg schema statement keeps)
  | .stream lease schema statement => withLease s lease (query cfg schema statement none)
  | .fetchMore cursor ends => some (fetchMore s cursor ends)
  | .closeCursor cursor => some (closeCursor s cursor)
  | .countTable c statement => (checkout s c).map (fun s => countTable cfg s c statement)
  | .applyChangeset c outcomes =>
      if cfg.readOnly || outcomes.isEmpty then some s
      else (checkout s c).map (fun s => applyChangeset cfg s c outcomes)
  | .explain c analyze statement => (checkout s c).map (fun s => explain cfg s c analyze statement)
  | .openSession id c => openSession s id c
  | .sessionCommand id cmd ok => some (sessionCommand s id cmd ok)
  | .closeSession id => some (closeSession s id)

omit [DecidableEq ι] in
theorem ensureHeld {cfg : PgConfig} (s : PgState κ ι) (c : κ) (schema : Option Text) (h : Option (Holder ι)) :
    ensureSearchPath cfg (hold s c h) c schema =
      (ensureSearchPath cfg s c schema).map (fun s => hold s c h) := by
  unfold ensureSearchPath
  rw [apply_ite (Option.map (fun s => hold s c h)), Option.map_map]
  rfl

end Operations

end DatabaseAdmin.PgConnector
