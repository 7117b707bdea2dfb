import DatabaseAdmin.ExplainEffects
import DatabaseAdmin.StatementGuards

/-! A DDL script run statement by statement on one pinned session. -/
namespace DatabaseAdmin.DdlRuns
open CodeUnits StatementGuards Transactions Connection
open ExplainEffects (Outcome TxCommand)

inductive DdlEngine where
  | postgres
  | sqlite
  deriving DecidableEq

def DdlEngine.dialect : DdlEngine → SqlDialect
  | .postgres => .postgres
  | .sqlite => .sqlite

structure Settings where
  foreignKeys : Bool
  legacyAlterTable : Bool
  deriving DecidableEq

inductive Pragma where
  | foreignKeys
  | legacyAlterTable

inductive Command (δ ν : Type) where
  | control (cmd : TxCommand ν)
  | pragma (setting : Pragma) (on : Bool)
  | change (run : Settings → δ → Outcome δ)
  | read (rows : Settings → δ → Option Nat)

structure Handle (δ ν : Type) where
  connection : Connection δ ν
  settings : Settings
  commits : Nat

structure Database (δ ν : Type) where
  engine : DdlEngine
  commandsOf : Text → List (Command δ ν)
  accepts : Settings → δ → Bool
  rollbackText : commandsOf (units "ROLLBACK") = [.control .rollback]

section Engine
variable {δ ν : Type}

def Handle.isOpen (h : Handle δ ν) : Bool := h.connection.transaction.isSome

def idle (contents : δ) (settings : Settings) : Handle δ ν := ⟨⟨contents, none⟩, settings, 0⟩

def Handle.onto (h : Handle δ ν) (c : Connection δ ν) : Handle δ ν := { h with connection := c }

def Handle.permanent (h : Handle δ ν) (c : Connection δ ν) : Handle δ ν :=
  { h with connection := c, commits := h.commits + 1 }

variable [DecidableEq ν]

-- PostgreSQL only warns about BEGIN inside a transaction and COMMIT or ROLLBACK outside one. When a
-- deferred constraint refuses the COMMIT, PostgreSQL rolls back and SQLite stays in the transaction.
def control (db : Database δ ν) (h : Handle δ ν) : TxCommand ν → Handle δ ν × Bool
  | .begin => if h.isOpen then (h, db.engine = .postgres) else (h.onto h.connection.start, true)
  | .commit =>
      if !h.isOpen then (h, db.engine = .postgres)
      else if db.accepts h.settings h.connection.seen then (h.permanent h.connection.keep, true)
      else if db.engine = .postgres then (h.onto h.connection.discard, false) else (h, false)
  | .rollback => if h.isOpen then (h.onto h.connection.discard, true) else (h, db.engine = .postgres)
  | .savepoint n =>
      if !h.isOpen && db.engine = .postgres then (h, false) else (h.onto (h.connection.savepoint n), true)
  | .release n => match h.connection.release n with
    | none => (h, false)
    | some c =>
        if c.transaction.isSome then (h.onto c, true)
        else if db.accepts h.settings h.connection.seen then (h.permanent c, true) else (h, false)
  | .rollbackTo n => match h.connection.rollbackTo n with
    | none => (h, false)
    | some c => (h.onto c, true)

def setPragma (h : Handle δ ν) (setting : Pragma) (on : Bool) : Handle δ ν :=
  match setting with
  | .foreignKeys => if h.isOpen then h else { h with settings := { h.settings with foreignKeys := on } }
  | .legacyAlterTable => { h with settings := { h.settings with legacyAlterTable := on } }

def run (db : Database δ ν) (h : Handle δ ν) : Command δ ν → Handle δ ν × Option Nat
  | .control cmd => let (h', ok) := control db h cmd; (h', if ok then some 0 else none)
  | .pragma setting on => if db.engine = .sqlite then (setPragma h setting on, some 0) else (h, none)
  | .change f => match f h.settings h.connection.seen with
    | .changed d =>
        (if h.isOpen then h.onto (h.connection.write d) else h.permanent (h.connection.write d), some 0)
    | .failed => (h, none)
    | .rolledBack => (h.onto h.connection.discard, none)
  | .read rows => (h, rows h.settings h.connection.seen)

def runCommands (db : Database δ ν) (h : Handle δ ν) : List (Command δ ν) → Handle δ ν × Option Nat
  | [] => (h, some 0)
  | c :: rest => match run db h c with
    | (h', none) => (h', none)
    | (h', some rows) => if rest.isEmpty then (h', some rows) else runCommands db h' rest

def query (db : Database δ ν) (h : Handle δ ν) (text : Text) : Handle δ ν × Option Nat :=
  let commands := db.commandsOf text
  let (h', rows) := runCommands db h commands
  (h', rows.map fun n => if db.engine = .sqlite ∧ 1 < commands.length then 0 else n)

end Engine

section Route
variable {δ ν : Type} [DecidableEq ν]

def isForeignKeyCheck (text : Text) : Bool :=
  (indexOf (units "foreign_key_check") (text.map lowerUnit)).isSome

def runStatements (db : Database δ ν) (h : Handle δ ν) : List Text → Handle δ ν × Bool
  | [] => (h, false)
  | text :: rest => match query db h text with
    | (h', none) => (h', true)
    | (h', some rows) => if isForeignKeyCheck text && 0 < rows then (h', true) else runStatements db h' rest

inductive SessionCommand where
  | begin
  | commit
  | rollback
  deriving DecidableEq

def SessionCommand.control : SessionCommand → TxCommand ν
  | .begin => .begin
  | .commit => .commit
  | .rollback => .rollback

structure Session (δ ν : Type) where
  handle : Handle δ ν
  inTransaction : Bool

-- SQLite looks at the session's flag and at the handle before it commits or rolls back.
def sessionCommand (db : Database δ ν) (s : Session δ ν) (cmd : SessionCommand) : Session δ ν × Bool :=
  match db.engine with
  | .postgres =>
      let (h, ok) := control db s.handle cmd.control
      (⟨h, if ok then cmd = .begin else s.inTransaction⟩, ok)
  | .sqlite =>
      if cmd ≠ .begin && !s.inTransaction then (s, true)
      else if cmd ≠ .begin && !s.handle.isOpen then (⟨s.handle, false⟩, true)
      else
        let (h, ok) := control db s.handle cmd.control
        (⟨h, if ok then h.isOpen else s.inTransaction⟩, ok)

def closeSession (db : Database δ ν) (s : Session δ ν) : Handle δ ν :=
  if s.inTransaction then (sessionCommand db s .rollback).1.handle else s.handle

def selfManaged (db : Database δ ν) (texts : List Text) : Bool :=
  texts.any fun text => classifyStatement text db.engine.dialect = .transaction

structure DdlResult (δ ν : Type) where
  handle : Handle δ ν
  failed : Bool
  rolledBack : Bool

-- A COMMIT that fails is thrown out of the route, past the closing of the session.
def execute (db : Database δ ν) (h : Handle δ ν) (texts : List Text) : DdlResult δ ν :=
  if selfManaged db texts then
    let (ran, failed) := runStatements db h texts
    if failed then
      let (rolled, answer) := query db ran (units "ROLLBACK")
      ⟨closeSession db ⟨rolled, false⟩, true, answer.isSome⟩
    else ⟨closeSession db ⟨ran, false⟩, false, false⟩
  else
    let (session, ok) := sessionCommand db ⟨h, false⟩ .begin
    if !ok then ⟨closeSession db session, true, false⟩
    else
      let (ran, failed) := runStatements db session.handle texts
      let (ended, ok) := sessionCommand db { session with handle := ran } (if failed then .rollback else .commit)
      ⟨closeSession db ended, failed || !ok, failed && ok⟩

end Route

section Remains
variable {δ ν : Type}

structure LeavesNothing (contents : δ) (settings : Settings) (h : Handle δ ν) : Prop where
  contents : h.commits = 0 → h.connection.committed = contents
  closed : h.connection.transaction = none
  settings : h.settings = settings

structure Ran (δ ν : Type) where
  command : Command δ ν
  inTransaction : Bool

def Settings.after (s : Settings) (r : Ran δ ν) : Settings :=
  match r.command with
  | .pragma .foreignKeys on => if r.inTransaction then s else { s with foreignKeys := on }
  | .pragma .legacyAlterTable on => { s with legacyAlterTable := on }
  | _ => s

structure Since (h h' : Handle δ ν) : Prop where
  more : h.commits ≤ h'.commits
  same : h'.commits = h.commits → h'.connection.committed = h.connection.committed

theorem sinceRefl (h : Handle δ ν) : Since h h := ⟨Nat.le_refl _, fun _ => rfl⟩

theorem sinceTrans {h h' h'' : Handle δ ν} (first : Since h h') (second : Since h' h'') : Since h h'' := by
  refine ⟨Nat.le_trans first.more second.more, ?_⟩
  intro equal
  have before := first.more
  have after := second.more
  rw [second.same (by omega), first.same (by omega)]

theorem sincePermanent (h : Handle δ ν) (c : Connection δ ν) : Since h (h.permanent c) :=
  ⟨Nat.le_succ _, fun equal => absurd equal (Nat.succ_ne_self _)⟩

theorem sinceOnto (h : Handle δ ν) {c : Connection δ ν} (same : c.committed = h.connection.committed) :
    Since h (h.onto c) := ⟨Nat.le_refl _, fun _ => same⟩

theorem writeOpen {h : Handle δ ν} (opened : h.isOpen = true) (d : δ) :
    (h.connection.write d).committed = h.connection.committed := by
  cases inside : h.connection.transaction with
  | none => simp [Handle.isOpen, inside] at opened
  | some t => simp [Connection.write, inside]

theorem savepointCommitted (c : Connection δ ν) (n : ν) : (c.savepoint n).committed = c.committed := by
  obtain ⟨committed, transaction⟩ := c
  cases transaction <;> rfl

variable [DecidableEq ν] {db : Database δ ν} {h h' : Handle δ ν}

theorem releaseCommitted {c d : Connection δ ν} {n : ν} (released : c.release n = some d)
    (inside : d.transaction.isSome = true) : d.committed = c.committed := by
  simp only [Connection.release] at released
  split at released
  · contradiction
  · split at released
    · contradiction
    · split at released
      · cases released
        rfl
      · cases released
        contradiction

theorem rollbackToCommitted {c d : Connection δ ν} {n : ν} (back : c.rollbackTo n = some d) :
    d.committed = c.committed := by
  simp only [Connection.rollbackTo] at back
  split at back
  · contradiction
  · split at back
    · contradiction
    · cases back
      rfl

theorem controlSince (db : Database δ ν) (h : Handle δ ν) (cmd : TxCommand ν) :
    Since h (control db h cmd).1 ∧ (control db h cmd).1.settings = h.settings := by
  cases cmd <;> simp only [control]
  case begin =>
    split
    · exact ⟨sinceRefl h, rfl⟩
    · exact ⟨sinceOnto h rfl, rfl⟩
  case commit =>
    split
    · exact ⟨sinceRefl h, rfl⟩
    · split
      · exact ⟨sincePermanent h _, rfl⟩
      · split
        · exact ⟨sinceOnto h rfl, rfl⟩
        · exact ⟨sinceRefl h, rfl⟩
  case rollback =>
    split
    · exact ⟨sinceOnto h rfl, rfl⟩
    · exact ⟨sinceRefl h, rfl⟩
  case savepoint n =>
    split
    · exact ⟨sinceRefl h, rfl⟩
    · exact ⟨sinceOnto h (savepointCommitted _ n), rfl⟩
  case release n =>
    split
    · exact ⟨sinceRefl h, rfl⟩
    · rename_i c released
      split
      · rename_i inside
        exact ⟨sinceOnto h (releaseCommitted released inside), rfl⟩
      · split
        · exact ⟨sincePermanent h c, rfl⟩
        · exact ⟨sinceRefl h, rfl⟩
  case rollbackTo n =>
    split
    · exact ⟨sinceRefl h, rfl⟩
    · rename_i c back
      exact ⟨sinceOnto h (rollbackToCommitted back), rfl⟩

theorem runSince (db : Database δ ν) (h : Handle δ ν) (c : Command δ ν) : Since h (run db h c).1 := by
  cases c <;> simp only [run]
  case control cmd => exact (controlSince db h cmd).1
  case pragma setting on =>
    split
    · cases setting <;> simp only [setPragma]
      · split <;> exact ⟨Nat.le_refl _, fun _ => rfl⟩
      · exact ⟨Nat.le_refl _, fun _ => rfl⟩
    · exact sinceRefl h
  case change f =>
    split
    · rename_i d _
      split
      · rename_i opened
        exact sinceOnto h (writeOpen opened d)
      · exact sincePermanent h _
    · exact sinceRefl h
    · exact sinceOnto h rfl
  case read => exact sinceRefl h

theorem runCommandsSince (db : Database δ ν) (h : Handle δ ν) (commands : List (Command δ ν)) :
    Since h (runCommands db h commands).1 := by
  induction commands generalizing h with
  | nil => exact sinceRefl h
  | cons c rest ih =>
    have first := runSince db h c
    simp only [runCommands]
    split
    · rename_i h' stopped
      exact stopped ▸ first
    · rename_i h' rows went
      rw [went] at first
      split
      · exact first
      · exact sinceTrans first (ih h')

theorem runStatementsSince (db : Database δ ν) (h : Handle δ ν) (texts : List Text) :
    Since h (runStatements db h texts).1 := by
  induction texts generalizing h with
  | nil => exact sinceRefl h
  | cons text rest ih =>
    have first : Since h (query db h text).1 := runCommandsSince db h _
    simp only [runStatements]
    split
    · rename_i h' stopped
      rw [stopped] at first
      exact first
    · rename_i h' rows went
      rw [went] at first
      split
      · exact first
      · exact sinceTrans first (ih h')

def ranOf (db : Database δ ν) (h : Handle δ ν) : List (Command δ ν) → List (Ran δ ν)
  | [] => []
  | c :: rest => match run db h c with
    | (_, none) => []
    | (h', some _) => ⟨c, h.isOpen⟩ :: ranOf db h' rest

def ranBefore (db : Database δ ν) (h : Handle δ ν) : List Text → List (Ran δ ν)
  | [] => []
  | text :: rest => ranOf db h (db.commandsOf text) ++ match query db h text with
    | (_, none) => []
    | (h', some rows) => if isForeignKeyCheck text && 0 < rows then [] else ranBefore db h' rest

theorem runSettings {c : Command δ ν} {answer : Option Nat} (went : run db h c = (h', answer)) :
    h'.settings = if answer.isSome then h.settings.after ⟨c, h.isOpen⟩ else h.settings := by
  cases c <;> simp only [run] at went
  case control cmd =>
    have same := (controlSince db h cmd).2
    cases went
    split <;> exact same
  case pragma setting on =>
    split at went
    · cases went
      cases setting with
      | foreignKeys => cases inside : h.isOpen <;> simp [setPragma, Settings.after, inside]
      | legacyAlterTable => rfl
    · cases went
      rfl
  case change f =>
    split at went
    · cases went
      split <;> rfl
    · cases went
      rfl
    · cases went
      rfl
  case read =>
    cases went
    split <;> rfl

theorem runCommandsSettings (db : Database δ ν) (h : Handle δ ν) (commands : List (Command δ ν)) :
    (runCommands db h commands).1.settings = (ranOf db h commands).foldl Settings.after h.settings := by
  induction commands generalizing h with
  | nil => rfl
  | cons c rest ih =>
    simp only [runCommands, ranOf]
    split
    · rename_i h' stopped
      simpa using runSettings stopped
    · rename_i h' rows went
      have first := runSettings went
      simp only [Option.isSome_some, if_true] at first
      rw [List.foldl_cons, ← first, ← ih h']
      split
      · rename_i last
        rw [List.isEmpty_iff.mp last]
        rfl
      · rfl

theorem runStatementsSettings (db : Database δ ν) (h : Handle δ ν) (texts : List Text) :
    (runStatements db h texts).1.settings = (ranBefore db h texts).foldl Settings.after h.settings := by
  induction texts generalizing h with
  | nil => rfl
  | cons text rest ih =>
    have first : (query db h text).1.settings = (ranOf db h (db.commandsOf text)).foldl Settings.after h.settings :=
      runCommandsSettings db h _
    simp only [runStatements, ranBefore, List.foldl_append]
    split
    · rename_i h' stopped
      rw [stopped] at first
      exact first
    · rename_i h' rows went
      rw [went] at first
      rw [← first]
      split
      · rfl
      · exact ih h'

def started (db : Database δ ν) (contents : δ) (settings : Settings) (texts : List Text) : Handle δ ν :=
  if selfManaged db texts then idle contents settings
  else (idle contents settings).onto (idle contents settings).connection.start

def PragmasUndone (db : Database δ ν) (contents : δ) (settings : Settings) (texts : List Text) : Prop :=
  (ranBefore db (started db contents settings texts) texts).foldl Settings.after settings = settings

omit [DecidableEq ν] in
theorem startedSince (db : Database δ ν) (contents : δ) (settings : Settings) (texts : List Text) :
    Since (idle contents settings) (started db contents settings texts) := by
  simp only [started]
  split
  · exact sinceRefl _
  · exact sinceOnto _ rfl

omit [DecidableEq ν] in
theorem startedSettings (db : Database δ ν) (contents : δ) (settings : Settings) (texts : List Text) :
    (started db contents settings texts).settings = settings := by
  simp only [started]
  split <;> rfl

theorem sessionBegins (db : Database δ ν) (contents : δ) (settings : Settings) :
    sessionCommand db ⟨idle contents settings, false⟩ .begin =
      (⟨(idle contents settings).onto (idle contents settings).connection.start, true⟩, true) := by
  cases engine : db.engine <;>
    simp [sessionCommand, engine, SessionCommand.control, control, idle, Handle.isOpen, Handle.onto, Connection.start]

theorem rollbackQuery (db : Database δ ν) (h : Handle δ ν) :
    (query db h (units "ROLLBACK")).1 = (control db h .rollback).1 := by
  simp only [query, db.rollbackText, runCommands, run]
  split <;> simp_all

structure Ended (h h' : Handle δ ν) : Prop where
  commits : h'.commits = h.commits
  committed : h'.connection.committed = h.connection.committed
  settings : h'.settings = h.settings
  closed : h'.connection.transaction = none

theorem endedControl (db : Database δ ν) (h : Handle δ ν) : Ended h (control db h .rollback).1 := by
  cases opened : h.isOpen with
  | true =>
    simp only [control, opened, if_true]
    exact ⟨rfl, rfl, rfl, rfl⟩
  | false =>
    simp only [control, opened, Bool.false_eq_true, if_false]
    exact ⟨rfl, rfl, rfl, by simpa [Handle.isOpen] using opened⟩

theorem commitRefusedKeeps (db : Database δ ν) (h : Handle δ ν) (refused : (control db h .commit).2 = false) :
    (control db h .commit).1.commits = h.commits ∧
      (control db h .commit).1.connection.committed = h.connection.committed := by
  simp only [control] at refused ⊢
  split
  · exact ⟨rfl, rfl⟩
  · split
    · simp_all
    · split <;> exact ⟨rfl, rfl⟩

theorem sessionRollsBack (db : Database δ ν) (h : Handle δ ν) :
    Ended h (sessionCommand db ⟨h, true⟩ .rollback).1.handle := by
  cases engine : db.engine with
  | postgres =>
    simp only [sessionCommand, engine]
    exact endedControl db h
  | sqlite =>
    simp only [sessionCommand, engine]
    split
    · contradiction
    · split
      · rename_i closed
        exact ⟨rfl, rfl, rfl, by simpa [Handle.isOpen] using closed⟩
      · exact endedControl db h

theorem closeEnds (db : Database δ ν) (s : Session δ ν)
    (live : s.inTransaction = true ∨ s.handle.connection.transaction = none) :
    Ended s.handle (closeSession db s) := by
  obtain ⟨h, inTransaction⟩ := s
  cases inTransaction with
  | false => exact ⟨rfl, rfl, rfl, live.resolve_left nofun⟩
  | true => exact sessionRollsBack db h

omit [DecidableEq ν] in
theorem endedTrans {h h' h'' : Handle δ ν} (first : h'.commits = h.commits ∧
    h'.connection.committed = h.connection.committed) (settings : h'.settings = h.settings) (ended : Ended h' h'') :
    Ended h h'' :=
  ⟨ended.commits.trans first.1, ended.committed.trans first.2, ended.settings.trans settings, ended.closed⟩

theorem commitRefused (db : Database δ ν) (h : Handle δ ν)
    (refused : (sessionCommand db ⟨h, true⟩ .commit).2 = false) :
    Ended h (closeSession db (sessionCommand db ⟨h, true⟩ .commit).1) := by
  have settings := (controlSince db h .commit).2
  have ends := closeEnds db ⟨(control db h .commit).1, true⟩ (Or.inl rfl)
  cases engine : db.engine with
  | postgres =>
    simp only [sessionCommand, engine] at refused ⊢
    simp only [SessionCommand.control] at refused
    simp only [SessionCommand.control, refused, Bool.false_eq_true, if_false]
    exact endedTrans (commitRefusedKeeps db h refused) settings ends
  | sqlite =>
    simp only [sessionCommand, engine] at refused ⊢
    split at refused
    · contradiction
    · split at refused
      · contradiction
      · rename_i opened
        simp only [SessionCommand.control] at refused
        simp only [SessionCommand.control, refused, opened, Bool.false_eq_true, if_false]
        exact endedTrans (commitRefusedKeeps db h refused) settings ends

theorem failedRunEnds (db : Database δ ν) (contents : δ) (settings : Settings) (texts : List Text)
    (failed : (execute db (idle contents settings) texts).failed = true) :
    Ended (runStatements db (started db contents settings texts) texts).1
      (execute db (idle contents settings) texts).handle := by
  simp only [execute, started] at failed ⊢
  cases managed : selfManaged db texts with
  | true =>
    simp only [managed, if_true] at failed ⊢
    cases stopped : (runStatements db (idle contents settings) texts).2 with
    | false => simp [stopped] at failed
    | true =>
      simp only [if_true, closeSession, rollbackQuery, Bool.false_eq_true, if_false]
      exact endedControl db _
  | false =>
    simp only [managed, Bool.false_eq_true, if_false, sessionBegins, Bool.not_true] at failed ⊢
    generalize runStatements db ((idle contents settings).onto (idle contents settings).connection.start) texts = ran
      at failed ⊢
    obtain ⟨ran, stopped⟩ := ran
    cases stopped with
    | true =>
      simp only [if_true]
      obtain ⟨commits, committed, settings, closed⟩ := sessionRollsBack db ran
      exact endedTrans ⟨commits, committed⟩ settings (closeEnds db _ (Or.inr closed))
    | false =>
      simp only [Bool.false_eq_true, if_false, Bool.false_or, Bool.not_eq_true'] at failed ⊢
      exact commitRefused db ran failed

end Remains

section Rebuilds

def offStatement : Text :=
  units "-- Step 1: FK enforcement off (must be outside the transaction)\nPRAGMA foreign_keys = off"

def beginStatement : Text := units "-- Step 2: everything below is atomic\nBEGIN"

def copyStatement : Text :=
  units "-- Step 5: copy the data\nINSERT INTO \"t_dbadmin_rebuild\" (\"a\")\n  SELECT \"a\" FROM \"t\""

def rebuilt : Database Nat Nat where
  engine := .sqlite
  commandsOf text :=
    if text = units "ROLLBACK" then [.control .rollback]
    else if text = offStatement then [.pragma .foreignKeys false]
    else if text = beginStatement then [.control .begin]
    else if text = copyStatement then [.change fun _ _ => .failed]
    else []
  accepts _ _ := true
  rollbackText := if_pos rfl

def rebuild : List Text := [offStatement, beginStatement, copyStatement]

end Rebuilds

end DatabaseAdmin.DdlRuns
