import DatabaseAdmin.SqlQuote

/-! Native dumps of selected tables. -/
namespace DatabaseAdmin.NativeDumps
open CodeUnits

section Arguments

inductive StructureMode where
  | both | structureOnly | dataOnly
  deriving DecidableEq

inductive Address where
  | tcp (host : Text) (port : ℕ)
  | unix (socketPath : Text)
  | uri (hostname port username database : Text)
  | file (path : Text)

def flag (on : Bool) (name : String) : List Text := if on then [units name] else []

def given (name : String) (value : Text) : List Text := if value = [] then [] else [units name, value]

def portText (port : ℕ) : Text := units (toString port)

def mysqlAddressArgs : Address → Except Text (List Text)
  | .unix socketPath => .ok [units "--socket", socketPath]
  | .tcp host port => .ok [units "--host", host, units "--port", portText port, units "--protocol=TCP"]
  | .uri .. => .error (units "mysqldump needs a TCP address; got uri.")
  | .file _ => .error (units "mysqldump needs a TCP address; got file.")

def mysqlRemoteAddressArgs : Address → Except Text (List Text)
  | .unix socketPath => .ok [units "--socket", socketPath]
  | .tcp host port => .ok [units "--host", host, units "--port", portText port, units "--protocol=TCP"]
  | .uri .. => .error (units "A uri address cannot be dumped with mysqldump.")
  | .file _ => .error (units "A file address cannot be dumped with mysqldump.")

structure MysqlDumpOptions where
  address : Address
  username : Text
  password : Text
  database : Text
  tables : List Text
  mode : StructureMode
  singleTransaction : Bool
  skipLockTables : Bool
  includeRoutines : Bool
  compressProtocol : Bool

def mysqlScope (opts : MysqlDumpOptions) : List Text :=
  if opts.tables = [] then [units "--databases", opts.database] else opts.database :: opts.tables

def mysqlParts (opts : MysqlDumpOptions) : List Text :=
  flag (decide (opts.mode = .structureOnly)) "--no-data" ++
  (if opts.mode = .dataOnly then [units "--no-create-info", units "--skip-triggers"] else []) ++
  (if opts.mode ≠ .dataOnly ∧ opts.includeRoutines = true then [units "--routines", units "--triggers", units "--events"] else [])

def mysqlDump (isMysql : Bool) (optionFile : Text) (opts : MysqlDumpOptions) : Except Text (List Text) := do
  let address ← mysqlAddressArgs opts.address
  return (units "--defaults-extra-file=" ++ optionFile) :: address ++ flag opts.singleTransaction "--single-transaction" ++
    flag opts.skipLockTables "--skip-lock-tables" ++
    ["--hex-blob", "--default-character-set=utf8mb4", "--no-tablespaces", "--verbose"].map units ++
    flag isMysql "--set-gtid-purged=OFF" ++ flag opts.compressProtocol "--compress" ++ mysqlParts opts ++ mysqlScope opts

structure PgDumpOptions where
  address : Address
  username : Text
  password : Text
  database : Text
  custom : Bool
  mode : StructureMode
  noOwner : Bool
  noPrivileges : Bool
  schemas : List Text
  tables : List Text

def pgConnection (socket : Text → Option (Text × Text)) (opts : PgDumpOptions) : Except Text (List Text) :=
  match opts.address with
  | .tcp host port => .ok ([units "-h", host, units "-p", portText port] ++ given "-U" opts.username ++ given "-d" opts.database)
  | .unix socketPath => .ok ((match socket socketPath with
      | some (dir, port) => [units "-h", dir, units "-p", port]
      | none => [units "-h", socketPath]) ++ given "-U" opts.username ++ given "-d" opts.database)
  | .uri hostname port username database => .ok (given "-h" hostname ++ given "-p" port ++
      given "-U" (if username = [] then opts.username else username) ++
      given "-d" (if opts.database = [] then database else opts.database))
  | .file _ => .error (units "A file address is not a PostgreSQL server.")

def pgRemoteAddressArgs : Address → Except Text (List Text)
  | .tcp host port => .ok [units "-h", host, units "-p", portText port]
  | .unix socketPath => .ok [units "-h", socketPath]
  | .uri hostname port _ _ => .ok (given "-h" hostname ++ given "-p" port)
  | .file _ => .error (units "A file address cannot be dumped with pg_dump.")

def pgParts (opts : PgDumpOptions) : List Text :=
  [units (if opts.custom then "-Fc" else "-Fp")] ++ flag opts.noOwner "--no-owner" ++ flag opts.noPrivileges "--no-privileges" ++
  flag (decide (opts.mode = .structureOnly)) "--schema-only" ++ flag (decide (opts.mode = .dataOnly)) "--data-only" ++
  opts.schemas.flatMap (fun schema => [units "-n", schema]) ++ opts.tables.flatMap fun table => [units "-t", table]

def pgDump (socket : Text → Option (Text × Text)) (opts : PgDumpOptions) : Except Text (List Text) := do
  let connection ← pgConnection socket opts
  return connection ++ [units "-v"] ++ pgParts opts

end Arguments

section Remote

def shellQuote (arg : Text) : Text := apostrophe :: replaceUnit apostrophe (units "'\\''") arg ++ [apostrophe]

def spaced : List Text → Text
  | [] => []
  | [a] => a
  | a :: rest => a ++ units " " ++ spaced rest

def pipeWithStatus (dumpCommand : Text) (compressor : Option Text) : Text :=
  let guarded := units "\x7b " ++ dumpCommand ++ units "; echo \"__DBADMIN_RC=$?\" >&2; \x7d"
  match compressor with
  | some compressor => guarded ++ units " | " ++ compressor
  | none => guarded

def remoteCommand (variableName : String) (password remotePath : Text) (args : List Text) (compressor : Option Text) : Text :=
  let assignment := if password = [] then [] else units variableName ++ units "=\"$LC_DBADMIN_PW\" "
  pipeWithStatus (assignment ++ shellQuote remotePath ++ units " " ++ spaced (args.map shellQuote)) compressor

def remoteMysqlArgs (opts : MysqlDumpOptions) : Except Text (List Text) := do
  let address ← mysqlRemoteAddressArgs opts.address
  return address ++ given "--user" opts.username ++ flag opts.singleTransaction "--single-transaction" ++
    flag opts.skipLockTables "--skip-lock-tables" ++
    ["--hex-blob", "--default-character-set=utf8mb4", "--no-tablespaces", "--verbose"].map units ++ mysqlParts opts ++ mysqlScope opts

def remoteMysqlDump (remotePath : Text) (compressor : Option Text) (opts : MysqlDumpOptions) : Except Text Text := do
  let args ← remoteMysqlArgs opts
  return remoteCommand "MYSQL_PWD" opts.password remotePath args compressor

def remotePgArgs (opts : PgDumpOptions) : Except Text (List Text) := do
  let address ← pgRemoteAddressArgs opts.address
  return address ++ given "-U" opts.username ++ [units "-d", opts.database, units "-v"] ++ pgParts opts

def remotePgDump (majors : Option (ℕ × ℕ)) (remotePath : Text) (compressor : Option Text) (opts : PgDumpOptions) : Except Text Text := do
  match majors.filter fun m => m.2 ≠ 0 ∧ m.1 < m.2 with
  | some (remote, server) => .error (units (s!"The remote pg_dump is {remote} but the server is {server}; a dump taken with an " ++
      "older pg_dump is silently broken (§7.2). Falling back to the local pg_dump."))
  | none => do
    let args ← remotePgArgs opts
    return remoteCommand "PGPASSWORD" opts.password remotePath args compressor

end Remote

section Shell

inductive How where
  | bare | double | kept
  deriving DecidableEq

structure WordUnit where
  unit : CodeUnit
  how : How
  deriving DecidableEq

abbrev Word := List WordUnit

def isBlank (c : CodeUnit) : Bool := c = 32 || c = 9

def isOperator (c : CodeUnit) : Bool := decide (c ∈ units "\n;&|<>()")

def opened (word : Option Word) : Option Word := some (word.getD [])

def push (word : Option Word) (c : CodeUnit) (how : How) : Option Word := some (word.getD [] ++ [⟨c, how⟩])

def lex : How → Option Word → Text → List Word
  | .kept, word, c :: t => if c = apostrophe then lex .bare (opened word) t else lex .kept (push word c .kept) t
  | .double, word, 92 :: c :: t =>
      if c = newline then lex .double word t
      else if c ∈ units "$`\"\\" then lex .double (push word c .kept) t
      else lex .double (push (push word 92 .kept) c .double) t
  | .double, word, c :: t => if c = doubleQuote then lex .bare (opened word) t else lex .double (push word c .double) t
  | .bare, word, 92 :: c :: t => if c = newline then lex .bare word t else lex .bare (push word c .kept) t
  | .bare, word, c :: t =>
      if c = apostrophe then lex .kept (opened word) t
      else if c = doubleQuote then lex .double (opened word) t
      else if isBlank c then word.toList ++ lex .bare none t
      else if isOperator c ∨ (c = '#' ∧ word = none) then word.toList
      else lex .bare (push word c .bare) t
  | _, word, [] => word.toList

def bareEquals : WordUnit := ⟨61, .bare⟩

def nameUnit (u : WordUnit) : Bool :=
  decide (u.how = .bare) && ((65 ≤ u.unit && u.unit ≤ 90) || (97 ≤ u.unit && u.unit ≤ 122) || (48 ≤ u.unit && u.unit ≤ 57) || u.unit = 95)

def isAssignment (word : Word) : Bool :=
  let name := word.takeWhile (· ≠ bareEquals)
  decide (name ≠ []) && name.all nameUnit && decide (bareEquals ∈ word)

def literal (word : Word) : Option Text :=
  if word.all fun u => decide (u.how = .kept) || decide (u.unit ∉ units "$`*?[~") then some (word.map WordUnit.unit) else none

def sentArgs (command : Text) : Option (List Text) :=
  match lex .bare none command with
  | brace :: words => if brace = [⟨123, .bare⟩] then (words.dropWhile isAssignment).tail.mapM literal else none
  | [] => none

theorem quotedFrom (arg : Text) (word : Word) (rest : Text) :
    lex .kept (some word) (replaceUnit apostrophe (units "'\\''") arg ++ apostrophe :: rest) =
      lex .bare (some (word ++ arg.map (⟨·, .kept⟩))) rest := by
  induction arg generalizing word with
  | nil => simp [replaceUnit, lex, opened]
  | cons c arg ih =>
    rw [replaceUnit, List.flatMap_cons, List.append_assoc, ← replaceUnit]
    by_cases quote : c = apostrophe
    · subst quote
      have closed (t : Text) : lex .kept (some word) (units "'\\''" ++ t) = lex .kept (some (word ++ [⟨apostrophe, .kept⟩])) t := rfl
      rw [if_pos rfl, closed, ih]
      simp
    · rw [if_neg quote, List.singleton_append, lex, if_neg quote, push, Option.getD_some, ih]
      simp

def keptWord (text : Text) : Word := text.map (⟨·, .kept⟩)

theorem quotedWord (arg rest : Text) : lex .bare none (shellQuote arg ++ rest) = lex .bare (some (keptWord arg)) rest := by
  have entered (t : Text) : lex .bare none (apostrophe :: t) = lex .kept (some []) t := rfl
  rw [shellQuote, List.append_assoc, List.cons_append, List.singleton_append, entered, quotedFrom]
  rfl

theorem spacedWords (args : List Text) (rest : Text) (some' : args ≠ []) :
    lex .bare none (spaced (args.map shellQuote) ++ units ";" ++ rest) = args.map keptWord := by
  induction args with
  | nil => contradiction
  | cons arg args ih =>
    cases args with
    | nil =>
      have stop (word : Word) : lex .bare (some word) (units ";" ++ rest) = [word] := rfl
      rw [List.map_singleton, spaced, List.append_assoc, quotedWord, stop]
      rfl
    | cons next args =>
      have parted (word : Word) (t : Text) : lex .bare (some word) (units " " ++ t) = word :: lex .bare none t := rfl
      rw [List.map_cons, spaced, List.append_assoc, List.append_assoc, List.append_assoc, quotedWord, parted, ← List.append_assoc,
        ih (List.cons_ne_nil _ _)]
      · rfl
      · simp

theorem keptLiteral (text : Text) : literal (keptWord text) = some text := by
  have kept : ((keptWord text).all fun u => decide (u.how = .kept) || decide (u.unit ∉ units "$`*?[~")) = true :=
    List.all_eq_true.mpr fun u member => by
      obtain ⟨c, _, rfl⟩ := List.mem_map.mp member
      rfl
  rw [literal, if_pos kept, keptWord, List.map_map]
  exact congrArg some (List.map_id text)

theorem keptArgument (text : Text) : isAssignment (keptWord text) = false := by
  have bare : bareEquals ∉ keptWord text := fun member => by
    obtain ⟨c, _, same⟩ := List.mem_map.mp member
    cases congrArg WordUnit.how same
  simp [isAssignment, bare]

def passwordVariables : List String := ["MYSQL_PWD", "PGPASSWORD"]

theorem assignedWord {name : String} (known : name ∈ passwordVariables) : ∃ word, isAssignment word = true ∧
    ∀ rest, lex .bare none (units name ++ units "=\"$LC_DBADMIN_PW\" " ++ rest) = word :: lex .bare none rest := by
  simp only [passwordVariables, List.mem_cons, List.not_mem_nil, or_false] at known
  rcases known with rfl | rfl
  · refine ⟨_, ?_, fun _ => rfl⟩
    decide
  · refine ⟨_, ?_, fun _ => rfl⟩
    decide

theorem sentBack {name : String} (known : name ∈ passwordVariables) (password remotePath : Text) {args : List Text}
    (some' : args ≠ []) (compressor : Option Text) : sentArgs (remoteCommand name password remotePath args compressor) = some args := by
  obtain ⟨assignment, assigns, assigned⟩ := assignedWord known
  have literals : (args.map keptWord).mapM literal = some args := by
    clear some'
    induction args with
    | nil => rfl
    | cons arg args ih =>
      rw [List.map_cons, List.mapM_cons, keptLiteral, ih]
      rfl
  have brace (rest : Text) : lex .bare none (units "\x7b " ++ rest) = [⟨123, .bare⟩] :: lex .bare none rest := rfl
  have quoted (rest : Text) : lex .bare none (shellQuote remotePath ++ units " " ++ spaced (args.map shellQuote) ++ units ";" ++ rest) =
      (remotePath :: args).map keptWord := by
    have whole := spacedWords (remotePath :: args) rest (List.cons_ne_nil _ _)
    cases args with
    | nil => contradiction
    | cons arg args => exact whole
  have dumped : ∃ lead, (∀ word ∈ lead, isAssignment word = true) ∧ ∀ rest, lex .bare none ((if password = [] then [] else
      units name ++ units "=\"$LC_DBADMIN_PW\" ") ++ (shellQuote remotePath ++ units " " ++ spaced (args.map shellQuote) ++ units ";" ++ rest)) =
        lead ++ (remotePath :: args).map keptWord := by
    split
    · exact ⟨[], nofun, quoted⟩
    · exact ⟨[assignment], by simpa using assigns, fun rest => by rw [assigned, quoted]; rfl⟩
  obtain ⟨lead, all, lexed⟩ := dumped
  have split : ∃ rest, remoteCommand name password remotePath args compressor = units "\x7b " ++ ((if password = [] then [] else
      units name ++ units "=\"$LC_DBADMIN_PW\" ") ++ (shellQuote remotePath ++ units " " ++ spaced (args.map shellQuote) ++ units ";" ++ rest)) := by
    have tail : units "; echo \"__DBADMIN_RC=$?\" >&2; \x7d" = units ";" ++ units " echo \"__DBADMIN_RC=$?\" >&2; \x7d" := rfl
    cases compressor with
    | none => exact ⟨units " echo \"__DBADMIN_RC=$?\" >&2; \x7d", by simp only [remoteCommand, pipeWithStatus, tail, List.append_assoc]⟩
    | some c => exact ⟨units " echo \"__DBADMIN_RC=$?\" >&2; \x7d" ++ (units " | " ++ c), by
        simp only [remoteCommand, pipeWithStatus, tail, List.append_assoc]⟩
  obtain ⟨rest, split⟩ := split
  rw [split, sentArgs, brace, lexed]
  dsimp only
  rw [if_pos rfl, List.dropWhile_append_of_pos all, List.map_cons, List.dropWhile_cons_of_neg (by simp [keptArgument]), List.tail_cons,
    literals]

end Shell

section Reading

inductive Arg where
  | option (name : Text) (value : Option Text)
  | word (text : Text)
  deriving DecidableEq

def dashed (a : Text) : Bool := startsWith ['-'] a

def readArgs (valued : List Text) : List Text → List Arg
  | [] => []
  | [a] => [if dashed a then .option a none else .word a]
  | a :: b :: rest =>
    if a ∈ valued then .option a (some b) :: readArgs valued rest
    else (if dashed a then .option a none else .word a) :: readArgs valued (b :: rest)

def wordOf : Arg → Option Text
  | .word text => some text
  | _ => none

def words (args : List Arg) : List Text := args.filterMap wordOf

def valueOf (name : String) : Arg → Option Text
  | .option own (some value) => if own = units name then some value else none
  | _ => none

def valuesOf (name : String) (args : List Arg) : List Text := args.filterMap (valueOf name)

def mysqlValued : List Text := ["--host", "--port", "--socket", "--user"].map units

inductive Selection where
  | tables (database : Text) (tables : List Text)
  | databases (names : List Text)
  | server
  | nothing

def mysqlSelection (argv : List Text) : Selection :=
  let args := readArgs mysqlValued argv
  if .option (units "--all-databases") none ∈ args then .server
  else if .option (units "--databases") none ∈ args then .databases (words args)
  else match words args with
    | database :: table :: rest => .tables database (table :: rest)
    | [database] => .databases [database]
    | [] => .nothing

def pgValued : List Text := ["-h", "-p", "-U", "-d", "-n", "-t"].map units

inductive Piece where
  | unit (c : CodeUnit)
  | any | one | dot
  | regex (c : CodeUnit)
  deriving DecidableEq

def regexUnit (c : CodeUnit) : Bool := decide (c ∈ units "()[\x7b|+^\\")

def barePiece (c : CodeUnit) : Piece :=
  if c = '*' then .any else if c = '?' then .one else if c = '.' then .dot
  else if regexUnit c then .regex c else .unit (lowerUnit c)

def patternFrom : Bool → Text → List Piece
  | true, 34 :: 34 :: t => .unit 34 :: patternFrom true t
  | true, 34 :: t => patternFrom false t
  | true, c :: t => .unit c :: patternFrom true t
  | false, c :: t => if c = 34 then patternFrom true t else barePiece c :: patternFrom false t
  | _, [] => []

def isConninfo (name : Text) : Bool :=
  decide (('=' : CodeUnit) ∈ name) || startsWith (units "postgresql://") name || startsWith (units "postgres://") name

def exactly (name : Text) : List Piece := name.map .unit

structure PgSelects (argv : List Text) (database : Text) (tables : List Text) : Prop where
  named : tables ≠ []
  patterns : (valuesOf "-t" (readArgs pgValued argv)).map (patternFrom false) = tables.map exactly
  database : valuesOf "-d" (readArgs pgValued argv) = [database] ∧ database ≠ [] ∧ isConninfo database = false
  alone : words (readArgs pgValued argv) = []

def plainUnit (c : CodeUnit) : Bool := decide (c ≠ 34) && decide (barePiece c = .unit c)

structure PgPlain (opts : PgDumpOptions) : Prop where
  named : opts.tables ≠ []
  tables : ∀ table ∈ opts.tables, ∀ c ∈ table, plainUnit c = true
  database : opts.database ≠ [] ∧ isConninfo opts.database = false

structure MysqlPlain (opts : MysqlDumpOptions) : Prop where
  named : opts.tables ≠ []
  tables : ∀ table ∈ opts.tables, dashed table = false
  database : dashed opts.database = false

end Reading

section Patterns

theorem patternLength (quoted : Bool) (t : Text) : (patternFrom quoted t).length ≤ t.length := by
  fun_induction patternFrom quoted t <;> simp only [List.length_cons, List.length_nil] at * <;> omega

theorem patternExact (t : Text) : patternFrom false t = exactly t ↔ ∀ c ∈ t, plainUnit c = true := by
  induction t with
  | nil => simp [patternFrom, exactly]
  | cons c t ih =>
    rw [List.forall_mem_cons, patternFrom, exactly, List.map_cons, ← exactly]
    by_cases quote : c = 34
    · have short := patternLength true t
      refine ⟨fun same => ?_, fun plain => absurd plain.1 (by simp [plainUnit, quote])⟩
      rw [if_pos quote] at same
      rw [same, List.length_cons, exactly, List.length_map] at short
      omega
    · rw [if_neg quote, List.cons_eq_cons, ih]
      simp [plainUnit, quote]

theorem patternsExact (tables : List Text) : tables.map (patternFrom false) = tables.map exactly ↔
    ∀ table ∈ tables, ∀ c ∈ table, plainUnit c = true := by
  rw [List.map_inj_left]
  exact forall₂_congr fun table _ => patternExact table

end Patterns

section Pieces
variable {valued : List Text}

def Whole (valued : List Text) (piece : List Text) (args : List Arg) : Prop :=
  ∀ rest, readArgs valued (piece ++ rest) = args ++ readArgs valued rest

theorem wholeNil : Whole valued [] [] := fun _ => rfl

theorem wholeAppend {a b : List Text} {x y : List Arg} (first : Whole valued a x) (second : Whole valued b y) :
    Whole valued (a ++ b) (x ++ y) := fun rest => by rw [List.append_assoc, first, second, List.append_assoc]

theorem wholePair {name : Text} (known : name ∈ valued) (value : Text) : Whole valued [name, value] [.option name (some value)] :=
  fun rest => by rw [List.cons_append, List.singleton_append, readArgs, if_pos known]; rfl

theorem wholeOne {a : Text} (other : a ∉ valued) : Whole valued [a] [if dashed a then .option a none else .word a] := fun rest => by
  cases rest with
  | nil => rfl
  | cons b rest => rw [List.singleton_append, readArgs, if_neg other]; rfl

def PgRead (piece tables databases : List Text) : Prop :=
  ∃ args, Whole pgValued piece args ∧ valuesOf "-t" args = tables ∧ valuesOf "-d" args = databases ∧ words args = []

theorem pgNil : PgRead [] [] [] := ⟨[], wholeNil, rfl, rfl, rfl⟩

theorem pgAppend {a b t t' d d' : List Text} (first : PgRead a t d) (second : PgRead b t' d') : PgRead (a ++ b) (t ++ t') (d ++ d') := by
  obtain ⟨x, whole, rfl, rfl, alone⟩ := first
  obtain ⟨y, whole', rfl, rfl, alone'⟩ := second
  refine ⟨x ++ y, wholeAppend whole whole', List.filterMap_append, List.filterMap_append, ?_⟩
  rw [words, List.filterMap_append, ← words, ← words, alone, alone', List.append_nil]

theorem pgFlag {a : Text} (other : a ∉ pgValued) (dash : dashed a = true) : PgRead [a] [] [] := by
  have whole := wholeOne other
  rw [if_pos dash] at whole
  exact ⟨_, whole, rfl, rfl, rfl⟩

theorem pgSet (on : Bool) {name : String} (other : units name ∉ pgValued) (dash : dashed (units name) = true) :
    PgRead (flag on name) [] [] := by
  cases on with
  | false => exact pgNil
  | true => exact pgFlag other dash

theorem pgOption (name : String) (known : units name ∈ pgValued) (apart : units name ∉ [units "-t", units "-d"]) (value : Text) :
    PgRead [units name, value] [] [] := by
  rw [List.mem_cons, List.mem_singleton, not_or] at apart
  exact ⟨_, wholePair known value, by simp [valuesOf, valueOf, apart.1], by simp [valuesOf, valueOf, apart.2], rfl⟩

theorem pgGiven {name : String} (known : units name ∈ pgValued) (apart : units name ∉ [units "-t", units "-d"]) (value : Text) :
    PgRead (given name value) [] [] := by
  unfold given
  split
  · exact pgNil
  · exact pgOption name known apart value

theorem pgTable (table : Text) : PgRead [units "-t", table] [table] [] := ⟨_, wholePair (by decide) table, rfl, rfl, rfl⟩

theorem pgDatabase (database : Text) : PgRead [units "-d", database] [] [database] := ⟨_, wholePair (by decide) database, rfl, rfl, rfl⟩

theorem pgSchemas (schemas : List Text) : PgRead (schemas.flatMap fun schema => [units "-n", schema]) [] [] := by
  induction schemas with
  | nil => exact pgNil
  | cons schema schemas ih => exact pgAppend (pgOption "-n" (by decide) (by decide) schema) ih

theorem pgTables (tables : List Text) : PgRead (tables.flatMap fun table => [units "-t", table]) tables [] := by
  induction tables with
  | nil => exact pgNil
  | cons table tables ih => exact pgAppend (pgTable table) ih

theorem pgPartsRead (opts : PgDumpOptions) : PgRead (pgParts opts) opts.tables [] := by
  have format : PgRead [units (if opts.custom then "-Fc" else "-Fp")] [] [] := by
    split <;> exact pgFlag (by decide) (by decide)
  exact pgAppend (pgAppend (pgAppend (pgAppend (pgAppend (pgAppend format (pgSet _ (by decide) (by decide)))
    (pgSet _ (by decide) (by decide))) (pgSet _ (by decide) (by decide))) (pgSet _ (by decide) (by decide)))
    (pgSchemas opts.schemas)) (pgTables opts.tables)

theorem pgPlace (host port : Text) : PgRead ([units "-h", host] ++ [units "-p", port]) [] [] :=
  pgAppend (pgOption "-h" (by decide) (by decide) host) (pgOption "-p" (by decide) (by decide) port)

theorem pgConnectionRead {socket : Text → Option (Text × Text)} {opts : PgDumpOptions} {argv : List Text} (some' : opts.database ≠ [])
    (made : pgConnection socket opts = .ok argv) : PgRead argv [] [opts.database] := by
  have database : PgRead (given "-d" opts.database) [] [opts.database] := by
    rw [given, if_neg some']
    exact pgDatabase _
  unfold pgConnection at made
  split at made
  · cases made
    exact pgAppend (pgAppend (pgPlace _ _) (pgGiven (by decide) (by decide) _)) database
  · rename_i socketPath _
    cases found : socket socketPath with
    | none =>
      rw [found] at made
      cases made
      exact pgAppend (pgAppend (pgOption "-h" (by decide) (by decide) _) (pgGiven (by decide) (by decide) _)) database
    | some place =>
      rw [found] at made
      cases made
      exact pgAppend (pgAppend (pgPlace _ _) (pgGiven (by decide) (by decide) _)) database
  · cases made
    rw [if_neg some']
    exact pgAppend (pgAppend (pgAppend (pgGiven (by decide) (by decide) _) (pgGiven (by decide) (by decide) _))
      (pgGiven (by decide) (by decide) _)) database
  · contradiction

theorem pgRemoteRead {opts : PgDumpOptions} {args : List Text} (made : remotePgArgs opts = .ok args) :
    PgRead args opts.tables [opts.database] := by
  have behind {address : List Text} (read : PgRead address [] []) :
      PgRead (address ++ given "-U" opts.username ++ [units "-d", opts.database, units "-v"] ++ pgParts opts) opts.tables [opts.database] :=
    pgAppend (pgAppend (pgAppend read (pgGiven (by decide) (by decide) _)) (pgAppend (pgDatabase opts.database)
      (pgFlag (by decide) (by decide)))) (pgPartsRead opts)
  unfold remotePgArgs pgRemoteAddressArgs at made
  split at made
  · cases made
    exact behind (pgPlace _ _)
  · cases made
    exact behind (pgOption "-h" (by decide) (by decide) _)
  · cases made
    exact behind (pgAppend (pgGiven (by decide) (by decide) _) (pgGiven (by decide) (by decide) _))
  · contradiction

theorem pgReadSelects {opts : PgDumpOptions} {argv : List Text} (read : PgRead argv opts.tables [opts.database]) :
    PgSelects argv opts.database opts.tables ↔ PgPlain opts := by
  obtain ⟨args, whole, tables, databases, alone⟩ := read
  have all : readArgs pgValued argv = args := by simpa [readArgs] using whole []
  refine ⟨fun ⟨named, patterns, database, _⟩ => ⟨named, ?_, database.2⟩, fun ⟨named, plain, database⟩ => ⟨named, ?_, ?_, ?_⟩⟩
  · rw [all, tables, patternsExact] at patterns
    exact patterns
  · rw [all, tables, patternsExact]
    exact plain
  · exact ⟨by rw [all, databases], database⟩
  · rw [all, alone]

def MysqlRead (piece : List Text) : Prop := ∃ args, Whole mysqlValued piece args ∧ words args = [] ∧
  .option (units "--all-databases") none ∉ args ∧ .option (units "--databases") none ∉ args

def scopeless (a : Text) : Bool :=
  dashed a && decide (a ∉ mysqlValued) && decide (a ∉ [units "--all-databases", units "--databases"])

theorem mysqlAppend {a b : List Text} (first : MysqlRead a) (second : MysqlRead b) : MysqlRead (a ++ b) := by
  obtain ⟨x, whole, alone, noServer, noList⟩ := first
  obtain ⟨y, whole', alone', noServer', noList'⟩ := second
  refine ⟨x ++ y, wholeAppend whole whole', ?_, ?_, ?_⟩
  · rw [words, List.filterMap_append, ← words, ← words, alone, alone', List.append_nil]
  · exact fun member => (List.mem_append.mp member).elim noServer noServer'
  · exact fun member => (List.mem_append.mp member).elim noList noList'

theorem mysqlFlags {flags : List Text} (plain : ∀ a ∈ flags, scopeless a = true) : MysqlRead flags := by
  induction flags with
  | nil => exact ⟨[], wholeNil, rfl, nofun, nofun⟩
  | cons a flags ih =>
    rw [List.forall_mem_cons] at plain
    have own := plain.1
    simp only [scopeless, Bool.and_eq_true, decide_eq_true_eq, List.mem_cons, List.not_mem_nil, or_false, not_or] at own
    have whole := wholeOne own.1.2
    rw [if_pos own.1.1] at whole
    exact mysqlAppend (a := [a]) ⟨_, whole, rfl, by simpa [eq_comm] using own.2.1, by simpa [eq_comm] using own.2.2⟩ (ih plain.2)

theorem mysqlPair (name : String) (known : units name ∈ mysqlValued) (value : Text) : MysqlRead [units name, value] :=
  ⟨_, wholePair known value, rfl, by simp, by simp⟩

theorem mysqlPartsRead (opts : MysqlDumpOptions) : MysqlRead (mysqlParts opts) := by
  obtain ⟨address, username, password, database, tables, mode, single, skip, routines, compress⟩ := opts
  refine mysqlFlags ?_
  cases mode <;> cases routines <;> exact of_decide_eq_true rfl

theorem readWords {args : List Text} (plain : ∀ a ∈ args, dashed a = false) : readArgs mysqlValued args = args.map .word := by
  have other {a : Text} (bare : dashed a = false) : a ∉ mysqlValued := fun known => by
    have all : ∀ a ∈ mysqlValued, dashed a = true := by decide
    rw [all a known] at bare
    contradiction
  induction args with
  | nil => rfl
  | cons a args ih =>
    rw [List.forall_mem_cons] at plain
    have whole := wholeOne (other plain.1) args
    rw [if_neg (by rw [plain.1]; decide)] at whole
    exact whole.trans (congrArg (Arg.word a :: ·) (ih plain.2))

theorem wordsBare (valued args : List Text) : ∀ a ∈ words (readArgs valued args), dashed a = false := by
  have one (a : Text) : ∀ b, wordOf (if dashed a then .option a none else .word a) = some b → dashed b = false := by
    intro b read
    cases bare : dashed a <;> simp [bare, wordOf] at read
    exact read ▸ bare
  fun_induction readArgs valued args with
  | case1 => exact nofun
  | case2 a =>
    intro b listed
    obtain ⟨arg, only, read⟩ := List.mem_filterMap.mp listed
    exact one a b (List.mem_singleton.mp only ▸ read)
  | case3 a b rest known ih => exact ih
  | case4 a b rest other ih =>
    intro c listed
    obtain ⟨arg, member, read⟩ := List.mem_filterMap.mp listed
    rcases List.mem_cons.mp member with rfl | later
    · exact one a c read
    · exact ih c (List.mem_filterMap.mpr ⟨arg, later, read⟩)

theorem mysqlReadSelects {opts : MysqlDumpOptions} {lead : List Text} (read : MysqlRead lead) :
    mysqlSelection (lead ++ mysqlScope opts) = .tables opts.database opts.tables ↔ MysqlPlain opts := by
  obtain ⟨args, whole, alone, noServer, noList⟩ := read
  have joined : words (readArgs mysqlValued (lead ++ mysqlScope opts)) = words (readArgs mysqlValued (mysqlScope opts)) := by
    rw [whole, words, List.filterMap_append, ← words, alone, List.nil_append, ← words]
  constructor
  · intro selected
    unfold mysqlSelection at selected
    dsimp only at selected
    split at selected
    · contradiction
    · split at selected
      · contradiction
      · split at selected
        · rename_i database table rest found
          have bare := wordsBare mysqlValued (lead ++ mysqlScope opts)
          rw [found] at bare
          injection selected with sameDb sameTables
          exact ⟨by rw [← sameTables]; exact List.cons_ne_nil _ _,
            fun t member => bare t (List.mem_cons_of_mem _ (sameTables ▸ member)), sameDb ▸ bare database List.mem_cons_self⟩
        · contradiction
        · contradiction
  · rintro ⟨named, tables, database⟩
    have plain : ∀ a ∈ opts.database :: opts.tables, dashed a = false := List.forall_mem_cons.mpr ⟨database, tables⟩
    have scope : readArgs mysqlValued (mysqlScope opts) = (opts.database :: opts.tables).map .word := by
      rw [mysqlScope, if_neg named, readWords plain]
    have listed (name : Text) (absent : Arg.option name none ∉ args) :
        Arg.option name none ∉ readArgs mysqlValued (lead ++ mysqlScope opts) := by
      rw [whole, scope]
      simpa using absent
    have given : words (readArgs mysqlValued (lead ++ mysqlScope opts)) = opts.database :: opts.tables := by
      rw [joined, scope, words, List.filterMap_map]
      exact List.filterMap_some
    unfold mysqlSelection
    dsimp only
    rw [if_neg (listed _ noServer), if_neg (listed _ noList), given]
    cases tables' : opts.tables with
    | nil => exact absurd tables' named
    | cons table rest => rfl

theorem mysqlSet (on : Bool) {name : String} (plain : scopeless (units name) = true) : MysqlRead (flag on name) := by
  refine mysqlFlags fun a member => ?_
  cases on with
  | false => contradiction
  | true => exact List.mem_singleton.mp member ▸ plain

theorem mysqlGiven (value : Text) : MysqlRead (given "--user" value) := by
  unfold given
  split
  · exact mysqlFlags nofun
  · exact mysqlPair "--user" (by decide) value

theorem addressRead {address : Address} {args : List Text} (made : mysqlAddressArgs address = .ok args) : MysqlRead args := by
  cases address with
  | unix socketPath =>
    cases made
    exact mysqlPair "--socket" (by decide) socketPath
  | tcp host port =>
    cases made
    exact mysqlAppend (mysqlPair "--host" (by decide) host) (mysqlAppend (mysqlPair "--port" (by decide) _) (mysqlFlags (by decide)))
  | uri => contradiction
  | file => contradiction

theorem addressSame {address : Address} {args : List Text} (made : mysqlRemoteAddressArgs address = .ok args) :
    mysqlAddressArgs address = .ok args := by
  cases address with
  | unix | tcp => exact made
  | uri | file => contradiction

theorem optionFileRead (optionFile : Text) : MysqlRead [units "--defaults-extra-file=" ++ optionFile] := by
  have head : (units "--defaults-extra-file=" ++ optionFile).take 5 = units "--def" := rfl
  have apart {l : List Text} (other : ∀ a ∈ l, a.take 5 ≠ units "--def") : units "--defaults-extra-file=" ++ optionFile ∉ l :=
    fun member => other _ member head
  refine mysqlFlags fun a only => ?_
  rw [List.mem_singleton.mp only, scopeless, decide_eq_true (apart (by decide)), decide_eq_true (apart (by decide))]
  rfl

theorem fixedRead : MysqlRead (["--hex-blob", "--default-character-set=utf8mb4", "--no-tablespaces", "--verbose"].map units) :=
  mysqlFlags (by decide)

theorem mysqlDumpRead {isMysql : Bool} {optionFile : Text} {opts : MysqlDumpOptions} {argv : List Text}
    (made : mysqlDump isMysql optionFile opts = .ok argv) : ∃ lead, argv = lead ++ mysqlScope opts ∧ MysqlRead lead := by
  unfold mysqlDump at made
  cases address : mysqlAddressArgs opts.address with
  | error e =>
    rw [address] at made
    contradiction
  | ok args =>
    rw [address] at made
    cases made
    refine ⟨_, rfl, ?_⟩
    exact mysqlAppend (mysqlAppend (mysqlAppend (mysqlAppend (mysqlAppend (mysqlAppend (mysqlAppend (optionFileRead optionFile)
      (addressRead address)) (mysqlSet _ (by decide))) (mysqlSet _ (by decide))) fixedRead) (mysqlSet _ (by decide)))
      (mysqlSet _ (by decide))) (mysqlPartsRead opts)

theorem remoteMysqlRead {opts : MysqlDumpOptions} {args : List Text} (made : remoteMysqlArgs opts = .ok args) :
    ∃ lead, args = lead ++ mysqlScope opts ∧ MysqlRead lead := by
  unfold remoteMysqlArgs at made
  cases address : mysqlRemoteAddressArgs opts.address with
  | error e =>
    rw [address] at made
    contradiction
  | ok args =>
    rw [address] at made
    cases made
    refine ⟨_, rfl, ?_⟩
    exact mysqlAppend (mysqlAppend (mysqlAppend (mysqlAppend (mysqlAppend (addressRead (addressSame address)) (mysqlGiven _))
      (mysqlSet _ (by decide))) (mysqlSet _ (by decide))) fixedRead) (mysqlPartsRead opts)

end Pieces

section Dumps

def Settles {α : Type} (result : Except Text α) (selects : α → Prop) (plain : Prop) : Prop :=
  ∀ passed, result = .ok passed → (selects passed ↔ plain)

def SentSelects (selects : List Text → Prop) (command : Text) : Prop := ∃ args, sentArgs command = some args ∧ selects args

theorem sentSelects {name : String} (known : name ∈ passwordVariables) {password remotePath : Text} {args : List Text}
    (some' : args ≠ []) {compressor : Option Text} (selects : List Text → Prop) :
    SentSelects selects (remoteCommand name password remotePath args compressor) ↔ selects args := by
  have back := sentBack known password remotePath some' compressor
  refine ⟨fun ⟨read, sent, selected⟩ => ?_, fun selected => ⟨args, back, selected⟩⟩
  rw [back] at sent
  exact Option.some.inj sent ▸ selected

theorem pgDumpSettles (socket : Text → Option (Text × Text)) (opts : PgDumpOptions) :
    Settles (pgDump socket opts) (PgSelects · opts.database opts.tables) (PgPlain opts) := by
  intro argv made
  by_cases none : opts.database = []
  · exact ⟨fun selects => absurd none selects.database.2.1, fun plain => absurd none plain.database.1⟩
  · unfold pgDump at made
    cases connection : pgConnection socket opts with
    | error e =>
      rw [connection] at made
      contradiction
    | ok args =>
      rw [connection] at made
      cases made
      have read := pgAppend (pgAppend (pgConnectionRead none connection) (pgFlag (by decide) (by decide) : PgRead [units "-v"] [] []))
        (pgPartsRead opts)
      exact pgReadSelects read

theorem remotePgSettles (majors : Option (ℕ × ℕ)) (remotePath : Text) (compressor : Option Text) (opts : PgDumpOptions) :
    Settles (remotePgDump majors remotePath compressor opts) (SentSelects (PgSelects · opts.database opts.tables)) (PgPlain opts) := by
  intro command made
  unfold remotePgDump at made
  split at made
  · contradiction
  · cases given : remotePgArgs opts with
    | error e =>
      rw [given] at made
      contradiction
    | ok args =>
      rw [given] at made
      cases made
      have read := pgRemoteRead given
      have some' : args ≠ [] := fun none => by
        obtain ⟨parts, whole, -, databases, -⟩ := read
        have empty := whole []
        rw [none] at empty
        simp [readArgs] at empty
        rw [empty] at databases
        contradiction
      exact (sentSelects (by decide) some' _).trans (pgReadSelects read)

theorem mysqlSettles (isMysql : Bool) (optionFile : Text) (opts : MysqlDumpOptions) :
    Settles (mysqlDump isMysql optionFile opts) (mysqlSelection · = .tables opts.database opts.tables) (MysqlPlain opts) := by
  intro argv made
  obtain ⟨lead, rfl, read⟩ := mysqlDumpRead made
  exact mysqlReadSelects read

theorem remoteMysqlSettles (remotePath : Text) (compressor : Option Text) (opts : MysqlDumpOptions) :
    Settles (remoteMysqlDump remotePath compressor opts) (SentSelects (mysqlSelection · = .tables opts.database opts.tables))
      (MysqlPlain opts) := by
  intro command made
  unfold remoteMysqlDump at made
  cases given : remoteMysqlArgs opts with
  | error e =>
    rw [given] at made
    contradiction
  | ok args =>
    rw [given] at made
    cases made
    obtain ⟨lead, rfl, read⟩ := remoteMysqlRead given
    have some' : lead ++ mysqlScope opts ≠ [] := List.append_ne_nil_of_right_ne_nil _ (by unfold mysqlScope; split <;> simp)
    exact (sentSelects (by decide) some' _).trans (mysqlReadSelects read)

theorem dumpsSelectNamed (socket : Text → Option (Text × Text)) (majors : Option (ℕ × ℕ)) (isMysql : Bool) (optionFile remotePath : Text)
    (compressor : Option Text) (pg : PgDumpOptions) (mysql : MysqlDumpOptions) :
    Settles (pgDump socket pg) (PgSelects · pg.database pg.tables) (PgPlain pg) ∧
    Settles (remotePgDump majors remotePath compressor pg) (SentSelects (PgSelects · pg.database pg.tables)) (PgPlain pg) ∧
    Settles (mysqlDump isMysql optionFile mysql) (mysqlSelection · = .tables mysql.database mysql.tables) (MysqlPlain mysql) ∧
    Settles (remoteMysqlDump remotePath compressor mysql) (SentSelects (mysqlSelection · = .tables mysql.database mysql.tables))
      (MysqlPlain mysql) :=
  ⟨pgDumpSettles socket pg, remotePgSettles majors remotePath compressor pg, mysqlSettles isMysql optionFile mysql,
    remoteMysqlSettles remotePath compressor mysql⟩

def upperCase : PgDumpOptions :=
  ⟨.tcp (units "db") 5432, units "u", [], units "shop", true, .both, true, true, [], [units "Users"]⟩

-- pg_dump is given `-t Users` and looks for `users`.
theorem upperCaseFolded : ∃ argv, pgDump (fun _ => none) upperCase = .ok argv ∧
    ¬ PgSelects argv upperCase.database upperCase.tables := by
  refine ⟨_, rfl, fun selects => ?_⟩
  have patterns := selects.patterns
  revert patterns
  decide +kernel

def quotedNames : MysqlDumpOptions :=
  ⟨.tcp (units "db") 3306, units "u", units "p", units "shop", [units "it's; a table"], .both, true, true, true, false⟩

theorem quotedNamesSelected : ∃ command, remoteMysqlDump (units "/usr/bin/mysqldump") (some (units "gzip -1")) quotedNames = .ok command ∧
    SentSelects (mysqlSelection · = .tables quotedNames.database quotedNames.tables) command :=
  ⟨_, rfl, ((dumpsSelectNamed (fun _ => none) none true [] (units "/usr/bin/mysqldump") (some (units "gzip -1")) upperCase quotedNames).2.2.2
    _ rfl).mpr ⟨by decide, by decide, by decide⟩⟩

end Dumps

end DatabaseAdmin.NativeDumps
