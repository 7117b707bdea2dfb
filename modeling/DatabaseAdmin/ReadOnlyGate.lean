import DatabaseAdmin.StatementGuards
import Mathlib.Data.List.TakeWhile

/-! The gate of a read-only connection in the query and the explain route, and what a server
makes of a statement that the gate lets pass: its reading follows the documented syntax down to
the commands that change data or schema. -/
namespace DatabaseAdmin.ReadOnlyGate
open CodeUnits ScanLoop StatementGuards

def writeKinds : List StatementKind := [.insert, .update, .delete, .ddl]

def firstLine (sql : Text) : Text :=
  let line := trim (sql.takeWhile (· ≠ ('\n' : CodeUnit)))
  if 80 < line.length then line.take 79 ++ units "…" else line

inductive Mode where
  | single
  | script
  deriving DecidableEq

inductive GateAnswer where
  | badRequest (message : Text)
  | readOnly (message : Text)
  | run (statements : List Text)
  deriving DecidableEq

def writesMessage (name offender : Text) : Text :=
  units "\"" ++ name ++ units "\" is a read-only connection, so nothing was run. The statement \"" ++
    firstLine offender ++ units "\" writes."

def analyzeMessage (name : Text) : Text :=
  units "\"" ++ name ++ units "\" is read-only, and EXPLAIN ANALYZE would actually run this statement. " ++
    units "Explain it without ANALYZE."

def isWrite (dialect : SqlDialect) (text : Text) : Bool := classifyStatement text dialect ∈ writeKinds

def parsed (sql : Text) (dialect : SqlDialect) : List Text := (splitStatements sql dialect).map SqlStatement.text

def postQuery (name : Text) (readOnly : Bool) (dialect : SqlDialect) (mode : Mode) (sql : Text) : GateAnswer :=
  let statements := parsed sql dialect
  if statements = [] then
    .badRequest (units "There is no runnable statement — only comments or whitespace.")
  else if mode = .single ∧ 1 < statements.length then
    .badRequest (units ("This is " ++ toString statements.length ++
      " statements, not one — run it as a script instead."))
  else match if readOnly then statements.find? (isWrite dialect) else none with
    | some offender => .readOnly (writesMessage name offender)
    | none => .run statements

def postExplain (name : Text) (readOnly analyze : Bool) (dialect : SqlDialect) (sql : Text) : GateAnswer :=
  match parsed sql dialect with
  | [] => .badRequest (units "There is no statement to explain.")
  | [statement] =>
      if analyze && readOnly && isWrite dialect statement then .readOnly (analyzeMessage name)
      else .run [statement]
  | _ => .badRequest (units "Select a single statement to explain.")

-- A server runs what MySQL's bang comments hold; to the guards it is a comment.
def engineStep (rules : DialectRules) : Step CodeUnit (Nat × Bool) SqlToken
  | (depth, inside), before, text =>
      if inside && startsWith (units "*/") text then ⟨(depth, false), 2, []⟩
      else if rules.executableComments && !inside && startsWith (units "/*!") text then
        ⟨(depth, true), 3 + ((text.drop 3).takeWhile isDigit).length, []⟩
      else
        let turn := tokenStep rules depth before text
        ⟨(turn.state, inside), turn.width, turn.out⟩

def engineTokens (sql : Text) (dialect : SqlDialect) : List SqlToken :=
  run (engineStep (rulesOf dialect)) (fun _ _ => []) 0 (0, false) [] sql

def writeVerbs : List String :=
  ["INSERT", "UPDATE", "DELETE", "MERGE", "REPLACE", "TRUNCATE", "CREATE", "ALTER", "DROP", "RENAME",
    "COMMENT", "GRANT", "REVOKE", "REFRESH"]

def routineVerbs : SqlDialect → List String
  | .postgres => ["CALL", "DO", "EXECUTE"]
  | .mysql => ["CALL", "DO", "EXECUTE"]
  | .sqlite => []

def explainVerbs : SqlDialect → List String
  | .postgres => ["EXPLAIN"]
  | .mysql => ["EXPLAIN", "DESCRIBE", "DESC"]
  | .sqlite => []

def writingPragmas : List String :=
  ["USER_VERSION", "APPLICATION_ID", "SCHEMA_VERSION", "WRITABLE_SCHEMA", "JOURNAL_MODE", "AUTO_VACUUM",
    "ENCODING", "PAGE_SIZE"]

def closeGroup (depth : Nat) (inner : List SqlToken) : List SqlToken × List SqlToken :=
  let body := inner.takeWhile fun t => !(isMark t ")" && t.depth = depth)
  (body, inner.drop (body.length + 1))

def skipGroup : List SqlToken → List SqlToken
  | [] => []
  | t :: inner => if isMark t "(" then (closeGroup t.depth inner).2 else t :: inner

def skipSearch (tokens : List SqlToken) : List SqlToken :=
  if startsWithWord "SEARCH" tokens then (tokens.dropWhile fun t => !isWord t "SET").drop 2 else tokens

def skipCycle (tokens : List SqlToken) : List SqlToken :=
  if startsWithWord "CYCLE" tokens then (tokens.dropWhile fun t => !isWord t "USING").drop 2 else tokens

def readCtes : Nat → List SqlToken → List (List SqlToken) × List SqlToken
  | 0, tokens => ([], tokens)
  | fuel+1, tokens =>
      let rest := skipWord "MATERIALIZED" (skipWord "NOT" (skipWord "AS" (skipGroup tokens.tail)))
      match rest with
      | [] => ([], [])
      | t :: inner =>
          if isMark t "(" then
            let (body, after) := closeGroup t.depth inner
            let left := skipCycle (skipSearch after)
            if left.head?.any (isMark · ",") then
              let (bodies, main) := readCtes fuel left.tail
              (body :: bodies, main)
            else ([body], left)
          else ([], rest)

def explained (rest : List SqlToken) : List SqlToken :=
  match rest with
  | [] => []
  | t :: inner =>
      if isMark t "(" then
        let (options, statement) := closeGroup t.depth inner
        if options.any (isWord · "ANALYZE") && !options.any (isOneOf · ["FALSE", "OFF"]) then statement else []
      else if isWord t "ANALYZE" then
        let left := skipWord "VERBOSE" inner
        if startsWithWord "FORMAT" left then left.drop 3 else left
      else []

def modifies : Nat → SqlDialect → List SqlToken → Bool
  | 0, _, _ => false
  | fuel+1, dialect, tokens =>
      match pastParens tokens with
      | [] => false
      | verb :: rest =>
          if isOneOf verb writeVerbs || isOneOf verb (routineVerbs dialect) then true
          else if isWord verb "WITH" then
            let (bodies, main) := readCtes rest.length (skipWord "RECURSIVE" rest)
            (dialect = .postgres && bodies.any (modifies fuel .postgres)) || modifies fuel dialect main
          else if isOneOf verb (explainVerbs dialect) then modifies fuel dialect (explained rest)
          else match dialect with
            | .postgres =>
                if isWord verb "COPY" then
                  rest.any (isTopLevel "FROM") || (rest.head?.any (isMark · "(") && modifies fuel .postgres rest)
                else isWord verb "SELECT" && rest.any fun t => t.depth = verb.depth && isWord t "INTO"
            | .mysql => isWord verb "LOAD" && startsWithWord "DATA" rest
            | .sqlite => isWord verb "PRAGMA" && rest.any (isOneOf · writingPragmas) &&
                rest.any fun t => isMark t "=" || isMark t "("

def Modifies (dialect : SqlDialect) (text : Text) : Prop :=
  modifies (engineTokens text dialect).length dialect (engineTokens text dialect) = true

instance (dialect : SqlDialect) (text : Text) : Decidable (Modifies dialect text) :=
  inferInstanceAs (Decidable (_ = true))

def shownVerbs : List String := ["INSERT", "REPLACE", "UPSERT"] ++ (["UPDATE", "MERGE"] ++ (["DELETE"] ++ ddlVerbs))

def ShowsWrite (dialect : SqlDialect) (text : Text) : Prop :=
  (verbAt (tokenize text (rulesOf dialect))).head?.any (isOneOf · shownVerbs) = true

def QuerySafe (dialect : SqlDialect) (sql : Text) : Prop :=
  ∀ name mode statements, postQuery name true dialect mode sql = .run statements →
    ∀ t ∈ statements, ¬ Modifies dialect t

def ExplainSafe (dialect : SqlDialect) (sql : Text) : Prop :=
  ∀ name statements, postExplain name true true dialect sql = .run statements →
    ∀ t ∈ statements, ¬ Modifies dialect t

theorem verbsApart {t : SqlToken} {words others : List String} (here : isOneOf t words = true)
    (apart : ∀ word ∈ words, ∀ other ∈ others, units word ≠ units other) : isOneOf t others = false := by
  obtain ⟨word, inside, spelled⟩ := List.any_eq_true.mp here
  exact noneOf spelled (apart word inside)

theorem shownVerb (t : SqlToken) : isOneOf t shownVerbs = (isOneOf t ["INSERT", "REPLACE", "UPSERT"] ||
    (isOneOf t ["UPDATE", "MERGE"] || (isWord t "DELETE" || isOneOf t ddlVerbs))) := by
  simp only [shownVerbs, isOneOf, List.any_append]
  simp

theorem kindWrites (t : SqlToken) : (kindForVerb t).any (· ∈ writeKinds) = isOneOf t shownVerbs := by
  unfold kindForVerb
  split
  · rename_i reads
    rw [verbsApart reads (by decide)]
    rfl
  · rw [shownVerb]
    split
    · rename_i inserts
      rw [inserts]
      rfl
    · rename_i noInsert
      split
      · rename_i updates
        rw [updates]
        simp [writeKinds]
      · rename_i noUpdate
        split
        · rename_i deletes
          rw [deletes]
          simp [writeKinds]
        · rename_i noDelete
          simp only [noInsert, noUpdate, noDelete, Bool.false_or]
          split
          · rename_i explains
            rw [noneOf explains (by decide)]
            rfl
          · split
            · rename_i controls
              rw [verbsApart controls (by decide)]
              rfl
            · split
              · rename_i defines
                rw [defines]
                rfl
              · rename_i noDdl
                simp [noDdl]

theorem keptUnwritten (t : SqlToken) {kind : StatementKind} (reads : kind ∉ writeKinds) :
    ((kindForVerb t).getD kind ∈ writeKinds) ↔ isOneOf t shownVerbs = true := by
  rw [← kindWrites]
  cases kindForVerb t with
  | none => simp [reads]
  | some k => simp

theorem tokensWrite (tokens : List SqlToken) : classifyTokens tokens ∈ writeKinds ↔
    (verbAt tokens).head?.any (isOneOf · shownVerbs) = true := by
  unfold classifyTokens verbAt
  cases pastParens tokens with
  | nil => simp [writeKinds]
  | cons first rest =>
    dsimp only
    cases plain : isWord first "WITH" with
    | true =>
      have kind : first.kind = .word := by
        simp only [isWord, Bool.and_eq_true, decide_eq_true_eq] at plain
        exact plain.1
      have same : rest.find? isCteVerb = (rest.dropWhile fun t => !isCteVerb t).head? := by
        exact List.find?_eq_head?_dropWhile_not _ _
      simp only [kind, ne_eq, not_true_eq_false, if_false, if_true]
      rw [← same]
      cases rest.find? isCteVerb with
      | none => simp [writeKinds]
      | some t => simpa using keptUnwritten t (show StatementKind.select ∉ writeKinds by decide)
    | false =>
      by_cases kind : first.kind = .word
      · simp only [kind, ne_eq, not_true_eq_false, Bool.false_eq_true, if_false, if_true, List.head?_cons,
          Option.any_some]
        cases sets : isWord first "SET" with
        | true =>
          rw [noneOf sets (by decide)]
          simp only [if_true]
          split <;> simp [writeKinds]
        | false =>
          cases starts : isWord first "START" with
          | true =>
            rw [noneOf starts (by decide)]
            simp only [Bool.false_eq_true, if_false, if_true]
            split <;> simp [writeKinds]
          | false => simpa using keptUnwritten first (show StatementKind.other ∉ writeKinds by decide)
      · simp [kind, writeKinds]

theorem writeIffShown (dialect : SqlDialect) (text : Text) :
    isWrite dialect text = true ↔ ShowsWrite dialect text :=
  decide_eq_true_iff.trans (tokensWrite _)

theorem querySafeIff (dialect : SqlDialect) (sql : Text) : QuerySafe dialect sql ↔
    ((∃ t ∈ parsed sql dialect, Modifies dialect t) → ∃ t ∈ parsed sql dialect, ShowsWrite dialect t) := by
  constructor
  · intro safe modified
    by_contra none
    obtain ⟨t, inside, writes⟩ := modified
    have passes : (parsed sql dialect).find? (isWrite dialect) = Option.none := by
      rw [List.find?_eq_none]
      exact fun t inside shown => none ⟨t, inside, (writeIffShown dialect t).mp shown⟩
    have ran : postQuery [] true dialect .script sql = .run (parsed sql dialect) := by
      simp [postQuery, List.ne_nil_of_mem inside, passes]
    exact safe [] .script _ ran t inside writes
  · intro shown name mode statements ran t inside writes
    simp only [postQuery, if_true] at ran
    split at ran
    · contradiction
    · split at ran
      · contradiction
      · split at ran
        · contradiction
        · rename_i passes
          cases ran
          obtain ⟨offender, inside', write⟩ := shown ⟨t, inside, writes⟩
          exact List.find?_eq_none.mp passes offender inside' ((writeIffShown dialect offender).mpr write)

theorem explainSafe {dialect : SqlDialect} {sql : Text}
    (shown : (∃ t ∈ parsed sql dialect, Modifies dialect t) → ∃ t ∈ parsed sql dialect, ShowsWrite dialect t) :
    ExplainSafe dialect sql := by
  intro name statements ran t inside writes
  simp only [postExplain] at ran
  split at ran
  · contradiction
  · rename_i statement one
    split at ran
    · contradiction
    · rename_i passes
      cases ran
      rw [one] at shown
      obtain rfl := List.mem_singleton.mp inside
      obtain ⟨t', inside', write⟩ := shown ⟨t, inside, writes⟩
      obtain rfl := List.mem_singleton.mp inside'
      exact passes (by simpa using (writeIffShown dialect t').mpr write)
  · contradiction

def deletesInCte : String := "WITH gone AS (DELETE FROM t RETURNING *) SELECT * FROM gone"

def hiddenWrites : List (SqlDialect × String) :=
  [(.postgres, deletesInCte), (.postgres, "EXPLAIN ANALYZE DELETE FROM t"),
    (.postgres, "DO $$ BEGIN DELETE FROM t; END $$"), (.mysql, "/*! DELETE FROM t */"),
    (.sqlite, "PRAGMA user_version = 5")]

end DatabaseAdmin.ReadOnlyGate
