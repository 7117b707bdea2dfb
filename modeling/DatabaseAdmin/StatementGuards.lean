import DatabaseAdmin.SqlTokens
import DatabaseAdmin.SplitStatements

/-! The two statement guards: what kind a statement is, and whether it asks for the typed
confirmation. Both read the token stream only. -/
namespace DatabaseAdmin.StatementGuards
open CodeUnits

inductive StatementKind where
  | select | insert | update | delete | ddl | transaction | explain | other
  deriving DecidableEq, Repr

def isWord (t : SqlToken) (word : String) : Bool := t.kind = .word && t.upper = units word

def isOneOf (t : SqlToken) (words : List String) : Bool := words.any (isWord t)

def isMark (t : SqlToken) (mark : String) : Bool := t.text = units mark

def isIdentToken (t : SqlToken) : Bool := t.kind = .word || t.kind = .quoted

def ddlVerbs : List String :=
  ["CREATE", "ALTER", "DROP", "TRUNCATE", "RENAME", "COMMENT", "GRANT", "REVOKE",
    "REINDEX", "VACUUM", "ANALYZE", "CLUSTER", "REFRESH", "ATTACH", "DETACH"]

def txVerbs : List String := ["BEGIN", "START", "COMMIT", "ROLLBACK", "SAVEPOINT", "RELEASE", "END"]

def selectish : List String := ["SELECT", "TABLE", "VALUES", "SHOW", "DESCRIBE", "DESC"]

def cteVerbs : List String := ["SELECT", "INSERT", "UPDATE", "DELETE", "MERGE", "VALUES"]

def kindForVerb (t : SqlToken) : Option StatementKind :=
  if isOneOf t selectish then some .select
  else if isOneOf t ["INSERT", "REPLACE", "UPSERT"] then some .insert
  else if isOneOf t ["UPDATE", "MERGE"] then some .update
  else if isWord t "DELETE" then some .delete
  else if isWord t "EXPLAIN" then some .explain
  else if isOneOf t txVerbs then some .transaction
  else if isOneOf t ddlVerbs then some .ddl
  else none

def pastParens (tokens : List SqlToken) : List SqlToken := tokens.dropWhile (isMark · "(")

def isCteVerb (t : SqlToken) : Bool := t.depth = 0 && isOneOf t cteVerbs

def startsWithWord (word : String) (tokens : List SqlToken) : Bool := tokens.head?.any (isWord · word)

def classifyTokens (tokens : List SqlToken) : StatementKind :=
  match pastParens tokens with
  | [] => .other
  | first :: rest =>
      if first.kind ≠ .word then .other
      else if isWord first "WITH" then
        match rest.find? isCteVerb with
        | some t => (kindForVerb t).getD .select
        | none => .select
      else if isWord first "SET" then
        if startsWithWord "TRANSACTION" rest || startsWithWord "CONSTRAINTS" rest then .transaction else .other
      else if isWord first "START" then
        if startsWithWord "TRANSACTION" rest then .transaction else .other
      else (kindForVerb first).getD .other

def classifyStatement (sql : Text) (dialect : SqlDialect) : StatementKind :=
  classifyTokens (tokenize sql (rulesOf dialect))

def verbAt (tokens : List SqlToken) : List SqlToken :=
  match pastParens tokens with
  | [] => []
  | first :: rest =>
      if isWord first "WITH" then rest.dropWhile (fun t => !isCteVerb t)
      else if first.kind = .word then first :: rest else []

structure DestructiveVerdict where
  destructive : Bool
  reason : Option Text
  unqualified : Bool
  deriving DecidableEq

def harmless : DestructiveVerdict := ⟨false, none, false⟩

def nonDataDrop : List String :=
  ["CONSTRAINT", "INDEX", "KEY", "FOREIGN", "PRIMARY", "UNIQUE", "CHECK", "DEFAULT",
    "NOT", "PARTITION", "EXPRESSION", "IDENTITY"]

def dropObjects : List String :=
  ["TABLE", "VIEW", "INDEX", "DATABASE", "SCHEMA", "FUNCTION", "PROCEDURE", "TRIGGER",
    "SEQUENCE", "TYPE", "DOMAIN", "MATERIALIZED", "TABLESPACE", "ROLE", "USER", "EXTENSION",
    "COLUMN", "CONSTRAINT", "SERVER", "PUBLICATION", "SUBSCRIPTION", "EVENT", "TEMPORARY"]

def readQualifiedName : List SqlToken → List Text × List SqlToken
  | [] => ([], [])
  | t :: rest =>
      if isIdentToken t then
        match rest with
        | dot :: next :: more =>
            if isMark dot "." && isIdentToken next then
              let (parts, left) := readQualifiedName (next :: more)
              (identText t :: parts, left)
            else ([identText t], dot :: next :: more)
        | rest => ([identText t], rest)
      else ([], t :: rest)

def joined (separator : String) (parts : List Text) : Text := (parts.intersperse (units separator)).flatten

def nameAt (tokens : List SqlToken) : Text := joined "." (readQualifiedName tokens).1

def named (title : Text) (name : Text) : Text := if name = [] then title else title ++ units " " ++ name

def skipWord (word : String) (tokens : List SqlToken) : List SqlToken :=
  if startsWithWord word tokens then tokens.tail else tokens

def skipIfExists (tokens : List SqlToken) : List SqlToken :=
  if startsWithWord "IF" tokens && startsWithWord "EXISTS" tokens.tail then tokens.drop 2 else tokens

def dropObjectWords (words : List Text) : List SqlToken → List Text × List SqlToken
  | [] => (words, [])
  | t :: rest =>
      if isOneOf t dropObjects then
        if words ≠ [] ∧ !rest.head?.any isIdentToken then (words, t :: rest)
        else dropObjectWords (words ++ [t.upper]) rest
      else (words, t :: rest)

def isTopLevel (word : String) (t : SqlToken) : Bool := t.depth = 0 && isWord t word

def hasTopLevelWord (tokens : List SqlToken) (word : String) : Bool := tokens.any (isTopLevel word)

def nameAfterWord (tokens : List SqlToken) (word : String) : Option Text :=
  match tokens.dropWhile (fun t => !isTopLevel word t) with
  | [] => none
  | _ :: rest =>
      let name := nameAt (skipWord "ONLY" rest)
      if name = [] then none else some name

def dropVerdict (rest : List SqlToken) : DestructiveVerdict :=
  let (words, left) := dropObjectWords [] rest
  let object := if words = [] then units "OBJECT" else joined " " words
  ⟨true, some (named (units "DROP " ++ object) (nameAt (skipIfExists left))), false⟩

def truncateVerdict (rest : List SqlToken) : DestructiveVerdict :=
  ⟨true, some (named (units "TRUNCATE TABLE") (nameAt (skipWord "ONLY" (skipWord "TABLE" rest)))), false⟩

def deleteVerdict (tokens : List SqlToken) : DestructiveVerdict :=
  if hasTopLevelWord tokens "WHERE" then harmless
  else
    let name := (nameAfterWord tokens "FROM").getD (units "the table")
    ⟨true, some (units "DELETE FROM " ++ name ++ units " with no WHERE clause — every row is removed"), true⟩

def updateVerdict (tokens rest : List SqlToken) : DestructiveVerdict :=
  if hasTopLevelWord tokens "WHERE" then harmless
  else
    let name := if nameAt rest = [] then units "the table" else nameAt rest
    ⟨true, some (units "UPDATE " ++ name ++ units " with no WHERE clause — every row is rewritten"), true⟩

def dropsColumn (tokens rest : List SqlToken) : DestructiveVerdict :=
  let target := (nameAfterWord tokens "TABLE").getD []
  ⟨true, some (named (named (units "ALTER TABLE") target ++ units " DROP COLUMN") (nameAt (skipIfExists rest))),
    false⟩

def alterVerdict (tokens : List SqlToken) : List SqlToken → DestructiveVerdict
  | [] => harmless
  | t :: rest =>
      if !isTopLevel "DROP" t then alterVerdict tokens rest
      else if startsWithWord "COLUMN" rest then dropsColumn tokens rest.tail
      else if rest.head?.any (isOneOf · nonDataDrop) then alterVerdict tokens rest
      else dropsColumn tokens rest

def destructiveTokens : List SqlToken → DestructiveVerdict
  | [] => harmless
  | first :: rest =>
      if isWord first "DROP" then dropVerdict rest
      else if isWord first "TRUNCATE" then truncateVerdict rest
      else if isWord first "DELETE" then deleteVerdict (first :: rest)
      else if isWord first "UPDATE" then updateVerdict (first :: rest) rest
      else if isWord first "ALTER" then alterVerdict (first :: rest) rest
      else harmless

def destructiveStatement (sql : Text) (dialect : SqlDialect) : DestructiveVerdict :=
  destructiveTokens (tokenize sql (rulesOf dialect))

def statementTexts (sql : Text) (dialect : SqlDialect) : List Text :=
  let texts := (splitStatements sql dialect).map SqlStatement.text
  if texts = [] then [sql] else texts

def isDestructive (sql : Text) (dialect : SqlDialect) : DestructiveVerdict :=
  (((statementTexts sql dialect).map (destructiveStatement · dialect)).find?
    DestructiveVerdict.destructive).getD harmless

theorem wordsApart {t : SqlToken} {word other : String} (here : isWord t word = true)
    (apart : units word ≠ units other) : isWord t other = false := by
  simp only [isWord, Bool.and_eq_true, decide_eq_true_eq] at here
  simp [isWord, here.2, apart]

theorem noneOf {t : SqlToken} {word : String} {words : List String} (here : isWord t word = true)
    (apart : ∀ other ∈ words, units word ≠ units other) : isOneOf t words = false :=
  List.any_eq_false.mpr fun other inside => by simp [wordsApart here (apart other inside)]

theorem parenIsNoWord {sql : Text} {rules : DialectRules} {t : SqlToken}
    (inside : t ∈ tokenize sql rules) (paren : isMark t "(" = true) {word : String}
    (apart : units word ≠ units "(") : isWord t word = false := by
  simp only [isMark, decide_eq_true_eq] at paren
  have spelled := tokenUpper inside
  by_cases kind : t.kind = .word
  · have upper : t.upper = units "(" := by
      rw [spelled, if_pos kind, paren]
      rfl
    simp [isWord, upper, apart.symm]
  · simp [isWord, kind]

end DatabaseAdmin.StatementGuards
