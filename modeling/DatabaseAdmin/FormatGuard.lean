import DatabaseAdmin.ConfirmedStatements

/-! Formatting behind its guard: the formatter may be any function, and its text is handed back
only with the statement kinds of the original. -/
namespace DatabaseAdmin.FormatGuard
open CodeUnits StatementGuards ConfirmedStatements

inductive KeywordCase where
  | upper | lower | preserve
  deriving DecidableEq, Repr

structure FormatOptions where
  indent : Option Nat
  keywordCase : Option KeywordCase

structure FormatterCall where
  language : String
  tabWidth : Nat
  keywordCase : KeywordCase

def kindName : StatementKind → String
  | .select => "select"
  | .insert => "insert"
  | .update => "update"
  | .delete => "delete"
  | .ddl => "ddl"
  | .transaction => "transaction"
  | .explain => "explain"
  | .other => "other"

def isLineBreak (c : CodeUnit) : Bool := c == 10 || c == 13 || c == 0x2028 || c == 0x2029

def delimiterLine (line : Text) : Bool :=
  let text := line.dropWhile isBlank
  let rest := text.drop delimiterKeyword.length
  (text.take delimiterKeyword.length).map lowerUnit == delimiterKeyword && rest.head?.any isBlank &&
    (rest.dropWhile isBlank).head?.any fun c => !isWhite c

def someDelimiterLine : Bool → Text → Bool
  | _, [] => false
  | starts, c :: rest => (starts && delimiterLine (c :: rest)) || someDelimiterLine (isLineBreak c) rest

def hasDelimiterCommand (sql : Text) (dialect : SqlDialect) : Bool :=
  dialect = .mysql && someDelimiterLine true sql

def formatRefused (reason : Text) : Text := reason ++ units " The SQL was left unchanged."

def language : SqlDialect → String
  | .mysql => "mysql"
  | .postgres => "postgresql"
  | .sqlite => "sqlite"

def shapeOf (sql : Text) (dialect : SqlDialect) : List StatementKind :=
  (splitStatements sql dialect).map fun s => classifyStatement s.text dialect

def changedKind : Nat → List StatementKind → List StatementKind → Option Text
  | i, before :: olds, after :: news =>
      if before ≠ after then
        some (units ("Formatting changed statement " ++ toString (i + 1) ++ " from " ++ kindName before ++ " to " ++
          kindName after ++ "."))
      else changedKind (i + 1) olds news
  | _, _, _ => none

def formatSql (sqlFormatter : FormatterCall → Text → Except Text Text) (sql : Text) (dialect : SqlDialect)
    (opts : FormatOptions) (formatter : Option (Text → Except Text Text)) : Except Text Text :=
  if trim sql = [] then .ok sql
  else if hasDelimiterCommand sql dialect then .ok sql
  else
    let before := shapeOf sql dialect
    match (match formatter with
      | some format => format sql
      | none => sqlFormatter ⟨language dialect, opts.indent.getD 2, opts.keywordCase.getD .upper⟩ sql) with
    | .error thrown => .error (formatRefused (units "The formatter failed on this SQL (" ++ thrown ++ units ")."))
    | .ok formatted =>
        let after := shapeOf formatted dialect
        if after.length ≠ before.length then
          .error (formatRefused (units ("Formatting changed the script from " ++ toString before.length ++
            " statement(s) to " ++ toString after.length ++ ".")))
        else match changedKind 0 before after with
          | some reason => .error (formatRefused reason)
          | none => .ok formatted

section Guard
variable {dialect : SqlDialect}

def LosesData : List SqlToken → Prop
  | [] => False
  | verb :: rest =>
      isWord verb "DROP" = true ∨ isWord verb "TRUNCATE" = true ∨
      (isWord verb "ALTER" = true ∧ losesColumn rest = true) ∨
      ((isWord verb "UPDATE" = true ∨ isWord verb "DELETE" = true) ∧ ∀ t ∈ rest, isTopLevel "WHERE" t = false)

def Loses (dialect : SqlDialect) (text : Text) : Prop :=
  ∃ t ∈ statementTexts text dialect, LosesData (tokenize t (rulesOf dialect))

def Risky (dialect : SqlDialect) (text : Text) : Prop :=
  classifyStatement text dialect ∈ [StatementKind.update, .delete, .ddl] ∨ statementTexts text dialect ≠ [text]

def FormatsSafely (dialect : SqlDialect) (sql formatted : Text) : Prop :=
  shapeOf formatted dialect = shapeOf sql dialect ∧
  ∀ (i : Nat) (a b : SqlStatement), (splitStatements sql dialect)[i]? = some a → (splitStatements formatted dialect)[i]? = some b →
    (isDestructive b.text dialect).destructive = (isDestructive a.text dialect).destructive

theorem destructiveIffLoses (tokens : List SqlToken) :
    (destructiveTokens tokens).destructive = true ↔ LosesData tokens := by
  cases tokens with
  | nil => simp [destructiveTokens, harmless, LosesData]
  | cons verb rest =>
    simp only [destructiveTokens, LosesData]
    by_cases drop : isWord verb "DROP" = true
    · simp [drop, dropVerdict]
    by_cases truncate : isWord verb "TRUNCATE" = true
    · simp [drop, truncate, truncateVerdict]
    by_cases delete : isWord verb "DELETE" = true
    · have noAlter : isWord verb "ALTER" = false := wordsApart delete (by decide)
      have noWhere := whereBehindVerb rest (wordsApart delete (by decide))
      simp only [drop, truncate, delete, noAlter, deleteVerdict, Bool.false_eq_true, if_true, if_false, false_and,
        false_or, or_true, true_and, ← noWhere]
      cases hasTopLevelWord (verb :: rest) "WHERE" <;> simp [harmless]
    by_cases update : isWord verb "UPDATE" = true
    · have noAlter : isWord verb "ALTER" = false := wordsApart update (by decide)
      have noWhere := whereBehindVerb rest (wordsApart update (by decide))
      simp only [drop, truncate, delete, update, noAlter, updateVerdict, Bool.false_eq_true, if_true, if_false,
        false_and, false_or, true_or, true_and, ← noWhere]
      cases hasTopLevelWord (verb :: rest) "WHERE" <;> simp [harmless]
    by_cases alter : isWord verb "ALTER" = true
    · simp [drop, truncate, delete, update, alter, alterVerdictIff]
    · simp [drop, truncate, delete, update, alter, harmless]

theorem destructiveIff (text : Text) : (isDestructive text dialect).destructive = true ↔ Loses dialect text := by
  rw [reportedIff, Loses]
  simp only [destructiveStatement, destructiveIffLoses]

theorem verbKind {verb : SqlToken} {word : String} (here : isWord verb word = true) :
    kindForVerb verb = kindForVerb ⟨.word, [], units word, 0, 0⟩ := by
  simp only [isWord, Bool.and_eq_true, decide_eq_true_eq] at here
  have same : isWord verb = isWord ⟨.word, [], units word, 0, 0⟩ := by
    funext other
    simp [isWord, here.1, here.2]
  unfold kindForVerb isOneOf
  rw [same]

theorem losingVerb {verb : SqlToken} {rest : List SqlToken} (loses : LosesData (verb :: rest)) :
    ∃ word ∈ ["DROP", "TRUNCATE", "ALTER", "UPDATE", "DELETE"], isWord verb word = true := by
  rcases loses with drop | truncate | ⟨alter, -⟩ | ⟨update | delete, -⟩
  · exact ⟨"DROP", by simp, drop⟩
  · exact ⟨"TRUNCATE", by simp, truncate⟩
  · exact ⟨"ALTER", by simp, alter⟩
  · exact ⟨"UPDATE", by simp, update⟩
  · exact ⟨"DELETE", by simp, delete⟩

theorem losingKind {sql : Text} (loses : LosesData (tokenize sql (rulesOf dialect))) :
    classifyStatement sql dialect ∈ [StatementKind.update, .delete, .ddl] := by
  have spelled : ∀ t ∈ tokenize sql (rulesOf dialect), isMark t "(" = true → ∀ word, units word ≠ units "(" →
      isWord t word = false := fun t inside paren _ apart => parenIsNoWord inside paren apart
  unfold classifyStatement
  generalize tokenize sql (rulesOf dialect) = tokens at *
  cases tokens with
  | nil => exact loses.elim
  | cons verb rest =>
    obtain ⟨word, listed, spells⟩ := losingVerb loses
    have distinct : ∀ word ∈ ["DROP", "TRUNCATE", "ALTER", "UPDATE", "DELETE"],
        ∀ other ∈ ["WITH", "SET", "START", "("], units word ≠ units other := by decide
    have apart := distinct word listed
    have paren : isMark verb "(" = false := by
      by_contra open_
      have none := spelled verb List.mem_cons_self (eq_true_of_ne_false open_) word (apart "(" (by simp))
      rw [spells] at none
      cases none
    have kind : verb.kind = .word := by
      simp only [isWord, Bool.and_eq_true, decide_eq_true_eq] at spells
      exact spells.1
    have noWith := wordsApart spells (apart "WITH" (by simp))
    have noSet := wordsApart spells (apart "SET" (by simp))
    have noStart := wordsApart spells (apart "START" (by simp))
    have found : classifyTokens (verb :: rest) = (kindForVerb verb).getD .other := by
      simp [classifyTokens, pastParens, paren, kind, noWith, noSet, noStart]
    rw [found, verbKind spells]
    clear noWith noSet noStart apart found spells distinct
    revert word
    decide

theorem quietUnlessRisky {text : Text} (plain : ¬ Risky dialect text) : ¬ Loses dialect text := by
  simp only [Risky, not_or, not_not] at plain
  rintro ⟨t, member, loses⟩
  rw [plain.2, List.mem_singleton] at member
  subst member
  exact plain.1 (losingKind loses)

theorem unchangedKinds {before after : List StatementKind} (i : Nat) (long : after.length = before.length)
    (same : changedKind i before after = none) : after = before := by
  induction before generalizing after i with
  | nil => exact List.eq_nil_of_length_eq_zero long
  | cons old olds ih =>
    cases after with
    | nil => cases long
    | cons new news =>
      simp only [changedKind] at same
      split at same
      · cases same
      · rename_i equal
        rw [not_not.mp equal, ih (i + 1) (by simpa using long) same]

theorem shapeKept {sqlFormatter : FormatterCall → Text → Except Text Text} {sql formatted : Text} {opts : FormatOptions}
    {formatter : Option (Text → Except Text Text)}
    (done : formatSql sqlFormatter sql dialect opts formatter = .ok formatted) :
    shapeOf formatted dialect = shapeOf sql dialect := by
  unfold formatSql at done
  split at done
  · cases Except.ok.inj done
    rfl
  · split at done
    · cases Except.ok.inj done
      rfl
    · dsimp only at done
      split at done
      · cases done
      · rename_i shown formats
        split at done
        · cases done
        · rename_i long
          split at done
          · cases done
          · rename_i same
            cases Except.ok.inj done
            exact unchangedKinds 0 (not_not.mp long) same

end Guard

end DatabaseAdmin.FormatGuard
