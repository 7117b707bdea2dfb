import DatabaseAdmin.StatementGuards

/-! Which statements the typed confirmation reaches. A statement's verb is where the classifier
finds it, behind parentheses and a CTE list; what destroys data is read from the statement's own
level, and the guard is compared with that. -/
namespace DatabaseAdmin.ConfirmedStatements
open CodeUnits StatementGuards

structure ConnectionConfig where
  name : Text
  readOnly : Bool
  prod : Bool

inductive DdlResponse where
  | readOnly
  | requiresConfirmation (phrase : Text) (reasons : List Text)
  | executed (statements : List Text)
  deriving DecidableEq

def reasonLine (verdict : DestructiveVerdict × Nat) : Text :=
  units ("Statement " ++ toString (verdict.2 + 1) ++ ": ") ++ verdict.1.reason.getD (units "data will be lost")

def reasons (config : ConnectionConfig) (dialect : SqlDialect) (list : List Text) : List Text :=
  let verdicts := list.map (isDestructive · dialect)
  let lost := (verdicts.zipIdx.filter fun v => v.1.destructive).map reasonLine
  if config.prod then lost ++ [units "This connection is tagged prod (" ++ config.name ++ units ")."] else lost

def postExecute (config : ConnectionConfig) (dialect : SqlDialect) (confirm : Option Text) (list : List Text) :
    DdlResponse :=
  if config.readOnly then .readOnly
  else if reasons config dialect list ≠ [] ∧ confirm ≠ some config.name then
    .requiresConfirmation config.name (reasons config dialect list)
  else .executed list

def namesNext (t : SqlToken) : Bool :=
  [".", "@", ":", "$"].any (isMark t) || isWord t "AS"

def ownWhere (depth : Nat) : SqlToken → List SqlToken → Bool
  | _, [] => false
  | before, t :: rest => (t.depth = depth && isWord t "WHERE" && !namesNext before) || ownWhere depth t rest

def columnNames : SqlDialect → List String
  | .postgres => ["INDEX", "KEY", "PARTITION", "EXPRESSION", "IDENTITY"]
  | .mysql => ["EXPRESSION", "IDENTITY"]
  | .sqlite => ["KEY", "PARTITION", "EXPRESSION", "IDENTITY"]

def namesColumn (dialect : SqlDialect) (t : SqlToken) : Bool :=
  isWord t "COLUMN" || t.kind = .quoted ||
    (t.kind = .word && (!isOneOf t nonDataDrop || isOneOf t (columnNames dialect)))

def columnDropIn (dialect : SqlDialect) (depth : Nat) : Bool → List SqlToken → Bool
  | _, [] => false
  | starts, t :: rest =>
      (starts && (t.depth = depth && isWord t "DROP") && rest.head?.any (namesColumn dialect)) ||
        columnDropIn dialect depth (t.depth = depth && isMark t ",") rest

def alterations (rest : List SqlToken) : List SqlToken :=
  let table := if rest.head?.any (isOneOf · ["FOREIGN", "ONLINE", "OFFLINE", "IGNORE"]) then rest.tail else rest
  if startsWithWord "TABLE" table then
    let left := (readQualifiedName (skipWord "ONLY" (skipIfExists table.tail))).2
    if left.head?.any (isMark · "*") then left.tail else left
  else []

def DestroysBy (dialect : SqlDialect) : List SqlToken → Prop
  | [] => False
  | verb :: rest =>
      isWord verb "DROP" = true ∨ isWord verb "TRUNCATE" = true ∨
      (isWord verb "ALTER" = true ∧ columnDropIn dialect verb.depth true (alterations rest) = true) ∨
      ((isWord verb "UPDATE" = true ∨ isWord verb "DELETE" = true) ∧ ownWhere verb.depth verb rest = false)

def Destroys (dialect : SqlDialect) (tokens : List SqlToken) : Prop := DestroysBy dialect (verbAt tokens)

instance destroysByDecidable (dialect : SqlDialect) : ∀ found, Decidable (DestroysBy dialect found)
  | [] => isFalse id
  | verb :: rest => inferInstanceAs (Decidable (isWord verb "DROP" = true ∨ isWord verb "TRUNCATE" = true ∨
      (isWord verb "ALTER" = true ∧ columnDropIn dialect verb.depth true (alterations rest) = true) ∨
      ((isWord verb "UPDATE" = true ∨ isWord verb "DELETE" = true) ∧ ownWhere verb.depth verb rest = false)))

instance (dialect : SqlDialect) (tokens : List SqlToken) : Decidable (Destroys dialect tokens) :=
  destroysByDecidable dialect (verbAt tokens)

def losesColumn : List SqlToken → Bool
  | [] => false
  | t :: rest => (isTopLevel "DROP" t && !rest.head?.any (isOneOf · nonDataDrop)) || losesColumn rest

def Outright : List SqlToken → Prop
  | [] => False
  | verb :: rest =>
      isMark verb "(" = false ∧ isWord verb "WITH" = false ∧
      (isWord verb "ALTER" = true → losesColumn rest = true) ∧
      (isWord verb "UPDATE" = true ∨ isWord verb "DELETE" = true → ∀ t ∈ rest, isTopLevel "WHERE" t = false)

instance outrightDecidable : ∀ tokens, Decidable (Outright tokens)
  | [] => isFalse id
  | verb :: rest => inferInstanceAs (Decidable (isMark verb "(" = false ∧ isWord verb "WITH" = false ∧
      (isWord verb "ALTER" = true → losesColumn rest = true) ∧
      (isWord verb "UPDATE" = true ∨ isWord verb "DELETE" = true → ∀ t ∈ rest, isTopLevel "WHERE" t = false)))

theorem alterVerdictIff (tokens rest : List SqlToken) :
    (alterVerdict tokens rest).destructive = losesColumn rest := by
  induction rest with
  | nil => rfl
  | cons t rest ih =>
    simp only [alterVerdict, losesColumn]
    cases drop : isTopLevel "DROP" t with
    | false => simpa using ih
    | true =>
      cases column : startsWithWord "COLUMN" rest with
      | true =>
        cases rest with
        | nil => simp [startsWithWord] at column
        | cons next more =>
          have named : isWord next "COLUMN" = true := by simpa [startsWithWord] using column
          have data : isOneOf next nonDataDrop = false := noneOf named (by decide)
          simp [dropsColumn, data]
      | false =>
        cases kept : rest.head?.any (isOneOf · nonDataDrop) with
        | true => simpa using ih
        | false => simp [dropsColumn]

theorem whereBehindVerb {verb : SqlToken} (rest : List SqlToken) (other : isWord verb "WHERE" = false) :
    hasTopLevelWord (verb :: rest) "WHERE" = false ↔ ∀ t ∈ rest, isTopLevel "WHERE" t = false := by
  simp [hasTopLevelWord, isTopLevel, other]

theorem destructiveVerb {verb : SqlToken} {rest : List SqlToken} (plain : isWord verb "WITH" = false)
    (paren : isMark verb "(" = false)
    (destroys : isWord verb "DROP" = true ∨ isWord verb "TRUNCATE" = true ∨ isWord verb "ALTER" = true ∨
      isWord verb "UPDATE" = true ∨ isWord verb "DELETE" = true) :
    (destructiveTokens (verb :: rest)).destructive = true ↔ Outright (verb :: rest) := by
  have apart {word : String} (here : isWord verb word = true) (other : String)
      (distinct : units word ≠ units other) : isWord verb other = false := wordsApart here distinct
  rcases destroys with drop | truncate | alter | update | delete
  · have noAlter := apart drop "ALTER" (by decide)
    have noUpdate := apart drop "UPDATE" (by decide)
    have noDelete := apart drop "DELETE" (by decide)
    simp [destructiveTokens, Outright, dropVerdict, plain, paren, drop, noAlter, noUpdate, noDelete]
  · have noDrop := apart truncate "DROP" (by decide)
    have noAlter := apart truncate "ALTER" (by decide)
    have noUpdate := apart truncate "UPDATE" (by decide)
    have noDelete := apart truncate "DELETE" (by decide)
    simp [destructiveTokens, Outright, truncateVerdict, plain, paren, truncate, noDrop, noAlter, noUpdate, noDelete]
  · have noDrop := apart alter "DROP" (by decide)
    have noTruncate := apart alter "TRUNCATE" (by decide)
    have noUpdate := apart alter "UPDATE" (by decide)
    have noDelete := apart alter "DELETE" (by decide)
    simp [destructiveTokens, Outright, alterVerdictIff, plain, paren, alter, noDrop, noTruncate, noUpdate, noDelete]
  · have noDrop := apart update "DROP" (by decide)
    have noTruncate := apart update "TRUNCATE" (by decide)
    have noAlter := apart update "ALTER" (by decide)
    have noDelete := apart update "DELETE" (by decide)
    have noWhere := whereBehindVerb rest (apart update "WHERE" (by decide))
    simp only [destructiveTokens, Outright, updateVerdict, plain, paren, update, noDrop, noTruncate, noAlter, noDelete]
    simp only [← noWhere]
    cases hasTopLevelWord (verb :: rest) "WHERE" <;> simp [harmless]
  · have noDrop := apart delete "DROP" (by decide)
    have noTruncate := apart delete "TRUNCATE" (by decide)
    have noAlter := apart delete "ALTER" (by decide)
    have noWhere := whereBehindVerb rest (apart delete "WHERE" (by decide))
    simp only [destructiveTokens, Outright, deleteVerdict, plain, paren, delete, noDrop, noTruncate, noAlter]
    simp only [← noWhere]
    cases hasTopLevelWord (verb :: rest) "WHERE" <;> simp [harmless]

theorem destructiveIffOutright {sql : Text} {dialect : SqlDialect}
    (destroys : Destroys dialect (tokenize sql (rulesOf dialect))) :
    (destructiveStatement sql dialect).destructive = true ↔ Outright (tokenize sql (rulesOf dialect)) := by
  have spelled : ∀ t ∈ tokenize sql (rulesOf dialect), isMark t "(" = true → ∀ word, units word ≠ units "(" →
      isWord t word = false := fun t inside paren _ apart => parenIsNoWord inside paren apart
  unfold destructiveStatement
  generalize tokenize sql (rulesOf dialect) = tokens at *
  cases tokens with
  | nil => simp [Destroys, DestroysBy, verbAt, pastParens] at destroys
  | cons verb rest =>
    cases paren : isMark verb "(" with
    | true =>
      have other := spelled verb List.mem_cons_self paren
      have noDrop := other "DROP" (by decide)
      have noTruncate := other "TRUNCATE" (by decide)
      have noAlter := other "ALTER" (by decide)
      have noUpdate := other "UPDATE" (by decide)
      have noDelete := other "DELETE" (by decide)
      simp [destructiveTokens, Outright, harmless, paren, noDrop, noTruncate, noAlter, noUpdate, noDelete]
    | false =>
      cases plain : isWord verb "WITH" with
      | true =>
        have other : ∀ word, units "WITH" ≠ units word → isWord verb word = false := fun _ => wordsApart plain
        have noDrop := other "DROP" (by decide)
        have noTruncate := other "TRUNCATE" (by decide)
        have noAlter := other "ALTER" (by decide)
        have noUpdate := other "UPDATE" (by decide)
        have noDelete := other "DELETE" (by decide)
        simp [destructiveTokens, Outright, harmless, plain, noDrop, noTruncate, noAlter, noUpdate, noDelete]
      | false =>
        refine destructiveVerb plain paren ?_
        have kind : verb.kind = .word := by
          by_contra other
          simp [Destroys, DestroysBy, verbAt, pastParens, paren, plain, other] at destroys
        simp only [Destroys, verbAt, pastParens, List.dropWhile_cons, paren, plain, kind, Bool.false_eq_true,
          if_false, if_true, DestroysBy] at destroys
        rcases destroys with drop | truncate | alter | update
        · exact Or.inl drop
        · exact Or.inr (Or.inl truncate)
        · exact Or.inr (Or.inr (Or.inl alter.1))
        · exact Or.inr (Or.inr (Or.inr update.1))

theorem reportedIff {sql : Text} {dialect : SqlDialect} : (isDestructive sql dialect).destructive = true ↔
    ∃ t ∈ statementTexts sql dialect, (destructiveStatement t dialect).destructive = true := by
  unfold isDestructive
  cases found : ((statementTexts sql dialect).map (destructiveStatement · dialect)).find?
      DestructiveVerdict.destructive with
  | none =>
    simp only [List.find?_eq_none, List.mem_map, forall_exists_index, and_imp, forall_apply_eq_imp_iff₂] at found
    simp only [Option.getD_none, harmless, Bool.false_eq_true, false_iff, not_exists, not_and]
    exact found
  | some verdict =>
    obtain ⟨t, inside, same⟩ := List.mem_map.mp (List.mem_of_find?_eq_some found)
    have lost := List.find?_some found
    rw [Option.getD_some]
    exact ⟨fun _ => ⟨t, inside, same ▸ lost⟩, fun _ => lost⟩

theorem lossHasReason (config : ConnectionConfig) {dialect : SqlDialect} {list : List Text} {sql : Text}
    (inside : sql ∈ list) (lost : (isDestructive sql dialect).destructive = true) :
    reasons config dialect list ≠ [] := by
  obtain ⟨i, here⟩ := List.mem_iff_getElem?.mp inside
  have reason : reasonLine (isDestructive sql dialect, i) ∈
      (((list.map (isDestructive · dialect)).zipIdx).filter fun v => v.1.destructive).map reasonLine := by
    refine List.mem_map_of_mem (List.mem_filter.mpr ⟨?_, lost⟩)
    rw [List.mk_mem_zipIdx_iff_getElem?, List.getElem?_map, here]
    rfl
  simp only [reasons]
  split
  · exact List.append_ne_nil_of_right_ne_nil _ (List.cons_ne_nil _ _)
  · exact List.ne_nil_of_mem reason

theorem withheldUntilConfirmed {config : ConnectionConfig} {dialect : SqlDialect} {confirm : Option Text}
    {list ran : List Text} {sql : Text} (inside : sql ∈ list) (lost : (isDestructive sql dialect).destructive = true)
    (unconfirmed : confirm ≠ some config.name) : postExecute config dialect confirm list ≠ .executed ran := by
  unfold postExecute
  split
  · nofun
  · rw [if_pos ⟨lossHasReason config inside lost, unconfirmed⟩]
    nofun

def Guarded (dialect : SqlDialect) (sql : Text) : Prop :=
  (isDestructive sql dialect).destructive = true ∧
  ∀ config confirm list ran, sql ∈ list → confirm ≠ some config.name →
    postExecute config dialect confirm list ≠ .executed ran

theorem lossIsConfirmed {dialect : SqlDialect} {sql t : Text} (only : statementTexts sql dialect = [t])
    (destroys : Destroys dialect (tokenize t (rulesOf dialect))) :
    Guarded dialect sql ↔ Outright (tokenize t (rulesOf dialect)) := by
  have reported : (isDestructive sql dialect).destructive = true ↔ Outright (tokenize t (rulesOf dialect)) := by
    rw [reportedIff, only, ← destructiveIffOutright destroys]
    simp
  exact ⟨fun guarded => reported.mp guarded.1, fun outright => ⟨reported.mpr outright,
    fun config confirm list ran inside unconfirmed =>
      withheldUntilConfirmed inside (reported.mpr outright) unconfirmed⟩⟩

def dropKeyColumn : Text := units "ALTER TABLE t DROP COLUMN key"

theorem keyColumnIsGuarded : Guarded .postgres dropKeyColumn := by
  have only : statementTexts dropKeyColumn .postgres = [dropKeyColumn] := by decide +kernel
  have destroys : Destroys .postgres (tokenize dropKeyColumn (rulesOf .postgres)) := by decide +kernel
  have outright : Outright (tokenize dropKeyColumn (rulesOf .postgres)) := by decide +kernel
  exact (lossIsConfirmed only destroys).mpr outright

def Missed (dialect : SqlDialect) (sql : Text) : Prop :=
  statementTexts sql dialect = [sql] ∧ Destroys dialect (tokenize sql (rulesOf dialect)) ∧ ¬ Guarded dialect sql

theorem lossGoesUnconfirmed :
    Missed .postgres (units "WITH x AS (SELECT 1) DELETE FROM t") ∧
    Missed .postgres (units "DELETE FROM t RETURNING a AS where") ∧
    Missed .postgres (units "ALTER TABLE t DROP key") := by
  have unreported {sql : Text} (quiet : (isDestructive sql .postgres).destructive = false) :
      ¬ Guarded .postgres sql := fun guarded => by simp [guarded.1] at quiet
  refine ⟨⟨?_, ?_, unreported ?_⟩, ⟨?_, ?_, unreported ?_⟩, ⟨?_, ?_, unreported ?_⟩⟩
  all_goals decide +kernel

end DatabaseAdmin.ConfirmedStatements
