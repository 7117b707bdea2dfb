import DatabaseAdmin.DumpScripts
import DatabaseAdmin.PgLiterals
import DatabaseAdmin.PgTablePlan
import DatabaseAdmin.SplitCut
import DatabaseAdmin.TableDiffs

/-! The script that creates a PostgreSQL table or view, and the statements a plan for a new table is made of: the script
cut at its blank lines, wherever they stand. -/
namespace DatabaseAdmin.CreatedTables
open CodeUnits ScanLoop SchemaModels SqlFragments SqlScripts
open ChangeStatements (escapeIdentifier pgQualify join)
open DumpScripts (Contained)
open SqlDumps (truthy)
open PgTablePlan (checkClause)

section Rendering

def collationOf (c : ColumnModel) : Option Text := (truthy c.collation).filter (· ≠ units "default")

def storedOf (c : ColumnModel) : Option Text := if c.generated = some .stored then truthy c.generatedExpression else none

def valueParts (c : ColumnModel) : List Text :=
  match storedOf c with
  | some expression => [units "GENERATED ALWAYS AS (" ++ expression ++ units ") STORED"]
  | none => c.defaultValue.toList.map fun d => units "DEFAULT " ++ d

def columnParts (c : ColumnModel) : List Text :=
  [escapeIdentifier c.name, c.type.raw] ++ ((collationOf c).toList.map fun n => units "COLLATE " ++ escapeIdentifier n) ++
    valueParts c ++ (if c.nullable then [] else [units "NOT NULL"])

def renderColumnDefinition (c : ColumnModel) : Text := join " " (columnParts c)

def identList (names : List Text) : Text := join ", " (names.map escapeIdentifier)

def action (word : String) (a : Option ReferentialAction) : List Text :=
  (a.filter (· ≠ .noAction)).toList.map fun a => units word ++ toUpperCase (units (TableDiffs.actionWord a))

def renderForeignKey (fk : ForeignKeyModel) : Text :=
  join " " ([units "CONSTRAINT " ++ escapeIdentifier fk.name ++ units " FOREIGN KEY (" ++ identList fk.columns ++ units ")",
    units "REFERENCES " ++ pgQualify fk.refSchema fk.refTable ++ units " (" ++ identList fk.refColumns ++ units ")"] ++
    action "ON UPDATE " fk.onUpdate ++ action "ON DELETE " fk.onDelete ++
    (if fk.deferrable then [units "DEFERRABLE INITIALLY DEFERRED"] else []))

def renderCheck (chk : CheckModel) : Text :=
  units "CONSTRAINT " ++ escapeIdentifier chk.name ++ units " CHECK " ++ checkClause chk.expression

def partBase (part : IndexColumn) : Text :=
  match truthy part.expression with
  | some expression => units "(" ++ expression ++ units ")"
  | none => escapeIdentifier (part.name.getD [])

def nullsClause (part : IndexColumn) : Text :=
  let implied : NullsOrder := if part.order = some .desc then .first else .last
  match part.nulls.filter (· ≠ implied) with
  | some nulls => units " NULLS " ++ toUpperCase (units (TableDiffs.nullsWord nulls))
  | none => []

def renderIndexPart (part : IndexColumn) : Text :=
  partBase part ++ (if part.order = some .desc then units " DESC" else []) ++ nullsClause part

def written (lead : String) (text : Option Text) : Text := (text.map (units lead ++ ·)).getD []

def methodOf (idx : IndexModel) : Option Text := (truthy idx.method).filter (· ≠ units "btree")

def renderCreateIndex (table : TableModel) (idx : IndexModel) : Text :=
  units "CREATE " ++ (if idx.unique then units "UNIQUE " else []) ++ units "INDEX " ++ escapeIdentifier idx.name ++
    units " ON " ++ pgQualify table.schema table.name ++ written " USING " (methodOf idx) ++
    units " (" ++ join ", " (idx.columns.map renderIndexPart) ++ units ")" ++ written " WHERE " (truthy idx.predicate) ++
    units ";"

def commentStatement (target : Text) (comment : Option Text) : List Text :=
  (truthy comment).toList.map fun comment =>
    units "COMMENT ON " ++ target ++ units " IS " ++ PgLiterals.quoteLiteral comment ++ units ";"

def primaryKeyItem (table : TableModel) : List Text :=
  if table.primaryKey = [] then []
  else
    let name := match truthy table.primaryKeyName with
      | some name => units "CONSTRAINT " ++ escapeIdentifier name ++ units " "
      | none => []
    [name ++ units "PRIMARY KEY (" ++ identList table.primaryKey ++ units ")"]

def tableItems (table : TableModel) : List Text :=
  (orderedColumns table).map renderColumnDefinition ++ primaryKeyItem table ++ table.checks.map renderCheck ++
    table.foreignKeys.map renderForeignKey

def accessMethod (table : TableModel) : Option Text := (truthy table.engine).filter (· ≠ units "heap")

def partitionKey (table : TableModel) : Option Text :=
  (truthy table.partitioning).filter fun p => !startsWith (units "PARTITION ") p

def renderCreateTable (table : TableModel) : Text :=
  units "CREATE TABLE " ++ pgQualify table.schema table.name ++ units " (\n  " ++ join ",\n  " (tableItems table) ++ units "\n)" ++
    written "\nUSING " (accessMethod table) ++ written "\nPARTITION BY " (partitionKey table) ++ units ";"

def viewKeyword : TableKind → Option String
  | .view => some "VIEW"
  | .materializedView => some "MATERIALIZED VIEW"
  | _ => none

def viewBody (table : TableModel) : Text :=
  let body := trim (table.definition.getD [])
  if body.getLast? = some 59 then body.dropLast else body

def renderCreateView (table : TableModel) (keyword : String) : Text :=
  units "CREATE " ++ units keyword ++ units " " ++ pgQualify table.schema table.name ++ units " AS\n" ++ viewBody table ++ units ";"

def objectKind (kind : TableKind) : Text := units ((viewKeyword kind).getD "TABLE")

def createStatements (table : TableModel) : List Text :=
  match viewKeyword table.kind with
  | some keyword => [renderCreateView table keyword]
  | none => renderCreateTable table :: (table.indexes.filter (!·.primary)).map (renderCreateIndex table)

def tableStatements (table : TableModel) : List Text :=
  let target := pgQualify table.schema table.name
  createStatements table ++
    commentStatement (objectKind table.kind ++ units " " ++ target) table.comment ++
    table.columns.flatMap fun c =>
      commentStatement (units "COLUMN " ++ target ++ units "." ++ escapeIdentifier c.name) c.comment

def renderTableDdl (table : TableModel) : Text := join "\n\n" (tableStatements table)

def splitBlank : Text → List Text
  | [] => [[]]
  | c :: rest =>
      match rest with
      | d :: later => if c = newline ∧ d = newline then [] :: splitBlank later else
          match splitBlank (d :: later) with
          | first :: more => (c :: first) :: more
          | [] => [[c]]
      | [] => [[c]]

def planNewTable (desired : TableModel) : List Text := splitBlank (renderTableDdl desired)

end Rendering

section Blanks

def broken : Text → Bool
  | [] => false
  | c :: rest =>
      match rest with
      | d :: later => (c = newline ∧ d = newline) || broken (d :: later)
      | [] => false

abbrev Ended (t : Text) : Prop := t.getLast? = some newline

theorem brokenAppend (a b : Text) : broken (a ++ b) = true ↔
    broken a = true ∨ broken b = true ∨ Ended a ∧ b.head? = some newline := by
  fun_induction broken a with
  | case1 => simp [Ended]
  | case2 c d later ih =>
    simp only [List.cons_append, broken, Bool.or_eq_true, decide_eq_true_eq] at ih ⊢
    rw [ih]
    simp [Ended, or_assoc]
  | case3 c =>
    cases b with
    | nil => simp [broken]
    | cons d b => simp [broken, Ended, or_comm]

theorem brokenSeam {a b : Text} (apart : ¬ Ended a ∨ b.head? ≠ some newline) :
    broken (a ++ b) = true ↔ broken a = true ∨ broken b = true := by
  rw [brokenAppend]
  have none' : ¬ (Ended a ∧ b.head? = some newline) := fun both => apart.elim (· both.1) (· both.2)
  simp [none']

theorem brokenJoin {sep : Text} (calm : broken sep = false) (opens : ∃ c rest, sep = c :: rest ∧ c ≠ newline)
    (ends : ¬ Ended sep) {parts : List Text} : broken (sep.intercalate parts) = true ↔ ∃ p ∈ parts, broken p = true := by
  obtain ⟨c, rest, shape, other⟩ := opens
  induction parts with
  | nil => simp [broken]
  | cons p parts ih =>
    cases parts with
    | nil => simp
    | cons q parts =>
      have head : (sep ++ sep.intercalate (q :: parts)).head? ≠ some newline := by simp [shape, other]
      rw [List.intercalate_cons_cons, List.append_assoc, brokenSeam (.inr head), brokenSeam (.inl ends), ih, calm]
      simp

theorem brokenBare {t : Text} (bare : newline ∉ t) : broken t = false := by
  fun_induction broken t with
  | case1 => rfl
  | case2 c d later ih =>
    rw [ih fun inside => bare (List.mem_cons_of_mem c inside), Bool.or_false, decide_eq_false_iff_not]
    exact fun both => bare (both.1 ▸ List.mem_cons_self)
  | case3 c => rfl

theorem bareEnd {t : Text} (bare : newline ∉ t) : ¬ Ended t := fun ended => bare (List.mem_of_getLast? ended)

theorem brokenCons (c : CodeUnit) (t : Text) :
    broken (c :: t) = true ↔ c = newline ∧ t.head? = some newline ∨ broken t = true := by
  have split := brokenAppend [c] t
  simpa [broken, Ended, or_comm] using split

section Encoding
variable (quote : CodeUnit) (other : quote ≠ newline) (escapes : Bool)
include other

theorem encodeUnitShape (c : CodeUnit) : c = newline ∧ encodeUnit quote escapes c = [newline] ∨
    c ≠ newline ∧ newline ∉ encodeUnit quote escapes c ∧ ∃ d rest, encodeUnit quote escapes c = d :: rest := by
  by_cases same : c = newline
  · refine .inl ⟨same, ?_⟩
    rw [encodeUnit, if_neg (same ▸ other.symm), if_neg (fun both => absurd (both.2.symm.trans same) (by decide)), same]
  · refine .inr ⟨same, ?_⟩
    unfold encodeUnit
    split
    · exact ⟨by simp [other.symm], _, _, rfl⟩
    · split
      · exact ⟨by decide, _, _, rfl⟩
      · exact ⟨by simpa using Ne.symm same, _, _, rfl⟩

theorem encodeHead (s : Text) : (encode quote escapes s).head? = some newline ↔ s.head? = some newline := by
  cases s with
  | nil => rfl
  | cons c s =>
    rw [encode, List.flatMap_cons]
    rcases encodeUnitShape quote other escapes c with ⟨rfl, shape⟩ | ⟨different, bare, d, rest, shape⟩
    · simp [shape]
    · have first : d ≠ newline := fun same => bare (by rw [shape, same]; exact List.mem_cons_self)
      simp [shape, first, different]

theorem brokenEncode (s : Text) : broken (encode quote escapes s) = true ↔ broken s = true := by
  induction s with
  | nil => rfl
  | cons c s ih =>
    have whole : encode quote escapes (c :: s) = encodeUnit quote escapes c ++ encode quote escapes s := List.flatMap_cons
    rw [whole, brokenCons, ← ih, ← encodeHead quote other escapes s]
    rcases encodeUnitShape quote other escapes c with ⟨rfl, shape⟩ | ⟨different, bare, -⟩
    · rw [shape, List.singleton_append, brokenCons]
    · rw [brokenSeam (.inl (bareEnd bare)), brokenBare bare]
      simp [different]

theorem brokenQuoted (s : Text) : broken (quote :: (encode quote escapes s ++ [quote])) = true ↔ broken s = true := by
  have last : [quote].head? ≠ some newline := by simpa using other
  rw [brokenCons, brokenSeam (.inr last), brokenEncode quote other]
  simp [other, broken]

end Encoding

theorem brokenIdent (name : Text) : broken (escapeIdentifier name) = true ↔ broken name = true := by
  rw [escapeIdentifier, encodeDoubled, List.cons_append]
  exact brokenQuoted doubleQuote (by decide) false name

theorem brokenLiteral (s : Text) : broken (PgLiterals.quoteLiteral s) = true ↔ broken s = true := by
  have quoted := brokenQuoted apostrophe (by decide) true s
  rw [PgLiterals.quoteLiteral]
  split
  · have calm : broken (units " E") = false := by decide
    rw [brokenSeam (.inl (by decide)), quoted, calm]
    simp
  · exact quoted

end Blanks

section Shown

abbrev Shown (written : Text) (texts : List Text) : Prop := broken written = true ↔ ∃ t ∈ texts, broken t = true

abbrev Listed (parts texts : List Text) : Prop := (∃ p ∈ parts, broken p = true) ↔ ∃ t ∈ texts, broken t = true

variable {a b : Text} {xs ys parts parts' : List Text}

theorem Shown.iff (shown : Shown a xs) : broken a = true ↔ ∃ t ∈ xs, broken t = true := shown

theorem shownWords {w : Text} (calm : broken w = false) : Shown w [] := by simp [Shown, calm]

theorem shownAppend (first : Shown a xs) (last : Shown b ys) (apart : ¬ Ended a ∨ b.head? ≠ some newline) :
    Shown (a ++ b) (xs ++ ys) := by
  refine (brokenSeam apart).trans ((or_congr first last).trans ?_)
  simp only [List.mem_append, or_and_right, exists_or]

theorem Shown.after {w : Text} (last : Shown b ys) (calm : broken w = false ∧ ¬ Ended w) : Shown (w ++ b) ys :=
  shownAppend (shownWords calm.1) last (.inl calm.2)

theorem Shown.before {w : Text} (first : Shown a xs) (calm : broken w = false ∧ w.head? ≠ some newline) : Shown (a ++ w) xs := by
  have whole := shownAppend first (shownWords calm.1) (.inr calm.2)
  rwa [List.append_nil] at whole

theorem shownIdent (name : Text) : Shown (escapeIdentifier name) [name] := by simp [Shown, brokenIdent]

theorem shownSelf (t : Text) : Shown t [t] := by simp [Shown]

theorem Listed.iff (listed : Listed parts xs) : (∃ p ∈ parts, broken p = true) ↔ ∃ t ∈ xs, broken t = true := listed

theorem listedNil : Listed [] [] := Iff.rfl

theorem listedOne (shown : Shown a xs) : Listed [a] xs := by simpa [Listed] using shown

theorem listedAppend (first : Listed parts xs) (last : Listed parts' ys) : Listed (parts ++ parts') (xs ++ ys) := by
  simp only [Listed, List.mem_append, or_and_right, exists_or]
  exact or_congr first last

theorem listedMap {α : Type} {f : α → Text} {g : α → List Text} {items : List α} (each : ∀ x ∈ items, Shown (f x) (g x)) :
    Listed (items.map f) (items.flatMap g) := by
  induction items with
  | nil => exact listedNil
  | cons x items ih =>
    rw [List.map_cons, List.flatMap_cons, ← List.singleton_append]
    exact listedAppend (listedOne (each x List.mem_cons_self)) (ih fun y inside => each y (List.mem_cons_of_mem x inside))

theorem shownJoin {sep : String} (calm : broken (units sep) = false)
    (opens : ∃ c rest, units sep = c :: rest ∧ c ≠ newline) (ends : ¬ Ended (units sep)) (listed : Listed parts xs) :
    Shown (join sep parts) xs :=
  (brokenJoin calm opens ends).trans listed

theorem shownIdents (names : List Text) : Shown (identList names) names := by
  have each := listedMap fun name (_ : name ∈ names) => shownIdent name
  rw [List.flatMap_singleton'] at each
  exact shownJoin (by decide) ⟨_, _, rfl, by decide⟩ (by decide) each

theorem shownWritten (lead : String) (calm : broken (units lead) = false ∧ ¬ Ended (units lead)) (text : Option Text) :
    Shown (written lead text) text.toList := by
  cases text with
  | none => exact shownWords rfl
  | some text => exact (shownSelf text).after calm

end Shown

section Embedded

def targetTexts (schema : Option Text) (name : Text) : List Text := (truthy schema).toList ++ [name]

def valueTexts (c : ColumnModel) : List Text :=
  match storedOf c with
  | some expression => [expression]
  | none => c.defaultValue.toList

def columnTexts (c : ColumnModel) : List Text := [c.name] ++ [c.type.raw] ++ (collationOf c).toList ++ valueTexts c

def checkTexts (chk : CheckModel) : List Text := [chk.name] ++ [trim chk.expression]

def foreignKeyTexts (fk : ForeignKeyModel) : List Text :=
  [fk.name] ++ fk.columns ++ (targetTexts fk.refSchema fk.refTable ++ fk.refColumns)

def keyTexts (table : TableModel) : List Text :=
  if table.primaryKey = [] then [] else (truthy table.primaryKeyName).toList ++ table.primaryKey

def partTexts (part : IndexColumn) : List Text := [(truthy part.expression).getD (part.name.getD [])]

def indexTexts (table : TableModel) (idx : IndexModel) : List Text :=
  [idx.name] ++ targetTexts table.schema table.name ++ (methodOf idx).toList ++ idx.columns.flatMap partTexts ++
    (truthy idx.predicate).toList

def itemTexts (table : TableModel) : List Text :=
  (orderedColumns table).flatMap columnTexts ++ keyTexts table ++ table.checks.flatMap checkTexts ++
    table.foreignKeys.flatMap foreignKeyTexts

def createdTexts (table : TableModel) : List Text :=
  targetTexts table.schema table.name ++ itemTexts table ++ (accessMethod table).toList ++ (partitionKey table).toList

def commentTexts (names : List Text) (comment : Option Text) : List Text := (truthy comment).toList.flatMap fun c => names ++ [c]

def createTexts (table : TableModel) : List Text :=
  match viewKeyword table.kind with
  | some _ => targetTexts table.schema table.name ++ [viewBody table]
  | none => createdTexts table ++ (table.indexes.filter (!·.primary)).flatMap (indexTexts table)

def embedded (table : TableModel) : List Text :=
  createTexts table ++ commentTexts (targetTexts table.schema table.name) table.comment ++
    table.columns.flatMap fun c => commentTexts (targetTexts table.schema table.name ++ [c.name]) c.comment

variable {table : TableModel}

theorem shownTarget (schema : Option Text) (name : Text) : Shown (pgQualify schema name) (targetTexts schema name) := by
  rcases schema with _ | schema
  · exact shownIdent name
  · cases schema with
    | nil => exact shownIdent name
    | cons c schema =>
      exact shownAppend ((shownIdent (c :: schema)).before (by decide)) (shownIdent name)
        (.inr (by simp [escapeIdentifier, doubleQuote, newline]))

theorem shownColumn (c : ColumnModel) : Shown (renderColumnDefinition c) (columnTexts c) := by
  have name := listedAppend (listedOne (shownIdent c.name)) (listedOne (shownSelf c.type.raw))
  have collation : Listed ((collationOf c).toList.map fun n => units "COLLATE " ++ escapeIdentifier n) (collationOf c).toList := by
    have each := listedMap fun n (_ : n ∈ (collationOf c).toList) => (shownIdent n).after (w := units "COLLATE ") (by decide)
    rwa [List.flatMap_singleton'] at each
  have value : Listed (valueParts c) (valueTexts c) := by
    unfold valueParts valueTexts
    split
    · rename_i expression _
      exact listedOne (((shownSelf expression).after (by decide)).before (by decide))
    · have each := listedMap fun d (_ : d ∈ c.defaultValue.toList) => (shownSelf d).after (w := units "DEFAULT ") (by decide)
      rwa [List.flatMap_singleton'] at each
  have nullable : Listed (if c.nullable then [] else [units "NOT NULL"]) [] := by
    split
    · exact listedNil
    · exact listedOne (shownWords (by decide))
  have whole := listedAppend (listedAppend (listedAppend name collation) value) nullable
  rw [List.append_nil] at whole
  exact shownJoin (by decide) ⟨_, _, rfl, by decide⟩ (by decide) whole

theorem shownCheck (chk : CheckModel) : Shown (renderCheck chk) (checkTexts chk) := by
  have clause : Shown (checkClause chk.expression) [trim chk.expression] := by
    simp only [checkClause]
    split
    · exact shownSelf _
    · exact ((shownSelf _).after (by decide)).before (by decide)
  have lead := ((shownIdent chk.name).after (w := units "CONSTRAINT ") (by decide)).before (w := units " CHECK ") (by decide)
  refine shownAppend lead clause (.inl ?_)
  rw [Ended, List.getLast?_append]
  exact nofun

theorem shownAction (word : String) (calm : broken (units word) = false ∧ ¬ Ended (units word)) (a : Option ReferentialAction) :
    Listed (action word a) [] := by
  have spelled (x : ReferentialAction) : Shown (toUpperCase (units (TableDiffs.actionWord x))) [] :=
    shownWords (by cases x <;> decide)
  have each := listedMap (g := fun _ => []) fun x (_ : x ∈ (a.filter (· ≠ .noAction)).toList) => (spelled x).after calm
  have none' : ((a.filter (· ≠ .noAction)).toList).flatMap (fun _ => ([] : List Text)) = [] := by simp
  rwa [none'] at each

theorem shownForeignKey (fk : ForeignKeyModel) : Shown (renderForeignKey fk) (foreignKeyTexts fk) := by
  have name := ((shownIdent fk.name).after (w := units "CONSTRAINT ") (by decide)).before (w := units " FOREIGN KEY (") (by decide)
  have own := (shownAppend name (shownIdents fk.columns) (.inl (by rw [Ended, List.getLast?_append]; exact nofun))).before
    (w := units ")") (by decide)
  have target := ((shownTarget fk.refSchema fk.refTable).after (w := units "REFERENCES ") (by decide)).before (w := units " (") (by decide)
  have other := (shownAppend target (shownIdents fk.refColumns) (.inl (by rw [Ended, List.getLast?_append]; exact nofun))).before
    (w := units ")") (by decide)
  have deferred : Listed (if fk.deferrable then [units "DEFERRABLE INITIALLY DEFERRED"] else []) [] := by
    split
    · exact listedOne (shownWords (by decide))
    · exact listedNil
  have whole := listedAppend (listedAppend (listedAppend (listedAppend (listedOne own) (listedOne other))
    (shownAction "ON UPDATE " (by decide) fk.onUpdate)) (shownAction "ON DELETE " (by decide) fk.onDelete)) deferred
  simp only [List.append_nil] at whole
  exact shownJoin (by decide) ⟨_, _, rfl, by decide⟩ (by decide) whole

theorem shownKey (table : TableModel) : Listed (primaryKeyItem table) (keyTexts table) := by
  unfold primaryKeyItem keyTexts
  split
  · exact listedNil
  · refine listedOne (Shown.before (shownAppend (Shown.before ?_ (w := units "PRIMARY KEY (") (by decide))
      (shownIdents table.primaryKey) (.inl (by rw [Ended, List.getLast?_append]; exact nofun))) (by decide))
    cases truthy table.primaryKeyName with
    | none => exact shownWords rfl
    | some name => exact ((shownIdent name).after (by decide)).before (by decide)

theorem shownItems (table : TableModel) : Shown (join ",\n  " (tableItems table)) (itemTexts table) :=
  shownJoin (by decide) ⟨_, _, rfl, by decide⟩ (by decide) <|
    listedAppend (listedAppend (listedAppend (listedMap fun c _ => shownColumn c) (shownKey table))
      (listedMap fun chk _ => shownCheck chk)) (listedMap fun fk _ => shownForeignKey fk)

theorem shownPart (part : IndexColumn) : Shown (renderIndexPart part) (partTexts part) := by
  have base : Shown (partBase part) (partTexts part) := by
    unfold partBase partTexts
    cases truthy part.expression with
    | none => exact shownIdent _
    | some expression => exact ((shownSelf expression).after (by decide)).before (by decide)
  have descending := base.before (w := if part.order = some .desc then units " DESC" else []) (by split <;> decide)
  refine descending.before (w := nullsClause part) ?_
  simp only [nullsClause]
  split
  · rename_i nulls _
    cases nulls <;> decide
  · decide

theorem shownIndex (table : TableModel) (idx : IndexModel) : Shown (renderCreateIndex table idx) (indexTexts table idx) := by
  have kind : Shown (units "CREATE " ++ (if idx.unique then units "UNIQUE " else []) ++ units "INDEX ") [] := by
    split <;> exact shownWords (by decide)
  have calm : broken (units "CREATE " ++ (if idx.unique then units "UNIQUE " else []) ++ units "INDEX ") = false ∧
      ¬ Ended (units "CREATE " ++ (if idx.unique then units "UNIQUE " else []) ++ units "INDEX ") := by
    split <;> decide
  have name := ((shownIdent idx.name).after calm).before (w := units " ON ") (by decide)
  have target := shownAppend name (shownTarget table.schema table.name) (.inl (by rw [Ended, List.getLast?_append]; exact nofun))
  have method := shownAppend target (shownWritten " USING " (by decide) (methodOf idx))
    (.inr (by cases methodOf idx <;> exact nofun))
  have parts : Shown (join ", " (idx.columns.map renderIndexPart)) (idx.columns.flatMap partTexts) :=
    shownJoin (by decide) ⟨_, _, rfl, by decide⟩ (by decide) (listedMap fun part _ => shownPart part)
  have list := (shownAppend (method.before (w := units " (") (by decide)) parts
    (.inl (by rw [Ended, List.getLast?_append]; exact nofun))).before (w := units ")") (by decide)
  have predicate := shownAppend list (shownWritten " WHERE " (by decide) (truthy idx.predicate))
    (.inr (by cases truthy idx.predicate <;> exact nofun))
  exact predicate.before (by decide)

end Embedded

section Ends

theorem endedAfter {w e : Text} (calm : ¬ Ended w) : Ended (w ++ e) ↔ Ended e := by
  rw [Ended, List.getLast?_append]
  cases last : e.getLast? with
  | none => simpa [Ended, last] using calm
  | some c => simp [Ended, last]

theorem endedBefore {e w : Text} (some' : w ≠ []) : Ended (e ++ w) ↔ Ended w := by
  rw [Ended, List.getLast?_append_of_ne_nil _ some']

theorem endedJoin {sep : Text} (calm : ¬ Ended sep) (some' : sep ≠ []) (parts : List Text) :
    Ended (sep.intercalate parts) ↔ ∃ p, parts.getLast? = some p ∧ Ended p := by
  induction parts with
  | nil => simp [Ended]
  | cons p parts ih =>
    cases parts with
    | nil => simp
    | cons q parts =>
      rw [List.intercalate_cons_cons, endedAfter (mt (endedBefore some').mp calm), ih, List.getLast?_cons_cons]

theorem joinCalm {sep : Text} (calm : ¬ Ended sep) (some' : sep ≠ []) {parts : List Text} (each : ∀ p ∈ parts, ¬ Ended p) :
    ¬ Ended (sep.intercalate parts) := fun ended => by
  obtain ⟨p, last, here⟩ := (endedJoin calm some' parts).mp ended
  exact each p (List.mem_of_getLast? last) here

def LooseColumn (c : ColumnModel) : Prop :=
  c.nullable = true ∧ storedOf c = none ∧
    match c.defaultValue with
    | some d => Ended d
    | none => collationOf c = none ∧ Ended c.type.raw

def LooseItems (table : TableModel) : Prop :=
  (table.primaryKey = [] ∧ table.checks = [] ∧ table.foreignKeys = []) ∧
    ∃ c, (orderedColumns table).getLast? = some c ∧ LooseColumn c

def LooseMethod (table : TableModel) : Prop := (partitionKey table).isSome = true ∧ ∃ e, accessMethod table = some e ∧ Ended e

theorem endedColumn (c : ColumnModel) : Ended (renderColumnDefinition c) ↔ LooseColumn c := by
  have lastly (parts : List Text) (p : Text) : (∃ q, (parts ++ [p]).getLast? = some q ∧ Ended q) ↔ Ended p := by simp
  rw [renderColumnDefinition, join, endedJoin (by decide) (by decide), columnParts, LooseColumn]
  cases c.nullable with
  | false =>
    rw [if_neg Bool.false_ne_true, lastly]
    exact iff_of_false (by decide) (fun loose => Bool.false_ne_true loose.1)
  | true =>
    rw [if_pos rfl, List.append_nil, valueParts]
    cases storedOf c with
    | some expression =>
      rw [lastly]
      exact iff_of_false (mt (endedBefore (by decide)).mp (by decide)) (fun loose => Option.some_ne_none _ loose.2.1)
    | none =>
      cases c.defaultValue with
      | some d =>
        have own : Ended (units "DEFAULT " ++ d) ↔ Ended d := endedAfter (by decide)
        simp only [Option.toList_some, List.map_cons, List.map_nil, lastly, own, true_and]
      | none =>
        simp only [Option.toList_none, List.map_nil, List.append_nil, true_and]
        cases collationOf c with
        | some n =>
          have quoted : ¬ Ended (units "COLLATE " ++ escapeIdentifier n) := by
            rw [escapeIdentifier, endedAfter (by decide), endedBefore (by decide)]
            decide
          simp only [Option.toList_some, List.map_cons, List.map_nil, lastly, quoted, reduceCtorEq, false_and]
        | none => simp

theorem calmCheck (chk : CheckModel) : ¬ Ended (renderCheck chk) := by
  have clause : ¬ Ended (checkClause chk.expression) := by
    simp only [checkClause]
    split
    · rename_i wrapped
      rw [Ended, wrapped.2]
      decide
    · rw [endedBefore (by decide)]
      decide
  rw [renderCheck]
  exact mt (endedAfter (by rw [endedBefore (by decide)]; decide)).mp clause

theorem calmForeignKey (fk : ForeignKeyModel) : ¬ Ended (renderForeignKey fk) := by
  have clause (word : String) (calm : ¬ Ended (units word)) (a : Option ReferentialAction) : ∀ p ∈ action word a, ¬ Ended p := by
    intro p inside
    obtain ⟨x, -, rfl⟩ := List.mem_map.mp inside
    exact mt (endedAfter calm).mp (by cases x <;> decide)
  refine joinCalm (by decide) (by decide) fun p inside => ?_
  simp only [List.mem_append, List.mem_cons, List.not_mem_nil, or_false] at inside
  rcases inside with (((rfl | rfl) | update) | delete) | deferred
  · rw [endedBefore (by decide)]
    decide
  · rw [endedBefore (by decide)]
    decide
  · exact clause _ (by decide) _ p update
  · exact clause _ (by decide) _ p delete
  · split at deferred
    · rw [List.mem_singleton.mp deferred]
      decide
    · contradiction

theorem endedItems (table : TableModel) : Ended (join ",\n  " (tableItems table)) ↔ LooseItems table := by
  rw [join, endedJoin (by decide) (by decide), tableItems, LooseItems]
  cases foreign : table.foreignKeys using List.reverseRecOn with
  | append_singleton fks fk =>
    refine iff_of_false ?_ (fun loose => by simp at loose)
    rw [List.map_append, List.map_singleton, ← List.append_assoc]
    rintro ⟨p, last, ended⟩
    rw [List.getLast?_concat] at last
    exact calmForeignKey fk (Option.some.inj last ▸ ended)
  | nil =>
    rw [List.map_nil, List.append_nil]
    cases checked : table.checks using List.reverseRecOn with
    | append_singleton chks chk =>
      refine iff_of_false ?_ (fun loose => by simp at loose)
      rw [List.map_append, List.map_singleton, ← List.append_assoc]
      rintro ⟨p, last, ended⟩
      rw [List.getLast?_concat] at last
      exact calmCheck chk (Option.some.inj last ▸ ended)
    | nil =>
      rw [List.map_nil, List.append_nil, primaryKeyItem]
      by_cases keyed : table.primaryKey = []
      · rw [if_pos keyed, List.append_nil, List.getLast?_map]
        simp only [Option.map_eq_some_iff, keyed, true_and, and_self]
        constructor
        · rintro ⟨_, ⟨c, last, rfl⟩, ended⟩
          exact ⟨c, last, (endedColumn c).mp ended⟩
        · rintro ⟨c, last, loose⟩
          exact ⟨_, ⟨c, last, rfl⟩, (endedColumn c).mpr loose⟩
      · rw [if_neg keyed]
        refine iff_of_false ?_ (fun loose => keyed loose.1.1)
        rintro ⟨p, last, ended⟩
        rw [List.getLast?_concat] at last
        refine absurd (Option.some.inj last ▸ ended) ?_
        rw [endedBefore (by decide)]
        decide

theorem endedWritten {lead : String} (calm : ¬ Ended (units lead)) (text : Option Text) :
    Ended (written lead text) ↔ ∃ e, text = some e ∧ Ended e := by
  cases text with
  | none => simp [written, Ended]
  | some e => simpa [written] using endedAfter calm

theorem brokenClauses (list : Text) (method partition : Option Text) :
    broken (list ++ units "\n)" ++ written "\nUSING " method ++ written "\nPARTITION BY " partition ++ units ";") = true ↔
      (broken list = true ∨ Ended list) ∨ (∃ t ∈ method.toList ++ partition.toList, broken t = true) ∨
        partition.isSome = true ∧ ∃ e, method = some e ∧ Ended e := by
  have shut : ¬ Ended (list ++ units "\n)") := mt (endedBefore (by decide)).mp (by decide)
  have closing : broken (list ++ units "\n)") = true ↔ broken list = true ∨ Ended list := by
    have calm : broken (units "\n)") = false := by decide
    have head : (units "\n)").head? = some newline := by decide
    rw [brokenAppend, calm, head]
    simp
  have partitionHead : (written "\nPARTITION BY " partition).head? = some newline ↔ partition.isSome = true := by
    cases partition with
    | none => simp [written]
    | some key => exact iff_of_true rfl rfl
  have last : broken (units ";") = false := by decide
  rw [brokenSeam (.inr (by decide)), brokenAppend, brokenSeam (.inl shut), closing, (shownWritten _ (by decide) method).iff,
    (shownWritten _ (by decide) partition).iff, endedAfter shut, endedWritten (by decide), partitionHead, last]
  simp only [List.mem_append, or_and_right, exists_or, Bool.false_eq_true, or_false, and_comm, or_assoc]

theorem brokenTable (table : TableModel) : broken (renderCreateTable table) = true ↔
    (∃ t ∈ createdTexts table, broken t = true) ∨ LooseItems table ∨ LooseMethod table := by
  have target := ((shownTarget table.schema table.name).after (w := units "CREATE TABLE ") (by decide)).before
    (w := units " (\n  ") (by decide)
  have opened : ¬ Ended (units "CREATE TABLE " ++ pgQualify table.schema table.name ++ units " (\n  ") :=
    mt (endedBefore (by decide)).mp (by decide)
  have items := shownAppend target (shownItems table) (.inl opened)
  have whole := brokenClauses (units "CREATE TABLE " ++ pgQualify table.schema table.name ++ units " (\n  " ++
    join ",\n  " (tableItems table)) (accessMethod table) (partitionKey table)
  rw [items.iff, endedAfter opened, endedItems] at whole
  refine whole.trans ?_
  have texts : createdTexts table = (targetTexts table.schema table.name ++ itemTexts table) ++
      ((accessMethod table).toList ++ (partitionKey table).toList) := by
    rw [createdTexts, List.append_assoc]
  rw [texts]
  simp only [List.mem_append (s := targetTexts table.schema table.name ++ itemTexts table), or_and_right, exists_or]
  rw [or_assoc, or_assoc]
  exact or_congr_right or_left_comm

theorem bodyHead (table : TableModel) : (viewBody table).head? ≠ some newline := by
  have trimmed : (trim (table.definition.getD [])).head? ≠ some newline := fun head =>
    absurd (trimByHead isWhite (table.definition.getD []) newline head) (by decide)
  simp only [viewBody]
  split
  · intro head
    cases body : trim (table.definition.getD []) with
    | nil => simp [body] at head
    | cons c rest =>
      rw [body] at head trimmed
      cases rest with
      | nil => simp at head
      | cons d rest => exact trimmed head
  · exact trimmed

theorem shownView (table : TableModel) {keyword : String} (calm : broken (units "CREATE " ++ units keyword ++ units " ") = false) :
    Shown (renderCreateView table keyword) (targetTexts table.schema table.name ++ [viewBody table]) := by
  have lead : ¬ Ended (units "CREATE " ++ units keyword ++ units " ") := mt (endedBefore (by decide)).mp (by decide)
  have target := ((shownTarget table.schema table.name).after ⟨calm, lead⟩).before (w := units " AS\n") (by decide)
  exact (shownAppend target (shownSelf (viewBody table)) (.inr (bodyHead table))).before (by decide)

theorem shownComment {target : Text} {names : List Text} (shown : Shown target names) (comment : Option Text) :
    Listed (commentStatement target comment) (commentTexts names comment) := by
  refine listedMap fun text _ => ?_
  have subject := (shown.after (w := units "COMMENT ON ") (by decide)).before (w := units " IS ") (by decide)
  have literal : Shown (PgLiterals.quoteLiteral text) [text] := by simp [Shown, brokenLiteral]
  exact (shownAppend subject literal (.inl (mt (endedBefore (by decide)).mp (by decide)))).before (by decide)

def Loose (table : TableModel) : Prop := viewKeyword table.kind = none ∧ (LooseItems table ∨ LooseMethod table)

theorem brokenCreate (table : TableModel) : (∃ s ∈ createStatements table, broken s = true) ↔
    (∃ t ∈ createTexts table, broken t = true) ∨ Loose table := by
  rw [createStatements, createTexts, Loose]
  cases keyword : viewKeyword table.kind with
  | some word =>
    have view : Shown (renderCreateView table word) (targetTexts table.schema table.name ++ [viewBody table]) := by
      refine shownView table ?_
      revert keyword
      cases table.kind <;> rintro ⟨⟩ <;> decide
    simp only [List.mem_singleton, exists_eq_left, view.iff, reduceCtorEq, false_and, or_false]
  | none =>
    have indexes : Listed ((table.indexes.filter (!·.primary)).map (renderCreateIndex table))
        ((table.indexes.filter (!·.primary)).flatMap (indexTexts table)) := listedMap fun idx _ => shownIndex table idx
    simp only [List.mem_cons, or_and_right, exists_or, exists_eq_left, true_and]
    rw [brokenTable, indexes.iff]
    simp only [List.mem_append, or_and_right, exists_or]
    rw [or_right_comm]

theorem brokenStatements (table : TableModel) : (∃ s ∈ tableStatements table, broken s = true) ↔
    (∃ t ∈ embedded table, broken t = true) ∨ Loose table := by
  have target := shownTarget table.schema table.name
  have kind : broken (objectKind table.kind ++ units " ") = false ∧ ¬ Ended (objectKind table.kind ++ units " ") := by
    cases table.kind <;> decide
  have own := shownComment (target.after kind) table.comment
  have columns : Listed (table.columns.flatMap fun c =>
      commentStatement (units "COLUMN " ++ pgQualify table.schema table.name ++ units "." ++ escapeIdentifier c.name) c.comment)
      (table.columns.flatMap fun c => commentTexts (targetTexts table.schema table.name ++ [c.name]) c.comment) := by
    have each (c : ColumnModel) := shownComment (shownAppend ((target.after (w := units "COLUMN ") (by decide)).before
      (w := units ".") (by decide)) (shownIdent c.name) (.inl (mt (endedBefore (by decide)).mp (by decide)))) c.comment
    induction table.columns with
    | nil => exact listedNil
    | cons c rest ih => exact listedAppend (each c) ih
  have parts (xs ys : List Text) (p : Text → Prop) : (∃ t ∈ xs ++ ys, p t) ↔ (∃ t ∈ xs, p t) ∨ ∃ t ∈ ys, p t := by
    simp only [List.mem_append, or_and_right, exists_or]
  simp only [tableStatements, embedded]
  rw [parts, parts, parts, parts, brokenCreate, own.iff, columns.iff]
  exact (or_congr_left or_right_comm).trans or_right_comm

end Ends

section Fragments

def columnPasted (c : ColumnModel) : List Text := c.type.raw :: valueTexts c

def tablePasted (table : TableModel) : List Text :=
  (orderedColumns table).flatMap columnPasted ++ table.checks.map (fun chk => trim chk.expression) ++
    (accessMethod table).toList ++ (partitionKey table).toList

def indexPasted (idx : IndexModel) : List Text :=
  (methodOf idx).toList ++ idx.columns.flatMap (fun part => (truthy part.expression).toList) ++ (truthy idx.predicate).toList

def pasted (table : TableModel) : List Text :=
  match viewKeyword table.kind with
  | some _ => [viewBody table]
  | none => tablePasted table ++ (table.indexes.filter (!·.primary)).flatMap indexPasted

abbrev Fits (f : Text) : Prop := Inert (rulesOf .postgres) f

def Says (statement : Text) : Prop := ∃ body, statement = body ++ units ";" ∧ begins body = true ∧ Fits body

theorem identFits (name : Text) : Fits (escapeIdentifier name) := by
  rw [escapeIdentifier, encodeDoubled, List.cons_append]
  refine closedInert (@closedForm _ _ _ _ .doubleQuoted rfl ?_ ?_)
  · simp [openerAt, apostrophe, doubleQuote]
  · exact quotedScan doubleQuote (by decide) false name (by decide) rfl

theorem literalFits (s : Text) : Fits (PgLiterals.quoteLiteral s) := by
  rw [PgLiterals.quoteLiteral]
  split
  · exact (readyWords (units " ") (by decide)).paste (closedInert (escapedClosed rfl s))
  · rename_i bare
    have plain : encode apostrophe true s = encode apostrophe false s := by
      refine List.flatMap_congr fun c inside => ?_
      have other : c ≠ backslash := fun same => bare (same ▸ inside)
      simp [encodeUnit, other]
    rw [List.nil_append, plain]
    exact closedInert (literalClosed s [])

theorem targetFits (schema : Option Text) (name : Text) : Fits (pgQualify schema name) := by
  rcases schema with _ | schema
  · exact identFits name
  · cases schema with
    | nil => exact identFits name
    | cons c schema => exact (inertReady (identFits (c :: schema)) (units ".") (by decide)).paste (identFits name)

theorem identsFit (names : List Text) : Fits (identList names) :=
  inertJoin (by decide) fun part inside => by
    obtain ⟨name, -, rfl⟩ := List.mem_map.mp inside
    exact identFits name

theorem columnFits {c : ColumnModel} (shut : Contained .postgres (columnPasted c)) : Fits (renderColumnDefinition c) := by
  refine inertJoin (by decide) fun part inside => ?_
  simp only [columnParts, List.mem_append, List.mem_cons, List.not_mem_nil, or_false] at inside
  rcases inside with (((rfl | rfl) | collation) | value) | nullable
  · exact identFits c.name
  · exact closedInert (shut _ List.mem_cons_self)
  · obtain ⟨n, -, rfl⟩ := List.mem_map.mp collation
    exact (readyWords (units "COLLATE ") (by decide)).paste (identFits n)
  · have texts : ∀ text ∈ valueTexts c, closed (rulesOf .postgres) text = true := fun text own =>
      shut text (List.mem_cons_of_mem _ own)
    unfold valueParts at value
    unfold valueTexts at texts
    split at value
    · rename_i expression found
      rw [found] at texts
      rw [List.mem_singleton.mp value]
      exact inertWords ((readyWords (units "GENERATED ALWAYS AS (") (by decide)).paste
        (closedInert (texts expression List.mem_cons_self))) (units ") STORED") (by decide)
    · rename_i found
      rw [found] at texts
      obtain ⟨d, own, rfl⟩ := List.mem_map.mp value
      exact (readyWords (units "DEFAULT ") (by decide)).paste (closedInert (texts d own))
  · split at nullable
    · contradiction
    · rw [List.mem_singleton.mp nullable]
      exact wordsInert (by decide)

theorem keyFits (table : TableModel) : ∀ part ∈ primaryKeyItem table, Fits part := by
  unfold primaryKeyItem
  split
  · nofun
  · intro part inside
    rw [List.mem_singleton.mp inside]
    refine inertWords (Ready.paste ?_ (identsFit table.primaryKey)) (units ")") (by decide)
    cases truthy table.primaryKeyName with
    | none => exact readyWords _ (by decide)
    | some name => exact (inertReady ((readyWords (units "CONSTRAINT ") (by decide)).paste (identFits name)) (units " ")
        (by decide)).words (units "PRIMARY KEY (") (by decide)

theorem checkFits {chk : CheckModel} (shut : closed (rulesOf .postgres) (trim chk.expression) = true) : Fits (renderCheck chk) := by
  have lead := inertReady ((readyWords (units "CONSTRAINT ") (by decide)).paste (identFits chk.name)) (units " CHECK ") (by decide)
  refine lead.paste ?_
  simp only [checkClause]
  split
  · exact closedInert shut
  · exact inertWords ((readyWords (units "(") (by decide)).paste (closedInert shut)) (units ")") (by decide)

theorem actionFits (word : String) (shut : (closedWords (units word) && trails (units word)) = true)
    (a : Option ReferentialAction) : ∀ part ∈ action word a, Fits part := by
  intro part inside
  obtain ⟨x, -, rfl⟩ := List.mem_map.mp inside
  exact (readyWords _ shut).paste (wordsInert (by cases x <;> decide))

theorem foreignKeyFits (fk : ForeignKeyModel) : Fits (renderForeignKey fk) := by
  refine inertJoin (by decide) fun part inside => ?_
  simp only [List.mem_append, List.mem_cons, List.not_mem_nil, or_false] at inside
  rcases inside with (((rfl | rfl) | update) | delete) | deferred
  · have name := inertReady ((readyWords (units "CONSTRAINT ") (by decide)).paste (identFits fk.name)) (units " FOREIGN KEY (") (by decide)
    exact inertWords (name.paste (identsFit fk.columns)) (units ")") (by decide)
  · have target := inertReady ((readyWords (units "REFERENCES ") (by decide)).paste (targetFits fk.refSchema fk.refTable))
      (units " (") (by decide)
    exact inertWords (target.paste (identsFit fk.refColumns)) (units ")") (by decide)
  · exact actionFits _ (by decide) _ part update
  · exact actionFits _ (by decide) _ part delete
  · split at deferred
    · rw [List.mem_singleton.mp deferred]
      exact wordsInert (by decide)
    · contradiction

theorem clauseFits {lead : String} (shut : (closedWords (units lead) && leads (units lead) && trails (units lead)) = true)
    {text : Option Text} (own : ∀ t ∈ text.toList, closed (rulesOf .postgres) t = true) :
    Clause (rulesOf .postgres) (written lead text) := by
  cases text with
  | none => exact clauseNil
  | some t => exact clausePaste shut (closedInert (own t (by simp)))

theorem tableSays {table : TableModel} (shut : Contained .postgres (tablePasted table)) : Says (renderCreateTable table) := by
  simp only [Contained, tablePasted, List.mem_append, or_imp, forall_and] at shut
  obtain ⟨⟨⟨columns, checks⟩, method⟩, partition⟩ := shut
  have items : ∀ part ∈ tableItems table, Fits part := by
    intro part inside
    simp only [tableItems, List.mem_append] at inside
    rcases inside with ((column | key) | check) | fk
    · obtain ⟨c, own, rfl⟩ := List.mem_map.mp column
      exact columnFits fun text inner => columns text (List.mem_flatMap.mpr ⟨c, own, inner⟩)
    · exact keyFits table part key
    · obtain ⟨chk, own, rfl⟩ := List.mem_map.mp check
      exact checkFits (checks _ (List.mem_map.mpr ⟨chk, own, rfl⟩))
    · obtain ⟨key, -, rfl⟩ := List.mem_map.mp fk
      exact foreignKeyFits key
  have opened := inertReady ((readyWords (units "CREATE TABLE ") (by decide)).paste (targetFits table.schema table.name))
    (units " (\n  ") (by decide)
  have listed : Fits (join ",\n  " (tableItems table)) := inertJoin (by decide) items
  have list := inertWords (opened.paste listed) (units "\n)") (by decide)
  exact ⟨_, rfl, rfl, inertClause (inertClause list (clauseFits (by decide) method)) (clauseFits (by decide) partition)⟩

theorem partFits {part : IndexColumn} (shut : Contained .postgres (truthy part.expression).toList) : Fits (renderIndexPart part) := by
  have base : Fits (partBase part) := by
    unfold partBase
    cases found : truthy part.expression with
    | none => exact identFits _
    | some expression =>
      exact inertWords ((readyWords (units "(") (by decide)).paste (closedInert (shut expression (by simp [found]))))
        (units ")") (by decide)
  have order : Clause (rulesOf .postgres) (if part.order = some .desc then units " DESC" else []) := by
    split
    · exact clauseWords (by decide)
    · exact clauseNil
  have nulls : Clause (rulesOf .postgres) (nullsClause part) := by
    simp only [nullsClause]
    split
    · rename_i nulls _
      exact clauseWords (by cases nulls <;> decide)
    · exact clauseNil
  exact inertClause (inertClause base order) nulls

theorem indexSays (table : TableModel) {idx : IndexModel} (shut : Contained .postgres (indexPasted idx)) :
    Says (renderCreateIndex table idx) := by
  simp only [Contained, indexPasted, List.mem_append, or_imp, forall_and] at shut
  obtain ⟨⟨method, parts⟩, predicate⟩ := shut
  have kind : Ready (rulesOf .postgres) (units "CREATE " ++ (if idx.unique then units "UNIQUE " else []) ++ units "INDEX ") := by
    split <;> exact readyWords _ (by decide)
  have name := (inertReady (kind.paste (identFits idx.name)) (units " ON ") (by decide)).paste (targetFits table.schema table.name)
  have listed : Fits (join ", " (idx.columns.map renderIndexPart)) := inertJoin (by decide) fun text inside => by
    obtain ⟨part, own, rfl⟩ := List.mem_map.mp inside
    exact partFits fun expression inner => parts expression (List.mem_flatMap.mpr ⟨part, own, inner⟩)
  have method' : Clause (rulesOf .postgres) (written " USING " (methodOf idx)) := clauseFits (by decide) method
  have list := inertWords ((inertReady (inertClause name method') (units " (") (by decide)).paste listed) (units ")") (by decide)
  refine ⟨_, rfl, ?_, inertClause list (clauseFits (by decide) predicate)⟩
  split <;> rfl

theorem viewSays {table : TableModel} {keyword : String}
    (shut : (closedWords (units "CREATE " ++ units keyword ++ units " ") && trails (units "CREATE " ++ units keyword ++ units " ")) = true)
    (body : closed (rulesOf .postgres) (viewBody table) = true) : Says (renderCreateView table keyword) :=
  ⟨_, rfl, rfl, (inertReady ((readyWords _ shut).paste (targetFits table.schema table.name)) (units " AS\n") (by decide)).paste
    (closedInert body)⟩

theorem commentSays {target : Text} (fits : Fits target) (comment : Option Text) :
    ∀ s ∈ commentStatement target comment, Says s := by
  intro s inside
  obtain ⟨text, -, rfl⟩ := List.mem_map.mp inside
  exact ⟨_, rfl, rfl, (inertReady ((readyWords (units "COMMENT ON ") (by decide)).paste fits) (units " IS ") (by decide)).paste
    (literalFits text)⟩

theorem statementsSay {table : TableModel} (shut : Contained .postgres (pasted table)) : ∀ s ∈ tableStatements table, Says s := by
  intro s inside
  simp only [tableStatements, List.mem_append, List.mem_flatMap] at inside
  rcases inside with (create | own) | ⟨c, -, note⟩
  · unfold createStatements at create
    unfold pasted at shut
    cases keyword : viewKeyword table.kind with
    | some word =>
      rw [keyword] at create shut
      rw [List.mem_singleton.mp create]
      refine viewSays ?_ (shut _ List.mem_cons_self)
      revert keyword
      cases table.kind <;> rintro ⟨⟩ <;> decide
    | none =>
      rw [keyword] at create shut
      simp only [Contained, List.mem_append, or_imp, forall_and] at shut
      rcases List.mem_cons.mp create with rfl | index
      · exact tableSays shut.1
      · obtain ⟨idx, own, rfl⟩ := List.mem_map.mp index
        exact indexSays table fun text inner => shut.2 text (List.mem_flatMap.mpr ⟨idx, own, inner⟩)
  · have kind : Ready (rulesOf .postgres) (objectKind table.kind ++ units " ") :=
      readyWords _ (by cases table.kind <;> decide)
    exact commentSays (kind.paste (targetFits table.schema table.name)) table.comment s own
  · exact commentSays ((inertReady ((readyWords (units "COLUMN ") (by decide)).paste (targetFits table.schema table.name))
      (units ".") (by decide)).paste (identFits c.name)) c.comment s note

end Fragments

section Cuts

theorem splitWhole {t : Text} (calm : broken t = false) : splitBlank t = [t] := by
  fun_induction splitBlank t with
  | case1 => rfl
  | case2 c d later both ih =>
    simp [broken, both] at calm
  | case3 c d later apart first more found ih =>
    simp only [broken, Bool.or_eq_false_iff] at calm
    rw [ih calm.2] at found
    cases found
    rfl
  | case4 c d later apart none' ih =>
    simp only [broken, Bool.or_eq_false_iff] at calm
    rw [ih calm.2] at none'
    contradiction
  | case5 c => rfl

theorem splitSome (t : Text) : ∃ first more, splitBlank t = first :: more := by
  fun_induction splitBlank t with
  | case1 => exact ⟨_, _, rfl⟩
  | case2 c d later both ih => exact ⟨_, _, rfl⟩
  | case3 c d later apart first more found ih => exact ⟨_, _, rfl⟩
  | case4 c d later apart none' ih => exact ⟨_, _, rfl⟩
  | case5 c => exact ⟨_, _, rfl⟩

theorem splitFull (t : Text) : splitBlank t ≠ [] := by
  obtain ⟨first, more, found⟩ := splitSome t
  rw [found]
  exact List.cons_ne_nil _ _

theorem splitFirst {t : Text} (breaks : broken t = true) :
    ∃ p q, t = p ++ newline :: newline :: q ∧ splitBlank t = p :: splitBlank q := by
  fun_induction splitBlank t with
  | case1 => contradiction
  | case2 c d later both ih => exact ⟨[], later, by rw [both.1, both.2]; rfl, rfl⟩
  | case3 c d later apart first more found ih =>
    simp only [broken, Bool.or_eq_true, decide_eq_true_eq] at breaks
    obtain ⟨p, q, shape, parts⟩ := ih (breaks.resolve_left apart)
    rw [found] at parts
    obtain ⟨rfl, rfl⟩ := List.cons.inj parts
    exact ⟨c :: first, q, by rw [shape]; rfl, rfl⟩
  | case4 c d later apart none' ih => exact absurd none' (splitFull _)
  | case5 c => contradiction

theorem splitAppend {t : Text} (calm : ¬ Ended t) (u : Text) :
    splitBlank (t ++ newline :: newline :: u) = splitBlank t ++ splitBlank u := by
  fun_induction splitBlank t with
  | case1 => simp [splitBlank]
  | case2 c d later both ih =>
    have rest : ¬ Ended later := by
      cases later with
      | nil => exact nofun
      | cons e later => simpa [Ended] using calm
    simp only [List.cons_append, splitBlank, if_pos both, ih rest]
  | case3 c d later apart first more found ih =>
    have rest := ih (by simpa [Ended] using calm)
    rw [found] at rest
    simp only [List.cons_append, splitBlank, if_neg apart] at rest ⊢
    rw [rest]
  | case4 c d later apart none' ih => exact absurd none' (splitFull _)
  | case5 c =>
    have other : c ≠ newline := fun same => calm (by rw [same]; rfl)
    simp [splitBlank, other]

theorem splitJoined (t : Text) : join "\n\n" (splitBlank t) = t := by
  have glue : units "\n\n" = [newline, newline] := rfl
  rw [join, glue]
  fun_induction splitBlank t with
  | case1 => rfl
  | case2 c d later both ih =>
    obtain ⟨first, more, found⟩ := splitSome later
    rw [found] at ih ⊢
    rw [List.intercalate_cons_cons, ih, both.1, both.2]
    rfl
  | case3 c d later apart first more found ih =>
    cases more with
    | nil =>
      rw [found, List.intercalate_singleton] at ih
      rw [List.intercalate_singleton, ih]
    | cons second more =>
      rw [found, List.intercalate_cons_cons] at ih
      rw [List.intercalate_cons_cons, List.cons_append, List.cons_append, ih]
  | case4 c d later apart none' ih => exact absurd none' (splitFull _)
  | case5 c => exact List.intercalate_singleton

theorem splitScript {statements : List Text} (some' : statements ≠ []) (calm : ∀ s ∈ statements, ¬ Ended s) :
    splitBlank (join "\n\n" statements) = statements.flatMap splitBlank := by
  have glue : units "\n\n" = [newline, newline] := rfl
  rw [join, glue]
  induction statements with
  | nil => contradiction
  | cons s rest ih =>
    cases rest with
    | nil => simp
    | cons s' rest =>
      have later := ih (List.cons_ne_nil s' rest) fun t inside => calm t (List.mem_cons_of_mem s inside)
      have all : (s :: s' :: rest).flatMap splitBlank = splitBlank s ++ (s' :: rest).flatMap splitBlank := List.flatMap_cons
      rw [all, List.intercalate_cons_cons, List.append_assoc, List.cons_append, List.cons_append, List.nil_append,
        splitAppend (calm s List.mem_cons_self), later]

end Cuts

section Completeness

def Complete (t : Text) : Prop :=
  ∃ body, t = body ++ units ";" ∧ (splitStatements t .postgres).map (·.text) = [trimBy isSpace body]

theorem piecesTexts (t : Text) : (splitStatements t .postgres).map (·.text) =
    (pieces (rulesOf .postgres) .semicolon t).map Piece.text := by
  simp [splitStatements, Function.comp_def]

theorem saysComplete {s : Text} (says' : Says s) : Complete s := by
  obtain ⟨body, rfl, head, fits⟩ := says'
  refine ⟨body, rfl, ?_⟩
  rw [piecesTexts]
  have front : Seam ([] : Text).reverse body := by simp [Seam]
  obtain ⟨outs, path, texts⟩ := @statementPath (rulesOf .postgres) 0 [] [] body (Nat.zero_le _) head fits front
  have whole := runPath (splitProgress (rulesOf .postgres)) flush path
  have start : pieces (rulesOf .postgres) .semicolon (body ++ units ";") = outs := by
    rw [pieces]
    refine whole.trans ?_
    rw [runAtEnd]
    simp [flush, fresh]
  rw [start, texts]
  rfl

theorem walkCovers {rules : DialectRules} {c far d : SplitConfig} {outs : List Piece} (walk : Walk rules c far)
    (path : Path (splitStep rules) c outs d) (short : d.before.length ≤ far.before.length) : Walk rules c d := by
  induction walk generalizing outs with
  | refl c =>
    cases path with
    | refl => exact .refl _
    | turn some' tail =>
      have longer := (tail.longer (splitProgress rules)).1
      have positive := splitProgress rules c.state c.before c.rest some'
      have long := List.length_pos_iff.mpr some'
      have next : c.before.length < (c.next (splitStep rules)).before.length := by
        simp only [Config.next, List.length_append, List.length_reverse, List.length_take]
        omega
      omega
  | step here tail ih =>
    cases path with
    | refl => exact .refl _
    | turn some' rest => exact .step here (ih rest short)

theorem walkOrLeave {rules : DialectRules} {c far : SplitConfig} {outs : List Piece} (path : Path (splitStep rules) c outs far) :
    Walk rules c far ∨ ∃ y outs', Walk rules c y ∧ y.rest ≠ [] ∧ ¬ Stays rules y ∧
      Path (splitStep rules) (y.next (splitStep rules)) outs' far := by
  induction path with
  | refl c => exact .inl (.refl c)
  | @turn c outs far some' tail ih =>
    by_cases here : Stays rules c
    · rcases ih with walk | ⟨y, outs', walk, rest⟩
      · exact .inl (.step here walk)
      · exact .inr ⟨y, outs', .step here walk, rest⟩
    · exact .inr ⟨c, outs, .refl c, some', here, tail⟩

theorem runEnds {rules : DialectRules} (c : SplitConfig) :
    ∃ outs s before, Path (splitStep rules) c outs ⟨s, before, []⟩ := by
  induction c using passInduction (splitProgress rules) with
  | stop s before => exact ⟨[], s, before, .refl _⟩
  | turn c some' ih =>
    obtain ⟨outs, s, before, path⟩ := ih
    exact ⟨_, s, before, .turn some' path⟩

theorem trimSnoc {b : Text} {c : CodeUnit} (ink : isSpace c = false) : trimBy isSpace (b ++ [c]) ≠ trimBy isSpace b := by
  intro same
  have lead : (b ++ [c]).dropWhile isSpace = b.dropWhile isSpace ++ [c] := by
    rw [List.dropWhile_append]
    split
    · rename_i none'
      rw [List.isEmpty_iff.mp none']
      simp [ink]
    · rfl
  have kept : trimBy isSpace (b ++ [c]) = b.dropWhile isSpace ++ [c] := by
    rw [trimBy, lead, List.rdropWhile_concat_neg _ _ _ (by simpa using ink)]
  have short := (List.rdropWhile_prefix isSpace (b.dropWhile isSpace)).length_le
  rw [kept, trimBy] at same
  rw [← same, List.length_append, List.length_singleton] at short
  omega

theorem partIncomplete {body p q : Text} (head : begins body = true) (fits : Fits body)
    (cut : p ++ newline :: newline :: q = body ++ units ";") : ¬ Complete p := by
  rintro ⟨b, rfl, texts⟩
  have lengths := congrArg List.length cut
  simp only [List.length_append, List.length_cons, show (units ";").length = 1 from rfl] at lengths
  have full := @statementWalk (rulesOf .postgres) (fresh .semicolon 0) [] (units ";") body rfl head fits (by simp [Seam])
    (seamLeads rfl)
  rw [piecesTexts] at texts
  obtain ⟨outs, s, before, path⟩ := @runEnds (rulesOf .postgres) ⟨fresh .semicolon 0, [], b ++ units ";"⟩
  rcases walkOrLeave path with walk | ⟨y, outs', walk, some', leaves, -⟩
  · have passed : before.reverse = b ++ units ";" := by simpa [Config.text] using path.text
    have start := walk.state.1
    have run := runPath (splitProgress (rulesOf .postgres)) flush walk.path
    rw [runAtEnd, List.nil_append] at run
    rw [show pieces (rulesOf .postgres) .semicolon (b ++ units ";") = flush s before from run] at texts
    have chunk : chunkOf s before = b ++ units ";" := by
      rw [chunkOf, passed, show s.chunkStart = 0 from start, List.drop_zero]
    unfold flush at texts
    split at texts
    · contradiction
    · simp only [chunk] at texts
      split at texts
      · contradiction
      · exact trimSnoc (by decide) (List.cons.inj texts).1
  · have reach := walk.path.trans (.turn some' (.refl (y.next (splitStep (rulesOf .postgres)))))
    have passed : (y.next (splitStep (rulesOf .postgres))).before.length ≤ (b ++ units ";").length := by
      rw [← show _ = b ++ units ";" from reach.text, Config.text, List.length_append, List.length_reverse]
      omega
    have opened := (leavesNext some' leaves).1
    have grown := pathGrows (rulesCoherent .postgres) (newline :: newline :: q) reach (Nat.zero_le _) opened (.inr rfl)
      (fun _ => rfl) (fun c _ _ => by simp [keywordHazard, commandAt, rulesOf])
    have there : grow (newline :: newline :: q) ⟨fresh .semicolon 0, [], b ++ units ";"⟩ =
        ⟨fresh .semicolon 0, [], body ++ units ";"⟩ := by rw [grow, ← cut]
    rw [there] at grown
    have inside := walkCovers full grown (by
      simp only [grow, List.length_append, List.length_reverse, List.length_nil,
        show (units ";").length = 1 from rfl] at passed ⊢
      omega)
    have start : (y.next (splitStep (rulesOf .postgres))).state.chunkStart = 0 := inside.state.1
    have positive := splitProgress (rulesOf .postgres) y.state y.before y.rest some'
    have long := List.length_pos_iff.mpr some'
    rw [start] at opened
    simp only [Config.next, List.length_append, List.length_reverse, List.length_take] at opened
    omega

theorem planParts {table : TableModel} (says' : ∀ s ∈ tableStatements table, Says s) :
    planNewTable table = (tableStatements table).flatMap splitBlank := by
  have some' : tableStatements table ≠ [] := by
    simp only [tableStatements, createStatements]
    split <;> simp
  refine splitScript some' fun s inside => ?_
  obtain ⟨body, rfl, -⟩ := says' s inside
  exact mt (endedBefore (by decide)).mp (by decide)

-- The plan of a new table is whole statements where no text of the model breaks the script, and nowhere else.
theorem createdPlan (table : TableModel) (shut : Contained .postgres (pasted table)) :
    ((∀ element ∈ planNewTable table, Complete element) ∧ join "\n\n" (planNewTable table) = renderTableDdl table) ↔
      (∀ t ∈ embedded table, broken t = false) ∧ ¬ Loose table := by
  have says' := statementsSay shut
  have parts := planParts says'
  have calm : ((∀ t ∈ embedded table, broken t = false) ∧ ¬ Loose table) ↔ ∀ s ∈ tableStatements table, broken s = false := by
    have breaks := not_congr (brokenStatements table)
    simpa [not_or] using breaks.symm
  rw [calm]
  constructor
  · intro ⟨whole, _⟩ s inside
    by_contra breaks
    rw [Bool.not_eq_false] at breaks
    obtain ⟨p, q, shape, cut⟩ := splitFirst breaks
    obtain ⟨body, said, head, fits⟩ := says' s inside
    refine partIncomplete head fits (shape.symm.trans said) (whole p ?_)
    rw [parts, List.mem_flatMap]
    exact ⟨s, inside, by rw [cut]; exact List.mem_cons_self⟩
  · intro unbroken
    refine ⟨fun element inside => ?_, splitJoined _⟩
    rw [parts, List.mem_flatMap] at inside
    obtain ⟨s, own, part⟩ := inside
    rw [splitWhole (unbroken s own), List.mem_singleton] at part
    exact part ▸ saysComplete (says' s own)

def notedTable (note : String) : TableModel :=
  ⟨units "item", some (units "public"), .table,
    [⟨units "id", 1, ⟨units "integer", .integer, none, none, none, false, false, []⟩, false, some (units "nextval('s'::regclass)"),
      false, none, none, none, none, none⟩],
    [], [], [⟨units "positive", units "(id > 0)"⟩], [units "id"], none, some (units note), none, none, none, none⟩

theorem notedPlan :
    ((∀ element ∈ planNewTable (notedTable "one\ntwo"), Complete element) ∧
      join "\n\n" (planNewTable (notedTable "one\ntwo")) = renderTableDdl (notedTable "one\ntwo")) ↔
      (∀ t ∈ embedded (notedTable "one\ntwo"), broken t = false) ∧ ¬ Loose (notedTable "one\ntwo") :=
  createdPlan (notedTable "one\ntwo") (by decide +kernel)

-- A blank line in a comment cuts the statement that sets it.
theorem blankCommentCut : Contained .postgres (pasted (notedTable "one\n\ntwo")) ∧
    ¬ ∀ element ∈ planNewTable (notedTable "one\n\ntwo"), Complete element := by
  refine ⟨by decide +kernel, fun whole => ?_⟩
  obtain ⟨body, same, -⟩ := whole (units "COMMENT ON TABLE \"public\".\"item\" IS 'one") (by decide +kernel)
  have last := congrArg List.getLast? same
  rw [List.getLast?_append_of_ne_nil _ (by decide)] at last
  exact absurd last (by decide)

end Completeness

end DatabaseAdmin.CreatedTables
