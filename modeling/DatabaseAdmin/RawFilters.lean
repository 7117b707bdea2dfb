import DatabaseAdmin.CopiedRows
import DatabaseAdmin.DumpRunner
import DatabaseAdmin.TokenDepths

/-! The grid's raw WHERE box. Its text is sent in parentheses behind the conditions of the chips, in front
of the order and the page. -/
namespace DatabaseAdmin.RawFilters
open CodeUnits Templates RowFilters TokenFragments
open ChangeStatements (quoteQualified escapeIdentifier pgQualify join bindOk mapMMember mapMLength)

section Requests

structure OrderTerm where
  column : Text
  descending : Bool

structure TableReadRequest where
  schema : Option Text
  table : Text
  columns : Option (List Text)
  offset : Int
  limit : Int
  orderBy : Option (List OrderTerm)
  filters : Option (List ColumnFilter)
  rawWhere : Option Text

inductive Bound where
  | value (text : Text)
  | number (n : Int)
  deriving DecidableEq

structure Sent where
  sql : Text
  params : List Bound
  deriving DecidableEq

structure Clause where
  sql : Text
  params : List Text

def orderText (quoted : List (Text × Bool)) : Text :=
  if quoted = [] then []
  else units " ORDER BY " ++ join ", " (quoted.map fun o => o.1 ++ units (if o.2 then " DESC" else " ASC"))

def projectionText (quoted : List Text) : Text := if quoted = [] then units "*" else join ", " quoted

end Requests

section Postgres

def stripWhere (text : Text) : Text :=
  let rest := text.dropWhile isWhite
  if DumpRunner.wordAt "where" rest then rest.drop 5 else text

def pgWhere (req : TableReadRequest) : Except Text Clause := do
  let built ← buildWhere (req.filters.getD []) .postgres .dollar 1
  let structured := trim (stripWhere built.sql)
  let raw := trim (stripWhere (req.rawWhere.getD []))
  let parts := [structured, raw].filter (· ≠ [])
  if parts = [] then return ⟨[], built.params⟩
  return ⟨units " WHERE " ++ join " AND " (parts.map parenthesised), built.params⟩

def pgReadTable (req : TableReadRequest) : Except Text Sent := do
  let target := pgQualify req.schema req.table
  let projection := projectionText ((req.columns.getD []).map escapeIdentifier)
  let clause ← pgWhere req
  let order := orderText ((req.orderBy.getD []).map fun o => (escapeIdentifier o.column, o.descending))
  let limitIndex := clause.params.length + 1
  return ⟨units "SELECT " ++ projection ++ units " FROM " ++ target ++ clause.sql ++ order ++ units " LIMIT " ++ dollar limitIndex ++
    units " OFFSET " ++ dollar (limitIndex + 1), clause.params.map .value ++ [.number req.limit, .number req.offset]⟩

def pgCountTable (req : TableReadRequest) : Except Text Sent := do
  let clause ← pgWhere req
  return ⟨units "SELECT count(*)::text AS n FROM " ++ pgQualify req.schema req.table ++ clause.sql,
    clause.params.map .value⟩

end Postgres

section Mysql

def stripWhereWord (text : Text) : Text :=
  if startsWith (units "where") (text.map lowerUnit) && (text.drop 5).head?.any isWhite then (text.drop 5).dropWhile isWhite
  else text

def whereFor (engine : EngineKind) (req : TableReadRequest) : Except Text Clause := do
  let built ← buildWhere (req.filters.getD []) engine .qmark 1
  let clause := stripWhereWord (trim built.sql)
  let raw := trim (req.rawWhere.getD [])
  let parts := (if clause ≠ [] then [parenthesised clause] else []) ++ (if raw ≠ [] then [parenthesised raw] else [])
  return ⟨if parts ≠ [] then units " WHERE " ++ join " AND " parts else [], if clause ≠ [] then built.params else []⟩

def mysqlReadTable (engine : EngineKind) (req : TableReadRequest) : Except Text Sent := do
  let target ← quoting (quoteQualified engine [req.schema, some req.table])
  let columns ← (req.columns.getD []).mapM fun c => quoting (quoteIdent c engine)
  let clause ← whereFor engine req
  let order ← (req.orderBy.getD []).mapM fun o => do return (← quoting (quoteIdent o.column engine), o.descending)
  return ⟨units "SELECT " ++ projectionText columns ++ units " FROM " ++ target ++ clause.sql ++ orderText order ++
    units " LIMIT ? OFFSET ?", clause.params.map .value ++ [.number (max 1 req.limit), .number (max 0 req.offset)]⟩

def mysqlCountTable (engine : EngineKind) (req : TableReadRequest) : Except Text Sent := do
  let target ← quoting (quoteQualified engine [req.schema, some req.table])
  let clause ← whereFor engine req
  return ⟨units "SELECT COUNT(*) AS n FROM " ++ target ++ clause.sql, clause.params.map .value⟩

end Mysql

section Fragments
variable {dialect : SqlDialect}

structure Shown (dialect : SqlDialect) (f : Text) : Prop where
  solid : Solid (rulesOf dialect) f
  first : ∀ c ∈ f.head?, isWhite c = false
  last : ∀ c ∈ f.getLast?, isWhite c = false

def glues (w : Text) : Bool := solidWords w && opening w && ending w

theorem shownGlue {f g w : Text} (first : Shown dialect f) (last : Shown dialect g) (words : glues w = true) :
    Shown dialect (f ++ w ++ g) := by
  simp only [glues, Bool.and_eq_true] at words
  have between : Solid (rulesOf dialect) w := wordsSolid words.1.1
  have front := solidAppend first.solid between (partedOpening words.1.2)
  refine ⟨solidAppend front last.solid (partedEnding (endingAppend words.2)), fun c head => ?_, fun c ends => ?_⟩
  · rw [List.append_assoc, List.head?_append_of_ne_nil _ first.solid.full] at head
    exact first.first c head
  · rw [List.getLast?_append_of_ne_nil _ last.solid.full] at ends
    exact last.last c ends

theorem shownJoin {sep : Text} (words : glues sep = true) : ∀ {parts : List Text}, parts ≠ [] →
    (∀ p ∈ parts, Shown dialect p) → Shown dialect (sep.intercalate parts)
  | [p], _, each => by simpa [List.intercalate] using each p
  | p :: q :: parts, _, each => by
      rw [List.intercalate_cons_cons]
      exact shownGlue (each p (by simp)) (shownJoin words (by simp) fun r member => each r (List.mem_cons_of_mem _ member)) words

def shownWords (w : Text) : Bool := solidWords w && w.head?.all (fun c => !isWhite c) && w.getLast?.all fun c => !isWhite c

theorem wordsShown {w : Text} (words : shownWords w = true) : Shown dialect w := by
  simp only [shownWords, Bool.and_eq_true, Option.all_eq_true, Bool.not_eq_true'] at words
  exact ⟨wordsSolid words.1.1, words.1.2, words.2⟩

theorem parenShown {f : Text} (solid : Solid (rulesOf dialect) f) : Shown dialect (parenthesised f) := by
  refine ⟨parenSolid solid, fun c head => ?_, fun c last => ?_⟩
  · cases head
    rfl
  · rw [parenthesised, List.getLast?_append_of_ne_nil _ (by decide)] at last
    cases last
    rfl

theorem identShown {engine : EngineKind} (fits : dialectForEngine engine = .ok dialect) {column text : Text}
    (ok : quoteIdent column engine = .ok text) : Shown dialect text := by
  obtain ⟨style, -, shape⟩ := SqlFragments.identShape ok
  have plain : isWhite style.mark = false := by cases style <;> decide
  refine ⟨solidForm (identFormed fits ok) (by simp [shape]), fun c head => ?_, fun c last => ?_⟩
  · rw [shape] at head
    cases head
    exact plain
  · rw [shape, ← List.cons_append, List.getLast?_concat] at last
    cases last
    exact plain

theorem escapedShown (name : Text) : Shown .postgres (escapeIdentifier name) := by
  have shape : escapeIdentifier name = doubleQuote :: (encode doubleQuote false name ++ [doubleQuote]) := by
    rw [← encodeDoubled]
    rfl
  have form : Formed (rulesOf .postgres) [] (escapeIdentifier name) .quoted := by
    rw [shape]
    refine @formed (rulesOf .postgres) [] _ _ .doubleQuoted _ rfl (fun more => ?_) (fun more apart => ?_) rfl
    · rfl
    · exact quotedScan doubleQuote (by decide) false name apart rfl
  refine ⟨solidForm form (by simp [shape]), fun c head => ?_, fun c last => ?_⟩
  · rw [shape] at head
    cases head
    rfl
  · rw [shape, ← List.cons_append, List.getLast?_concat] at last
    cases last
    rfl

theorem escapeShown {engine : EngineKind} (fits : dialectForEngine engine = .ok dialect) {text : Text}
    (ok : quoteLiteral (.string [likeEscape]) engine = .ok text) : Shown dialect text := by
  refine ⟨solidForm (literalFormed fits ok) ?_, fun c head => ?_, fun c last => ?_⟩
  · rintro rfl
    have last := CopiedRows.stringLast ok
    cases last
  · cases engine <;> cases fits <;> cases ok <;> cases head <;> rfl
  · rw [CopiedRows.stringLast ok] at last
    cases last
    rfl

theorem digitsFlat {digits : Text} (all : ∀ d ∈ digits, isDigit d = true) : Flat (rulesOf dialect) digits := by
  have numeral := DumpScripts.numeralDigits DumpScripts.numeralNil digits all
  rw [List.append_nil] at numeral
  exact CopiedRows.numeralFlat numeral

theorem dollarFlat (n : Nat) : Flat (rulesOf .postgres) (dollar n) := by
  obtain ⟨some, digit⟩ := Templates.shownDigits n
  intro c t suffix
  rcases List.suffix_cons_iff.mp suffix with whole | inner
  · obtain ⟨rfl, rfl⟩ := List.cons.inj whole
    refine ⟨rfl, by decide, by decide, fun before => ⟨?_, BoundStatements.dollarOpens some digit⟩⟩
    have alone := @BoundStatements.dollarOpens before _ [] some digit
    rwa [List.append_nil] at alone
  · exact digitsFlat digit c t inner

theorem dollarShown (n : Nat) : Shown .postgres (dollar n) := by
  obtain ⟨some, digit⟩ := Templates.shownDigits n
  refine ⟨solidFlat (by simp [dollar, units]) (dollarFlat n), fun c head => ?_, fun c last => ?_⟩
  · cases head
    rfl
  · rw [dollar, List.getLast?_append_of_ne_nil _ some] at last
    have range : 48 ≤ c ∧ c ≤ 57 := by simpa [isDigit] using digit c (List.mem_of_mem_getLast? last)
    unfold isWhite
    grind

def styleOf : SqlDialect → ParamStyle
  | .postgres => .dollar
  | _ => .qmark

theorem holeShown (n : Nat) (v : Text) : Shown dialect (shownAt (styleOf dialect) n (hole v)) := by
  cases dialect with
  | postgres => simpa [styleOf, shownAt] using dollarShown n
  | mysql => exact wordsShown (w := units "?") (by decide)
  | sqlite => exact wordsShown (w := units "?") (by decide)

end Fragments

section Conditions
variable {engine : EngineKind} {dialect : SqlDialect}

inductive ConditionForm (engine : EngineKind) (column : Text) : Template Text → Prop where
  | compared {col op v} (quoted : quoteIdent column engine = .ok col) :
      ConditionForm engine column (raw (col ++ units (" " ++ comparison op ++ " ")) ++ hole v)
  | null {col w} (quoted : quoteIdent column engine = .ok col) (word : w = units " IS " ∨ w = units " IS NOT ") :
      ConditionForm engine column (raw (col ++ w ++ units "NULL"))
  | between {col lo hi} (quoted : quoteIdent column engine = .ok col) :
      ConditionForm engine column (raw (col ++ units " BETWEEN ") ++ (hole lo ++ (raw (units " AND ") ++ hole hi)))
  | never : ConditionForm engine column (raw (units "1 = 0"))
  | within {col vs} (quoted : quoteIdent column engine = .ok col) (some : vs ≠ []) :
      ConditionForm engine column (raw (col ++ units " IN (") ++ (joined (units ", ") (vs.map hole) ++ raw (units ")")))
  | text {col v declared} (quoted : quoteIdent column engine = .ok col)
      (escape : quoteLiteral (.string [likeEscape]) engine = .ok declared) :
      ConditionForm engine column (raw (col ++ units " LIKE ") ++ (hole v ++ raw (units " ESCAPE " ++ declared)))

theorem conditionForm {f : ColumnFilter} {t : Template Text} (ok : conditionOf engine f = .ok t) :
    ConditionForm engine f.column t := by
  unfold conditionOf at ok
  obtain ⟨col, named, ok⟩ := bindOk ok
  have quoted := StatementTemplates.quotingOk named
  cases kind : f.op with
  | comparison op =>
    simp only [kind] at ok
    obtain ⟨v, -, ok⟩ := bindOk ok
    cases ok
    exact .compared quoted
  | isNull =>
    simp only [kind] at ok
    cases ok
    have form : ConditionForm engine f.column (raw (col ++ units " IS " ++ units "NULL")) := .null quoted (Or.inl rfl)
    rwa [List.append_assoc] at form
  | isNotNull =>
    simp only [kind] at ok
    cases ok
    have form : ConditionForm engine f.column (raw (col ++ units " IS NOT " ++ units "NULL")) := .null quoted (Or.inr rfl)
    rwa [List.append_assoc] at form
  | between =>
    simp only [kind] at ok
    obtain ⟨lo, -, ok⟩ := bindOk ok
    obtain ⟨hi, -, ok⟩ := bindOk ok
    cases ok
    exact .between quoted
  | within =>
    simp only [kind] at ok
    split at ok
    · cases ok
      exact .never
    · rename_i some
      cases ok
      exact .within quoted fun none => some (by simp [none])
  | text op =>
    simp only [kind] at ok
    obtain ⟨v, -, ok⟩ := bindOk ok
    obtain ⟨declared, escape, ok⟩ := bindOk ok
    cases ok
    exact .text quoted (StatementTemplates.quotingOk escape)

theorem joinedShown {sep : Text} (words : glues sep = true) {ts : List (Template Text)} (some : ts ≠ [])
    (each : ∀ t ∈ ts, ∀ n, Shown dialect (shownAt (styleOf dialect) n t)) (n : Nat) :
    Shown dialect (shownAt (styleOf dialect) n (joined sep ts)) := by
  have parts : ∀ {ts : List (Template Text)} (n : Nat), (∀ t ∈ ts, ∀ n, Shown dialect (shownAt (styleOf dialect) n t)) →
      ∀ p ∈ shownFrom (styleOf dialect) n ts, Shown dialect p := by
    intro ts
    induction ts with
    | nil =>
      intro n _ p member
      cases style : styleOf dialect <;> simp [style, shownFrom, numberedEach] at member
    | cons t ts ih =>
      intro n each p member
      rw [shownFromCons] at member
      rcases List.mem_cons.mp member with rfl | later
      · exact each t List.mem_cons_self n
      · exact ih _ (fun u inside => each u (List.mem_cons_of_mem _ inside)) p later
  obtain ⟨t, rest, rfl⟩ := List.exists_cons_of_ne_nil some
  rw [shownAtJoined]
  exact shownJoin words (by simp [shownFromCons]) (parts n each)

theorem formShown (fits : dialectForEngine engine = .ok dialect) {column : Text} {t : Template Text}
    (form : ConditionForm engine column t) (n : Nat) :
    Shown dialect (shownAt (styleOf dialect) n t) := by
  have hole (n : Nat) (v : Text) : Shown dialect (shownAt (styleOf dialect) n (hole v)) := holeShown n v
  cases form with
  | @compared col op v quoted =>
    rw [shownAtAppend, shownAtRaw]
    exact shownGlue (identShown fits quoted) (hole _ v) (by cases op <;> decide)
  | null quoted word =>
    rw [shownAtRaw]
    exact shownGlue (identShown fits quoted) (wordsShown (by decide)) (by rcases word with rfl | rfl <;> decide)
  | @between col lo hi quoted =>
    have first := shownGlue (identShown fits quoted) (hole n lo) (w := units " BETWEEN ") (by decide)
    have whole := shownGlue first (hole (n + 1) hi) (w := units " AND ") (by decide)
    simpa only [shownAtAppend, shownAtRaw, List.append_assoc, valuesRaw, valuesHole, List.length_nil, List.length_singleton,
      Nat.add_zero] using whole
  | never =>
    rw [shownAtRaw]
    exact wordsShown (by decide)
  | @within col vs quoted some =>
    have holes : Shown dialect (shownAt (styleOf dialect) n (joined (units ", ") (vs.map Templates.hole))) :=
      joinedShown (by decide) (by simpa using some) (List.forall_mem_map.mpr fun v _ n => hole n v) n
    have whole := shownGlue (identShown fits quoted) (parenShown holes.solid) (w := units " IN ") (by decide)
    simpa [shownAtAppend, parenthesised, units] using whole
  | @text col v declared quoted escape =>
    have first := shownGlue (identShown fits quoted) (hole n v) (w := units " LIKE ") (by decide)
    have whole := shownGlue first (escapeShown fits escape) (w := units " ESCAPE ") (by decide)
    simpa only [shownAtAppend, shownAtRaw, List.append_assoc, valuesRaw, List.length_nil, Nat.add_zero] using whole

end Conditions

section Clauses

def conditionsOf (engine : EngineKind) (filters : List ColumnFilter) : Except Text (Template Text) :=
  (filters.mapM (conditionOf engine)).map (joined (units " AND "))

def clauseText (structured raw : Text) : Text :=
  let parts := [structured, raw].filter (· ≠ [])
  if parts = [] then [] else units " WHERE " ++ join " AND " (parts.map parenthesised)

theorem conditionsShown {engine : EngineKind} {dialect : SqlDialect} (fits : dialectForEngine engine = .ok dialect)
    {filters : List ColumnFilter} {conditions : Template Text} (ok : conditionsOf engine filters = .ok conditions) (n : Nat) :
    (filters = [] ∧ conditions = []) ∨ (filters ≠ [] ∧ Shown dialect (shownAt (styleOf dialect) n conditions)) := by
  unfold conditionsOf at ok
  cases made : filters.mapM (conditionOf engine) with
  | error e =>
    rw [made] at ok
    cases ok
  | ok ts =>
    rw [made] at ok
    cases ok
    cases filters with
    | nil =>
      cases made
      exact Or.inl ⟨rfl, rfl⟩
    | cons f filters =>
      refine Or.inr ⟨by simp, joinedShown (by decide) (StatementTemplates.fullMapM (by simp) made) (fun t member n => ?_) n⟩
      obtain ⟨g, -, found⟩ := mapMMember made t member
      exact formShown fits (conditionForm found) n

theorem builtClause (engine : EngineKind) (style : ParamStyle) (filters : List ColumnFilter) :
    buildWhere filters engine style 1 = (conditionsOf engine filters).map fun t =>
      ⟨if filters = [] then [] else units "WHERE " ++ shownAt style 1 t, values t⟩ := by
  rw [buildWhere, conditionsAre, conditionsOf]
  cases made : filters.mapM (conditionOf engine) with
  | error e => rfl
  | ok ts =>
    have long : (shownFrom style 1 ts).length = filters.length := (shownFromLength _ 1 ts).trans (mapMLength made)
    simp only [Except.map, bind, Except.bind, pure, Except.pure, long, List.length_eq_zero_iff, shownAtJoined, valuesJoined]

theorem stripBuilt (f : Text) : stripWhere (units "WHERE " ++ f) = units " " ++ f := by
  have spelled : DumpRunner.wordAt "where" (units "WHERE " ++ f) = true := by
    simp [DumpRunner.wordAt, startsWithIff, units, lowerUnit, DumpRunner.isWordUnit]
  have kept : (units "WHERE " ++ f).dropWhile isWhite = units "WHERE " ++ f := rfl
  simp only [stripWhere, kept, spelled, if_true]
  rfl

theorem stripBuiltWord {f : Text} (first : ∀ c ∈ f.head?, isWhite c = false) : stripWhereWord (units "WHERE " ++ f) = f := by
  have spelled : startsWith (units "where") ((units "WHERE " ++ f).map lowerUnit) = true := by
    simp [startsWithIff, units, lowerUnit]
  have behind : (units "WHERE " ++ f).drop 5 = units " " ++ f := rfl
  have gap : (units " " ++ f).head?.any isWhite = true := rfl
  have white : isWhite 32 = true := rfl
  rw [stripWhereWord, spelled, behind, gap, Bool.and_self, if_pos rfl]
  cases f with
  | nil => rfl
  | cons c f => simp [units, white, first c rfl]

theorem builtTrimmed {dialect : SqlDialect} {f : Text} (shown : Shown dialect f) : trim (units "WHERE " ++ f) = units "WHERE " ++ f := by
  refine trimKept (fun c head => ?_) fun c last => ?_
  · cases head
    rfl
  · rw [List.getLast?_append_of_ne_nil _ shown.solid.full] at last
    exact shown.last c last

theorem pgWhereIs (req : TableReadRequest) : pgWhere req = (conditionsOf .postgres (req.filters.getD [])).map fun t =>
    ⟨clauseText (shownAt .dollar 1 t) (trim (stripWhere (req.rawWhere.getD []))), values t⟩ := by
  rw [pgWhere, builtClause]
  cases made : conditionsOf .postgres (req.filters.getD []) with
  | error e => rfl
  | ok t =>
    have structured : trim (stripWhere (if req.filters.getD [] = [] then [] else units "WHERE " ++ shownAt .dollar 1 t)) =
        shownAt .dollar 1 t := by
      rcases @conditionsShown .postgres .postgres rfl _ _ made 1 with ⟨none, rfl⟩ | ⟨some, shown⟩
      · rw [if_pos none]
        exact trimByNil
      · have kept : trim (units " " ++ shownAt .dollar 1 t) = shownAt .dollar 1 t :=
          (trimByLead (by decide) _).trans (trimKept shown.first shown.last)
        rw [if_neg some, stripBuilt, kept]
    simp only [bind, Except.bind, Except.map, structured, clauseText]
    split <;> rfl

theorem whereForIs {engine : EngineKind} (fits : dialectForEngine engine = .ok .mysql) (req : TableReadRequest) :
    whereFor engine req = (conditionsOf engine (req.filters.getD [])).map fun t =>
      ⟨clauseText (shownAt .qmark 1 t) (trim (req.rawWhere.getD [])), values t⟩ := by
  rw [whereFor, builtClause]
  cases made : conditionsOf engine (req.filters.getD []) with
  | error e => rfl
  | ok t =>
    have structured : stripWhereWord (trim (if req.filters.getD [] = [] then [] else units "WHERE " ++ shownAt .qmark 1 t)) =
        shownAt .qmark 1 t ∧ (shownAt .qmark 1 t = [] → values t = []) := by
      rcases conditionsShown fits made 1 with ⟨none, rfl⟩ | ⟨some, shown⟩
      · rw [if_pos none, trim, trimByNil]
        exact ⟨rfl, fun _ => rfl⟩
      · have shown : Shown .mysql (shownAt .qmark 1 t) := shown
        rw [if_neg some, builtTrimmed shown]
        exact ⟨stripBuiltWord shown.first, fun empty => absurd empty shown.solid.full⟩
    obtain ⟨clause, bound⟩ := structured
    simp only [bind, Except.bind, Except.map, pure, Except.pure, clauseText, clause, List.filter_cons, List.filter_nil, ne_eq,
      decide_not, Bool.not_eq_eq_eq_not, Bool.not_true, decide_eq_false_iff_not]
    by_cases empty : shownAt .qmark 1 t = []
    · by_cases none : trim (req.rawWhere.getD []) = []
      · simp [empty, none, bound empty]
      · simp [empty, none, bound empty]
    · by_cases none : trim (req.rawWhere.getD []) = []
      · simp [empty, none]
      · simp [empty, none]

end Clauses

section Sending

inductive Connector where
  | postgres | mysql | mariadb
  deriving DecidableEq

def Connector.engine : Connector → EngineKind
  | .postgres => .postgres
  | .mysql => .mysql
  | .mariadb => .mariadb

def Connector.dialect : Connector → SqlDialect
  | .postgres => .postgres
  | _ => .mysql

def Connector.rules (c : Connector) : DialectRules := rulesOf c.dialect

def readTable (c : Connector) (req : TableReadRequest) : Except Text Sent :=
  match c with
  | .postgres => pgReadTable req
  | c => mysqlReadTable c.engine req

def countTable (c : Connector) (req : TableReadRequest) : Except Text Sent :=
  match c with
  | .postgres => pgCountTable req
  | c => mysqlCountTable c.engine req

def send (c : Connector) (counting : Bool) (req : TableReadRequest) : Except Text Sent :=
  if counting then countTable c req else readTable c req

def filterText (c : Connector) (req : TableReadRequest) : Text :=
  match c with
  | .postgres => trim (stripWhere (req.rawWhere.getD []))
  | _ => trim (req.rawWhere.getD [])

structure Parts where
  select : Text
  conditions : Template Text
  order : Text
  page : Template Bound

def pageTemplate (limit offset : Int) : Template Bound :=
  raw (units " LIMIT ") ++ (hole (.number limit) ++ (raw (units " OFFSET ") ++ hole (.number offset)))

def pgParts (counting : Bool) (req : TableReadRequest) : Except Text Parts := do
  let target := pgQualify req.schema req.table
  let conditions ← conditionsOf .postgres (req.filters.getD [])
  if counting then return ⟨units "SELECT count(*)::text AS n FROM " ++ target, conditions, [], []⟩
  return ⟨units "SELECT " ++ projectionText ((req.columns.getD []).map escapeIdentifier) ++ units " FROM " ++ target, conditions,
    orderText ((req.orderBy.getD []).map fun o => (escapeIdentifier o.column, o.descending)), pageTemplate req.limit req.offset⟩

def mysqlParts (engine : EngineKind) (counting : Bool) (req : TableReadRequest) : Except Text Parts := do
  let target ← quoting (quoteQualified engine [req.schema, some req.table])
  if counting then
    let conditions ← conditionsOf engine (req.filters.getD [])
    return ⟨units "SELECT COUNT(*) AS n FROM " ++ target, conditions, [], []⟩
  let columns ← (req.columns.getD []).mapM fun c => quoting (quoteIdent c engine)
  let conditions ← conditionsOf engine (req.filters.getD [])
  let order ← (req.orderBy.getD []).mapM fun o => do return (← quoting (quoteIdent o.column engine), o.descending)
  return ⟨units "SELECT " ++ projectionText columns ++ units " FROM " ++ target, conditions, orderText order,
    pageTemplate (max 1 req.limit) (max 0 req.offset)⟩

def partsOf (c : Connector) (counting : Bool) (req : TableReadRequest) : Except Text Parts :=
  match c with
  | .postgres => pgParts counting req
  | c => mysqlParts c.engine counting req

def boundShown (style : ParamStyle) (n : Nat) (t : Template Bound) : Text :=
  match style with
  | .dollar => numbered n t
  | .qmark => holes t

def Parts.pageText (p : Parts) (style : ParamStyle) : Text := boundShown style ((values p.conditions).length + 1) p.page

def Parts.sent (style : ParamStyle) (filter : Text) (p : Parts) : Sent :=
  ⟨p.select ++ clauseText (shownAt style 1 p.conditions) filter ++ p.order ++ p.pageText style,
    (values p.conditions).map .value ++ values p.page⟩

theorem sendIs (c : Connector) (counting : Bool) (req : TableReadRequest) :
    send c counting req = (partsOf c counting req).map (Parts.sent (styleOf c.dialect) (filterText c req)) := by
  have mysql (engine : EngineKind) (fits : dialectForEngine engine = .ok .mysql) :
      (if counting then mysqlCountTable engine req else mysqlReadTable engine req) =
        (mysqlParts engine counting req).map (Parts.sent .qmark (trim (req.rawWhere.getD []))) := by
    cases counting with
    | true =>
      simp only [mysqlCountTable, mysqlParts, whereForIs fits, if_true]
      cases quoting (quoteQualified engine [req.schema, some req.table]) with
      | error e => rfl
      | ok target =>
        cases conditionsOf engine (req.filters.getD []) with
        | error e => rfl
        | ok t => simp [bind, Except.bind, Except.map, pure, Except.pure, Parts.sent, Parts.pageText, boundShown, holes, values]
    | false =>
      simp only [mysqlReadTable, mysqlParts, whereForIs fits, Bool.false_eq_true, if_false]
      cases quoting (quoteQualified engine [req.schema, some req.table]) with
      | error e => rfl
      | ok target =>
        cases (req.columns.getD []).mapM fun c => quoting (quoteIdent c engine) with
        | error e => rfl
        | ok columns =>
          cases conditionsOf engine (req.filters.getD []) with
          | error e => rfl
          | ok t =>
            cases (req.orderBy.getD []).mapM fun o => (do return (← quoting (quoteIdent o.column engine), o.descending) :
                Except Text (Text × Bool)) with
            | error e => rfl
            | ok order =>
              simp [bind, Except.bind, Except.map, pure, Except.pure, Parts.sent, Parts.pageText, boundShown, pageTemplate, units]
  cases c with
  | postgres =>
    cases counting with
    | true =>
      simp only [send, countTable, pgCountTable, partsOf, pgParts, pgWhereIs, if_true]
      cases conditionsOf .postgres (req.filters.getD []) with
      | error e => rfl
      | ok t => simp [bind, Except.bind, Except.map, pure, Except.pure, Parts.sent, Parts.pageText, boundShown, numbered, values,
          styleOf, Connector.dialect, filterText]
    | false =>
      simp only [send, readTable, pgReadTable, partsOf, pgParts, pgWhereIs, Bool.false_eq_true, if_false]
      cases conditionsOf .postgres (req.filters.getD []) with
      | error e => rfl
      | ok t => simp [bind, Except.bind, Except.map, pure, Except.pure, Parts.sent, Parts.pageText, boundShown, numberedAppend,
          styleOf, Connector.dialect, filterText, pageTemplate]
  | mysql => exact mysql .mysql rfl
  | mariadb => exact mysql .mariadb rfl

end Sending

section Reading
variable {dialect : SqlDialect}

structure Quoted (dialect : SqlDialect) (f : Text) : Prop where
  shown : Shown dialect f
  front : ∀ c ∈ f.head?, isNumberPart c = false
  back : ∀ c ∈ f.getLast?, isNumberPart c = false

theorem identQuoted {engine : EngineKind} (fits : dialectForEngine engine = .ok dialect) {column text : Text}
    (ok : quoteIdent column engine = .ok text) : Quoted dialect text :=
  ⟨identShown fits ok, (CopiedRows.identEnds ok).2.1, fun c last => ((CopiedRows.identEnds ok).2.2 c last).1⟩

theorem escapedQuoted (name : Text) : Quoted .postgres (escapeIdentifier name) := by
  refine ⟨escapedShown name, fun c head => ?_, fun c last => ?_⟩
  · cases head
    rfl
  · rw [escapeIdentifier, List.getLast?_concat] at last
    cases last
    rfl

theorem quotedDots : ∀ {parts : List Text}, parts ≠ [] → (∀ p ∈ parts, Quoted dialect p) → Quoted dialect (join "." parts)
  | [p], _, each => by simpa [join, List.intercalate] using each p
  | p :: q :: parts, _, each => by
      have first := each p (by simp)
      have rest : Quoted dialect (join "." (q :: parts)) := quotedDots (by simp) fun r member => each r (List.mem_cons_of_mem _ member)
      have point : Solid (rulesOf dialect) (units ".") := wordsSolid (by decide)
      have back : Parted p (units ".") := ⟨SqlFragments.seamLeads (by decide), fun c ends d _ part => by
        rw [first.back c ends] at part
        cases part⟩
      have front : Parted (p ++ units ".") (join "." (q :: parts)) := ⟨SqlFragments.seamTrails (by
        rw [SqlFragments.trails, List.getLast?_append_of_ne_nil _ (by decide)]
        decide), fun c _ d head _ => rest.front d head⟩
      have whole := solidAppend (solidAppend first.shown.solid point back) rest.shown.solid front
      have text : join "." (p :: q :: parts) = p ++ units "." ++ join "." (q :: parts) := List.intercalate_cons_cons ..
      rw [text]
      have head : (p ++ units "." ++ join "." (q :: parts)).head? = p.head? := by
        rw [List.append_assoc, List.head?_append_of_ne_nil _ first.shown.solid.full]
      have last : (p ++ units "." ++ join "." (q :: parts)).getLast? = (join "." (q :: parts)).getLast? :=
        List.getLast?_append_of_ne_nil _ rest.shown.solid.full
      exact ⟨⟨whole, by rw [head]; exact first.shown.first, by rw [last]; exact rest.shown.last⟩, by rw [head]; exact first.front,
        by rw [last]; exact rest.back⟩

def Loose (dialect : SqlDialect) (f : Text) : Prop := f = [] ∨ Solid (rulesOf dialect) f ∧ opening f = true

theorem looseTokens {f g : Text} (first : Solid (rulesOf dialect) f) (loose : Loose dialect g) :
    Solid (rulesOf dialect) (f ++ g) ∧
      lexemes (rulesOf dialect) 0 (f ++ g) = lexemes (rulesOf dialect) 0 f ++ lexemes (rulesOf dialect) 0 g := by
  rcases loose with rfl | ⟨solid, opens⟩
  · rw [List.append_nil]
    exact ⟨first, (List.append_nil _).symm⟩
  · exact ⟨solidAppend first solid (partedOpening opens), solidTokens first solid (partedOpening opens)⟩

theorem wordsBehind {w f : Text} (words : (solidWords w && ending w) = true) (shown : Shown dialect f) :
    Solid (rulesOf dialect) (w ++ f) := by
  rw [Bool.and_eq_true] at words
  exact solidAppend (wordsSolid words.1) shown.solid (partedEnding words.2)

theorem orderLoose {quoted : List (Text × Bool)} (each : ∀ o ∈ quoted, Shown dialect o.1) : Loose dialect (orderText quoted) := by
  unfold orderText
  split
  · exact Or.inl rfl
  · rename_i some
    have term (o : Text × Bool) (member : o ∈ quoted) : Shown dialect (o.1 ++ units (if o.2 then " DESC" else " ASC")) := by
      have glued {w : Text} (words : shownWords w = true) : Shown dialect (o.1 ++ (units " " ++ w)) := by
        rw [← List.append_assoc]
        exact shownGlue (each o member) (wordsShown words) (by decide)
      cases o.2 with
      | true => exact glued (w := units "DESC") (by decide)
      | false => exact glued (w := units "ASC") (by decide)
    have list : Shown dialect (join ", " (quoted.map fun o => o.1 ++ units (if o.2 then " DESC" else " ASC"))) :=
      shownJoin (by decide) (by simpa using some) (List.forall_mem_map.mpr term)
    exact Or.inr ⟨wordsBehind (by decide) list, rfl⟩

theorem projectionShown {quoted : List Text} (each : ∀ q ∈ quoted, Shown dialect q) : Shown dialect (projectionText quoted) := by
  unfold projectionText
  split
  · exact wordsShown (by decide)
  · rename_i some
    exact shownJoin (by decide) some each

theorem selectSolid {projection target : Text} (columns : Shown dialect projection) (table : Shown dialect target) :
    Solid (rulesOf dialect) (units "SELECT " ++ projection ++ units " FROM " ++ target) := by
  have rest : Shown dialect (projection ++ units " FROM " ++ target) := shownGlue columns table (by decide)
  have whole : Solid (rulesOf dialect) (units "SELECT " ++ (projection ++ units " FROM " ++ target)) := wordsBehind (by decide) rest
  simpa only [List.append_assoc] using whole

theorem pageLoose (n : Nat) (limit offset : Int) : Loose dialect (boundShown (styleOf dialect) n (pageTemplate limit offset)) := by
  have marks : Loose dialect (units " LIMIT ? OFFSET ?") := Or.inr ⟨wordsSolid (by decide), by decide⟩
  cases dialect with
  | mysql => exact marks
  | sqlite => exact marks
  | postgres =>
    have numbers := wordsBehind (w := units " LIMIT ") (by decide)
      (shownGlue (dollarShown n) (dollarShown (n + 1)) (w := units " OFFSET ") (by decide))
    have text : boundShown (styleOf .postgres) n (pageTemplate limit offset) =
        units " LIMIT " ++ (dollar n ++ units " OFFSET " ++ dollar (n + 1)) := by
      simp [boundShown, styleOf, pageTemplate, numberedAppend]
    rw [text]
    exact Or.inr ⟨numbers, rfl⟩

structure Readable (dialect : SqlDialect) (p : Parts) : Prop where
  select : Solid (rulesOf dialect) p.select
  conditions : p.conditions = [] ∨ Shown dialect (shownAt (styleOf dialect) 1 p.conditions)
  order : Loose dialect p.order
  page : Loose dialect (p.pageText (styleOf dialect))

theorem mapMQuoted {α : Type} {engine : EngineKind} (fits : dialectForEngine engine = .ok dialect) {name : α → Text} {xs : List α}
    {ys : List Text} (ok : xs.mapM (fun x => quoting (quoteIdent (name x) engine)) = .ok ys) : ∀ y ∈ ys, Shown dialect y := by
  intro y member
  obtain ⟨x, -, quoted⟩ := mapMMember ok y member
  exact identShown fits (StatementTemplates.quotingOk quoted)

theorem targetShown {engine : EngineKind} (fits : dialectForEngine engine = .ok dialect) {given : List (Option Text)} {target : Text}
    (ok : quoting (quoteQualified engine given) = .ok target) : Shown dialect target := by
  have quoted := StatementTemplates.quotingOk ok
  simp only [quoteQualified] at quoted
  split at quoted
  · cases quoted
  · rename_i full
    obtain ⟨path, read, quoted⟩ := bindOk quoted
    cases quoted
    refine (quotedDots (StatementTemplates.fullMapM full read) fun part member => ?_).shown
    obtain ⟨column, -, named⟩ := mapMMember read part member
    exact identQuoted fits named

theorem pgTargetShown (schema : Option Text) (table : Text) : Shown .postgres (pgQualify schema table) := by
  unfold pgQualify
  split
  · exact escapedShown table
  · exact escapedShown table
  · rename_i schema _
    have joined : Quoted .postgres (join "." [escapeIdentifier schema, escapeIdentifier table]) :=
      quotedDots (by simp) (by simp [escapedQuoted])
    simpa [join, List.intercalate] using joined.shown

theorem conditionsRead {engine : EngineKind} (fits : dialectForEngine engine = .ok dialect) {filters : List ColumnFilter}
    {conditions : Template Text} (ok : conditionsOf engine filters = .ok conditions) :
    conditions = [] ∨ Shown dialect (shownAt (styleOf dialect) 1 conditions) :=
  (conditionsShown fits ok 1).imp And.right And.right

theorem pgReadable {counting : Bool} {req : TableReadRequest} {p : Parts} (ok : pgParts counting req = .ok p) :
    Readable .postgres p := by
  obtain ⟨conditions, found, ok⟩ := bindOk ok
  have filters : conditions = [] ∨ Shown .postgres (shownAt (styleOf .postgres) 1 conditions) := conditionsRead rfl found
  have target := pgTargetShown req.schema req.table
  cases counting with
  | true =>
    cases ok
    exact ⟨wordsBehind (w := units "SELECT count(*)::text AS n FROM ") (by decide) target, filters, Or.inl rfl, Or.inl rfl⟩
  | false =>
    cases ok
    refine ⟨selectSolid (projectionShown (List.forall_mem_map.mpr fun c _ => escapedShown c)) target, filters,
      orderLoose (List.forall_mem_map.mpr fun o _ => escapedShown o.column), pageLoose _ _ _⟩

theorem mysqlReadable {engine : EngineKind} (fits : dialectForEngine engine = .ok .mysql) {counting : Bool} {req : TableReadRequest}
    {p : Parts} (ok : mysqlParts engine counting req = .ok p) : Readable .mysql p := by
  obtain ⟨target, table, ok⟩ := bindOk ok
  have target := targetShown fits table
  cases counting with
  | true =>
    obtain ⟨conditions, found, ok⟩ := bindOk ok
    cases ok
    exact ⟨wordsBehind (w := units "SELECT COUNT(*) AS n FROM ") (by decide) target, conditionsRead fits found, Or.inl rfl,
      Or.inl rfl⟩
  | false =>
    obtain ⟨columns, named, ok⟩ := bindOk ok
    obtain ⟨conditions, found, ok⟩ := bindOk ok
    obtain ⟨order, ordered, ok⟩ := bindOk ok
    cases ok
    refine ⟨selectSolid (projectionShown (mapMQuoted fits named)) target, conditionsRead fits found,
      orderLoose fun o member => ?_, pageLoose _ _ _⟩
    obtain ⟨term, -, made⟩ := mapMMember ordered o member
    obtain ⟨ident, quoted, made⟩ := bindOk made
    cases made
    exact identShown fits (StatementTemplates.quotingOk quoted)

theorem partsReadable {c : Connector} {counting : Bool} {req : TableReadRequest} {p : Parts} (ok : partsOf c counting req = .ok p) :
    Readable c.dialect p := by
  cases c with
  | postgres => exact pgReadable ok
  | mysql => exact mysqlReadable rfl ok
  | mariadb => exact mysqlReadable rfl ok

def wordAlone (w : String) : Lexeme := ⟨.word, units w, 0⟩

def Parts.tokens (dialect : SqlDialect) (filter : Text) (p : Parts) : List Lexeme :=
  lexemes (rulesOf dialect) 0 p.select ++ [wordAlone "WHERE"] ++
    (if p.conditions = [] then []
      else enclosed (rulesOf dialect) (shownAt (styleOf dialect) 1 p.conditions) ++ [wordAlone "AND"]) ++
    enclosed (rulesOf dialect) filter ++ lexemes (rulesOf dialect) 0 p.order ++
    lexemes (rulesOf dialect) 0 (p.pageText (styleOf dialect))

theorem clauseTextAlone {filter : Text} (full : filter ≠ []) : clauseText [] filter = units " WHERE " ++ parenthesised filter := by
  simp [clauseText, join, List.intercalate, full]

theorem clauseTextBoth {structured filter : Text} (some : structured ≠ []) (full : filter ≠ []) :
    clauseText structured filter = units " WHERE " ++ parenthesised structured ++ units " AND " ++ parenthesised filter := by
  simp [clauseText, join, List.intercalate, some, full]

theorem clauseAlone {filter : Text} (solid : Solid (rulesOf dialect) filter) :
    Solid (rulesOf dialect) (clauseText [] filter) ∧ opening (clauseText [] filter) = true ∧
      lexemes (rulesOf dialect) 0 (clauseText [] filter) = wordAlone "WHERE" :: enclosed (rulesOf dialect) filter := by
  have verb : Solid (rulesOf dialect) (units " WHERE ") := wordsSolid (by decide)
  have word : lexemes (rulesOf dialect) 0 (units " WHERE ") = [wordAlone "WHERE"] := by cases dialect <;> decide
  have parted : Parted (units " WHERE ") (parenthesised filter) := partedEnding (by decide)
  rw [clauseTextAlone solid.full]
  refine ⟨solidAppend verb (parenSolid solid) parted, rfl, ?_⟩
  rw [solidTokens verb (parenSolid solid) parted, word, parenTokens solid]
  rfl

theorem clauseBoth {structured filter : Text} (first : Solid (rulesOf dialect) structured) (solid : Solid (rulesOf dialect) filter) :
    Solid (rulesOf dialect) (clauseText structured filter) ∧ opening (clauseText structured filter) = true ∧
      lexemes (rulesOf dialect) 0 (clauseText structured filter) =
        wordAlone "WHERE" :: (enclosed (rulesOf dialect) structured ++ wordAlone "AND" :: enclosed (rulesOf dialect) filter) := by
  have verb : Solid (rulesOf dialect) (units " WHERE ") := wordsSolid (by decide)
  have and' : Solid (rulesOf dialect) (units " AND ") := wordsSolid (by decide)
  have words : lexemes (rulesOf dialect) 0 (units " WHERE ") = [wordAlone "WHERE"] ∧
      lexemes (rulesOf dialect) 0 (units " AND ") = [wordAlone "AND"] := by cases dialect <;> decide
  have front : Parted (units " WHERE ") (parenthesised structured) := partedEnding (by decide)
  have middle : Parted (units " WHERE " ++ parenthesised structured) (units " AND ") := partedOpening (by decide)
  have back : Parted (units " WHERE " ++ parenthesised structured ++ units " AND ") (parenthesised filter) :=
    partedEnding (endingAppend (by decide))
  have conditions := solidAppend verb (parenSolid first) front
  have joined := solidAppend conditions and' middle
  rw [clauseTextBoth first.full solid.full]
  refine ⟨solidAppend joined (parenSolid solid) back, rfl, ?_⟩
  rw [solidTokens joined (parenSolid solid) back, solidTokens conditions and' middle, solidTokens verb (parenSolid first) front,
    words.1, words.2, parenTokens solid, parenTokens first]
  simp

theorem sentTokens {p : Parts} (readable : Readable dialect p) {filter : Text} (solid : Solid (rulesOf dialect) filter) :
    lexemes (rulesOf dialect) 0 (p.sent (styleOf dialect) filter).sql = p.tokens dialect filter := by
  have clause : Solid (rulesOf dialect) (clauseText (shownAt (styleOf dialect) 1 p.conditions) filter) ∧
      opening (clauseText (shownAt (styleOf dialect) 1 p.conditions) filter) = true ∧
      lexemes (rulesOf dialect) 0 (clauseText (shownAt (styleOf dialect) 1 p.conditions) filter) = [wordAlone "WHERE"] ++
        (if p.conditions = [] then []
          else enclosed (rulesOf dialect) (shownAt (styleOf dialect) 1 p.conditions) ++ [wordAlone "AND"]) ++
        enclosed (rulesOf dialect) filter := by
    have empty : shownAt (styleOf dialect) 1 [] = [] := by cases dialect <;> rfl
    rcases readable.conditions with none | shown
    · rw [none, empty, if_pos rfl]
      exact clauseAlone solid
    · have some : p.conditions ≠ [] := fun none => shown.solid.full (by rw [none, empty])
      rw [if_neg some]
      simpa using clauseBoth shown.solid solid
  obtain ⟨where', opens, tokens⟩ := clause
  have head := looseTokens readable.select (Or.inr ⟨where', opens⟩)
  have ordered := looseTokens head.1 readable.order
  have whole := looseTokens ordered.1 readable.page
  rw [Parts.sent, Parts.tokens]
  dsimp only
  rw [whole.2, ordered.2, head.2, tokens]
  simp only [List.append_assoc]

end Reading

section Placeholders
variable {α β : Type}

def mapHoles (f : α → β) (t : Template α) : Template β := t.map fun
  | .unit c => .unit c
  | .hole v => .hole (f v)

theorem mapHolesHoles (f : α → β) (t : Template α) : holes (mapHoles f t) = holes t := by
  induction t with
  | nil => rfl
  | cons p t ih => cases p <;> simpa [holes, mapHoles] using ih

theorem mapHolesNumbered (f : α → β) (t : Template α) (n : Nat) : numbered n (mapHoles f t) = numbered n t := by
  induction t generalizing n with
  | nil => rfl
  | cons p t ih => cases p <;> simpa [numbered, mapHoles] using ih _

theorem mapHolesValues (f : α → β) (t : Template α) : values (mapHoles f t) = (values t).map f := by
  induction t with
  | nil => rfl
  | cons p t ih => cases p <;> simpa [values, mapHoles] using ih

def Parts.template (filter : Text) (p : Parts) : Template Bound :=
  raw (p.select ++ units " WHERE ") ++
    ((if p.conditions = [] then [] else raw (units "(") ++ (mapHoles .value p.conditions ++ raw (units ") AND "))) ++
      (raw (parenthesised filter ++ p.order) ++ p.page))

theorem boundAppend (style : ParamStyle) (n : Nat) (s t : Template Bound) :
    boundShown style n (s ++ t) = boundShown style n s ++ boundShown style (n + (values s).length) t := by
  cases style <;> simp [boundShown, numberedAppend]

@[simp] theorem boundRaw (style : ParamStyle) (n : Nat) (text : Text) : boundShown style n (raw text) = text := by
  cases style <;> simp [boundShown]

theorem boundMapped (style : ParamStyle) (n : Nat) (t : Template Text) :
    boundShown style n (mapHoles .value t) = shownAt style n t := by
  cases style with
  | dollar => exact mapHolesNumbered _ _ _
  | qmark => exact mapHolesHoles _ _

theorem templateText {dialect : SqlDialect} {p : Parts} (readable : Readable dialect p) {filter : Text} (full : filter ≠ []) :
    p.sent (styleOf dialect) filter = ⟨boundShown (styleOf dialect) 1 (p.template filter), values (p.template filter)⟩ := by
  have empty : shownAt (styleOf dialect) 1 [] = [] := by cases dialect <;> rfl
  rcases readable.conditions with none | shown
  · have params : values p.conditions = [] := by
      rw [none]
      rfl
    rw [Parts.sent, Parts.template, if_pos none, Parts.pageText, params, none, empty, clauseTextAlone full]
    simp [boundAppend]
  · have some : p.conditions ≠ [] := fun none => shown.solid.full (by rw [none, empty])
    rw [Parts.sent, Parts.template, if_neg some, clauseTextBoth shown.solid.full full, Parts.pageText]
    simp only [boundAppend, boundMapped, mapHolesValues, parenthesised, boundRaw, valuesAppend, valuesRaw, List.append_assoc,
      List.length_nil, List.length_map, List.nil_append, Nat.add_zero, Nat.add_comm (values p.conditions).length 1, Sent.mk.injEq]
    exact ⟨rfl, by simp⟩

inductive Spaced : Bool → Template α → Bool → Prop where
  | nil (before) : Spaced before [] before
  | unit {before c rest after} (other : c ≠ 63) (tail : Spaced true rest after) : Spaced before (.unit c :: rest) after
  | hole {v rest after} (tail : Spaced false rest after) : Spaced true (.hole v :: rest) after

theorem Spaced.append {a b c : Bool} {s t : Template α} (first : Spaced a s b) (last : Spaced b t c) : Spaced a (s ++ t) c := by
  induction first with
  | nil => exact last
  | unit other _ ih => exact .unit other (ih last)
  | hole _ ih => exact .hole (ih last)

theorem spacedRaw {text : Text} (full : text ≠ []) (plain : 63 ∉ text) (before : Bool) :
    Spaced before (raw text : Template α) true := by
  induction text generalizing before with
  | nil => exact absurd rfl full
  | cons c text ih =>
    have other : c ≠ 63 := fun same => plain (by simp [same])
    cases text with
    | nil => exact .unit other (.nil true)
    | cons d text => exact .unit other (ih (by simp) (fun member => plain (List.mem_cons_of_mem _ member)) true)

theorem spacedMap {f : α → β} {a b : Bool} {t : Template α} (spaced : Spaced a t b) : Spaced a (mapHoles f t) b := by
  induction spaced with
  | nil => exact .nil _
  | unit other _ ih => exact .unit other ih
  | hole _ ih => exact .hole ih

theorem spacedJoined {sep : Text} (full : sep ≠ []) (plain : 63 ∉ sep) : ∀ {parts : List (Template α)}, parts ≠ [] →
    (∀ p ∈ parts, ∃ after, Spaced true p after) → ∃ after, Spaced true (joined sep parts) after
  | [p], _, each => by simpa [joined, List.intercalate] using each p
  | p :: q :: parts, _, each => by
      obtain ⟨behind, first⟩ := each p (by simp)
      obtain ⟨after, rest⟩ := spacedJoined full plain (by simp) fun r member => each r (List.mem_cons_of_mem _ member)
      rw [joinedCons]
      exact ⟨after, first.append ((spacedRaw full plain behind).append rest)⟩

def FillsMarks (driver : Text → List Bound → Template Bound) : Prop :=
  ∀ (t : Template Bound) (after : Bool), Spaced false t after → driver (holes t) (values t) = t

def fillMarks : Text → List Bound → Template Bound
  | [], _ => []
  | c :: rest, [] => .unit c :: fillMarks rest []
  | c :: rest, v :: params => if c = 63 then .hole v :: fillMarks rest params else .unit c :: fillMarks rest (v :: params)

theorem fillUnit {c : CodeUnit} (other : c ≠ 63) (rest : Text) (params : List Bound) :
    fillMarks (c :: rest) params = .unit c :: fillMarks rest params := by
  cases params <;> simp [fillMarks, other]

theorem fillMarksFill : FillsMarks fillMarks := by
  intro t after spaced
  generalize false = before at spaced
  induction spaced with
  | nil => rfl
  | @unit before c rest after other _ ih => exact (fillUnit other _ _).trans (congrArg _ ih)
  | @hole v rest after _ ih => exact congrArg (Piece.hole v :: ·) ih

theorem plainAppend {s t : Text} (first : 63 ∉ s) (last : 63 ∉ t) : 63 ∉ s ++ t := by simp [first, last]

theorem plainJoin {sep : Text} (plain : 63 ∉ sep) : ∀ {parts : List Text}, (∀ p ∈ parts, 63 ∉ p) → 63 ∉ sep.intercalate parts
  | [], _ => by simp [List.intercalate]
  | [p], each => by simpa [List.intercalate] using each p
  | p :: q :: parts, each => by
      rw [List.intercalate_cons_cons]
      exact plainAppend (plainAppend (each p (by simp)) plain) (plainJoin plain fun r member => each r (List.mem_cons_of_mem _ member))

theorem identPlain {engine : EngineKind} {column text : Text} (ok : quoteIdent column engine = .ok text) (plain : 63 ∉ column) :
    63 ∉ text := by
  obtain ⟨style, -, rfl⟩ := SqlFragments.identShape ok
  have other : (63 : Nat) ≠ style.mark := by cases style <;> decide
  have inner : 63 ∉ encode style.mark false column := by
    intro member
    obtain ⟨c, inside, unit⟩ := List.mem_flatMap.mp member
    simp only [encodeUnit, Bool.false_eq_true, false_and, if_false] at unit
    split at unit
    · simp [other] at unit
    · obtain rfl := List.mem_singleton.mp unit
      exact plain inside
  simp [other, inner]

theorem formSpaced {engine : EngineKind} (fits : dialectForEngine engine = .ok .mysql) {column : Text} {t : Template Text}
    (form : ConditionForm engine column t) (unmarked : 63 ∉ column) : ∃ after, Spaced true t after := by
  have named {col : Text} (quoted : quoteIdent column engine = .ok col) {w : Text} (words : 63 ∉ w) :
      Spaced true (raw (col ++ w) : Template Text) true :=
    spacedRaw (by simp [(identShown fits quoted).solid.full]) (plainAppend (identPlain quoted unmarked) words) true
  cases form with
  | @compared col op v quoted => exact ⟨false, (named quoted (by cases op <;> decide)).append (.hole (.nil false))⟩
  | null quoted word =>
    rw [List.append_assoc]
    exact ⟨true, named quoted (by rcases word with rfl | rfl <;> decide)⟩
  | between quoted =>
    exact ⟨false, (named quoted (by decide)).append (.hole ((spacedRaw (by decide) (by decide) _).append (.hole (.nil false))))⟩
  | never => exact ⟨true, spacedRaw (by decide) (by decide) true⟩
  | @within col vs quoted some =>
    have holes : ∃ after, Spaced true (joined (units ", ") (vs.map hole)) after :=
      spacedJoined (by decide) (by decide) (by simpa using some) (List.forall_mem_map.mpr fun v _ => ⟨false, .hole (.nil false)⟩)
    obtain ⟨after, holes⟩ := holes
    exact ⟨true, (named quoted (by decide)).append (holes.append (spacedRaw (by decide) (by decide) _))⟩
  | text quoted escape =>
    refine ⟨true, (named quoted (by decide)).append (.hole (spacedRaw (by simp [units]) (plainAppend (by decide) ?_) _))⟩
    cases engine <;> cases fits <;> cases escape <;> decide

theorem conditionsSpaced {engine : EngineKind} (fits : dialectForEngine engine = .ok .mysql) {filters : List ColumnFilter}
    {conditions : Template Text} (ok : conditionsOf engine filters = .ok conditions) (unmarked : ∀ f ∈ filters, 63 ∉ f.column) :
    conditions = [] ∨ ∃ after, Spaced true conditions after := by
  unfold conditionsOf at ok
  cases made : filters.mapM (conditionOf engine) with
  | error e =>
    rw [made] at ok
    cases ok
  | ok ts =>
    rw [made] at ok
    cases ok
    by_cases none : ts = []
    · exact Or.inl (by rw [none]; rfl)
    · refine Or.inr (spacedJoined (by decide) (by decide) none fun t member => ?_)
      obtain ⟨f, inside, found⟩ := mapMMember made t member
      exact formSpaced fits (conditionForm found) (unmarked f inside)

theorem targetPlain {engine : EngineKind} {given : List (Option Text)} {target : Text}
    (ok : quoting (quoteQualified engine given) = .ok target) (unmarked : ∀ name, some name ∈ given → 63 ∉ name) :
    63 ∉ target := by
  have quoted := StatementTemplates.quotingOk ok
  simp only [quoteQualified] at quoted
  split at quoted
  · cases quoted
  · obtain ⟨path, read, quoted⟩ := bindOk quoted
    cases quoted
    refine plainJoin (by decide) fun part member => ?_
    obtain ⟨name, inside, named⟩ := mapMMember read part member
    obtain ⟨given, listed, kept⟩ := List.mem_filterMap.mp inside
    exact identPlain named (unmarked name (by rwa [(Option.filter_eq_some_iff.mp kept).1] at listed))

theorem projectionPlain {quoted : List Text} (each : ∀ q ∈ quoted, 63 ∉ q) : 63 ∉ projectionText quoted := by
  unfold projectionText
  split
  · decide
  · exact plainJoin (by decide) each

theorem orderPlain {quoted : List (Text × Bool)} (each : ∀ o ∈ quoted, 63 ∉ o.1) : 63 ∉ orderText quoted := by
  unfold orderText
  split
  · decide
  · refine plainAppend (by decide) (plainJoin (by decide) (List.forall_mem_map.mpr fun o member => ?_))
    exact plainAppend (each o member) (by cases o.2 <;> decide)

theorem pageSpaced (limit offset : Int) (before : Bool) : Spaced before (pageTemplate limit offset) false :=
  (spacedRaw (by decide) (by decide) before).append (.hole ((spacedRaw (by decide) (by decide) false).append (.hole (.nil false))))

def TableReadRequest.names (counting : Bool) (req : TableReadRequest) : List Text :=
  req.schema.toList ++ [req.table] ++ (req.filters.getD []).map ColumnFilter.column ++
    if counting then [] else req.columns.getD [] ++ (req.orderBy.getD []).map OrderTerm.column

theorem templateSpaced {p : Parts} {filter : Text} (select : 63 ∉ p.select)
    (conditions : p.conditions = [] ∨ ∃ after, Spaced true p.conditions after) (raw : 63 ∉ filter) (order : 63 ∉ p.order)
    (page : ∀ before, ∃ after, Spaced before p.page after) : ∃ after, Spaced false (p.template filter) after := by
  have verb : Spaced false (Templates.raw (p.select ++ units " WHERE ") : Template Bound) true :=
    spacedRaw (by simp [units]) (plainAppend select (by decide)) false
  have tail (before : Bool) : Spaced before (Templates.raw (parenthesised filter ++ p.order) : Template Bound) true := by
    refine spacedRaw (by simp [parenthesised, units]) (plainAppend ?_ order) before
    exact plainAppend (plainAppend (by decide) raw) (by decide)
  obtain ⟨after, page⟩ := page true
  refine ⟨after, verb.append (Spaced.append ?_ ((tail true).append page))⟩
  rcases conditions with none | ⟨last, spaced⟩
  · rw [if_pos none]
    exact .nil true
  · split
    · exact .nil true
    · exact (spacedRaw (by decide) (by decide) true).append ((spacedMap spaced).append (spacedRaw (by decide) (by decide) last))

theorem mysqlSpaced {engine : EngineKind} (fits : dialectForEngine engine = .ok .mysql) {counting : Bool} {req : TableReadRequest}
    {p : Parts} (ok : mysqlParts engine counting req = .ok p) {filter : Text}
    (unmarked : ∀ text ∈ filter :: req.names counting, 63 ∉ text) :
    ∃ after, Spaced false (p.template filter) after := by
  have raw : 63 ∉ filter := unmarked filter List.mem_cons_self
  have unmarked (name : Text) (member : name ∈ req.names counting) : 63 ∉ name := unmarked name (List.mem_cons_of_mem _ member)
  obtain ⟨target, table, ok⟩ := bindOk ok
  have target : 63 ∉ target := targetPlain table fun name member => unmarked name (by
    rcases List.mem_cons.mp member with schema | member
    · simp [TableReadRequest.names, ← schema]
    · simp [TableReadRequest.names, Option.some.inj (List.mem_singleton.mp member)])
  have conditions {t : Template Text} (found : conditionsOf engine (req.filters.getD []) = .ok t) :=
    conditionsSpaced fits found fun f member => unmarked f.column (by simp [TableReadRequest.names, List.mem_map_of_mem member])
  cases counting with
  | true =>
    obtain ⟨t, found, ok⟩ := bindOk ok
    cases ok
    exact templateSpaced (plainAppend (by decide) target) (conditions found) raw (by simp) fun before => ⟨before, .nil before⟩
  | false =>
    obtain ⟨columns, named, ok⟩ := bindOk ok
    obtain ⟨t, found, ok⟩ := bindOk ok
    obtain ⟨order, ordered, ok⟩ := bindOk ok
    cases ok
    have projection : 63 ∉ projectionText columns := projectionPlain fun column member => by
      obtain ⟨name, listed, quoted⟩ := mapMMember named column member
      exact identPlain (StatementTemplates.quotingOk quoted) (unmarked name (by simp [TableReadRequest.names, listed]))
    have sorted : 63 ∉ orderText order := orderPlain fun o member => by
      obtain ⟨term, listed, made⟩ := mapMMember ordered o member
      obtain ⟨ident, quoted, made⟩ := bindOk made
      cases made
      exact identPlain (StatementTemplates.quotingOk quoted) (unmarked term.column (by
        simp [TableReadRequest.names, List.mem_map_of_mem listed]))
    exact templateSpaced (plainAppend (plainAppend (plainAppend (by decide) projection) (by decide)) target) (conditions found)
      raw sorted fun before => ⟨false, pageSpaced _ _ before⟩

end Placeholders

section Boxes

structure Inside (c : Connector) (req : TableReadRequest) : Prop where
  full : filterText c req ≠ []
  even : balanced (lexemes c.rules 0 (filterText c req)) = true
  shut : ended c.rules (filterText c req) = true

theorem insideSolid {c : Connector} {req : TableReadRequest} (inside : Inside c req) : Solid c.rules (filterText c req) :=
  solidBalanced inside.full inside.shut inside.even

structure Untouched (c : Connector) (req : TableReadRequest) : Prop where
  word : c = .postgres → DumpRunner.wordAt "where" ((req.rawWhere.getD []).dropWhile isWhite) = false
  blank : ∀ u ∈ req.rawWhere.getD [], isWhite u = true → isSpace u = true

theorem filterTrimmed {c : Connector} {req : TableReadRequest} (untouched : Untouched c req) :
    filterText c req = trim (req.rawWhere.getD []) := by
  cases c with
  | postgres => simp [filterText, stripWhere, untouched.word rfl]
  | mysql => rfl
  | mariadb => rfl

theorem filterTokens {c : Connector} {req : TableReadRequest} (inside : Inside c req) (untouched : Untouched c req) :
    lexemes c.rules 0 (filterText c req) = lexemes c.rules 0 (req.rawWhere.getD []) := by
  obtain ⟨trail, split, white⟩ := trimBySplit isWhite (req.rawWhere.getD [])
  have solid := insideSolid inside
  rw [filterTrimmed untouched, trim] at solid
  have lead : ∀ u ∈ (req.rawWhere.getD []).takeWhile isWhite, isSpace u = true := fun u member =>
    untouched.blank u ((List.takeWhile_prefix _).subset member) (List.mem_takeWhile_imp member)
  have behind : ∀ u ∈ trail, isSpace u = true := fun u member => untouched.blank u (by
    rw [split]
    simp [member]) (white u member)
  have back := spacesBehind behind solid
  rw [filterTrimmed untouched, trim]
  conv => rhs; rw [split]
  rw [spacesBefore lead back.1, back.2]

def Unmarked (c : Connector) (counting : Bool) (req : TableReadRequest) : Prop :=
  ∀ text ∈ filterText c req :: req.names counting, 63 ∉ text

def OwnValues (driver : Text → List Bound → Template Bound) (c : Connector) (t : Template Bound) (sent : Sent) : Prop :=
  match c with
  | .postgres => sent = ⟨numbered 1 t, values t⟩
  | _ => driver sent.sql sent.params = t

theorem rawInside (driver : Text → List Bound → Template Bound) (fills : FillsMarks driver) {c : Connector} {counting : Bool}
    {req : TableReadRequest} {sent : Sent} (ok : send c counting req = .ok sent) (inside : Inside c req) :
    ∃ p, partsOf c counting req = .ok p ∧ lexemes c.rules 0 sent.sql = p.tokens c.dialect (filterText c req) ∧
      (Untouched c req → lexemes c.rules 0 (filterText c req) = lexemes c.rules 0 (req.rawWhere.getD [])) ∧
      ((c ≠ .postgres → Unmarked c counting req) → OwnValues driver c (p.template (filterText c req)) sent) := by
  rw [sendIs] at ok
  cases parts : partsOf c counting req with
  | error e =>
    rw [parts] at ok
    cases ok
  | ok p =>
    rw [parts] at ok
    cases ok
    have readable := partsReadable parts
    have text := templateText readable inside.full
    refine ⟨p, rfl, sentTokens readable (insideSolid inside), filterTokens inside, fun unmarked => ?_⟩
    rw [text]
    cases c with
    | postgres => rfl
    | mysql =>
      obtain ⟨after, spaced⟩ := mysqlSpaced rfl parts (unmarked (by decide))
      exact fills _ after spaced
    | mariadb =>
      obtain ⟨after, spaced⟩ := mysqlSpaced rfl parts (unmarked (by decide))
      exact fills _ after spaced

def boxed (raw : String) : TableReadRequest :=
  ⟨some (units "s"), units "t", some [units "a"], 0, 10, some [⟨units "a", true⟩],
    some [⟨units "a", .comparison .eq, some (units "x"), none, none⟩], some (units raw)⟩

def boxedSent : Sent :=
  ⟨units "SELECT `a` FROM `s`.`t` WHERE (`a` = ?) AND (b = (1)) ORDER BY `a` DESC LIMIT ? OFFSET ?",
    [.value (units "x"), .number 10, .number 0]⟩

theorem rawInsideBoxed : ∃ p, partsOf .mysql false (boxed " b = (1) ") = .ok p ∧
    lexemes (Connector.rules .mysql) 0 boxedSent.sql = p.tokens .mysql (filterText .mysql (boxed " b = (1) ")) ∧
    lexemes (Connector.rules .mysql) 0 (filterText .mysql (boxed " b = (1) ")) =
      lexemes (Connector.rules .mysql) 0 (units " b = (1) ") ∧
    OwnValues fillMarks .mysql (p.template (filterText .mysql (boxed " b = (1) "))) boxedSent := by
  have sent : send .mysql false (boxed " b = (1) ") = .ok boxedSent := by decide +kernel
  have inside : Inside .mysql (boxed " b = (1) ") := ⟨by decide, by decide +kernel, by decide +kernel⟩
  have untouched : Untouched .mysql (boxed " b = (1) ") := ⟨(by cases ·), by decide⟩
  have unmarked : Unmarked .mysql false (boxed " b = (1) ") := by
    unfold Unmarked
    decide
  obtain ⟨p, parts, tokens, same, own⟩ := rawInside fillMarks fillMarksFill sent inside
  exact ⟨p, parts, tokens, same untouched, own fun _ => unmarked⟩

def paired (rules : DialectRules) (raw : Text) : Bool :=
  lexemes rules 0 raw != [] && balanced (lexemes rules 0 raw) && (lexemes rules 0 raw).all fun l => l.text != units ";"

def strays (c : Connector) (raw : String) : Bool :=
  match partsOf c false (boxed raw), send c false (boxed raw) with
  | .ok p, .ok sent => paired c.rules (units raw) && lexemes c.rules 0 sent.sql != p.tokens c.dialect (units raw)
  | _, _ => false

deriving instance DecidableEq for Templates.Piece

def misplaces (c : Connector) (raw : String) : Bool :=
  match partsOf c false (boxed raw), send c false (boxed raw) with
  | .ok p, .ok sent => paired c.rules (units raw) && fillMarks sent.sql sent.params != p.template (units raw)
  | _, _ => false

-- A keyword that is dropped, a comment that goes on, and a question mark that takes the limit's value.
theorem rawStrays : strays .postgres "WHERE b" = true ∧ strays .mysql "b -- c" = true ∧ misplaces .mysql "b = '?'" = true := by
  decide +kernel

end Boxes

end DatabaseAdmin.RawFilters
