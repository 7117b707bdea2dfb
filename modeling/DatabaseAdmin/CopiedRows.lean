import Mathlib.Data.List.Chain
import DatabaseAdmin.DumpScripts
import DatabaseAdmin.FormatGuard
import DatabaseAdmin.StatementTemplates
import DatabaseAdmin.TokenFragments

/-! The INSERT and the UPDATE that are copied from the rows of the grid: a literal for each cell, and
one statement for the splitter whatever the cells hold. -/
namespace DatabaseAdmin.CopiedRows
open CodeUnits BinaryText WireCells CellCoercion TextWriters ScanLoop SqlFragments SqlScripts SqlDumps DumpScripts RowFilters
open TokenFragments StatementTemplates StatementGuards
open ChangeStatements (quoteQualified join bindOk mapMMember mapMLength)

section Literals

inductive JsonItem where
  | null
  | boolean (value : Bool)
  | number (text : Text)
  | string (text : Text)
  | array (items : List JsonItem)
  | object (fields : List (Text × JsonItem))

structure ArrayReading where
  parse : Text → Option JsonItem
  binds : List JsonItem → Except Text Unit

def numericText (v : Text) : Bool :=
  let body := if v.head? = some 45 then v.drop 1 else v
  let rest := body.dropWhile isDigit
  if body.takeWhile isDigit ≠ [] then exponentToken (if rest.head? = some 46 then (rest.drop 1).dropWhile isDigit else rest)
  else rest.head? = some 46 && (rest.drop 1).takeWhile isDigit ≠ [] && exponentToken ((rest.drop 1).dropWhile isDigit)

def bytesLiteral (bytes : List UInt8) (engine : EngineKind) : Except Text Text :=
  if engine = .postgres then quoting (quoteLiteral (.string (units "\\x" ++ toHex bytes)) engine)
  else .ok (hexLiteral (toHex bytes))

mutual

def itemText : JsonItem → Except Text Text
  | .null => .ok (units "null")
  | .boolean value => .ok (units (if value then "true" else "false"))
  | .number text => .ok text
  | .string text => .ok text
  | .array items => do
      let texts ← itemTexts items
      return join "," texts
  | .object fields =>
      if (fields.lookup (units "toString")).isSome then .error (units "Cannot convert object to primitive value")
      else .ok (units "[object Object]")

def itemTexts : List JsonItem → Except Text (List Text)
  | [] => .ok []
  | .null :: rest => do
      let texts ← itemTexts rest
      return [] :: texts
  | item :: rest => do
      let text ← itemText item
      let texts ← itemTexts rest
      return text :: texts

end

def itemQuoted (text : Text) : Text :=
  units "\"" ++ replaceUnit doubleQuote [backslash, doubleQuote] (replaceUnit backslash [backslash, backslash] text) ++ units "\""

def objectText (fields : List (Text × JsonItem)) : Except Text Text :=
  if (fields.lookup (units "$t")).isSome then
    match fields.lookup (units "v") with
    | some v => itemText v
    | none => .ok (units "undefined")
  else itemText (.object fields)

mutual

def pgItem : JsonItem → Except Text Text
  | .null => .ok (units "NULL")
  | .array items => do
      let parts ← pgItems items
      return units "\x7b" ++ join "," parts ++ units "\x7d"
  | .object fields => do
      let text ← objectText fields
      return itemQuoted text
  | item => do
      let text ← itemText item
      return itemQuoted text

def pgItems : List JsonItem → Except Text (List Text)
  | [] => .ok []
  | item :: rest => do
      let part ← pgItem item
      let parts ← pgItems rest
      return part :: parts

end

def pgArrayText (items : List JsonItem) : Except Text Text := do
  let parts ← pgItems items
  return units "\x7b" ++ join "," parts ++ units "\x7d"

variable (reading : ArrayReading) (engine : EngineKind)

def literalText (value : LiteralValue) : Except Text Text := quoting (quoteLiteral value engine)

def decodeCellForSql : Cell → Except Text Text
  | .null => .ok (units "NULL")
  | .boolean value => literalText engine (.boolean value)
  | .number n => if n.finite then .ok n.text else .error (n.text ++ units " has no portable SQL representation")
  | .string text => literalText engine (.string text)
  | .tagged .unsupported _ of =>
      .error (units "a value of type \"" ++ of.getD (units "unknown") ++
        units "\" was not decoded losslessly and cannot be written back")
  | .tagged .bytes v _ =>
      if atobReads v then bytesLiteral (base64ToBytes v) engine
      else .error (units "The string to be decoded is not correctly encoded.")
  | .tagged .bigint v _ | .tagged .decimal v _ | .tagged .decimal128 v _ =>
      if numericText (trim v) then .ok (trim v) else literalText engine (.string v)
  | .tagged .array v _ =>
      if engine = .postgres then
        match reading.parse v with
        | some (.array items) => do
            let text ← pgArrayText items
            let sql ← literalText engine (.string text)
            reading.binds items
            return sql
        | _ => literalText engine (.string v)
      else literalText engine (.string v)
  | .tagged _ v _ => literalText engine (.string v)

def literal (cell : Cell) : Except Text Text := do
  let _ ← quoting ((styleFor engine).map fun _ => [])
  decodeCellForSql reading engine cell

end Literals

section Rendering

structure DmlTarget where
  schema : Option Text
  table : Text

def qualify (target : DmlTarget) (engine : EngineKind) : Except Text Text :=
  quoting (quoteQualified engine [target.schema, some target.table])

def checkWidth (columns : List Text) (row : Row) (index : Nat) : Except Text Unit :=
  if row.length ≠ columns.length then
    .error (units ("Row " ++ toString (index + 1) ++ " has " ++ toString row.length ++ " values but there are " ++
      toString columns.length ++ " columns."))
  else .ok ()

variable (reading : ArrayReading)

def tupleText (literals : List Text) : Text := units "  (" ++ join ", " literals ++ units ")"

def rowTuples (engine : EngineKind) (columns : List Text) : Nat → List Row → Except Text (List Text)
  | _, [] => .ok []
  | index, row :: rest => do
      checkWidth columns row index
      let literals ← row.mapM (literal reading engine)
      let tuples ← rowTuples engine columns (index + 1) rest
      return tupleText literals :: tuples

def renderInsertRows (target : DmlTarget) (columns : List Text) (rows : List Row) (engine : EngineKind) : Except Text Text := do
  if rows = [] then throw (units "Cannot render an INSERT with no rows.")
  if columns = [] then throw (units "Cannot render an INSERT with no columns.")
  let names ← columns.mapM fun c => quoting (quoteIdent c engine)
  let tuples ← rowTuples reading engine columns 0 rows
  let table ← qualify target engine
  return units "INSERT INTO " ++ table ++ units " (" ++ join ", " names ++ units ") VALUES\n" ++ join ",\n" tuples ++ units ";"

def valueOf (columns : List Text) (row : Row) (column : Text) : Except Text Cell :=
  match columns.idxOf? column with
  | none => .error (units "Key column \"" ++ column ++ units "\" is not among the copied columns.")
  | some index => .ok (row.getD index .null)

def setText (engine : EngineKind) (columns : List Text) (row : Row) (column : Text) : Except Text Text := do
  let ident ← quoting (quoteIdent column engine)
  let cell ← valueOf columns row column
  let value ← literal reading engine cell
  return ident ++ units " = " ++ value

def keyText (engine : EngineKind) (columns : List Text) (row : Row) (column : Text) : Except Text Text := do
  let cell ← valueOf columns row column
  let ident ← quoting (quoteIdent column engine)
  if cell = .null then return ident ++ units " IS NULL"
  let value ← literal reading engine cell
  return ident ++ units " = " ++ value

def renderUpdateRow (target : DmlTarget) (columns : List Text) (row : Row) (keyColumns : List Text) (engine : EngineKind) :
    Except Text Text := do
  if keyColumns = [] then throw (units "Cannot render an UPDATE with no key columns: it would match every row.")
  checkWidth columns row 0
  let sets ← (columns.filter fun c => !keyColumns.contains c).mapM (setText reading engine columns row)
  if sets = [] then throw (units "Cannot render an UPDATE: every copied column is part of the key.")
  let terms ← keyColumns.mapM (keyText reading engine columns row)
  let table ← qualify target engine
  return units "UPDATE " ++ table ++ units "\nSET " ++ join ",\n    " sets ++ units "\nWHERE " ++ join " AND " terms ++ units ";"

end Rendering

section Numbers

theorem numericTextOf {v : Text} (token : numericToken v = true) : numericText v = true := by
  simp only [numericToken, Bool.and_eq_true, Bool.or_eq_true, decide_eq_true_eq] at token
  obtain ⟨whole, fraction⟩ := token
  simp only [numericText]
  generalize (if v.head? = some 45 then v.drop 1 else v) = body at whole fraction ⊢
  have digits : body.takeWhile isDigit ≠ [] := by
    rcases whole with zero | more
    · simp [zero]
    · exact more.1
  rw [if_pos digits]
  unfold fractionToken at fraction
  split at fraction
  · rename_i rest behind
    simp only [Bool.and_eq_true] at fraction
    simpa [behind] using fraction.2
  · rename_i other
    have noPoint : (body.dropWhile isDigit).head? ≠ some 46 := by
      intro head
      cases split : body.dropWhile isDigit with
      | nil => simp [split] at head
      | cons c rest =>
        rw [split] at head
        cases head
        exact other rest split
    rwa [if_neg noPoint]

theorem pointNumeral {rest : Text} (point : rest.head? = some 46) (tail : Numeral ((rest.drop 1).dropWhile isDigit)) :
    Numeral rest ∧ rest.head? ≠ some 45 := by
  cases rest with
  | nil => cases point
  | cons c rest =>
    cases point
    have digits := numeralDigits tail (rest.takeWhile isDigit) fun d member => List.mem_takeWhile_imp member
    rw [List.drop_one, List.tail_cons, List.takeWhile_append_dropWhile] at digits
    exact ⟨numeralCons rfl (fun same => absurd same (by decide)) digits, fun head => absurd (Option.some.inj head) (by decide)⟩

theorem numericNumeral {v : Text} (numeric : numericText v = true) : Numeral v := by
  simp only [numericText] at numeric
  have signed {body : Text} (numeral : Numeral body ∧ body.head? ≠ some 45)
      (same : (if v.head? = some 45 then v.drop 1 else v) = body) : Numeral v := by
    split at same
    · rename_i sign
      cases v with
      | nil => exact numeralNil
      | cons c v =>
        cases sign
        cases same
        exact numeralCons rfl (fun _ => numeral.2) numeral.1
    · exact same ▸ numeral.1
  generalize split : (if v.head? = some 45 then v.drop 1 else v) = body at numeric
  refine signed ?_ split
  split at numeric
  · rename_i whole
    have tail : Numeral (body.dropWhile isDigit) := by
      split at numeric
      · rename_i point
        exact (pointNumeral point (exponentNumeral numeric)).1
      · exact exponentNumeral numeric
    have digits := numeralDigits tail (body.takeWhile isDigit) fun d member => List.mem_takeWhile_imp member
    rw [List.takeWhile_append_dropWhile] at digits
    refine ⟨digits, fun head => whole ?_⟩
    cases body with
    | nil => rfl
    | cons c body =>
      cases head
      rfl
  · rename_i none
    simp only [Bool.and_eq_true, decide_eq_true_eq] at numeric
    have same : body.dropWhile isDigit = body := by
      have parts := List.takeWhile_append_dropWhile (p := isDigit) (l := body)
      rwa [not_ne_iff.mp none, List.nil_append] at parts
    rw [same] at numeric
    exact pointNumeral numeric.1.1 (exponentNumeral numeric.2)

theorem numericFull {v : Text} (numeric : numericText v = true) : v ≠ [] := by
  rintro rfl
  contradiction

theorem numeralFlat {rules : DialectRules} {v : Text} (numeral : Numeral v) : Flat rules v := by
  intro c t suffix
  have unit := numeral.spelled c (suffix.subset (by simp))
  have chain := numeral.single.suffix suffix
  have range := numeralRange unit
  have single : c = 45 → t.head? ≠ some 45 := by
    intro sign head
    cases t with
    | nil => cases head
    | cons d t =>
      cases head
      exact (List.isChain_cons_cons.mp chain).1 ⟨sign, rfl⟩
  have even : ∀ d ∈ t.head?, d ≠ apostrophe := by
    rintro d head rfl
    have inner := numeral.spelled apostrophe (suffix.subset (List.mem_cons_of_mem _ (List.mem_of_mem_head? head)))
    contradiction
  refine ⟨?_, ?_, ?_, fun before => ⟨numeralOpens unit single even, numeralOpens unit ?_ ?_⟩⟩
  · cases white : isSpace c with
    | false => rfl
    | true =>
      simp only [isSpace, Bool.or_eq_true, beq_iff_eq] at white
      rcases white with ((((rfl | rfl) | rfl) | rfl) | rfl) | rfl <;> contradiction
  · rintro rfl
    contradiction
  · rintro rfl
    contradiction
  · cases t with
    | nil => simp [space]
    | cons d t => exact single
  · cases t with
    | nil => simp [space, apostrophe]
    | cons d t => exact even

end Numbers

section Cells
variable {engine : EngineKind} {dialect : SqlDialect}

def OneLiteral (text : Text) (depth : Nat) (tokens : List Lexeme) : Prop :=
  (text ∈ ["NULL", "TRUE", "FALSE"].map units ∧ tokens = [⟨.word, text, depth⟩]) ∨
  tokens = [⟨.string, text, depth⟩] ∨
  (∃ body, text = 88 :: body ∧ tokens = [⟨.word, [88], depth⟩, ⟨.string, body, depth⟩]) ∨
  (numericText text = true ∧ tokens.flatMap Lexeme.text = text ∧ ∀ t ∈ tokens, t.depth = depth)

structure Written (dialect : SqlDialect) (text : Text) : Prop where
  inert : Inert (rulesOf dialect) text
  reads : ∀ depth, TokenFragments.Reads (rulesOf dialect) depth text (lexemes (rulesOf dialect) depth text) depth
  one : ∀ depth, OneLiteral text depth (lexemes (rulesOf dialect) depth text)
  full : text ≠ []
  last : ∀ c ∈ text.getLast?, isSpace c = false

theorem numberWritten {v : Text} (numeric : numericText v = true) : Written dialect v := by
  have numeral := numericNumeral numeric
  have flat := @numeralFlat (rulesOf dialect) v numeral
  refine ⟨closedInert (numeralClosed v [] numeral.spelled numeral.single), flatReads flat, fun depth => ?_, numericFull numeric,
    fun c last => ?_⟩
  · obtain ⟨text, depths⟩ := @flatLexemes _ depth v flat 0 [] (Nat.zero_le _)
    exact Or.inr (Or.inr (Or.inr ⟨numeric, text, depths⟩))
  · obtain ⟨front, rfl⟩ := List.getLast?_eq_some_iff.mp last
    exact (flat c [] (List.suffix_append front [c])).1

theorem wordWritten {v : Text} (word : v ∈ ["NULL", "TRUE", "FALSE"].map units) : Written dialect v := by
  simp only [List.map_cons, List.map_nil, List.mem_cons, List.not_mem_nil, or_false] at word
  have reads (shut : ended (rulesOf dialect) v = true) (alone : ∀ depth, lexemes (rulesOf dialect) depth v = [⟨.word, v, depth⟩] ∧
      depthAfter (rulesOf dialect) depth v = depth) (inert : closedWords v = true) (full : v ≠ [])
      (last : ∀ c ∈ v.getLast?, isSpace c = false) : Written dialect v := by
    refine ⟨wordsInert inert, fun depth => ?_, fun depth => Or.inl ⟨?_, (alone depth).1⟩, full, last⟩
    · have reads := endedReads shut depth
      rwa [(alone depth).2] at reads
    · simpa using word
  rcases word with rfl | rfl | rfl
  · exact reads (by cases dialect <;> rfl) (fun depth => by cases dialect <;> exact ⟨rfl, rfl⟩) (by decide) (by decide) (by decide)
  · exact reads (by cases dialect <;> rfl) (fun depth => by cases dialect <;> exact ⟨rfl, rfl⟩) (by decide) (by decide) (by decide)
  · exact reads (by cases dialect <;> rfl) (fun depth => by cases dialect <;> exact ⟨rfl, rfl⟩) (by decide) (by decide) (by decide)

theorem stringLast {s text : Text} (ok : quoteLiteral (.string s) engine = .ok text) : text.getLast? = some apostrophe := by
  simp only [quoteLiteral] at ok
  split at ok
  · cases ok
  · split at ok
    · cases ok
      exact List.getLast?_concat ..
    · cases ok
      exact List.getLast?_concat ..
    · split at ok
      · cases ok
        exact List.getLast?_concat ..
      · cases ok
        exact List.getLast?_concat ..
    · cases ok
      exact List.getLast?_concat ..
    · cases ok

theorem stringWritten (fits : dialectForEngine engine = .ok dialect) {s text : Text}
    (ok : quoteLiteral (.string s) engine = .ok text) : Written dialect text := by
  have reads := formReads (literalFormed fits ok)
  have whole (depth : Nat) : lexemes (rulesOf dialect) depth text = [⟨.string, text, depth⟩] := readsWhole (reads depth)
  have last := stringLast ok
  refine ⟨literalInert fits ok, fun depth => ?_, fun depth => Or.inr (Or.inl (whole depth)), ?_, ?_⟩
  · rw [whole]
    exact reads depth
  · rintro rfl
    cases last
  · intro c there
    rw [last] at there
    cases there
    rfl

theorem hexWritten (bytes : List UInt8) : Written dialect (hexLiteral (toHex bytes)) := by
  have plain : ∀ c ∈ hexText bytes, c ≠ apostrophe ∧ ((rulesOf dialect).backslashEscapes = true → c ≠ backslash) :=
    fun c member => ⟨(hexRegular bytes c member).1, fun _ => (hexRegular bytes c member).2⟩
  have form := stringFormed (rulesOf dialect) (hexText bytes) [88]
  rw [encodePlain plain] at form
  have whole : hexLiteral (toHex bytes) = 88 :: apostrophe :: (hexText bytes ++ [apostrophe]) := rfl
  have closes : hexLiteral (toHex bytes) = (88 :: apostrophe :: hexText bytes) ++ [apostrophe] := rfl
  have opens (more : Text) : openerAt (rulesOf dialect) [] (88 :: apostrophe :: more) = none := by
    simp [openerAt, apostrophe, doubleQuote, backtick]
  have step (depth : Nat) (more : Text) : shape (tokenStep (rulesOf dialect) depth [] (88 :: apostrophe :: more)) =
      (depth, 1, [⟨.word, [88], depth⟩]) := by
    simp only [tokenStep, opens]
    rfl
  have width (more : Text) : (tokenStep (rulesOf dialect) 0 [] (88 :: apostrophe :: more)).width = 1 :=
    congrArg (fun s => s.2.1) (step 0 more)
  have shut : ended (rulesOf dialect) (hexLiteral (toHex bytes)) = true := by
    rw [whole, ended, endedFrom, List.cons_append, List.cons_append, width]
    exact form.ended
  have alone (depth : Nat) : lexemes (rulesOf dialect) depth (hexLiteral (toHex bytes)) =
      [⟨.word, [88], depth⟩, ⟨.string, apostrophe :: (hexText bytes ++ [apostrophe]), depth⟩] := by
    rw [whole, lexemes, lexemesNext, step]
    exact congrArg (⟨.word, [88], depth⟩ :: ·) (form.read depth)
  have level (depth : Nat) : depthAfter (rulesOf dialect) depth (hexLiteral (toHex bytes)) = depth := by
    rw [whole, depthAfter, depthNext, step]
    exact form.level depth
  refine ⟨hexLiteralInert bytes, fun depth => ?_, fun depth => ?_, by simp [whole], ?_⟩
  · have reads := endedReads shut depth
    rwa [level] at reads
  · exact Or.inr (Or.inr (Or.inl ⟨_, whole, alone depth⟩))
  · intro c last
    rw [closes, List.getLast?_concat] at last
    cases last
    rfl

theorem cellWritten (fits : dialectForEngine engine = .ok dialect) {reading : ArrayReading} {cell : Cell} (spoken : Spoken cell)
    {text : Text} (ok : decodeCellForSql reading engine cell = .ok text) : Written dialect text := by
  have string {s : Text} (ok : literalText engine (.string s) = .ok text) : Written dialect text :=
    stringWritten fits (quotingOk ok)
  have number {v : Text} (ok : (if numericText (trim v) = true then .ok (trim v) else literalText engine (.string v)) = .ok text) :
      Written dialect text := by
    split at ok
    · rename_i numeric
      cases ok
      exact numberWritten numeric
    · exact string ok
  cases cell with
  | null =>
    cases ok
    exact wordWritten (by decide)
  | boolean value =>
    have ok := quotingOk ok
    cases engine <;> cases fits <;> cases value <;> cases ok
    all_goals first
      | exact wordWritten (by decide)
      | exact numberWritten (by decide)
  | number n =>
    simp only [decodeCellForSql] at ok
    split at ok
    · rename_i finite
      cases ok
      exact numberWritten (numericTextOf (spoken finite))
    · cases ok
  | string s => exact string ok
  | tagged tag v of =>
    cases tag with
    | bytes =>
      simp only [decodeCellForSql, bytesLiteral] at ok
      split at ok
      · split at ok
        · exact string ok
        · cases ok
          exact hexWritten _
      · cases ok
    | bigint => exact number ok
    | decimal => exact number ok
    | decimal128 => exact number ok
    | array =>
      simp only [decodeCellForSql] at ok
      split at ok
      · split at ok
        · obtain ⟨items, -, ok⟩ := bindOk ok
          obtain ⟨sql, quoted, ok⟩ := bindOk ok
          obtain ⟨_, -, ok⟩ := bindOk ok
          cases ok
          exact string quoted
        · exact string ok
      · exact string ok
    | unsupported => cases ok
    | _ => exact string ok

theorem literalWritten (fits : dialectForEngine engine = .ok dialect) {reading : ArrayReading} {cell : Cell} (spoken : Spoken cell)
    {text : Text} (ok : literal reading engine cell = .ok text) : Written dialect text := by
  obtain ⟨-, -, ok⟩ := bindOk ok
  exact cellWritten fits spoken ok

end Cells

section Fragments
variable {engine : EngineKind} {dialect : SqlDialect}

def word (w : String) (depth : Nat) : Lexeme := ⟨.word, units w, depth⟩

def mark (c : String) (depth : Nat) : Lexeme := ⟨.punct, units c, depth⟩

def name (text : Text) (depth : Nat) : Lexeme := ⟨.quoted, text, depth⟩

def pathTokens (path : List Text) : List Lexeme := [mark "." 0].intercalate (path.map fun ident => [name ident 0])

def namesTokens (names : List Text) : List Lexeme := [mark "," 1].intercalate (names.map fun ident => [name ident 1])

def tupleTokens (dialect : SqlDialect) (literals : List Text) : List Lexeme :=
  [mark "(" 0] ++ [mark "," 1].intercalate (literals.map (lexemes (rulesOf dialect) 1)) ++ [mark ")" 0]

def insertTokens (dialect : SqlDialect) (path names : List Text) (tuples : List (List Text)) : List Lexeme :=
  [word "INSERT" 0, word "INTO" 0] ++ pathTokens path ++ [mark "(" 0] ++ namesTokens names ++ [mark ")" 0, word "VALUES" 0] ++
    [mark "," 0].intercalate (tuples.map (tupleTokens dialect))

abbrev Term := Text × Option Text

def termText : Term → Text
  | (ident, some value) => ident ++ units " = " ++ value
  | (ident, none) => ident ++ units " IS NULL"

def termTokens (dialect : SqlDialect) : Term → List Lexeme
  | (ident, some value) => [name ident 0] ++ [mark "=" 0] ++ lexemes (rulesOf dialect) 0 value
  | (ident, none) => [name ident 0] ++ [word "IS" 0, word "NULL" 0]

def updateTokens (dialect : SqlDialect) (path : List Text) (sets terms : List Term) : List Lexeme :=
  [word "UPDATE" 0] ++ pathTokens path ++ [word "SET" 0] ++ [mark "," 0].intercalate (sets.map (termTokens dialect)) ++
    [word "WHERE" 0] ++ [word "AND" 0].intercalate (terms.map (termTokens dialect))

def targetNames (target : DmlTarget) : List Text := [target.schema, some target.table].filterMap fun p => p.filter (· ≠ [])

theorem identEnds {text : Text} {column : Text} (ok : quoteIdent column engine = .ok text) :
    text ≠ [] ∧ (∀ c ∈ text.head?, isNumberPart c = false) ∧ ∀ c ∈ text.getLast?, isNumberPart c = false ∧ isSpace c = false := by
  obtain ⟨style, -, rfl⟩ := identShape ok
  have plain : isNumberPart style.mark = false ∧ isSpace style.mark = false := by cases style <;> decide
  refine ⟨by simp, fun c head => ?_, fun c last => ?_⟩
  · cases head
    exact plain.1
  · rw [← List.cons_append, List.getLast?_concat] at last
    cases last
    exact plain

theorem identReads (fits : dialectForEngine engine = .ok dialect) {text column : Text} (ok : quoteIdent column engine = .ok text)
    (depth : Nat) : TokenFragments.Reads (rulesOf dialect) depth text [name text depth] depth := formReads (identFormed fits ok) depth

structure Fragment (dialect : SqlDialect) (depth : Nat) (text : Text) (tokens : List Lexeme) : Prop where
  inert : Inert (rulesOf dialect) text
  reads : TokenFragments.Reads (rulesOf dialect) depth text tokens depth
  full : text ≠ []
  last : ∀ c ∈ text.getLast?, isSpace c = false

theorem joinLast {sep : Text} : ∀ {parts : List Text}, (∀ part ∈ parts, part ≠ [] ∧ ∀ c ∈ part.getLast?, isSpace c = false) →
    ∀ c ∈ (sep.intercalate parts).getLast?, isSpace c = false
  | [], _ => by simp [List.intercalate]
  | [part], each => by simpa [List.intercalate] using (each part (by simp)).2
  | part :: next :: parts, each => by
      intro c last
      have shown : sep.intercalate (next :: parts) ≠ [] := by
        have full := (each next (by simp)).1
        cases parts <;> simp [List.intercalate, full]
      rw [List.intercalate_cons_cons, List.getLast?_append_of_ne_nil _ shown] at last
      exact joinLast (fun other member => each other (List.mem_cons_of_mem _ member)) c last

theorem fragmentsJoin {α : Type} {sep : Text} {between : List Lexeme} {depth : Nat} (text : α → Text) (tokens : α → List Lexeme)
    (shut : (closedWords sep && leads sep && trails sep) = true) (joint : (opening sep && ending sep) = true)
    (reads : readsAs sep depth between depth = true) {parts : List α} (full : parts ≠ [])
    (each : ∀ p ∈ parts, Fragment dialect depth (text p) (tokens p)) :
    Fragment dialect depth (sep.intercalate (parts.map text)) (between.intercalate (parts.map tokens)) := by
  rw [Bool.and_eq_true] at joint
  obtain ⟨shown, reads⟩ := readsJoin text tokens (readsWords reads) (openingFull joint.1) parts full fun p member =>
    ⟨(each p member).full, partedOpening joint.1, partedEnding joint.2, (each p member).reads⟩
  refine ⟨inertJoin shut fun part member => ?_, reads, shown, joinLast fun part member => ?_⟩
  · obtain ⟨p, listed, rfl⟩ := List.mem_map.mp member
    exact (each p listed).inert
  · obtain ⟨p, listed, rfl⟩ := List.mem_map.mp member
    exact ⟨(each p listed).full, (each p listed).last⟩

theorem identFragment (fits : dialectForEngine engine = .ok dialect) {text column : Text} (ok : quoteIdent column engine = .ok text)
    (depth : Nat) : Fragment dialect depth text [name text depth] :=
  ⟨identInert fits ok, identReads fits ok depth, (identEnds ok).1, fun c last => ((identEnds ok).2.2 c last).2⟩

theorem writtenFragment {text : Text} (written : Written dialect text) (depth : Nat) :
    Fragment dialect depth text (lexemes (rulesOf dialect) depth text) :=
  ⟨written.inert, written.reads depth, written.full, written.last⟩

theorem pathFragment (fits : dialectForEngine engine = .ok dialect) {names path : List Text} (full : names ≠ [])
    (ok : names.mapM (quoteIdent · engine) = .ok path) : Fragment dialect 0 (join "." path) (pathTokens path) := by
  have point : TokenFragments.Reads (rulesOf dialect) 0 (units ".") [mark "." 0] 0 := readsWords (by decide)
  have each (part : Text) (member : part ∈ path) : part ≠ [] ∧ Parted part (units ".") ∧ Parted (units ".") part ∧
      TokenFragments.Reads (rulesOf dialect) 0 part [name part 0] 0 := by
    obtain ⟨column, -, quoted⟩ := mapMMember ok part member
    obtain ⟨shown, first, last⟩ := identEnds quoted
    refine ⟨shown, ⟨seamLeads (by decide), fun c ends d _ part => ?_⟩, ⟨seamTrails (by decide), fun c _ d head _ => first d head⟩,
      identReads fits quoted 0⟩
    rw [(last c ends).1] at part
    cases part
  obtain ⟨shown, reads⟩ := readsJoin id (fun ident => [name ident 0]) point (by decide) path (fullMapM full ok) each
  rw [List.map_id] at shown reads
  refine ⟨inertJoin (by decide) (identsInert fits ok), reads, shown, joinLast fun part member => ?_⟩
  obtain ⟨column, -, quoted⟩ := mapMMember ok part member
  exact ⟨(each part member).1, fun c last => ((identEnds quoted).2.2 c last).2⟩

theorem namesFragment (fits : dialectForEngine engine = .ok dialect) {columns names : List Text} (full : columns ≠ [])
    (ok : columns.mapM (quoteIdent · engine) = .ok names) : Fragment dialect 1 (join ", " names) (namesTokens names) := by
  have joined : Fragment dialect 1 ((units ", ").intercalate (names.map id)) (namesTokens names) :=
    fragmentsJoin id _ (by decide) (by decide) (by decide) (fullMapM full ok) fun ident member => by
      obtain ⟨column, -, quoted⟩ := mapMMember ok ident member
      exact identFragment fits quoted 1
  rwa [List.map_id] at joined

end Fragments

section Statements
variable {engine : EngineKind} {dialect : SqlDialect}

theorem tupleFragment {literals : List Text} (full : literals ≠ []) (each : ∀ text ∈ literals, Written dialect text) :
    Fragment dialect 0 (tupleText literals) (tupleTokens dialect literals) := by
  have values : Fragment dialect 1 ((units ", ").intercalate (literals.map id))
      ([mark "," 1].intercalate (literals.map (lexemes (rulesOf dialect) 1))) :=
    fragmentsJoin id _ (by decide) (by decide) (by decide) full fun text member => writtenFragment (each text member) 1
  rw [List.map_id] at values
  have front : TokenFragments.Reads (rulesOf dialect) 0 (units "  (") [mark "(" 0] 1 := readsWords (by decide)
  have back : TokenFragments.Reads (rulesOf dialect) 1 (units ")") [mark ")" 0] 0 := readsWords (by decide)
  refine ⟨inertWords ((readyWords (units "  (") (by decide)).paste values.inert) (units ")") (by decide), ?_, by simp [tupleText, units],
    fun c last => ?_⟩
  · exact readsBefore (readsBehind front (by decide) values.reads values.full) (by simp [units]) back (by decide)
  · rw [tupleText, List.getLast?_append_of_ne_nil _ (by decide)] at last
    cases last
    rfl

theorem termFragment {ident : Text} {value : Option Text} (named : Fragment dialect 0 ident [name ident 0])
    (written : ∀ text ∈ value, Written dialect text) :
    Fragment dialect 0 (termText (ident, value)) (termTokens dialect (ident, value)) := by
  cases value with
  | none =>
    have null : TokenFragments.Reads (rulesOf dialect) 0 (units " IS NULL") [word "IS" 0, word "NULL" 0] 0 := readsWords (by decide)
    refine ⟨inertWords named.inert _ (by decide), readsBefore named.reads named.full null (by decide), by simp [termText, named.full],
      fun c last => ?_⟩
    rw [termText, List.getLast?_append_of_ne_nil _ (by decide)] at last
    cases last
    rfl
  | some text =>
    have value := writtenFragment (written text rfl) 0
    have equals : TokenFragments.Reads (rulesOf dialect) 0 (units " = ") [mark "=" 0] 0 := readsWords (by decide)
    refine ⟨(inertReady named.inert _ (by decide)).paste value.inert, ?_, by simp [termText, named.full], ?_⟩
    · exact readsBehind (readsBefore named.reads named.full equals (by decide)) (endingAppend (by decide)) value.reads value.full
    · rw [termText, List.getLast?_append_of_ne_nil _ value.full]
      exact value.last

theorem insertFragment {path names : List Text} {tuples : List (List Text)} (table : Fragment dialect 0 (join "." path) (pathTokens path))
    (columns : Fragment dialect 1 (join ", " names) (namesTokens names)) (full : tuples ≠ [])
    (each : ∀ tuple ∈ tuples, tuple ≠ [] ∧ ∀ text ∈ tuple, Written dialect text) :
    Fragment dialect 0 (units "INSERT INTO " ++ join "." path ++ units " (" ++ join ", " names ++ units ") VALUES\n" ++
      join ",\n" (tuples.map tupleText)) (insertTokens dialect path names tuples) := by
  have rows : Fragment dialect 0 (join ",\n" (tuples.map tupleText))
      ([mark "," 0].intercalate (tuples.map (tupleTokens dialect))) :=
    fragmentsJoin _ _ (by decide) (by decide) (by decide) full fun tuple member => tupleFragment (each tuple member).1 (each tuple member).2
  have verb : TokenFragments.Reads (rulesOf dialect) 0 (units "INSERT INTO ") [word "INSERT" 0, word "INTO" 0] 0 := readsWords (by decide)
  have opens : TokenFragments.Reads (rulesOf dialect) 0 (units " (") [mark "(" 0] 1 := readsWords (by decide)
  have values : TokenFragments.Reads (rulesOf dialect) 1 (units ") VALUES\n") [mark ")" 0, word "VALUES" 0] 0 := readsWords (by decide)
  have inert := inertReady ((readyWords (units "INSERT INTO ") (by decide)).paste table.inert) (units " (") (by decide)
  have head := readsBehind verb (by decide) table.reads table.full
  have list := readsBefore head (by simp [table.full]) opens (by decide)
  have named := readsBehind list (endingAppend (by decide)) columns.reads columns.full
  have spread := readsBefore named (by simp [columns.full]) values (by decide)
  refine ⟨(inertReady (inert.paste columns.inert) (units ") VALUES\n") (by decide)).paste rows.inert, ?_, by simp [table.full], ?_⟩
  · exact readsBehind spread (endingAppend (by decide)) rows.reads rows.full
  · rw [List.getLast?_append_of_ne_nil _ rows.full]
    exact rows.last

theorem updateFragment {path : List Text} {sets terms : List Term} (table : Fragment dialect 0 (join "." path) (pathTokens path))
    (some : sets ≠ []) (full : terms ≠ []) (each : ∀ term ∈ sets ++ terms, Fragment dialect 0 (termText term) (termTokens dialect term)) :
    Fragment dialect 0 (units "UPDATE " ++ join "." path ++ units "\nSET " ++ join ",\n    " (sets.map termText) ++ units "\nWHERE " ++
      join " AND " (terms.map termText)) (updateTokens dialect path sets terms) := by
  have changes : Fragment dialect 0 (join ",\n    " (sets.map termText))
      ([mark "," 0].intercalate (sets.map (termTokens dialect))) :=
    fragmentsJoin _ _ (by decide) (by decide) (by decide) some fun term member => each term (List.mem_append_left _ member)
  have keys : Fragment dialect 0 (join " AND " (terms.map termText))
      ([word "AND" 0].intercalate (terms.map (termTokens dialect))) :=
    fragmentsJoin _ _ (by decide) (by decide) (by decide) full fun term member => each term (List.mem_append_right _ member)
  have verb : TokenFragments.Reads (rulesOf dialect) 0 (units "UPDATE ") [word "UPDATE" 0] 0 := readsWords (by decide)
  have set : TokenFragments.Reads (rulesOf dialect) 0 (units "\nSET ") [word "SET" 0] 0 := readsWords (by decide)
  have wheres : TokenFragments.Reads (rulesOf dialect) 0 (units "\nWHERE ") [word "WHERE" 0] 0 := readsWords (by decide)
  have inert := inertReady ((readyWords (units "UPDATE ") (by decide)).paste table.inert) (units "\nSET ") (by decide)
  have head := readsBehind verb (by decide) table.reads table.full
  have assigns := readsBehind (readsBefore head (by simp [table.full]) set (by decide)) (endingAppend (by decide))
    changes.reads changes.full
  have bounded := readsBefore assigns (by simp [changes.full]) wheres (by decide)
  refine ⟨(inertReady (inert.paste changes.inert) (units "\nWHERE ") (by decide)).paste keys.inert, ?_, by simp [table.full], ?_⟩
  · exact readsBehind bounded (endingAppend (by decide)) keys.reads keys.full
  · rw [List.getLast?_append_of_ne_nil _ keys.full]
    exact keys.last

end Statements

section Copies
variable {reading : ArrayReading} {engine : EngineKind} {dialect : SqlDialect}

structure Single (dialect : SqlDialect) (text : Text) (tokens : List Lexeme) : Prop where
  read : ∃ statement, (splitStatements text dialect).map SqlStatement.text = [statement] ∧
    lexemes (rulesOf dialect) 0 statement = tokens
  kept : (isDestructive text dialect).destructive = false

theorem statementAlone {stmt : Text} (head : begins stmt = true) (inert : Inert (rulesOf dialect) stmt)
    (last : ∀ c ∈ stmt.getLast?, isSpace c = false) :
    (splitStatements (stmt ++ units ";") dialect).map SqlStatement.text = [stmt] := by
  obtain ⟨outs, path, texts⟩ := @statementPath (rulesOf dialect) 0 [] [] stmt (Nat.le_refl _) head inert (by simp [Seam])
  have whole := runPath (splitProgress (rulesOf dialect)) flush path
  have chunk : chunkOf (fresh .semicolon 0) [] ++ stmt = stmt := by simp [chunkOf, fresh]
  have first : ∀ c ∈ stmt.head?, isSpace c = false := by
    intro c there
    cases stmt with
    | nil => cases there
    | cons d stmt =>
      cases there
      exact beginsInk head
  rw [chunk, trimKept first last] at texts
  have alone : (pieces (rulesOf dialect) .semicolon (stmt ++ units ";")).map Piece.text = [stmt] := by
    have ends : stmt ++ units ";" = stmt ++ [59] := rfl
    rw [pieces, ends, whole, runAtEnd, List.map_append, texts]
    simp [flush, fresh]
  rw [← alone]
  simp [splitStatements]

theorem lexemeWord {sql : Text} {rules : DialectRules} {t : SqlToken} {w : String} {depth : Nat} (member : t ∈ tokenize sql rules)
    (same : lexeme t = word w depth) (upper : toUpperCase (units w) = units w) : isWord t w = true ∧ t.depth = depth := by
  simp only [lexeme, word, Lexeme.mk.injEq] at same
  obtain ⟨kind, text, rfl⟩ := same
  have shown := tokenUpper member
  rw [if_pos kind, text, upper] at shown
  simp [isWord, kind, shown]

theorem singleOf {stmt : Text} {verb : String} {tokens : List Lexeme} (head : begins stmt = true) (fragment : Fragment dialect 0 stmt (word verb 0 :: tokens))
    (upper : toUpperCase (units verb) = units verb)
    (guarded : verb = "INSERT" ∨ verb = "UPDATE" ∧ word "WHERE" 0 ∈ tokens) :
    Single dialect (stmt ++ units ";") (word verb 0 :: tokens) := by
  have alone := statementAlone head fragment.inert fragment.last
  have read := readsWhole fragment.reads
  refine ⟨⟨stmt, alone, read⟩, ?_⟩
  rw [Bool.eq_false_iff, ne_eq, FormatGuard.destructiveIff]
  rintro ⟨t, listed, loses⟩
  rw [statementTexts, alone] at listed
  obtain rfl : t = stmt := by simpa using listed
  have shown : (tokenize t (rulesOf dialect)).map lexeme = word verb 0 :: tokens := read
  cases split : tokenize t (rulesOf dialect) with
  | nil =>
    rw [split] at shown
    cases shown
  | cons first rest =>
    have inside (u : SqlToken) (member : u ∈ first :: rest) : u ∈ tokenize t (rulesOf dialect) := split ▸ member
    rw [split, List.map_cons, List.cons.injEq] at shown
    have here := (lexemeWord (inside first (by simp)) shown.1 upper).1
    rw [split] at loses
    rcases guarded with rfl | ⟨rfl, bounded⟩
    · obtain ⟨other, lossy, same⟩ := FormatGuard.losingVerb loses
      have apart : units "INSERT" ≠ units other := by
        simp only [List.mem_cons, List.not_mem_nil, or_false] at lossy
        rcases lossy with rfl | rfl | rfl | rfl | rfl <;> decide
      rw [wordsApart here apart] at same
      cases same
    · have apart (other : String) (differs : units "UPDATE" ≠ units other) : isWord first other = false := wordsApart here differs
      rcases loses with drop | truncate | ⟨alter, -⟩ | ⟨-, unbounded⟩
      · simp [apart "DROP" (by decide)] at drop
      · simp [apart "TRUNCATE" (by decide)] at truncate
      · simp [apart "ALTER" (by decide)] at alter
      · rw [← shown.2] at bounded
        obtain ⟨u, member, same⟩ := List.mem_map.mp bounded
        have top := lexemeWord (inside u (List.mem_cons_of_mem _ member)) same (by decide)
        have none := unbounded u member
        simp [isTopLevel, top.1, top.2] at none


variable (reading engine dialect) (columns : List Text) (row : Row)

def TupleOf (row : Row) (literals : List Text) : Prop :=
  row.mapM (literal reading engine) = .ok literals ∧ literals.length = columns.length ∧
    ∀ text ∈ literals, OneLiteral text 1 (lexemes (rulesOf dialect) 1 text)

def SetOf (column : Text) (term : Term) : Prop :=
  quoteIdent column engine = .ok term.1 ∧ ∃ cell value, valueOf columns row column = .ok cell ∧
    literal reading engine cell = .ok value ∧ term.2 = some value ∧ OneLiteral value 0 (lexemes (rulesOf dialect) 0 value)

def KeyOf (column : Text) (term : Term) : Prop :=
  quoteIdent column engine = .ok term.1 ∧ ∃ cell, valueOf columns row column = .ok cell ∧ (term.2 = none ↔ cell = .null) ∧
    ∀ value ∈ term.2, literal reading engine cell = .ok value ∧ OneLiteral value 0 (lexemes (rulesOf dialect) 0 value)

def InsertsRows (target : DmlTarget) (rows : List Row) (text : Text) : Prop :=
  ∃ path names tuples, (targetNames target).mapM (quoteIdent · engine) = .ok path ∧ columns.mapM (quoteIdent · engine) = .ok names ∧
    List.Forall₂ (TupleOf reading engine dialect columns) rows tuples ∧ Single dialect text (insertTokens dialect path names tuples)

def UpdatesRow (target : DmlTarget) (keyColumns : List Text) (text : Text) : Prop :=
  ∃ path sets terms, (targetNames target).mapM (quoteIdent · engine) = .ok path ∧
    List.Forall₂ (SetOf reading engine dialect columns row) (columns.filter fun c => !keyColumns.contains c) sets ∧
    List.Forall₂ (KeyOf reading engine dialect columns row) keyColumns terms ∧
    Single dialect text (updateTokens dialect path sets terms)

variable {reading engine dialect columns}

theorem mapMRelated {α β γ ε : Type} {f : α → Except ε β} {g : γ → β} {R : α → γ → Prop} {P : γ → Prop}
    (each : ∀ x y, f x = .ok y → ∃ z, R x z ∧ y = g z ∧ P z) {xs : List α} {ys : List β} (ok : xs.mapM f = .ok ys) :
    ∃ zs, List.Forall₂ R xs zs ∧ ys = zs.map g ∧ ∀ z ∈ zs, P z := by
  induction Templates.mapMForall₂.mp ok with
  | nil => exact ⟨[], .nil, rfl, by simp⟩
  | cons first rest ih =>
    obtain ⟨z, here, rfl, holds⟩ := each _ _ first
    obtain ⟨zs, there, rfl, all⟩ := ih (Templates.mapMForall₂.mpr rest)
    exact ⟨z :: zs, .cons here there, rfl, List.forall_mem_cons.mpr ⟨holds, all⟩⟩

theorem mapMQuoting {columns names : List Text} (ok : (columns.mapM fun c => quoting (quoteIdent c engine)) = .ok names) :
    columns.mapM (quoteIdent · engine) = .ok names :=
  Templates.mapMForall₂.mpr ((Templates.mapMForall₂.mp ok).imp fun _ _ quoted => quotingOk quoted)

theorem targetFragment (fits : dialectForEngine engine = .ok dialect) {target : DmlTarget} {table : Text}
    (ok : qualify target engine = .ok table) : ∃ path, (targetNames target).mapM (quoteIdent · engine) = .ok path ∧
      table = join "." path ∧ Fragment dialect 0 (join "." path) (pathTokens path) := by
  have quoted := quotingOk ok
  simp only [quoteQualified] at quoted
  split at quoted
  · cases quoted
  · rename_i full
    obtain ⟨path, read, quoted⟩ := bindOk quoted
    cases quoted
    exact ⟨path, read, rfl, pathFragment fits full read⟩

theorem literalsWritten (fits : dialectForEngine engine = .ok dialect) {row : DumpRow} {literals : List Text}
    (ok : (cells row).mapM (literal reading engine) = .ok literals) : ∀ text ∈ literals, Written dialect text := by
  intro text member
  obtain ⟨cell, listed, ok⟩ := mapMMember ok text member
  obtain ⟨⟨cell, spoken⟩, -, rfl⟩ := List.mem_map.mp listed
  exact literalWritten fits spoken ok

theorem widthOk {row : Row} {index : Nat} {u : Unit} (ok : checkWidth columns row index = .ok u) : row.length = columns.length := by
  unfold checkWidth at ok
  split at ok
  · cases ok
  · rename_i same
    exact not_ne_iff.mp same

theorem tuplesRead (fits : dialectForEngine engine = .ok dialect) (some : columns ≠ []) {rows : List DumpRow} {texts : List Text} :
    ∀ {index : Nat}, rowTuples reading engine columns index (rows.map cells) = .ok texts →
    ∃ tuples, List.Forall₂ (TupleOf reading engine dialect columns) (rows.map cells) tuples ∧ texts = tuples.map tupleText ∧
      ∀ tuple ∈ tuples, tuple ≠ [] ∧ ∀ text ∈ tuple, Written dialect text := by
  induction rows generalizing texts with
  | nil =>
    intro index ok
    cases ok
    exact ⟨[], .nil, rfl, by simp⟩
  | cons row rows ih =>
    intro index ok
    obtain ⟨_, width, ok⟩ := bindOk ok
    obtain ⟨literals, read, ok⟩ := bindOk ok
    obtain ⟨more, rest, ok⟩ := bindOk ok
    cases ok
    obtain ⟨tuples, related, rfl, each⟩ := ih rest
    have written := literalsWritten fits read
    have length : literals.length = columns.length := (mapMLength read).trans (widthOk width)
    refine ⟨literals :: tuples, .cons ⟨read, length, fun text member => (written text member).one 1⟩ related, rfl, ?_⟩
    refine List.forall_mem_cons.mpr ⟨⟨?_, written⟩, each⟩
    rintro rfl
    exact some (List.length_eq_zero_iff.mp length.symm)

theorem valueSpoken {row : DumpRow} {column : Text} {cell : Cell} (ok : valueOf columns (cells row) column = .ok cell) :
    Spoken cell := by
  unfold valueOf at ok
  split at ok
  · cases ok
  · rename_i index _
    cases ok
    rw [List.getD_eq_getElem?_getD]
    cases found : (cells row)[index]? with
    | none => trivial
    | some cell =>
      obtain ⟨⟨cell, spoken⟩, -, rfl⟩ := List.mem_map.mp (List.mem_of_getElem? found)
      exact spoken

theorem setRead (fits : dialectForEngine engine = .ok dialect) {row : DumpRow} {column text : Text}
    (ok : setText reading engine columns (cells row) column = .ok text) :
    ∃ term, SetOf reading engine dialect columns (cells row) column term ∧ text = termText term ∧
      Fragment dialect 0 (termText term) (termTokens dialect term) := by
  obtain ⟨ident, quoted, ok⟩ := bindOk ok
  obtain ⟨cell, found, ok⟩ := bindOk ok
  obtain ⟨value, shown, ok⟩ := bindOk ok
  cases ok
  have written := literalWritten fits (valueSpoken found) shown
  have named := quotingOk quoted
  exact ⟨(ident, some value), ⟨named, cell, value, found, shown, rfl, written.one 0⟩, rfl,
    termFragment (identFragment fits named 0) (by simpa using written)⟩

theorem keyRead (fits : dialectForEngine engine = .ok dialect) {row : DumpRow} {column text : Text}
    (ok : keyText reading engine columns (cells row) column = .ok text) :
    ∃ term, KeyOf reading engine dialect columns (cells row) column term ∧ text = termText term ∧
      Fragment dialect 0 (termText term) (termTokens dialect term) := by
  obtain ⟨cell, found, ok⟩ := bindOk ok
  obtain ⟨ident, quoted, ok⟩ := bindOk ok
  have named := quotingOk quoted
  split at ok
  · rename_i null
    cases ok
    exact ⟨(ident, none), ⟨named, cell, found, by simp [null], by simp⟩, rfl, termFragment (identFragment fits named 0) (by simp)⟩
  · rename_i present
    obtain ⟨value, shown, ok⟩ := bindOk ok
    cases ok
    have written := literalWritten fits (valueSpoken found) shown
    exact ⟨(ident, some value), ⟨named, cell, found, by simp [present], by simpa using ⟨shown, written.one 0⟩⟩, rfl,
      termFragment (identFragment fits named 0) (by simpa using written)⟩

theorem insertRead (fits : dialectForEngine engine = .ok dialect) {target : DmlTarget} {rows : List DumpRow} {text : Text}
    (ok : renderInsertRows reading target columns (rows.map cells) engine = .ok text) :
    InsertsRows reading engine dialect columns target (rows.map cells) text := by
  simp only [renderInsertRows] at ok
  split at ok
  · cases ok
  split at ok
  · cases ok
  rename_i rowed full
  obtain ⟨names, quoted, ok⟩ := bindOk ok
  obtain ⟨texts, read, ok⟩ := bindOk ok
  obtain ⟨table, qualified, ok⟩ := bindOk ok
  cases ok
  have named := mapMQuoting quoted
  obtain ⟨path, target, rfl, path'⟩ := targetFragment fits qualified
  obtain ⟨tuples, related, rfl, each⟩ := tuplesRead fits full read
  have some : tuples ≠ [] := by
    rintro rfl
    exact rowed (List.forall₂_nil_right_iff.mp related)
  exact ⟨path, names, tuples, target, named, related,
    singleOf (by rfl) (insertFragment path' (namesFragment fits full named) some each) (by decide) (.inl rfl)⟩

theorem updateRead (fits : dialectForEngine engine = .ok dialect) {target : DmlTarget} {row : DumpRow} {keyColumns : List Text}
    {text : Text} (ok : renderUpdateRow reading target columns (cells row) keyColumns engine = .ok text) :
    UpdatesRow reading engine dialect columns (cells row) target keyColumns text := by
  simp only [renderUpdateRow] at ok
  split at ok
  · cases ok
  rename_i keyed
  obtain ⟨_, -, ok⟩ := bindOk ok
  obtain ⟨sets, assigned, ok⟩ := bindOk ok
  split at ok
  · cases ok
  rename_i full
  obtain ⟨terms, matched, ok⟩ := bindOk ok
  obtain ⟨table, qualified, ok⟩ := bindOk ok
  cases ok
  obtain ⟨path, target, rfl, path'⟩ := targetFragment fits qualified
  obtain ⟨sets, setsOf, rfl, setEach⟩ := mapMRelated (fun _ _ ok => setRead fits ok) assigned
  obtain ⟨terms, keysOf, rfl, termEach⟩ := mapMRelated (fun _ _ ok => keyRead fits ok) matched
  have some : terms ≠ [] := by
    rintro rfl
    exact keyed (List.forall₂_nil_right_iff.mp keysOf)
  have fragment := updateFragment path' (by simpa using full) some fun term member =>
    (List.mem_append.mp member).elim (setEach term) (termEach term)
  refine ⟨path, sets, terms, target, setsOf, keysOf, singleOf (by rfl) fragment (by decide) (.inr ⟨rfl, ?_⟩)⟩
  simp [word]

end Copies

theorem copiesStaySingle (reading : ArrayReading) (engine : EngineKind) (dialect : SqlDialect)
    (fits : dialectForEngine engine = .ok dialect) (target : DmlTarget) (columns : List Text) :
    (∀ (rows : List DumpRow) (text : Text), renderInsertRows reading target columns (rows.map cells) engine = .ok text →
      InsertsRows reading engine dialect columns target (rows.map cells) text) ∧
    ∀ (row : DumpRow) (keyColumns : List Text) (text : Text),
      renderUpdateRow reading target columns (cells row) keyColumns engine = .ok text →
      UpdatesRow reading engine dialect columns (cells row) target keyColumns text :=
  ⟨fun _ _ ok => insertRead fits ok, fun _ _ _ ok => updateRead fits ok⟩

def listReading : ArrayReading where
  parse v := if v = units "[1,\"a;b\"]" then some (.array [.number (units "1"), .string (units "a;b")]) else none
  binds _ := .ok ()

def notesTarget : DmlTarget := ⟨some (units "app"), units "notes"⟩

def notesRow : DumpRow :=
  [⟨.number ⟨units "-2", true⟩, fun _ => by decide⟩, ⟨.null, trivial⟩, ⟨.tagged .decimal (units " 1.50e+3 ") none, trivial⟩,
    ⟨.tagged .bytes (units "3q2+7w==") none, trivial⟩, ⟨.tagged .array (units "[1,\"a;b\"]") none, trivial⟩,
    ⟨.string (units "it's; -- \\"), trivial⟩]

def notesColumns : List Text := ["id", "of", "price", "data", "tags", "no\"te"].map units

theorem notesCopied : ∃ insert update,
    renderInsertRows listReading notesTarget notesColumns ([notesRow, notesRow].map cells) .postgres = .ok insert ∧
    renderUpdateRow listReading notesTarget notesColumns (cells notesRow) [units "id", units "of"] .postgres = .ok update ∧
    InsertsRows listReading .postgres .postgres notesColumns notesTarget ([notesRow, notesRow].map cells) insert ∧
    UpdatesRow listReading .postgres .postgres notesColumns (cells notesRow) notesTarget [units "id", units "of"] update := by
  have rows : ∃ text, renderInsertRows listReading notesTarget notesColumns ([notesRow, notesRow].map cells) .postgres = .ok text :=
    ⟨_, rfl⟩
  have row : ∃ text, renderUpdateRow listReading notesTarget notesColumns (cells notesRow) [units "id", units "of"] .postgres =
      .ok text := ⟨_, rfl⟩
  obtain ⟨insert, inserted⟩ := rows
  obtain ⟨update, updated⟩ := row
  have copies := copiesStaySingle listReading .postgres .postgres rfl notesTarget notesColumns
  exact ⟨insert, update, inserted, updated, copies.1 _ _ inserted, copies.2 _ _ _ updated⟩

end DatabaseAdmin.CopiedRows
