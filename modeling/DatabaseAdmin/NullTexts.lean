import DatabaseAdmin.CsvSniffing
import DatabaseAdmin.DelimitedText
import DatabaseAdmin.TextWriters
import Mathlib.Algebra.GroupWithZero.Nat

/-! NULL and the empty string through an exported file and back. -/
namespace DatabaseAdmin.NullTexts
open CodeUnits SchemaModels WireCells CellCoercion TextWriters CsvSniffing

structure TextTable where
  names : List Text
  rows : List (List (Option Text))
  columns : names ≠ []
  distinct : names.Nodup
  wide : ∀ row ∈ rows, row.length = names.length

def textCell : Option Text → Cell
  | none => .null
  | some text => .string text

def textual : BaseType → Bool
  | .boolean | .integer | .bigint | .decimal | .money | .float | .date | .time | .timestamp | .json | .uuid
  | .binary => false
  | _ => true

structure TextMapping (names : List Text) where
  entries : List ColumnMapping
  reads : entries.map (fun m => (m.sourceIndex, m.sourceName)) = names.zipIdx.map Prod.swap
  target : ∀ m ∈ entries, ∃ column, m.targetColumn = some column ∧ column ≠ []
  text : ∀ m ∈ entries, textual (m.targetType.getD .string) = true
  literal : ∀ m ∈ entries, m.nullLiteral = none
  untrimmed : ∀ m ∈ entries, m.trim.getD false = false

def defaultMapping (headers : List Text) (types : List BaseType) : List ColumnMapping :=
  headers.zipIdx.map fun (name, i) => ⟨i, name, some name, some (types[i]?.getD .string), none, none, some false⟩

section Mappings
variable (names : List Text) (named : ∀ name ∈ names, name ≠ [])

def textColumns (types : List BaseType) (text : ∀ type ∈ types, textual type = true) : TextMapping names where
  entries := defaultMapping names types
  reads := by simp [defaultMapping, Function.comp_def]
  target m member := by
    obtain ⟨pair, inside, rfl⟩ := List.mem_map.mp member
    exact ⟨pair.1, rfl, named pair.1 (List.fst_mem_of_mem_zipIdx inside)⟩
  text m member := by
    obtain ⟨pair, inside, rfl⟩ := List.mem_map.mp member
    cases type : types[pair.2]? with
    | none => simp [type, textual]
    | some t => simpa [type] using text t (List.mem_of_getElem? type)
  literal m member := by
    obtain ⟨pair, inside, rfl⟩ := List.mem_map.mp member
    rfl
  untrimmed m member := by
    obtain ⟨pair, inside, rfl⟩ := List.mem_map.mp member
    rfl

end Mappings

section Delimited

def TextFormat.delimited : TextFormat → Bool
  | .csv | .tsv => true
  | .json | .ndjson => false

def delimiterOf : TextFormat → CodeUnit
  | .tsv => 9
  | _ => 44

structure Fits (dialect : CsvDialect) (delimiter : CodeUnit) (names : List Text) : Prop where
  delimiter : dialect.delimiter = [delimiter]
  quote : dialect.quote = [34]
  escape : dialect.escape = [34]
  comment : dialect.comment = none
  encoding : dialect.encoding = .utf8
  bytes : dialect.bomBytes = 0
  header : dialect.hasHeader = true
  line : ∀ name ∈ names, ∀ c ∈ name, c ≠ 10 ∧ c ≠ 13

structure CsvCodec where
  stringify : CodeUnit → List (List (Option Text)) → Text
  parse : CsvDialect → Text → Option (List (List Text))
  parseStringify : ∀ dialect format names rows, dialect.trim = false → Fits dialect (delimiterOf format) names →
    names ≠ [] → (∀ row ∈ rows, row ≠ []) →
    parse dialect (stringify (delimiterOf format) (names.map some :: rows)) =
      some (names :: (rows.filter (· ≠ [none])).map fun row => row.map (·.getD []))

def castString (policy : ValuePolicy) : Option Text → Option Text
  | some [] => if policy.quoteEmptyStrings then some [] else none
  | field => field

def delimitedText (codec : CsvCodec) (format : TextFormat) (policy : ValuePolicy) (table : TextTable) : Text :=
  codec.stringify (delimiterOf format) (table.names.map (fun name => castString policy (some name)) ::
    table.rows.map fun row => row.map fun cell => castString policy (renderText (textCell cell) policy))

end Delimited

section Importing

inductive ReadError where
  | noMapping
  | malformed
  | row (error : CsvRowError)

variable (reading : Reading)

def rowRead (read : Except CsvRowError Row) : Except ReadError Row := read.mapError .row

def active (mapping : List ColumnMapping) : List ColumnMapping := mapping.filter fun m => m.targetColumn.any (· ≠ [])

def readCsvRows (codec : CsvCodec) (file : Text) (dialect : CsvDialect) (mapping : List ColumnMapping) :
    Except ReadError (List Row) :=
  match codec.parse dialect file with
  | none => .error .malformed
  | some records =>
    let lines := if dialect.hasHeader then 1 else 0
    ((records.drop lines).zipIdx (lines + 1)).mapM fun (record, line) =>
      rowRead (coerceRecord reading record mapping dialect line)

def jsonProperty (record : List (Text × JsonField)) (name : Text) : JsonField :=
  ((record.filter (·.1 = name)).getLast?.map (·.2)).getD .absent

def readJsonRows (records : List (List (Text × JsonField))) (dialect : CsvDialect) (mapping : List ColumnMapping) :
    Except ReadError (List Row) :=
  (records.zipIdx 1).mapM fun (record, line) =>
    rowRead (mapping.mapM fun m => jsonCell reading (jsonProperty record m.sourceName) m dialect line)

def jsonObject (codec : JsonCodec) (policy : ValuePolicy) (names : List Text) (row : List (Option Text)) :
    Option (List (Text × JsonField)) :=
  (names.zip row).mapM fun (name, cell) =>
    (codec.parse (renderJsonValue codec (textCell cell) policy)).map (name, ·)

def importedRows (csv : CsvCodec) (json : JsonCodec) (format : TextFormat) (dialect : CsvDialect)
    (mapping : List ColumnMapping) (table : TextTable) : Except ReadError (List Row) :=
  let policy := defaultPolicyFor format.format
  if active mapping = [] then .error .noMapping
  else if TextFormat.delimited format then
    readCsvRows reading csv (delimitedText csv format policy table) dialect (active mapping)
  else
    match table.rows.mapM (jsonObject json policy table.names) with
    | none => .error .malformed
    | some records => readJsonRows reading records dialect (active mapping)

def OwnDialect (dialect : CsvDialect) : Prop :=
  dialect = defaultDialect ∨ ∃ enc sample, dialect = sniff reading enc sample

end Importing

def CellKept (format : TextFormat) (nullLiteral : Text) : Option Text → Prop
  | none => TextFormat.delimited format = true → nullLiteral = []
  | some text => text ≠ nullLiteral

def RowKept (format : TextFormat) (nullLiteral : Text) (row : List (Option Text)) : Prop :=
  (TextFormat.delimited format = true → row ≠ [none]) ∧ ∀ cell ∈ row, CellKept format nullLiteral cell

section Reads

def readCell (format : TextFormat) (nullLiteral : Text) : Option Text → Cell
  | none => if TextFormat.delimited format = true ∧ nullLiteral ≠ [] then .string [] else .null
  | some text => if text = nullLiteral then .null else .string text

theorem cellKeptIff (format : TextFormat) (nullLiteral : Text) (cell : Option Text) :
    readCell format nullLiteral cell = textCell cell ↔ CellKept format nullLiteral cell := by
  cases cell with
  | none =>
    simp only [readCell, textCell, CellKept]
    split <;> simp_all
  | some text =>
    simp only [readCell, textCell, CellKept]
    split <;> simp_all

theorem mapMEach {m : Type → Type} [Monad m] [LawfulMonad m] {α β : Type} {f : α → m β} {g : α → β} {xs : List α}
    (each : ∀ x ∈ xs, f x = pure (g x)) : xs.mapM f = pure (xs.map g) := by
  induction xs with
  | nil => rfl
  | cons x xs ih =>
    rw [List.mapM_cons, each x List.mem_cons_self, ih fun x member => each x (List.mem_cons_of_mem _ member)]
    simp

variable (reading : Reading)

theorem coerceText {m : ColumnMapping} {dialect : CsvDialect} (raw : Text) (line : Nat)
    (text : textual (m.targetType.getD .string) = true) (literal : m.nullLiteral = none)
    (untrimmed : m.trim.getD dialect.trim = false) :
    coerceValue reading raw m dialect line =
      .ok (if raw = dialect.nullLiteral then .null else .string raw) := by
  simp only [coerceValue, untrimmed, literal, Option.getD_none, Bool.false_eq_true, if_false]
  by_cases null : raw = dialect.nullLiteral
  · simp only [null, if_true]
  · have apart : ¬(raw = [] ∧ dialect.nullLiteral = []) := fun both => null (both.1.trans both.2.symm)
    simp only [null, if_false, apart]
    revert text
    cases m.targetType.getD .string <;> simp [textual]

section Entries
variable {names : List Text} (mapping : TextMapping names)

theorem entryNamed {m : ColumnMapping} (member : m ∈ mapping.entries) : names[m.sourceIndex]? = some m.sourceName := by
  have here : (m.sourceIndex, m.sourceName) ∈ names.zipIdx.map Prod.swap := by
    rw [← mapping.reads]
    exact List.mem_map_of_mem member
  obtain ⟨⟨name, i⟩, pair, same⟩ := List.mem_map.mp here
  cases same
  exact List.mem_zipIdx_iff_getElem?.mp pair

theorem entriesActive : active mapping.entries = mapping.entries := by
  refine List.filter_eq_self.mpr fun m member => ?_
  obtain ⟨column, target, some'⟩ := mapping.target m member
  simp [target, some']

theorem entriesRow {row : List (Option Text)} (width : row.length = names.length) (f : Option Text → Cell) :
    mapping.entries.map (fun m => f (row[m.sourceIndex]?.getD none)) = row.map f := by
  have indices : mapping.entries.map (·.sourceIndex) = List.range names.length := by
    have firsts := congrArg (List.map Prod.fst) mapping.reads
    simpa [List.map_map, Function.comp_def, List.range_eq_range'] using firsts
  calc mapping.entries.map (fun m => f (row[m.sourceIndex]?.getD none))
      = (mapping.entries.map (·.sourceIndex)).map fun i => f (row[i]?.getD none) := by rw [List.map_map]; rfl
    _ = (List.range row.length).map fun i => f (row[i]?.getD none) := by rw [indices, width]
    _ = row.map f := by
      apply List.ext_getElem (by simp)
      intro i before inside
      have short : i < row.length := by simpa using before
      simp [short]

end Entries

theorem recordCoerced {names : List Text} (mapping : TextMapping names) {dialect : CsvDialect} (untrimmed : dialect.trim = false)
    {format : TextFormat} (delimited : TextFormat.delimited format = true) {row : List (Option Text)}
    (width : row.length = names.length) (line : Nat) :
    coerceRecord reading (row.map (·.getD [])) mapping.entries dialect line =
      .ok (row.map (readCell format dialect.nullLiteral)) := by
  rw [← entriesRow mapping width]
  refine mapMEach fun m member => ?_
  have inside := List.getElem?_eq_some_iff.mp (entryNamed mapping member)
  have short : m.sourceIndex < row.length := width ▸ inside.1
  have plain : m.trim.getD dialect.trim = false := untrimmed ▸ mapping.untrimmed m member
  simp only [List.getElem?_map, List.getElem?_eq_getElem short, Option.map_some, Option.getD_some]
  rw [coerceText reading _ line (mapping.text m member) (mapping.literal m member) plain]
  cases row[m.sourceIndex] with
  | none =>
    by_cases empty : dialect.nullLiteral = []
    · simp [readCell, empty]
      rfl
    · simp [readCell, empty, delimited, Ne.symm empty]
      rfl
  | some text => rfl

theorem propertyRead {names : List Text} {fields : List JsonField} (distinct : names.Nodup) {name : Text}
    {field : JsonField} (member : (name, field) ∈ names.zip fields) : jsonProperty (names.zip fields) name = field := by
  have alone : (names.zip fields).filter (·.1 = name) = [(name, field)] := by
    induction names generalizing fields with
    | nil => simp at member
    | cons n names ih =>
      cases fields with
      | nil => simp at member
      | cons f fields =>
        rw [List.nodup_cons] at distinct
        rw [List.zip_cons_cons, List.mem_cons] at member
        rcases member with same | later
        · cases same
          have absent : (names.zip fields).filter (·.1 = name) = [] := by
            refine List.filter_eq_nil_iff.mpr fun pair inside => ?_
            have further := (List.of_mem_zip (show (pair.1, pair.2) ∈ _ from inside)).1
            simp only [decide_eq_true_eq]
            exact fun same : pair.1 = name => distinct.1 (same ▸ further)
          simp [absent]
        · have other : n ≠ name := fun same => distinct.1 (same ▸ (List.of_mem_zip later).1)
          simpa [other] using ih distinct.2 later
  simp [jsonProperty, alone]

def jsonField : Option Text → JsonField
  | none => .null
  | some text => .string text

theorem objectRead (codec : JsonCodec) (format : TextFormat) (delimited : TextFormat.delimited format = false)
    (names : List Text) (row : List (Option Text)) :
    jsonObject codec (defaultPolicyFor format.format) names row = some (names.zip (row.map jsonField)) := by
  have each : ∀ pair ∈ names.zip row, (codec.parse (renderJsonValue codec (textCell pair.2) (defaultPolicyFor format.format))).map
      (pair.1, ·) = some (pair.1, jsonField pair.2) := by
    rintro ⟨name, cell⟩ -
    cases cell with
    | none =>
      have plain : (defaultPolicyFor format.format).nullText = none := by cases format <;> rfl
      simp [textCell, renderJsonValue, plain, codec.parseNull, jsonField]
    | some text => simp [textCell, renderJsonValue, codec.parseString, jsonField]
  refine (mapMEach each).trans ?_
  simp [List.zip_map_right]

theorem jsonCoerced {names : List Text} (distinct : names.Nodup) (mapping : TextMapping names) {dialect : CsvDialect}
    (untrimmed : dialect.trim = false) {format : TextFormat} (delimited : TextFormat.delimited format = false)
    {row : List (Option Text)} (width : row.length = names.length) (line : Nat) :
    mapping.entries.mapM (fun m => jsonCell reading (jsonProperty (names.zip (row.map jsonField)) m.sourceName) m dialect line) =
      .ok (row.map (readCell format dialect.nullLiteral)) := by
  rw [← entriesRow mapping width]
  refine mapMEach fun m member => ?_
  obtain ⟨inside, named⟩ := List.getElem?_eq_some_iff.mp (entryNamed mapping member)
  have short : m.sourceIndex < row.length := width ▸ inside
  have plain : m.trim.getD dialect.trim = false := untrimmed ▸ mapping.untrimmed m member
  have field : (m.sourceName, jsonField row[m.sourceIndex]) ∈ names.zip (row.map jsonField) := by
    refine List.mem_iff_getElem.mpr ⟨m.sourceIndex, by simpa using ⟨inside, short⟩, ?_⟩
    simp [named]
  rw [propertyRead distinct field, List.getElem?_eq_getElem short, Option.getD_some]
  cases row[m.sourceIndex] with
  | none =>
    simp only [jsonField, jsonCell, readCell, delimited, Bool.false_eq_true, false_and, if_false]
    rfl
  | some text =>
    simp only [jsonField, jsonCell, readCell]
    rw [coerceText reading _ line (mapping.text m member) (mapping.literal m member) plain]
    rfl

end Reads

section Survival
variable (reading : Reading)

theorem rowsRead {α : Type} {f : α → Nat → Except CsvRowError Row} {g : α → Row} (rows : List α) (line : Nat)
    (each : ∀ row ∈ rows, ∀ line, f row line = .ok (g row)) :
    (rows.zipIdx line).mapM (fun pair => rowRead (f pair.1 pair.2)) = .ok (rows.map g) := by
  refine (mapMEach (g := fun pair => g pair.1) fun pair member => ?_).trans ?_
  · have inside := List.fst_mem_of_mem_zipIdx member
    show rowRead (f pair.1 pair.2) = _
    rw [each pair.1 inside]
    rfl
  · rw [← Function.comp_def g Prod.fst, ← List.map_map, List.zipIdx_map_fst]
    rfl

theorem importedRead (csv : CsvCodec) (json : JsonCodec) (format : TextFormat) (dialect : CsvDialect) (table : TextTable)
    (mapping : TextMapping table.names) (untrimmed : dialect.trim = false)
    (fits : TextFormat.delimited format = true → Fits dialect (delimiterOf format) table.names) :
    importedRows reading csv json format dialect mapping.entries table =
      .ok ((table.rows.filter fun row => !(TextFormat.delimited format && row = [none])).map fun row =>
        row.map (readCell format dialect.nullLiteral)) := by
  have some' : mapping.entries ≠ [] := fun none' => table.columns (by
    have empty := mapping.reads
    rw [none'] at empty
    simpa using empty.symm)
  simp only [importedRows, entriesActive, some', if_false]
  cases delimited : TextFormat.delimited format with
  | true =>
    have shown : table.rows.map (fun row => row.map fun cell =>
        castString (defaultPolicyFor format.format) (renderText (textCell cell) (defaultPolicyFor format.format))) = table.rows := by
      have cells : ∀ cell, castString (defaultPolicyFor format.format) (renderText (textCell cell) (defaultPolicyFor format.format)) =
          cell := by
        intro cell
        cases format <;> cases cell with
        | none => rfl
        | some text => cases text <;> rfl
      simp [cells]
    have headed : table.names.map (fun name => castString (defaultPolicyFor format.format) (some name)) = table.names.map some := by
      refine List.map_congr_left fun name _ => ?_
      cases format <;> cases name <;> rfl
    have broad : ∀ row ∈ table.rows, row ≠ [] := fun row member empty => table.columns (by
      have width := table.wide row member
      rw [empty] at width
      exact List.length_eq_zero_iff.mp width.symm)
    have parsed := csv.parseStringify dialect format table.names table.rows untrimmed (fits delimited)
      table.columns broad
    simp only [if_true, readCsvRows, delimitedText, shown, headed, parsed, (fits delimited).header, List.drop_one, List.tail_cons]
    rw [List.zipIdx_map, List.mapM_map]
    have lines : (fun row : List (Option Text) => !(true && decide (row = [none]))) = fun row => decide (row ≠ [none]) := by
      funext row
      simp
    rw [lines]
    exact rowsRead (table.rows.filter (· ≠ [none])) 2 fun row member line =>
      recordCoerced reading mapping untrimmed delimited (table.wide row (List.mem_filter.mp member).1) line
  | false =>
    have objects : table.rows.mapM (jsonObject json (defaultPolicyFor format.format) table.names) =
        some (table.rows.map fun row => table.names.zip (row.map jsonField)) :=
      mapMEach fun row _ => objectRead json format delimited table.names row
    simp only [Bool.false_eq_true, if_false, objects, readJsonRows]
    rw [List.zipIdx_map, List.mapM_map]
    refine (rowsRead table.rows 1 fun row member line =>
      jsonCoerced reading table.distinct mapping untrimmed delimited (table.wide row member) line).trans ?_
    simp

theorem nullsSurvive (csv : CsvCodec) (json : JsonCodec) (format : TextFormat) (dialect : CsvDialect) (table : TextTable)
    (mapping : TextMapping table.names) (own : OwnDialect reading dialect)
    (fits : TextFormat.delimited format = true → Fits dialect (delimiterOf format) table.names) :
    importedRows reading csv json format dialect mapping.entries table = .ok (table.rows.map fun row => row.map textCell) ↔
      ∀ row ∈ table.rows, RowKept format dialect.nullLiteral row := by
  have untrimmed : dialect.trim = false := by
    rcases own with rfl | ⟨enc, sample, rfl⟩
    · rfl
    · exact sniffUntrimmed reading enc sample
  rw [importedRead reading csv json format dialect table mapping untrimmed fits, Except.ok.injEq]
  have cells (row : List (Option Text)) : row.map (readCell format dialect.nullLiteral) = row.map textCell ↔
      ∀ cell ∈ row, CellKept format dialect.nullLiteral cell := by
    simp only [List.map_inj_left, cellKeptIff]
  have lone (row : List (Option Text)) : (!(TextFormat.delimited format && decide (row = [none]))) = true ↔
      (TextFormat.delimited format = true → row ≠ [none]) := by
    cases TextFormat.delimited format <;> simp
  constructor
  · intro same row member
    have counted := congrArg List.length same
    rw [List.length_map, List.length_map, List.length_filter_eq_length_iff] at counted
    rw [List.filter_eq_self.mpr counted, List.map_inj_left] at same
    exact ⟨(lone row).mp (counted row member), (cells row).mp (same row member)⟩
  · intro kept
    rw [List.filter_eq_self.mpr fun row member => (lone row).mpr (kept row member).1]
    exact List.map_congr_left fun row member => (cells row).mpr (kept row member).2

end Survival

section Examples

def plainCsv : CsvCodec where
  stringify := DelimitedText.writeRecords
  parse dialect text := some (DelimitedText.readRecords (dialect.delimiter.headD 44) text)
  parseStringify dialect format names rows _ fits some' broad := by
    have apart : delimiterOf format ≠ DelimitedText.mark ∧ delimiterOf format ≠ DelimitedText.lineEnd := by
      cases format <;> decide
    have headed : names.map some ≠ [none] := by
      cases names with
      | nil => contradiction
      | cons name rest => simp
    rw [fits.delimiter, List.headD_cons, DelimitedText.readWritten apart]
    · simp [headed, Function.comp_def]
    · rintro row (- | ⟨_, member⟩)
      · simpa using some'
      · exact broad row member

def letters : List Text := [units "a", units "b"]

def lettered (rows : List (List (Option Text))) (wide : ∀ row ∈ rows, row.length = 2) : TextTable :=
  ⟨letters, rows, by decide, by decide, wide⟩

def letterMapping : TextMapping letters := textColumns letters (by decide) [] (by simp)

theorem defaultFits : Fits defaultDialect 44 letters := ⟨rfl, rfl, rfl, rfl, rfl, rfl, rfl, by decide⟩

theorem nullsKept : importedRows bareReading plainCsv bareCodec .csv defaultDialect letterMapping.entries
    (lettered [[none, some (units "x,\"y")]] (by simp)) = .ok [[.null, .string (units "x,\"y")]] :=
  (nullsSurvive bareReading plainCsv bareCodec .csv defaultDialect (lettered [[none, some (units "x,\"y")]] (by simp))
    letterMapping (.inl rfl) fun _ => defaultFits).mpr (by simp [lettered, RowKept, CellKept, defaultDialect, units])

def emptySample : Text := units "a,b\nx,\"\"\n"

theorem emptyLost : ¬∀ (reading : Reading) (csv : CsvCodec) (json : JsonCodec) (format : TextFormat) (dialect : CsvDialect)
    (table : TextTable) (mapping : TextMapping table.names), OwnDialect reading dialect →
    importedRows reading csv json format dialect mapping.entries table = .ok (table.rows.map fun row => row.map textCell) := by
  intro survives
  have sniffed : sniff bareReading ⟨.utf8, false, 0⟩ emptySample = defaultDialect := by decide +kernel
  have kept := survives bareReading plainCsv bareCodec .csv defaultDialect
    (lettered [[some (units "x"), some []]] (by simp)) letterMapping (.inr ⟨_, _, sniffed.symm⟩)
  rw [importedRead bareReading plainCsv bareCodec .csv defaultDialect (lettered [[some (units "x"), some []]] (by simp))
    letterMapping rfl fun _ => defaultFits, Except.ok.injEq] at kept
  exact absurd kept (by decide)

end Examples

end DatabaseAdmin.NullTexts
