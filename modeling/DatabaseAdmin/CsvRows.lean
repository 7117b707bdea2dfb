import DatabaseAdmin.NullTexts

/-! The preview of a CSV file and the import of its rows. The CSV library is a parameter: it finds the
records of a file and the physical line each starts on. -/
namespace DatabaseAdmin.CsvRows
open CodeUnits WireCells CellCoercion CsvSniffing NullTexts

structure CsvRecord where
  line : Nat
  fields : List Text
  deriving DecidableEq

inductive CsvEvent where
  | record (r : CsvRecord)
  | malformed (message : Text)

def CsvEvent.asRecord : CsvEvent → Option CsvRecord
  | record r => some r
  | malformed _ => none

structure CsvParser where
  events : CsvDialect → Text → List CsvEvent
  counted : ∀ dialect file, ∀ r ∈ (events dialect file).filterMap CsvEvent.asRecord, 1 ≤ r.line
  ordered : ∀ dialect file, ((events dialect file).filterMap CsvEvent.asRecord).Pairwise (·.line < ·.line)

section Reading
variable (reading : Reading) (parser : CsvParser) (dialect : CsvDialect) (file : Text)

def CsvEvent.startsFrom (line : Nat) : CsvEvent → Bool
  | record r => line ≤ r.line
  | malformed _ => true

def opened (fromLine : Nat) : List CsvEvent := (parser.events dialect file).filter (CsvEvent.startsFrom fromLine)

def collect (want : Nat) : List (List Text) → List CsvEvent → Except Text (List (List Text))
  | records, [] => .ok records
  | _, .malformed message :: _ => .error message
  | records, .record r :: rest =>
      if want ≤ (records ++ [r.fields]).length then .ok (records ++ [r.fields])
      else collect want (records ++ [r.fields]) rest

def columnLabel (i : Nat) : Text := units "column_" ++ units (toString (i + 1))

def syntheticHeaders (width : Nat) : List Text := (List.range width).map columnLabel

def padTo (row : List Text) (width : Nat) : List Text := row.take width ++ List.replicate (width - row.length) []

def widthOf (records : List (List Text)) : Nat := records.foldl (fun width r => max width r.length) 0

structure Preview where
  headers : List Text
  rows : List (List Text)

def headersOf (records : List (List Text)) : List Text :=
  match dialect.hasHeader, records with
  | true, first :: _ => (padTo first (widthOf records)).zipIdx.map fun (h, i) => if trim h = [] then columnLabel i else trim h
  | _, _ => syntheticHeaders (widthOf records)

def previewOf (records : List (List Text)) : Preview :=
  ⟨headersOf dialect records,
    (if dialect.hasHeader then records.drop 1 else records).map fun r => padTo r (widthOf records)⟩

def previewCsv (n : Nat) : Except Text Preview :=
  (collect (if dialect.hasHeader then n + 1 else n) [] (opened parser dialect file 1)).map (previewOf dialect)

structure ReadCsvOptions where
  batchSize : Nat
  limit : Option Nat
  onError : Bool

structure CsvRead where
  coerced : List (List Text)
  batches : List (List Row)
  reported : List CsvRowError
  thrown : Option ReadError

def malformedRecord (message : Text) (line : Nat) : CsvRowError := ⟨message, line + 1, 0, [], message⟩

def readEvents (mapping : List ColumnMapping) (opts : ReadCsvOptions) : List Row → Nat → Nat → List CsvEvent → CsvRead
  | batch, _, _, [] => ⟨[], if batch = [] then [] else [batch], [], none⟩
  | batch, rows, line, .malformed message :: rest =>
      if opts.onError then
        let read := readEvents mapping opts batch rows line rest
        { read with reported := malformedRecord message line :: read.reported }
      else ⟨[], [], [], some .malformed⟩
  | batch, rows, line, .record r :: rest =>
      match coerceRecord reading r.fields mapping dialect (line + 1) with
      | .error e =>
          if opts.onError then
            let read := readEvents mapping opts batch rows (line + 1) rest
            { read with coerced := r.fields :: read.coerced, reported := e :: read.reported }
          else ⟨[r.fields], [], [], some (.row e)⟩
      | .ok row =>
          let full := max 1 opts.batchSize ≤ (batch ++ [row]).length
          let kept := if full then [] else batch ++ [row]
          let read := if opts.limit.any (· ≤ rows + 1) then ⟨[], if kept = [] then [] else [kept], [], none⟩
            else readEvents mapping opts kept (rows + 1) (line + 1) rest
          { read with
            coerced := r.fields :: read.coerced
            batches := (if full then [batch ++ [row]] else []) ++ read.batches }

def readCsvRows (mapping : List ColumnMapping) (opts : ReadCsvOptions) : CsvRead :=
  if active mapping = [] then ⟨[], [], [], some .noMapping⟩
  else readEvents reading dialect (active mapping) opts [] 0 (if dialect.hasHeader then 1 else 0)
    (opened parser dialect file (if dialect.hasHeader then 2 else 1))

end Reading

section Records
variable {reading : Reading} {parser : CsvParser} {dialect : CsvDialect} {file : Text}

def recordsOf (parser : CsvParser) (dialect : CsvDialect) (file : Text) : List CsvRecord :=
  (parser.events dialect file).filterMap CsvEvent.asRecord

theorem openedRecords (fromLine : Nat) : (opened parser dialect file fromLine).filterMap CsvEvent.asRecord =
    (recordsOf parser dialect file).filter fun r => fromLine ≤ r.line := by
  unfold opened recordsOf
  induction parser.events dialect file with
  | nil => rfl
  | cons event events ih =>
    cases event with
    | record r => by_cases late : fromLine ≤ r.line <;> simp [CsvEvent.startsFrom, CsvEvent.asRecord, late, ih]
    | malformed message =>
      rw [List.filter_cons_of_pos (by rfl)]
      exact ih

theorem collected {want : Nat} {events : List CsvEvent} {records taken : List (List Text)}
    (short : records.length + (events.filterMap CsvEvent.asRecord).length ≤ want) (ok : collect want records events = .ok taken) :
    taken = records ++ (events.filterMap CsvEvent.asRecord).map CsvRecord.fields := by
  induction events generalizing records with
  | nil => simpa [collect] using (Except.ok.inj ok).symm
  | cons event events ih =>
    cases event with
    | malformed message => contradiction
    | record r =>
      have more : (CsvEvent.record r :: events).filterMap CsvEvent.asRecord = r :: events.filterMap CsvEvent.asRecord := rfl
      rw [more, List.length_cons] at short
      rw [more, List.map_cons]
      rw [collect] at ok
      split at ok
      · rename_i enough
        rw [List.length_append, List.length_singleton] at enough
        have last : events.filterMap CsvEvent.asRecord = [] := List.eq_nil_of_length_eq_zero (by omega)
        rw [last]
        exact (Except.ok.inj ok).symm
      · have fits : (records ++ [r.fields]).length + (events.filterMap CsvEvent.asRecord).length ≤ want := by
          rw [List.length_append, List.length_singleton]
          omega
        rw [ih fits ok, List.append_assoc, List.singleton_append]

theorem readAll {mapping : List ColumnMapping} {opts : ReadCsvOptions} (unlimited : opts.limit = none) {events : List CsvEvent}
    {batch : List Row} {rows line : Nat} (ended : (readEvents reading dialect mapping opts batch rows line events).thrown = none) :
    (readEvents reading dialect mapping opts batch rows line events).coerced =
      (events.filterMap CsvEvent.asRecord).map CsvRecord.fields := by
  induction events generalizing batch rows line with
  | nil => rfl
  | cons event events ih =>
    cases event with
    | malformed message =>
      rw [readEvents] at ended ⊢
      split at ended
      · rename_i reports
        rw [if_pos reports]
        exact ih ended
      · contradiction
    | record r =>
      have more : (CsvEvent.record r :: events).filterMap CsvEvent.asRecord = r :: events.filterMap CsvEvent.asRecord := rfl
      rw [more, List.map_cons]
      rw [readEvents] at ended ⊢
      cases made : coerceRecord reading r.fields mapping dialect (line + 1) with
      | error e =>
        rw [made] at ended
        dsimp only at ended ⊢
        split at ended
        · rename_i reports
          rw [if_pos reports]
          exact congrArg _ (ih ended)
        · contradiction
      | ok row =>
        rw [made] at ended
        simp only [unlimited, Option.any_none, Bool.false_eq_true, if_false] at ended ⊢
        exact congrArg _ (ih ended)

def HeaderFirst (parser : CsvParser) (dialect : CsvDialect) (file : Text) : Prop :=
  ∀ r ∈ (recordsOf parser dialect file).head?, r.line = 1

theorem recordsCounted {r : CsvRecord} (member : r ∈ recordsOf parser dialect file) : 1 ≤ r.line :=
  parser.counted dialect file r member

theorem headSkipped {r : CsvRecord} {rest : List CsvRecord} (records : recordsOf parser dialect file = r :: rest) :
    (recordsOf parser dialect file).filter (fun r => 2 ≤ r.line) = if r.line = 1 then rest else r :: rest := by
  have ordered : (r :: rest).Pairwise (·.line < ·.line) := records ▸ parser.ordered dialect file
  have counted : 1 ≤ r.line := recordsCounted (records ▸ List.mem_cons_self)
  have later : ∀ other ∈ rest, 2 ≤ other.line := by
    intro other member
    have := (List.pairwise_cons.mp ordered).1 other member
    omega
  have all : rest.filter (fun r => 2 ≤ r.line) = rest := List.filter_eq_self.mpr fun other member => by simpa using later other member
  rw [records, List.filter_cons, all]
  by_cases first : r.line = 1
  · simp [first]
  · have second : 2 ≤ r.line := by omega
    simp [first, second]

theorem paddedLength {row : List Text} {width : Nat} (fits : row.length ≤ width) : (padTo row width).length = width := by
  rw [padTo, List.length_append, List.length_replicate, List.length_take]
  omega

theorem previewed (header : dialect.hasHeader = true) {n : Nat} (unbounded : (recordsOf parser dialect file).length ≤ n)
    {preview : Preview} (shown : previewCsv parser dialect file n = .ok preview) :
    preview.rows = ((recordsOf parser dialect file).drop 1).map fun r => padTo r.fields preview.headers.length := by
  have whole : (opened parser dialect file 1).filterMap CsvEvent.asRecord = recordsOf parser dialect file := by
    rw [openedRecords]
    exact List.filter_eq_self.mpr fun r member => by simpa using recordsCounted member
  unfold previewCsv at shown
  cases read : collect (if dialect.hasHeader then n + 1 else n) [] (opened parser dialect file 1) with
  | error message => simp [read, Except.map] at shown
  | ok taken =>
    rw [read] at shown
    have all := collected (by rw [header, whole, List.length_nil]; simp; omega) read
    rw [whole, List.nil_append] at all
    subst all
    cases Except.ok.inj shown
    have wide : (headersOf dialect ((recordsOf parser dialect file).map CsvRecord.fields)).length =
        widthOf ((recordsOf parser dialect file).map CsvRecord.fields) := by
      unfold headersOf
      split
      · rename_i records
        rw [List.length_map, List.length_zipIdx]
        exact paddedLength (widthCovers (records ▸ List.mem_cons_self))
      · rw [syntheticHeaders, List.length_map, List.length_range]
    rw [previewOf, wide, header, if_pos rfl, ← List.map_drop, List.map_map]
    rfl

theorem importedAsShown (header : dialect.hasHeader = true) {mapping : List ColumnMapping} {opts : ReadCsvOptions} {n : Nat}
    (unbounded : (recordsOf parser dialect file).length ≤ n) (unlimited : opts.limit = none) {preview : Preview}
    (shown : previewCsv parser dialect file n = .ok preview)
    (ended : (readCsvRows reading parser dialect file mapping opts).thrown = none) :
    preview.rows = (readCsvRows reading parser dialect file mapping opts).coerced.map (padTo · preview.headers.length) ↔
      HeaderFirst parser dialect file := by
  have imported : (readCsvRows reading parser dialect file mapping opts).coerced =
      ((recordsOf parser dialect file).filter fun r => 2 ≤ r.line).map CsvRecord.fields := by
    by_cases unmapped : active mapping = []
    · rw [readCsvRows, if_pos unmapped] at ended
      contradiction
    · rw [readCsvRows, if_neg unmapped] at ended ⊢
      simp only [header, if_true] at ended ⊢
      rw [readAll unlimited ended, openedRecords]
  rw [previewed header unbounded shown, imported, List.map_map]
  unfold HeaderFirst
  cases records : recordsOf parser dialect file with
  | nil => simp
  | cons r rest =>
    have skipped := headSkipped records
    rw [records] at skipped
    simp only [skipped, List.drop_one, List.tail_cons, List.head?_cons, Option.mem_def, Option.some.injEq, forall_eq']
    constructor
    · intro same
      by_contra late
      have sizes := congrArg List.length same
      simp [late] at sizes
    · intro first
      rw [if_pos first]
      rfl

end Records

section Samples

def plainLine (dialect : CsvDialect) (line : Text × Nat) : Option CsvRecord :=
  if line.1 = [] ∨ dialect.comment.any (startsWith · line.1) = true then none else some ⟨line.2, line.1.splitOn (44 : CodeUnit)⟩

def plainRecords (dialect : CsvDialect) (file : Text) : List CsvRecord :=
  ((file.splitOn newline).zipIdx 1).filterMap (plainLine dialect)

theorem plainLined {dialect : CsvDialect} {line : Text × Nat} {r : CsvRecord} (made : plainLine dialect line = some r) :
    r.line = line.2 := by
  unfold plainLine at made
  split at made
  · contradiction
  · cases made
    rfl

def plainParser : CsvParser where
  events dialect file := (plainRecords dialect file).map .record
  counted dialect file r member := by
    have listed : r ∈ plainRecords dialect file := by simpa [List.filterMap_map, Function.comp_def, CsvEvent.asRecord] using member
    obtain ⟨line, inside, made⟩ := List.mem_filterMap.mp listed
    rw [plainLined made]
    exact List.le_snd_of_mem_zipIdx inside
  ordered dialect file := by
    have lines : ((file.splitOn newline).zipIdx 1).Pairwise fun a b => a.2 < b.2 := by
      rw [← List.pairwise_map (f := Prod.snd) (R := (· < ·)), List.zipIdx_map_snd]
      exact List.pairwise_lt_range' ..
    have records : (plainRecords dialect file).Pairwise (·.line < ·.line) := by
      refine List.Pairwise.filterMap (plainLine dialect) ?_ lines
      intro a b before r first r' last
      rw [plainLined first, plainLined last]
      exact before
    simpa [List.filterMap_map, Function.comp_def, CsvEvent.asRecord] using records

def plainLanguage : Reading := ⟨id, id, fun _ => false, fun text => ⟨text, true⟩, fun text _ _ => .ok text⟩

def idColumn : List ColumnMapping := [⟨0, units "id", some (units "id"), none, none, none, none⟩]

theorem plainImported : ([[units "7"]] : List (List Text)) =
    (readCsvRows plainLanguage plainParser defaultDialect (units "id\n7") idColumn ⟨1000, none, false⟩).coerced.map (padTo · 1) :=
  (@importedAsShown plainLanguage plainParser defaultDialect (units "id\n7") rfl idColumn ⟨1000, none, false⟩ 2 (by decide) rfl
    ⟨[units "id"], [[units "7"]]⟩ (by rfl) (by rfl)).mpr (by unfold HeaderFirst; decide)

-- A blank line before the header makes the header a row of data.
theorem headerImported : ∃ preview, previewCsv plainParser defaultDialect (units "\nid\n7") 2 = .ok preview ∧
    (readCsvRows plainLanguage plainParser defaultDialect (units "\nid\n7") idColumn ⟨1000, none, false⟩).thrown = none ∧
    preview.rows ≠
      (readCsvRows plainLanguage plainParser defaultDialect (units "\nid\n7") idColumn ⟨1000, none, false⟩).coerced.map
        (padTo · preview.headers.length) :=
  ⟨⟨[units "id"], [[units "7"]]⟩, by rfl, by rfl, by decide⟩

end Samples

end DatabaseAdmin.CsvRows
