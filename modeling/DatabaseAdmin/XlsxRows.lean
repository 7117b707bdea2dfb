import DatabaseAdmin.NullTexts
import DatabaseAdmin.PgLoads

/-! Rows of a worksheet as the importer reads them, against what a column mapping asks for. The
library that opens the workbook hands over rows of cells. -/
namespace DatabaseAdmin.XlsxRows
open CodeUnits WireCells CellCoercion NullTexts

section Cells

inductive SheetValue where
  | blank
  | text (t : Text)
  | number (n : JsNumber)
  | boolean (value : Bool)
  | date (iso : Text)
  | formula (result : SheetValue)
  | richText (runs : List (Option Text))
  | hyperlink (t : Text)
  | error
  | other (shown : Text)

structure SheetCell where
  isDate : Bool
  numFmt : Text
  value : SheetValue

abbrev SheetRow := List SheetCell

def blankCell : SheetCell := ⟨false, [], .blank⟩

def cellValue : SheetValue → Cell
  | .blank => .null
  | .text t => .string t
  | .number n => .number n
  | .boolean value => .boolean value
  | .date iso => .string iso
  | .formula result => cellValue result
  | .richText runs => .string (runs.flatMap (·.getD []))
  | .hyperlink t => .string t
  | .error => .null
  | .other shown => .string shown

def textOf : SheetValue → Option Text
  | .text t => some t
  | .formula result => textOf result
  | .richText runs => some (runs.flatMap (·.getD []))
  | .hyperlink t => some t
  | _ => none

variable (reading : Reading) (fromSerial : JsNumber → Text)

def contains (t pattern : Text) : Bool := (indexOf pattern t).isSome

def looksLikeDate (numFmt : Text) : Bool :=
  let numFmt := reading.toLowerCase numFmt
  numFmt.any (fun c => c = 100 || c = 109 || c = 121) && ["yy", "dd", "mm", "hh"].any fun part => contains numFmt (units part)

def cellFrom (cell : SheetCell) : Cell :=
  match cell.isDate, cell.value with
  | true, .date iso => .string iso
  | _, .number n => if looksLikeDate reading cell.numFmt then .string (fromSerial n) else .number n
  | _, value => cellValue value

def getCell (row : SheetRow) (i : Nat) : SheetCell := row[i]?.getD blankCell

def denseRow (row : SheetRow) (width : Nat) : List Cell := (List.range width).map fun c => cellFrom reading fromSerial (getCell row c)

theorem textStands {cell : SheetCell} {t : Text} (text : textOf cell.value = some t) : cellFrom reading fromSerial cell = .string t := by
  have own {value : SheetValue} (text : textOf value = some t) : cellValue value = .string t := by
    induction value with
    | formula result ih => exact ih text
    | text | richText | hyperlink =>
      cases text
      rfl
    | _ => contradiction
  unfold cellFrom
  split
  · rename_i same
    rw [same] at text
    contradiction
  · rename_i same
    rw [same] at text
    contradiction
  · exact own text

end Cells

section Reader
variable (reading : Reading) (fromSerial : JsNumber → Text)

def rowOf (mapping : List ColumnMapping) (row : SheetRow) : Row :=
  let cells := denseRow reading fromSerial row (if mapping.length = 0 then row.length else mapping.length)
  (mapping.filter (·.targetColumn.isSome)).map fun m => cells[m.sourceIndex]?.getD .null

def readXlsxRows (sheet : List SheetRow) (mapping : List ColumnMapping) (batchSize : Nat) : List (List Row) :=
  PgLoads.rechunk batchSize ((sheet.drop 1).map (rowOf reading fromSerial mapping))

def importedRows (sheet : List SheetRow) (mapping : List ColumnMapping) (batchSize : Nat) : Except ReadError (List (List Row)) :=
  if active mapping = [] then .error .noMapping else .ok (readXlsxRows reading fromSerial sheet (active mapping) batchSize)

end Reader

section Claims
variable (reading : Reading) (fromSerial : JsNumber → Text) (dialect : CsvDialect)

def mappedCell (m : ColumnMapping) (line : Nat) (cell : SheetCell) : Except CsvRowError Cell :=
  match textOf cell.value with
  | some t => coerceValue reading t m dialect line
  | none => .ok (cellFrom reading fromSerial cell)

def Mapped (mapping : List ColumnMapping) (row : SheetRow) (imported : Row) : Prop :=
  ∀ line, ((active mapping).mapM fun m => mappedCell reading fromSerial dialect m line (getCell row m.sourceIndex)) = .ok imported

def Honoured (sheet : List SheetRow) (mapping : List ColumnMapping) (batchSize : Nat) : Prop :=
  ∀ batches, importedRows reading fromSerial sheet mapping batchSize = .ok batches →
    List.Forall₂ (Mapped reading fromSerial dialect mapping) (sheet.drop 1) batches.flatten

def trimmed (m : ColumnMapping) (t : Text) : Text := if m.trim.getD dialect.trim then trim t else t

def literalOf (m : ColumnMapping) : Text := m.nullLiteral.getD dialect.nullLiteral

def Untouched (m : ColumnMapping) (t : Text) : Prop :=
  trimmed dialect m t = t ∧ t ≠ literalOf dialect m ∧ textual (m.targetType.getD .string) = true

def Nothing (m : ColumnMapping) (cell : SheetCell) : Prop :=
  match textOf cell.value with
  | some t => trimmed dialect m t = literalOf dialect m
  | none => cellFrom reading fromSerial cell = .null

def Kept (width : Nat) (m : ColumnMapping) (cell : SheetCell) : Prop :=
  if m.sourceIndex < width then ∀ t, textOf cell.value = some t → Untouched dialect m t
  else Nothing reading fromSerial dialect m cell

end Claims

section Rules
variable (reading : Reading) (dialect : CsvDialect) (m : ColumnMapping) (t : Text) (line : Nat)

theorem coerceStored (stored : trimmed dialect m t ≠ literalOf dialect m) :
    if textual (m.targetType.getD .string) = true then coerceValue reading t m dialect line = .ok (.string (trimmed dialect m t))
    else coerceValue reading t m dialect line ≠ .ok .null ∧ ∀ s, coerceValue reading t m dialect line ≠ .ok (.string s) := by
  have apart : ¬(trimmed dialect m t = [] ∧ literalOf dialect m = []) := fun both => stored (both.1.trans both.2.symm)
  unfold trimmed literalOf at stored apart
  unfold trimmed
  simp only [coerceValue, if_neg stored, if_neg apart]
  cases m.targetType.getD .string <;> simp only [textual, if_true, Bool.false_eq_true, if_false]
  case date | time | timestamp =>
    split <;> simp
  case boolean | integer | bigint | decimal | money | float | json | uuid | binary =>
    split_ifs <;> simp [bytesCell]

theorem coerceNull : coerceValue reading t m dialect line = .ok .null ↔ trimmed dialect m t = literalOf dialect m := by
  by_cases literal : trimmed dialect m t = literalOf dialect m
  · have same := literal
    unfold trimmed literalOf at same
    simp [coerceValue, same, literal]
  · have stored := coerceStored reading dialect m t line literal
    refine iff_of_false (fun null => ?_) literal
    split at stored
    · rw [stored] at null
      cases null
    · exact stored.1 null

theorem coerceSame : coerceValue reading t m dialect line = .ok (.string t) ↔ Untouched dialect m t := by
  by_cases literal : trimmed dialect m t = literalOf dialect m
  · rw [(coerceNull reading dialect m t line).mpr literal]
    refine iff_of_false (by simp) fun untouched => untouched.2.1 ?_
    rw [← literal, untouched.1]
  · have stored := coerceStored reading dialect m t line literal
    split at stored
    · rename_i text
      rw [stored]
      simp only [Except.ok.injEq, Cell.string.injEq, Untouched, text, and_true]
      exact ⟨fun same => ⟨same, same ▸ literal⟩, And.left⟩
    · rename_i typed
      exact iff_of_false (stored.2 t) fun untouched => typed untouched.2.2

end Rules

section Rows
variable (reading : Reading) (fromSerial : JsNumber → Text) (dialect : CsvDialect)

theorem denseCell (row : SheetRow) (width i : Nat) : ((denseRow reading fromSerial row width)[i]?.getD .null) =
    if i < width then cellFrom reading fromSerial (getCell row i) else .null := by
  unfold denseRow
  split
  · rename_i inside
    rw [List.getElem?_map, List.getElem?_range inside]
    rfl
  · rename_i outside
    rw [List.getElem?_eq_none (by simpa using outside)]
    rfl

theorem activeRow (mapping : List ColumnMapping) (some' : active mapping ≠ []) (row : SheetRow) :
    rowOf reading fromSerial (active mapping) row = (active mapping).map fun m =>
      if m.sourceIndex < (active mapping).length then cellFrom reading fromSerial (getCell row m.sourceIndex) else .null := by
  have wide : (active mapping).length ≠ 0 := by simpa using some'
  have wanted : (active mapping).filter (·.targetColumn.isSome) = active mapping := by
    refine List.filter_eq_self.mpr fun m member => ?_
    have target := (List.mem_filter.mp member).2
    cases found : m.targetColumn with
    | none => simp [found] at target
    | some column => rfl
  rw [rowOf, if_neg wide, wanted]
  exact List.map_congr_left fun m _ => denseCell reading fromSerial row _ m.sourceIndex

theorem cellKept (m : ColumnMapping) (cell : SheetCell) (width : Nat) :
    (∀ line, mappedCell reading fromSerial dialect m line cell =
      .ok (if m.sourceIndex < width then cellFrom reading fromSerial cell else .null)) ↔
      Kept reading fromSerial dialect width m cell := by
  unfold mappedCell Kept Nothing
  by_cases inside : m.sourceIndex < width
  · simp only [inside, if_true]
    cases text : textOf cell.value with
    | some t =>
      rw [textStands reading fromSerial text]
      simp only [coerceSame, Option.some.injEq, forall_eq', forall_const]
    | none => simp
  · simp only [inside, if_false]
    cases text : textOf cell.value with
    | some t => simp only [coerceNull, forall_const]
    | none => simp

theorem mapMKept {α β ε : Type} {f : α → Except ε β} {g : α → β} {xs : List α} :
    xs.mapM f = .ok (xs.map g) ↔ ∀ x ∈ xs, f x = .ok (g x) := by
  induction xs with
  | nil => simp [pure, Except.pure]
  | cons x xs ih =>
    rw [List.mapM_cons, List.map_cons, List.forall_mem_cons, ← ih]
    cases f x with
    | error e => simp [bind, Except.bind]
    | ok y =>
      cases xs.mapM f with
      | error e => simp [bind, Except.bind]
      | ok ys => simp [bind, Except.bind, pure, Except.pure]

theorem mappingHonoured (reading : Reading) (fromSerial : JsNumber → Text) (dialect : CsvDialect) (sheet : List SheetRow)
    (mapping : List ColumnMapping) (batchSize : Nat) :
    Honoured reading fromSerial dialect sheet mapping batchSize ↔
      ∀ row ∈ sheet.drop 1, ∀ m ∈ active mapping,
        Kept reading fromSerial dialect (active mapping).length m (getCell row m.sourceIndex) := by
  unfold Honoured importedRows
  by_cases none' : active mapping = []
  · simp [none']
  have flat : (readXlsxRows reading fromSerial sheet (active mapping) batchSize).flatten =
      (sheet.drop 1).map (rowOf reading fromSerial (active mapping)) := PgLoads.rechunkFlat [] _
  simp only [if_neg none', Except.ok.injEq, forall_eq', flat, List.forall₂_map_right_iff, List.forall₂_same]
  refine forall₂_congr fun row _ => ?_
  unfold Mapped
  rw [activeRow reading fromSerial mapping none' row]
  simp only [mapMKept, ← cellKept]
  exact ⟨fun each m member line => each line m member, fun each line m member => each m member line⟩

end Rows

section Examples

def noteMapping : List ColumnMapping :=
  [⟨0, units "id", none, none, none, none, none⟩, ⟨1, units "note", some (units "note"), none, none, none, none⟩]

def noteSheet : List SheetRow :=
  [[⟨false, [], .text (units "id")⟩, ⟨false, [], .text (units "note")⟩],
    [⟨false, [], .number ⟨units "7", true⟩⟩, ⟨false, [], .text (units "x")⟩]]

-- With the first column left out, the second is read from a row of one cell.
theorem noteLost : ¬∀ (reading : Reading) (fromSerial : JsNumber → Text) (dialect : CsvDialect) (sheet : List SheetRow)
    (mapping : List ColumnMapping) (batchSize : Nat), Honoured reading fromSerial dialect sheet mapping batchSize := by
  intro honoured
  have rows := honoured TextWriters.bareReading JsNumber.text defaultDialect noteSheet noteMapping 10 [[[.null]]] rfl
  have note := (List.forall₂_cons.mp rows).1 2
  have due : ((active noteMapping).mapM fun m => mappedCell TextWriters.bareReading JsNumber.text defaultDialect m 2
      (getCell [⟨false, [], .number ⟨units "7", true⟩⟩, ⟨false, [], .text (units "x")⟩] m.sourceIndex)) =
      .ok [.string (units "x")] := rfl
  rw [due] at note
  cases note

end Examples

end DatabaseAdmin.XlsxRows
