import DatabaseAdmin.CellCoercion
import DatabaseAdmin.Patterns

/-! The guess of a CSV dialect from the head of a file: a small scanner under each candidate, the
score of its shape, and whether the first record is a header. -/
namespace DatabaseAdmin.CsvSniffing
open CodeUnits BinaryText SchemaModels CellCoercion Patterns

section Scanner

structure Scan where
  record : List Text
  field : Text
  quoted : Bool
  started : Bool
  skip : Bool

def Scan.fresh : Scan := ⟨[], [], false, false, false⟩

def scanFrom (delimiter quote escape : CodeUnit) : Nat → Scan → Text → List (List Text)
  | 0, _, _ => []
  | _ + 1, s, [] => if s.field ≠ [] ∨ s.record ≠ [] then [s.record ++ [s.field]] else []
  | n + 1, s, c :: rest =>
    if s.skip then scanFrom delimiter quote escape (n + 1) { s with skip := false } rest
    else if s.quoted then
      if escape ≠ quote ∧ c = escape ∧ rest ≠ [] then
        scanFrom delimiter quote escape (n + 1) { s with field := s.field ++ rest.take 1, skip := true } rest
      else if c = quote then
        if rest.head? = some quote then
          scanFrom delimiter quote escape (n + 1) { s with field := s.field ++ [quote], skip := true } rest
        else scanFrom delimiter quote escape (n + 1) { s with quoted := false } rest
      else scanFrom delimiter quote escape (n + 1) { s with field := s.field ++ [c] } rest
    else if c = quote ∧ !s.started then
      scanFrom delimiter quote escape (n + 1) { s with quoted := true, started := true } rest
    else if c = delimiter then
      scanFrom delimiter quote escape (n + 1) { s with record := s.record ++ [s.field], field := [], started := false } rest
    else if c = 13 ∨ c = 10 then
      (s.record ++ [s.field]) ::
        scanFrom delimiter quote escape n { Scan.fresh with skip := c = 13 ∧ rest.head? = some 10 } rest
    else scanFrom delimiter quote escape (n + 1) { s with field := s.field ++ [c], started := true } rest

def scanRecords (text : Text) (delimiter quote escape : CodeUnit) (maxRecords : Nat) : List (List Text) :=
  scanFrom delimiter quote escape maxRecords Scan.fresh text

end Scanner

section Types
variable (reading : Reading)

def digit : Pattern CodeUnit := .one isDigit

def sign (c : CodeUnit) : Pattern CodeUnit := .one (decide <| · = c)

def optional (p : Pattern CodeUnit) : Pattern CodeUnit := .either p .blank

def digitsUpTo : Nat → Pattern CodeUnit
  | 0 => .blank
  | n + 1 => optional (.both digit (digitsUpTo n))

def wholly (p : Pattern CodeUnit) (v : Text) : Bool := (ends p v).contains v.length

def datePattern : Pattern CodeUnit :=
  all [digit, digit, digit, digit, sign 45, digit, digit, sign 45, digit, digit]

def clockPattern : Pattern CodeUnit :=
  all [digit, optional digit, sign 58, digit, digit,
    optional (all [sign 58, digit, digit, optional (all [sign 46, digit, digitsUpTo 8])])]

def zonePattern : Pattern CodeUnit :=
  .either (sign 90) (all [.one (fun c => decide (c = 43 ∨ c = 45)), digit, digit, optional (sign 58), digit, digit])

def reDate (v : Text) : Bool := wholly datePattern v

def reTime (v : Text) : Bool := wholly clockPattern v

def reTimestamp (v : Text) : Bool :=
  wholly (all [datePattern, .one (fun c => decide (c = 84 ∨ c = 32)), clockPattern, optional zonePattern]) v

def encloses (first last : CodeUnit) (v : Text) : Bool := v.head? = some first && v.getLast? = some last

def inferValueType (value : Text) : BaseType :=
  let v := trim value
  if v = [] then .unknown
  else if reInteger v then
    let abs := unsigned v
    if abs.length > 1 ∧ abs.head? = some 48 then .string
    else if integerOf v > safeIntMax ∨ integerOf v < -safeIntMax then .bigint
    else .integer
  else if reDecimal v then .decimal
  else
    let lower := reading.toLowerCase v
    if lower = units "true" ∨ lower = units "false" then .boolean
    else if reUuid v then .uuid
    else if reTimestamp v then .timestamp
    else if reDate v then .date
    else if reTime v then .time
    else if encloses 123 125 v || encloses 91 93 v then if reading.jsonValid v then .json else .string
    else .string

def mergeType (a b : BaseType) : BaseType :=
  let numeric : List BaseType := [.integer, .bigint, .decimal]
  if a = .unknown then b
  else if b = .unknown then a
  else if a = b then a
  else if a ∈ numeric ∧ b ∈ numeric then if a = .decimal ∨ b = .decimal then .decimal else .bigint
  else if (a = .date ∨ a = .timestamp) ∧ (b = .date ∨ b = .timestamp) then .timestamp
  else .string

def columnType (rows : List (List Text)) (nullLiteral : Text) (c : Nat) : BaseType :=
  let seen := rows.foldl (fun type row =>
    match row[c]? with
    | none => type
    | some raw => if raw = nullLiteral ∨ trim raw = [] then type else mergeType type (inferValueType reading raw)) .unknown
  if seen = .unknown then .string else seen

def inferColumnTypes (rows : List (List Text)) (nullLiteral : Text) : List BaseType :=
  (List.range (rows.foldl (fun width row => max width row.length) 0)).map (columnType reading rows nullLiteral)

theorem widthCovers {rows : List (List Text)} {row : List Text} (member : row ∈ rows) :
    row.length ≤ rows.foldl (fun width row => max width row.length) 0 := by
  have wide (start : Nat) : start ≤ rows.foldl (fun width row => max width row.length) start ∧
      ∀ row ∈ rows, row.length ≤ rows.foldl (fun width row => max width row.length) start := by
    clear member
    induction rows generalizing start with
    | nil => simp
    | cons row rows ih =>
      obtain ⟨grown, all⟩ := ih (max start row.length)
      refine ⟨Nat.le_trans (Nat.le_max_left _ _) grown, List.forall_mem_cons.mpr ⟨?_, all⟩⟩
      exact Nat.le_trans (Nat.le_max_right _ _) grown
  exact (wide 0).2 row member

def unique (values : List Text) : Bool := (values.map fun v => reading.toLowerCase (trim v)).Nodup

def joinNul (record : List Text) : Text := [(0 : CodeUnit)].intercalate record

def looksLikeHeader (records : List (List Text)) : Bool :=
  match records with
  | [] => true
  | head :: body =>
    if head = [] then true
    else if head.any fun v => trim v = [] then false
    else if !unique reading head then false
    else if head.any fun v => inferValueType reading v ≠ .string then false
    else if body = [] then true
    else if (inferColumnTypes reading body []).any fun t => t ≠ .string then true
    else !body.any fun r => joinNul r = joinNul head

end Types

section Sniff
variable (reading : Reading)

structure EncodingGuess where
  encoding : CsvEncoding
  bom : Bool
  bomBytes : Nat

structure DialectScore where
  delimiter : CodeUnit
  quote : CodeUnit
  escape : CodeUnit
  score : Rat

def delimiterCandidates : List CodeUnit := [44, 59, 9, 124, 58, 31]

def quoteCandidates : List CodeUnit := [34, 39]

def agreement (records : List (List Text)) : Nat × Nat :=
  let lengths := records.map List.length
  lengths.foldl (fun (mode, best) length =>
    let n := lengths.count length
    if n > best ∨ n = best ∧ length > mode then (length, n) else (mode, best)) (0, 0)

def scoreDialect (text : Text) (delimiter quote escape : CodeUnit) : DialectScore :=
  let all := scanRecords text delimiter quote escape 64
  let records := if all.length > 1 then all.dropLast else all
  let usable := records.filter fun r => r.length > 0 && r ≠ [[]]
  let (mode, best) := agreement usable
  if mode < 2 ∨ usable = [] then ⟨delimiter, quote, escape, 0⟩
  else ⟨delimiter, quote, escape, (best * 1000 : Nat) / (usable.length : Rat) + (min mode 30 : Nat)⟩

def better (best : Option DialectScore) (candidate : DialectScore) : Option DialectScore :=
  match best with
  | none => some candidate
  | some best => if candidate.score > best.score then some candidate else some best

def trimTruncated (records : List (List Text)) : List (List Text) :=
  let usable := records.filter (· ≠ [[]])
  if usable.length > 1 then usable.dropLast else usable

def includes (pattern text : Text) : Bool := (indexOf pattern text).isSome

def lineBreak (c : CodeUnit) : Bool := c = 10 || c = 13 || c = 0x2028 || c = 0x2029

def commentLine : Bool → Text → Bool
  | _, [] => false
  | start, c :: rest => (start && ((c :: rest).dropWhile isWhite).head? = some 35) || commentLine (lineBreak c) rest

def candidates (text : Text) : List DialectScore :=
  let backslashEscapes := includes (units "\\\"") text && !includes (units "\"\"") text
  quoteCandidates.flatMap fun quote => delimiterCandidates.map fun delimiter =>
    scoreDialect text delimiter quote (if backslashEscapes then 92 else quote)

def sniff (enc : EncodingGuess) (text : Text) : CsvDialect :=
  let dialect := { defaultDialect with encoding := enc.encoding, bom := enc.bom, bomBytes := enc.bomBytes }
  if trim text = [] then dialect
  else
    let shape :=
      match (candidates text).foldl better none with
      | some best => if best.score > 0 then best else ⟨44, 34, 34, 0⟩
      | none => ⟨44, 34, 34, 0⟩
    let records := trimTruncated (scanRecords text shape.delimiter shape.quote shape.escape 32)
    { dialect with
      delimiter := [shape.delimiter]
      quote := [shape.quote]
      escape := [shape.escape]
      comment := if commentLine true text && !includes [shape.delimiter, 35] text then some (units "#") else none
      hasHeader := looksLikeHeader reading records
      nullLiteral := if records.any fun r => r.any fun v => v = units "\\N" then units "\\N" else [] }

theorem sniffUntrimmed (enc : EncodingGuess) (text : Text) : (sniff reading enc text).trim = false := by
  unfold sniff
  split <;> rfl

end Sniff

end DatabaseAdmin.CsvSniffing
