import DatabaseAdmin.NullTexts
import DatabaseAdmin.Templates
import DatabaseAdmin.TemporalTexts

/-! The types guessed for the columns of a file, and whether the importer takes the fields they were
guessed from. -/
namespace DatabaseAdmin.InferredTypes
open CodeUnits SchemaModels WireCells CellCoercion CsvSniffing NullTexts TemporalTexts NumberTexts

section Bounds

def Below (a b : BaseType) : Prop :=
  a = .unknown ∨ a = b ∨ b = .string ∨ a = .integer ∧ (b = .bigint ∨ b = .decimal) ∨ a = .bigint ∧ b = .decimal ∨
    a = .date ∧ b = .timestamp

theorem mergeBelow (a b c : BaseType) : Below (mergeType a b) c ↔ Below a c ∧ Below b c := by
  unfold mergeType
  split
  · simp [*, Below]
  split
  · simp [*, Below]
  split
  · simp [*]
  dsimp only
  split
  · rename_i both
    simp only [List.mem_cons, List.not_mem_nil, or_false] at both
    split
    · unfold Below; grind
    · unfold Below; grind
  split
  · unfold Below; grind
  · unfold Below; grind

theorem belowAntisymm {a b : BaseType} (first : Below a b) (last : Below b a) : a = b := by
  unfold Below at first last
  grind

def merged (types : List BaseType) : BaseType := types.foldl mergeType .unknown

theorem mergedBelow (types : List BaseType) (c : BaseType) : Below (merged types) c ↔ ∀ t ∈ types, Below t c := by
  have fold (start : BaseType) : Below (types.foldl mergeType start) c ↔ Below start c ∧ ∀ t ∈ types, Below t c := by
    induction types generalizing start with
    | nil => simp
    | cons t types ih => rw [List.foldl_cons, ih, mergeBelow, List.forall_mem_cons, and_assoc]
  rw [merged, fold]
  exact ⟨And.right, fun all => ⟨Or.inl rfl, all⟩⟩

theorem belowSelf (a : BaseType) : Below a a := Or.inr (Or.inl rfl)

theorem mergedSame {types types' : List BaseType} (same : ∀ t, t ∈ types ↔ t ∈ types') : merged types = merged types' := by
  refine belowAntisymm ((mergedBelow _ _).mpr fun t member => ?_) ((mergedBelow _ _).mpr fun t member => ?_)
  · exact (mergedBelow _ _).mp (belowSelf (merged types')) t ((same t).mp member)
  · exact (mergedBelow _ _).mp (belowSelf (merged types)) t ((same t).mpr member)

inductive Kind where
  | numeric | truth | uuid | moment | clock | json | text
  deriving DecidableEq

def kindOf : BaseType → Kind
  | .integer | .bigint | .decimal => .numeric
  | .boolean => .truth
  | .uuid => .uuid
  | .date | .timestamp => .moment
  | .time => .clock
  | .json => .json
  | _ => .text

def topOf : Kind → BaseType
  | .numeric => .decimal
  | .truth => .boolean
  | .uuid => .uuid
  | .moment => .timestamp
  | .clock => .time
  | .json => .json
  | .text => .string

theorem kindBelow (t : BaseType) : Below t (topOf (kindOf t)) := by
  cases t <;> simp [kindOf, topOf, Below]

theorem belowKind {t : BaseType} {k : Kind} (typed : k ≠ .text) (below : Below t (topOf k)) : t = .unknown ∨ kindOf t = k := by
  cases k <;> simp only [topOf, Below] at below <;> grind [kindOf]

theorem kindUp {t u : BaseType} (some' : t ≠ .unknown) (below : Below t u) : u = .string ∨ kindOf t = kindOf u := by
  unfold Below at below
  grind [kindOf]

end Bounds

section Columns
variable (reading : Reading) (rows : List (List Text)) (nullLiteral : Text) (c : Nat)

def fieldsOf : List Text := rows.filterMap fun row => row[c]?

def seen : List Text := (fieldsOf rows c).filter fun raw => raw ≠ nullLiteral ∧ trim raw ≠ []

variable {rows nullLiteral c}

theorem seenMem {raw : Text} : raw ∈ seen rows nullLiteral c ↔ raw ∈ fieldsOf rows c ∧ raw ≠ nullLiteral ∧ trim raw ≠ [] := by
  simp [seen]

theorem inferredSome {raw : Text} (given : trim raw ≠ []) : inferValueType reading raw ≠ .unknown := by
  unfold inferValueType
  grind

variable (rows nullLiteral c)

theorem columnTypeIs : columnType reading rows nullLiteral c =
    if merged ((seen rows nullLiteral c).map (inferValueType reading)) = .unknown then .string
    else merged ((seen rows nullLiteral c).map (inferValueType reading)) := by
  refine congrArg (fun t : BaseType => if t = .unknown then .string else t) ?_
  unfold merged
  generalize BaseType.unknown = start
  induction rows generalizing start with
  | nil => rfl
  | cons row rows ih =>
    cases field : row[c]? with
    | none => simp [ih, seen, fieldsOf, field]
    | some raw =>
      by_cases passed : raw = nullLiteral ∨ trim raw = []
      · have out : ¬(raw ≠ nullLiteral ∧ trim raw ≠ []) := by tauto
        simp [ih, seen, fieldsOf, field, passed, out]
      · have kept : raw ≠ nullLiteral ∧ trim raw ≠ [] := by tauto
        simp [ih, seen, fieldsOf, field, kept]

def Column (k : Kind) : Prop :=
  seen rows nullLiteral c ≠ [] ∧ ∀ raw ∈ seen rows nullLiteral c, kindOf (inferValueType reading raw) = k

variable {rows nullLiteral c}

theorem mergedAbove {raw : Text} (member : raw ∈ seen rows nullLiteral c) :
    Below (inferValueType reading raw) (merged ((seen rows nullLiteral c).map (inferValueType reading))) :=
  (mergedBelow _ _).mp (belowSelf _) _ (List.mem_map_of_mem member)

theorem typeMerged {raw : Text} (member : raw ∈ seen rows nullLiteral c) :
    columnType reading rows nullLiteral c = merged ((seen rows nullLiteral c).map (inferValueType reading)) := by
  have some' := inferredSome reading (seenMem.mp member).2.2
  have below := mergedAbove reading member
  rw [columnTypeIs, if_neg]
  intro none
  rw [none] at below
  unfold Below at below
  grind

theorem typeAbove {raw : Text} (member : raw ∈ seen rows nullLiteral c) :
    Below (inferValueType reading raw) (columnType reading rows nullLiteral c) := by
  rw [typeMerged reading member]
  exact mergedAbove reading member

theorem inferredText {raw : Text} (text : kindOf (inferValueType reading raw) = .text) (given : trim raw ≠ []) :
    inferValueType reading raw = .string := by
  revert text
  unfold inferValueType
  grind [kindOf]

theorem typeKind (typed : columnType reading rows nullLiteral c ≠ .string) :
    Column reading rows nullLiteral c (kindOf (columnType reading rows nullLiteral c)) ∧
      kindOf (columnType reading rows nullLiteral c) ≠ .text := by
  have some' : seen rows nullLiteral c ≠ [] := by
    intro none
    rw [columnTypeIs, none] at typed
    exact typed rfl
  have kinds : ∀ raw ∈ seen rows nullLiteral c,
      kindOf (inferValueType reading raw) = kindOf (columnType reading rows nullLiteral c) := fun raw member =>
    (kindUp (inferredSome reading (seenMem.mp member).2.2) (typeAbove reading member)).resolve_left typed
  refine ⟨⟨some', kinds⟩, fun text => ?_⟩
  obtain ⟨raw, member⟩ := List.exists_mem_of_ne_nil _ some'
  have above := typeAbove reading member
  rw [inferredText reading ((kinds raw member).trans text) (seenMem.mp member).2.2] at above
  unfold Below at above
  grind

theorem kindType {k : Kind} (typed : k ≠ .text) (column : Column reading rows nullLiteral c k) :
    kindOf (columnType reading rows nullLiteral c) = k := by
  obtain ⟨raw, member⟩ := List.exists_mem_of_ne_nil _ column.1
  have top : Below (merged ((seen rows nullLiteral c).map (inferValueType reading))) (topOf k) := by
    refine (mergedBelow _ _).mpr fun t listed => ?_
    obtain ⟨value, inside, rfl⟩ := List.mem_map.mp listed
    rw [← column.2 value inside]
    exact kindBelow _
  have some' := inferredSome reading (seenMem.mp member).2.2
  have above := mergedAbove reading member
  rw [typeMerged reading member]
  refine (belowKind typed top).resolve_left fun none => ?_
  rw [none] at above
  unfold Below at above
  grind

theorem typesPermute {rows' : List (List Text)} (same : rows'.Perm rows) :
    inferColumnTypes reading rows' nullLiteral = inferColumnTypes reading rows nullLiteral := by
  have width (start : Nat) : rows'.foldl (fun width row => max width row.length) start =
      rows.foldl (fun width row => max width row.length) start :=
    same.foldl_eq' (fun x _ y _ z => by omega) start
  have column (c : Nat) : columnType reading rows' nullLiteral c = columnType reading rows nullLiteral c := by
    rw [columnTypeIs, columnTypeIs, mergedSame fun t => ?_]
    have fields := (same.filterMap fun row => row[c]?).filter fun raw => decide (raw ≠ nullLiteral ∧ trim raw ≠ [])
    exact (fields.map (inferValueType reading)).mem_iff
  rw [inferColumnTypes, inferColumnTypes, width]
  exact List.map_congr_left fun c _ => column c

end Columns

section Fields
variable (reading : Reading)

structure Guessed (raw : Text) (t : BaseType) : Prop where
  integer : t = .integer ∨ t = .bigint → reInteger (trim raw) = true
  decimal : t = .decimal → reDecimal (trim raw) = true
  boolean : t = .boolean → reading.toLowerCase (trim raw) = units "true" ∨ reading.toLowerCase (trim raw) = units "false"
  uuid : t = .uuid → reUuid (trim raw) = true
  timestamp : t = .timestamp → reTimestamp (trim raw) = true
  date : t = .date → reDate (trim raw) = true
  time : t = .time → reTime (trim raw) = true

theorem guessed (raw : Text) : Guessed reading raw (inferValueType reading raw) := by
  constructor <;> (unfold inferValueType; grind)

theorem integerDecimal {v : Text} (integer : reInteger v = true) : reDecimal v = true := by
  obtain ⟨given, all⟩ : unsigned v ≠ [] ∧ ∀ c ∈ unsigned v, isDigit c = true := by
    simpa [reInteger, digits] using integer
  have apart {c : Nat} (digit : isDigit c = true) : decide (c ≠ 101 ∧ c ≠ 69) = true := by
    have range : (48 : Nat) ≤ c ∧ c ≤ (57 : Nat) := by simpa [isDigit] using digit
    simp only [decide_eq_true_eq]
    omega
  have plain : ∀ c ∈ unsigned v, decide (c ≠ 101 ∧ c ≠ 69) = true := fun c member => apart (all c member)
  have whole : (unsigned v).takeWhile isDigit = unsigned v := List.takeWhile_eq_self_iff.mpr all
  have rest : (unsigned v).dropWhile isDigit = [] := List.dropWhile_eq_nil_iff.mpr all
  simp only [reDecimal, List.dropWhile_eq_nil_iff.mpr plain, List.takeWhile_eq_self_iff.mpr plain, reMantissa, whole, rest]
  simpa using given

theorem numberBack (n : Nat) : digitsValue (units (toString n)) = n := by
  have read : digitsValue (units (toString n)) = Nat.ofDigitChars 10 (Nat.toDigits 10 n) 0 := by
    rw [← Nat.toList_repr, digitsValue, units, List.foldl_map]
    rfl
  rw [read, Nat.ofDigitChars_ten_toDigits]

theorem integerValue {v : Text} (first : ∀ c ∈ v.head?, isDigit c = true) : integerOf v = digitsValue v := by
  have plus : v.head? ≠ some 43 := fun sign => absurd (first 43 sign) (by decide)
  have minus : v.head? ≠ some 45 := fun sign => absurd (first 45 sign) (by decide)
  simp only [integerOf, unsigned, plus, minus, or_self, if_false]
  rfl

theorem integerBack (n : Int) : integerOf (integerText n) = n := by
  have first (m : Nat) : ∀ c ∈ (units (toString m)).head?, isDigit c = true := fun c head =>
    (Templates.shownDigits m).2 c (List.mem_of_mem_head? head)
  cases n with
  | ofNat m =>
    have shown : integerText (Int.ofNat m) = units (toString m) := rfl
    rw [shown, integerValue (first m), numberBack]
    rfl
  | negSucc m =>
    have shown : integerText (Int.negSucc m) = 45 :: units (toString (m + 1)) := by
      show units ("-" ++ Nat.repr (m + 1)) = _
      rw [units, String.toList_append, List.map_append]
      rfl
    have value : integerOf (45 :: units (toString (m + 1))) = -(digitsValue (units (toString (m + 1))) : Int) := by
      simp [integerOf, unsigned, digitsValue]
    rw [shown, value, numberBack]
    rfl

end Fields

section Coercion
variable (withFormat : Text → Text → TemporalKind → Except String Text) (language : Reading)

def isoReading : Reading := { language with formatTemporal := formatTemporal withFormat }

structure Silent : Prop where
  lower : language.toLowerCase [] = []
  json : ∀ raw, trim raw = [] → language.jsonValid raw = false

def SameMoment (raw shown : Text) : Prop := ∃ p, isoParts raw = some p ∧ isoParts shown = some p

def Keeps (nullLiteral raw : Text) : Cell → Prop
  | .null => raw = nullLiteral
  | .string text => text = raw
  | .number n => reInteger (trim raw) = true ∧ n.finite = true ∧ integerOf n.text = integerOf (trim raw) ∧
      |integerOf (trim raw)| ≤ safeIntMax
  | .boolean value => language.toLowerCase (trim raw) = units (if value then "true" else "false")
  | .tagged tag v _ =>
      match tag with
      | .bigint => reInteger (trim raw) = true ∧ integerOf v = integerOf (trim raw)
      | .decimal | .uuid => v = trim raw
      | .date | .time | .timestamp | .timestamptz => SameMoment raw v
      | .json => v = raw
      | _ => False

variable (rows : List (List Text)) (nullLiteral : Text)

structure Coercible (width : Nat) : Prop where
  blank : ∀ c < width, ∀ k, k ≠ .text → Column language rows nullLiteral c k →
    ∀ raw ∈ fieldsOf rows c, trim raw = [] → raw = nullLiteral
  calendar : ∀ c < width, ∀ k, k = .moment ∨ k = .clock → Column language rows nullLiteral c k →
    ∀ raw ∈ seen rows nullLiteral c, ∀ p ∈ isoParts raw, validParts p = true
  json : ∀ c < width, Column language rows nullLiteral c .json →
    ∀ raw ∈ seen rows nullLiteral c, language.jsonValid raw = true

variable {rows nullLiteral} {dialect : CsvDialect} (line : Nat)

def entry (name : Text) (c : Nat) (t : BaseType) : ColumnMapping := ⟨c, name, some name, some t, none, none, some false⟩

theorem momentCoerced {raw : Text} {kind : TemporalKind} {p : TemporalParts} (read : isoParts raw = some p) :
    (isoReading withFormat language).formatTemporal raw none kind =
      if validParts p = true then .ok (temporalText kind p)
      else .error "is not an ISO date/time — set an explicit date format for this column" := by
  cases valid : validParts p <;>
    simp [isoReading, formatTemporal, parseIso, read, Option.filter, valid]

theorem blankFails (silent : Silent language) {raw : Text} (apart : raw ≠ dialect.nullLiteral) (empty : trim raw = [])
    (name : Text) (c : Nat) {t : BaseType} (typed : kindOf t ≠ .text) (cell : Cell) :
    coerceValue (isoReading withFormat language) raw (entry name c t) dialect line ≠ .ok cell := by
  have given : ¬(raw = [] ∧ dialect.nullLiteral = []) := fun both => apart (both.1.trans both.2.symm)
  have unread : isoParts raw = none := by
    rw [isoParts, empty]
    rfl
  have moment (kind : TemporalKind) : (isoReading withFormat language).formatTemporal raw none kind =
      .error "is not an ISO date/time — set an explicit date format for this column" := by
    simp [isoReading, formatTemporal, parseIso, unread]
  have lower : (isoReading withFormat language).toLowerCase [] = [] := silent.lower
  have json : (isoReading withFormat language).jsonValid raw = false := silent.json raw empty
  have words : ([] : Text) ∉ trueWords ∧ ([] : Text) ∉ falseWords := by decide
  have none : reInteger [] = false ∧ reDecimal [] = false ∧ reUuid [] = false := by decide
  simp only [coerceValue, entry, Option.getD_some, Option.getD_none, Bool.false_eq_true, if_false, apart, given, empty, lower,
    words.1, words.2, none.1, none.2.1, none.2.2, moment, json]
  cases t <;> simp [kindOf] at typed ⊢

theorem entryCoerced {raw : Text} (apart : raw ≠ dialect.nullLiteral) (name : Text) (c : Nat) {t : BaseType}
    (typed : kindOf t = .moment ∨ kindOf t = .clock ∨ kindOf t = .json) {cell : Cell}
    (made : coerceValue (isoReading withFormat language) raw (entry name c t) dialect line = .ok cell) :
    (t = .json → language.jsonValid raw = true) ∧ (t ≠ .json → ∀ p ∈ isoParts raw, validParts p = true) := by
  have given : ¬(raw = [] ∧ dialect.nullLiteral = []) := fun both => apart (both.1.trans both.2.symm)
  simp only [coerceValue, entry, Option.getD_some, Option.getD_none, Bool.false_eq_true, if_false, apart, given] at made
  constructor
  · rintro rfl
    by_contra invalid
    have json : (isoReading withFormat language).jsonValid raw = false := by simpa [isoReading] using invalid
    simp [json] at made
  · intro other p read
    by_contra invalid
    have failed (kind : TemporalKind) : (isoReading withFormat language).formatTemporal raw none kind =
        .error "is not an ISO date/time — set an explicit date format for this column" := by
      rw [momentCoerced withFormat language read, if_neg invalid]
    cases t <;> simp [kindOf, failed] at typed made other

theorem momentKept {raw : Text} {t : BaseType} (given : trim raw ≠ []) (covers : Below (inferValueType language raw) t)
    (typed : t = .date ∨ t = .time ∨ t = .timestamp) (calendar : ∀ p ∈ isoParts raw, validParts p = true) :
    ∃ kind shown, (isoReading withFormat language).formatTemporal raw none kind = .ok shown ∧ SameMoment raw shown ∧
      (t = .date ∧ kind = .date ∨ t = .time ∧ kind = .time ∨ t = .timestamp ∧ kind = .timestamp) := by
  have some' := inferredSome language given
  have facts := guessed language raw
  have made {kind : TemporalKind} {p : TemporalParts} (read : isoParts raw = some p) :
      (isoReading withFormat language).formatTemporal raw none kind = .ok (temporalText kind p) := by
    rw [momentCoerced withFormat language read, if_pos (calendar p read)]
  unfold Below at covers
  rcases typed with rfl | rfl | rfl
  · obtain ⟨p, read, spelled, plain⟩ := dayParts (facts.date (by simpa [some'] using covers))
    exact ⟨.date, _, made read, ⟨p, read, (dateTextRead spelled).trans (congrArg some plain.symm)⟩, Or.inl ⟨rfl, rfl⟩⟩
  · obtain ⟨p, read, spelled, plain⟩ := timeParts (facts.time (by simpa [some'] using covers))
    exact ⟨.time, _, made read, ⟨p, read, (timeTextRead spelled).trans (congrArg some plain.symm)⟩, Or.inr (Or.inl ⟨rfl, rfl⟩)⟩
  · have either : inferValueType language raw = .timestamp ∨ inferValueType language raw = .date := by
      simpa [some'] using covers
    obtain ⟨p, read, spelled⟩ : ∃ p, isoParts raw = some p ∧ Spelled p := by
      rcases either with whole | day
      · exact timestampParts (facts.timestamp whole)
      · obtain ⟨p, read, spelled, -⟩ := dayParts (facts.date day)
        exact ⟨p, read, spelled⟩
    exact ⟨.timestamp, _, made read, ⟨p, read, timestampTextRead spelled⟩, Or.inr (Or.inr ⟨rfl, rfl⟩)⟩

theorem valueKept {raw : Text} (apart : raw ≠ dialect.nullLiteral) (name : Text) (c : Nat) {t : BaseType}
    (typed : kindOf t ≠ .text) (given : trim raw ≠ []) (covers : Below (inferValueType language raw) t)
    (calendar : kindOf t = .moment ∨ kindOf t = .clock → ∀ p ∈ isoParts raw, validParts p = true)
    (json : t = .json → language.jsonValid raw = true) :
    ∃ cell, coerceValue (isoReading withFormat language) raw (entry name c t) dialect line = .ok cell ∧
      Keeps language dialect.nullLiteral raw cell := by
  have full : ¬(raw = [] ∧ dialect.nullLiteral = []) := fun both => apart (both.1.trans both.2.symm)
  have some' := inferredSome language given
  have facts := guessed language raw
  have whole (integer : reInteger (trim raw) = true) (t : BaseType) (typed : t = .integer ∨ t = .bigint) :
      ∃ cell, coerceValue (isoReading withFormat language) raw (entry name c t) dialect line = .ok cell ∧
        Keeps language dialect.nullLiteral raw cell := by
    by_cases large : integerOf (trim raw) > safeIntMax ∨ integerOf (trim raw) < -safeIntMax
    · refine ⟨.tagged .bigint (integerText (integerOf (trim raw))) none, ?_, integer, integerBack _⟩
      rcases typed with rfl | rfl <;> simp [coerceValue, entry, apart, full, integer, large]
    · refine ⟨.number ⟨integerText (integerOf (trim raw)), true⟩, ?_, integer, rfl, integerBack _, ?_⟩
      · rcases typed with rfl | rfl <;> simp [coerceValue, entry, apart, full, integer, large]
      · rw [abs_le]
        omega
  have moment (typed : t = .date ∨ t = .time ∨ t = .timestamp) :
      ∃ cell, coerceValue (isoReading withFormat language) raw (entry name c t) dialect line = .ok cell ∧
        Keeps language dialect.nullLiteral raw cell := by
    have valid := calendar (by rcases typed with rfl | rfl | rfl <;> simp [kindOf])
    obtain ⟨kind, shown, made, same, ⟨rfl, rfl⟩ | ⟨rfl, rfl⟩ | ⟨rfl, rfl⟩⟩ := momentKept withFormat language given covers typed valid
    · exact ⟨.tagged .date shown none, by simp [coerceValue, entry, apart, full, made], same⟩
    · exact ⟨.tagged .time shown none, by simp [coerceValue, entry, apart, full, made], same⟩
    · refine ⟨.tagged (if shown.getLast? = some 90 ∨ hasOffset shown then .timestamptz else .timestamp) shown none,
        by simp [coerceValue, entry, apart, full, made], ?_⟩
      split <;> exact same
  unfold Below at covers
  cases t with
  | integer => exact whole (facts.integer (Or.inl (by simpa [some'] using covers))) _ (Or.inl rfl)
  | bigint => exact whole (facts.integer (by simpa [some', or_comm] using covers)) _ (Or.inr rfl)
  | decimal =>
    have decimal : reDecimal (trim raw) = true := by
      have either : inferValueType language raw = .decimal ∨ inferValueType language raw = .integer ∨
          inferValueType language raw = .bigint := by simpa [some'] using covers
      rcases either with own | integer
      · exact facts.decimal own
      · exact integerDecimal (facts.integer integer)
    exact ⟨.tagged .decimal (trim raw) none, by simp [coerceValue, entry, apart, full, decimal], rfl⟩
  | boolean =>
    have words : units "true" ∈ trueWords ∧ units "false" ∉ trueWords ∧ units "false" ∈ falseWords := by decide
    rcases facts.boolean (by simpa [some'] using covers) with yes | no
    · have lower : (isoReading withFormat language).toLowerCase (trim raw) = units "true" := yes
      exact ⟨.boolean true, by simp [coerceValue, entry, apart, full, lower, words], yes⟩
    · have lower : (isoReading withFormat language).toLowerCase (trim raw) = units "false" := no
      exact ⟨.boolean false, by simp [coerceValue, entry, apart, full, lower, words], no⟩
  | uuid =>
    have uuid := facts.uuid (by simpa [some'] using covers)
    exact ⟨.tagged .uuid (trim raw) none, by simp [coerceValue, entry, apart, full, uuid], rfl⟩
  | json =>
    have valid : (isoReading withFormat language).jsonValid raw = true := json rfl
    exact ⟨.tagged .json raw none, by simp [coerceValue, entry, apart, full, valid], rfl⟩
  | date => exact moment (Or.inl rfl)
  | time => exact moment (Or.inr (Or.inl rfl))
  | timestamp => exact moment (Or.inr (Or.inr rfl))
  | _ => exact absurd rfl typed

theorem stringKept {raw : Text} (apart : raw ≠ dialect.nullLiteral) (name : Text) (c : Nat) :
    coerceValue (isoReading withFormat language) raw (entry name c .string) dialect line = .ok (.string raw) := by
  have given : ¬(raw = [] ∧ dialect.nullLiteral = []) := fun both => apart (both.1.trans both.2.symm)
  simp only [coerceValue, entry, Option.getD_some, Option.getD_none, Bool.false_eq_true, if_false, apart, given]

theorem typeAt (rows : List (List Text)) (nullLiteral : Text) (c : Nat) :
    (inferColumnTypes language rows nullLiteral)[c]?.getD .string = columnType language rows nullLiteral c := by
  rw [inferColumnTypes, List.getElem?_map]
  by_cases inside : c < rows.foldl (fun width row => max width row.length) 0
  · rw [List.getElem?_range inside]
    rfl
  · have empty : fieldsOf rows c = [] := by
      refine List.filterMap_eq_nil_iff.mpr fun row member => List.getElem?_eq_none ?_
      have := widthCovers member
      omega
    have out : (List.range (rows.foldl (fun width row => max width row.length) 0))[c]? = none := by simpa using inside
    rw [out, columnTypeIs, seen, empty]
    rfl

variable (rows nullLiteral) in
def Imported (headers : List Text) (dialect : CsvDialect) : Prop :=
  ∀ row ∈ rows, ∀ m ∈ defaultMapping headers (inferColumnTypes (isoReading withFormat language) rows nullLiteral),
    ∀ raw, row[m.sourceIndex]? = some raw → ∀ line,
      ∃ cell, coerceValue (isoReading withFormat language) raw m dialect line = .ok cell ∧ Keeps language nullLiteral raw cell

theorem importedEach {headers : List Text} : Imported withFormat language rows nullLiteral headers dialect ↔
    ∀ c name, headers[c]? = some name → ∀ raw ∈ fieldsOf rows c, ∀ line,
      ∃ cell, coerceValue (isoReading withFormat language) raw (entry name c (columnType language rows nullLiteral c)) dialect
        line = .ok cell ∧ Keeps language nullLiteral raw cell := by
  have own (name : Text) (c : Nat) : (⟨c, name, some name,
      some ((inferColumnTypes (isoReading withFormat language) rows nullLiteral)[c]?.getD .string), none, none, some false⟩ :
        ColumnMapping) = entry name c (columnType language rows nullLiteral c) := by
    rw [typeAt]
    rfl
  constructor
  · intro imported c name header raw field line
    obtain ⟨row, member, there⟩ := List.mem_filterMap.mp field
    have mapped : (⟨c, name, some name, some ((inferColumnTypes (isoReading withFormat language) rows nullLiteral)[c]?.getD
        .string), none, none, some false⟩ : ColumnMapping) ∈
        defaultMapping headers (inferColumnTypes (isoReading withFormat language) rows nullLiteral) :=
      List.mem_map.mpr ⟨(name, c), List.mem_zipIdx_iff_getElem?.mpr header, rfl⟩
    have kept := imported row member _ mapped raw there line
    rwa [own] at kept
  · intro each row member m mapped raw there line
    obtain ⟨⟨name, c⟩, listed, rfl⟩ := List.mem_map.mp mapped
    have kept := each c name (List.mem_zipIdx_iff_getElem?.mp listed) raw (List.mem_filterMap.mpr ⟨row, member, there⟩) line
    dsimp only
    rwa [own]

theorem inferredImported (silent : Silent language) (headers : List Text) (literal : dialect.nullLiteral = nullLiteral) :
    ((∀ rows', rows'.Perm rows → inferColumnTypes (isoReading withFormat language) rows' nullLiteral =
        inferColumnTypes (isoReading withFormat language) rows nullLiteral) ∧
      Imported withFormat language rows nullLiteral headers dialect) ↔
    Coercible language rows nullLiteral headers.length := by
  subst literal
  rw [importedEach]
  constructor
  · rintro ⟨-, each⟩
    have kept {c : Nat} (inside : c < headers.length) {raw : Text} (field : raw ∈ fieldsOf rows c) :=
      each c headers[c] (List.getElem?_eq_getElem inside) raw field 0
    have checked {c : Nat} (inside : c < headers.length) {k : Kind} (typed : k = .moment ∨ k = .clock ∨ k = .json)
        (column : Column language rows dialect.nullLiteral c k) {raw : Text} (member : raw ∈ seen rows dialect.nullLiteral c) :
        kindOf (columnType language rows dialect.nullLiteral c) = k ∧
          (columnType language rows dialect.nullLiteral c = .json → language.jsonValid raw = true) ∧
          (columnType language rows dialect.nullLiteral c ≠ .json → ∀ p ∈ isoParts raw, validParts p = true) := by
      have kind := kindType language (by rcases typed with rfl | rfl | rfl <;> decide) column
      obtain ⟨field, apart, -⟩ := seenMem.mp member
      obtain ⟨cell, made, -⟩ := kept inside field
      exact ⟨kind, entryCoerced withFormat language 0 apart headers[c] c (by rw [kind]; exact typed) made⟩
    refine ⟨fun c inside k typed column raw field empty => ?_, fun c inside k typed column raw member => ?_,
      fun c inside column raw member => ?_⟩
    · by_contra apart
      obtain ⟨cell, made, -⟩ := kept inside field
      exact blankFails withFormat language 0 silent apart empty headers[c] c (kindType language typed column ▸ typed) cell made
    · obtain ⟨kind, -, calendar⟩ := checked inside (by tauto) column member
      refine calendar fun json => ?_
      rw [json] at kind
      rcases typed with rfl | rfl <;> contradiction
    · obtain ⟨kind, json, -⟩ := checked inside (Or.inr (Or.inr rfl)) column member
      refine json ?_
      revert kind
      cases columnType language rows dialect.nullLiteral c <;> simp [kindOf]
  · intro fits
    refine ⟨fun rows' same => typesPermute _ same, fun c name header raw field line => ?_⟩
    have inside : c < headers.length := (List.getElem?_eq_some_iff.mp header).1
    by_cases null : raw = dialect.nullLiteral
    · exact ⟨.null, by simp [coerceValue, entry, null], null⟩
    by_cases string : columnType language rows dialect.nullLiteral c = .string
    · rw [string]
      exact ⟨.string raw, stringKept withFormat language line null name c, rfl⟩
    · obtain ⟨column, typed⟩ := typeKind language string
      have given : trim raw ≠ [] := fun empty => null (fits.blank c inside _ typed column raw field empty)
      have member := seenMem.mpr ⟨field, null, given⟩
      refine valueKept withFormat language line null name c typed given (typeAbove language member) (fun kind => ?_) fun json => ?_
      · exact fits.calendar c inside _ kind column raw member
      · rw [json] at column
        exact fits.json c inside column raw member

end Coercion

section Samples

def asciiLanguage : Reading where
  toLowerCase text := text.map lowerUnit
  stringify := id
  jsonValid text := trim text = units "[]"
  toNumber text := ⟨text, true⟩
  formatTemporal text _ _ := .ok text

def noFormat (_ _ : Text) (_ : TemporalKind) : Except String Text := .error "does not match the date format"

theorem asciiSilent : Silent asciiLanguage := by
  refine ⟨rfl, fun raw empty => ?_⟩
  simp only [asciiLanguage, empty]
  decide

def orders : List (List Text) := [[units "7", units "2024-02-29"], [units " 8.5", units "2024-03-01T9:05Z"]]

theorem ordersImported :
    ((∀ rows', rows'.Perm orders → inferColumnTypes (isoReading noFormat asciiLanguage) rows' [] =
        inferColumnTypes (isoReading noFormat asciiLanguage) orders []) ∧
      Imported noFormat asciiLanguage orders [] [units "amount", units "at"] defaultDialect) := by
  have given : ∀ c < 2, ∀ raw ∈ fieldsOf orders c, trim raw ≠ [] := by decide +kernel
  have valid : ∀ c < 2, ∀ raw ∈ seen orders [] c, (isoParts raw).all validParts = true := by decide +kernel
  have other : ∀ c < 2, ∃ raw ∈ seen orders [] c, kindOf (inferValueType asciiLanguage raw) ≠ .json := by decide +kernel
  refine (@inferredImported noFormat asciiLanguage orders [] defaultDialect asciiSilent [units "amount", units "at"] rfl).mpr
    ⟨fun c inside k _ _ raw field empty => ?_, fun c inside k _ _ raw member p read => ?_, fun c inside column => ?_⟩
  · exact absurd empty (given c inside raw field)
  · have checked := valid c inside raw member
    rw [read] at checked
    exact checked
  · obtain ⟨raw, member, differs⟩ := other c inside
    exact absurd (column.2 raw member) differs

-- A field of blanks is left out of the guess and then is no integer.
theorem blankRefused :
    ¬((∀ rows', rows'.Perm [[units "7"], [units "  "]] →
        inferColumnTypes (isoReading noFormat asciiLanguage) rows' [] =
          inferColumnTypes (isoReading noFormat asciiLanguage) [[units "7"], [units "  "]] []) ∧
      Imported noFormat asciiLanguage [[units "7"], [units "  "]] [] [units "amount"] defaultDialect) := by
  rintro ⟨-, imported⟩
  have types : inferColumnTypes (isoReading noFormat asciiLanguage) [[units "7"], [units "  "]] [] = [.integer] := by
    decide +kernel
  rw [Imported, types] at imported
  obtain ⟨cell, made, -⟩ := imported [units "  "] (by simp)
    ⟨0, units "amount", some (units "amount"), some .integer, none, none, some false⟩ (by simp [defaultMapping]) (units "  ") rfl 2
  have failed : (coerceValue (isoReading noFormat asciiLanguage) (units "  ")
      ⟨0, units "amount", some (units "amount"), some .integer, none, none, some false⟩ defaultDialect 2).toOption = none := by
    decide +kernel
  rw [made] at failed
  contradiction

end Samples

end DatabaseAdmin.InferredTypes
