import DatabaseAdmin.PgLoads

/-! The fields of a COPY stream against the parameters of an INSERT: a reader that follows the
server's rules for text format gives back what a parameter would have carried. -/
namespace DatabaseAdmin.CopyFields
open CodeUnits BinaryText WireCells EscapedLines LoadTables PgLoads

section Reader

def octalValue (c : CodeUnit) : Option Nat := if 48 ≤ c ∧ c ≤ 55 then some (c - 48) else none

def takeDigits (digit : CodeUnit → Option Nat) (base : Nat) : Nat → Nat → Text → Nat × Text
  | 0, value, t => (value, t)
  | _ + 1, value, [] => (value, [])
  | n + 1, value, c :: t => match digit c with
    | some d => takeDigits digit base n (base * value + d) t
    | none => (value, c :: t)

theorem takeShorter (digit : CodeUnit → Option Nat) (base n value : Nat) (t : Text) :
    (takeDigits digit base n value t).2.length ≤ t.length := by
  induction n generalizing value t with
  | zero => exact Nat.le_refl _
  | succ n ih =>
    cases t with
    | nil => exact Nat.le_refl _
    | cons c t =>
      rw [takeDigits]
      split
      · exact (ih _ t).trans (Nat.le_succ _)
      · exact Nat.le_refl _

def copyUnescape : Text → Text
  | [] => []
  | c :: rest =>
      if c = slash then
        match rest with
        | [] => []
        | l :: rest =>
            if (octalValue l).isSome then
              (takeDigits octalValue 8 3 0 (l :: rest)).1 % 256 :: copyUnescape (takeDigits octalValue 8 3 0 (l :: rest)).2
            else if l = 120 ∧ (rest.head?.bind hexValue).isSome then
              (takeDigits hexValue 16 2 0 rest).1 % 256 :: copyUnescape (takeDigits hexValue 16 2 0 rest).2
            else copyUnit l :: copyUnescape rest
      else c :: copyUnescape rest
  termination_by t => t.length
  decreasing_by
  · exact Nat.lt_succ_of_le (takeShorter octalValue 8 3 0 (l :: rest))
  · exact (takeShorter hexValue 16 2 0 rest).trans_lt (Nat.lt_add_of_pos_right Nat.two_pos)
  · exact Nat.lt_add_of_pos_right Nat.two_pos
  · exact Nat.lt_succ_self _

def readCopyField (raw : Text) : Option Text := if raw = absent then none else some (copyUnescape raw)

def copyLines (t : Text) : List (List (Option Text)) :=
  ((Splitter.read ⟨[], [], [], false⟩ t).finish.takeWhile (· ≠ [units "\\."])).map fun row => row.map readCopyField

end Reader

section Claims

def boundText : Param → Option Text
  | .null => none
  | .boolean value => some (units (if value then "true" else "false"))
  | .number n => some n.text
  | .text t => some t
  | .buffer bytes => some (units "\\x" ++ hexText bytes)

def Octets {β : Type} (read : Input → Option β) : Prop :=
  ∀ bytes, read (.text (units "\\x" ++ hexText bytes)) = read (.binary bytes)

def StoredAlike (cell : Cell) : Prop :=
  ∀ (β : Type) (read : Input → Option β), Octets read →
    read (copied (readCopyField (pgCopyField cell))) = read (sent (pgParam cell))

structure Faithful (cell : Cell) : Prop where
  unbroken : ∀ c ∈ pgCopyField cell, c ≠ tab ∧ c ≠ lineEnd ∧ c ≠ 13
  bound : readCopyField (pgCopyField cell) = boundText (pgParam cell)
  alike : StoredAlike cell

def Encoded (rows : List WireRow) : Prop :=
  (∀ row ∈ rows, ∀ cell ∈ row, Faithful cell.1) ∧
    copyLines (rows.flatMap copyLine) = rows.map fun row => row.map fun cell => readCopyField (pgCopyField cell.1)

def Common : Cell → Prop
  | .boolean _ => False
  | .number n => n.finite = false → n.text = units "NaN"
  | _ => True

end Claims

section Fields

theorem slashUnescape {l : CodeUnit} (octal : octalValue l = none) (hex : l ≠ 120) (rest : Text) :
    copyUnescape (slash :: l :: rest) = copyUnit l :: copyUnescape rest := by
  conv_lhs => unfold copyUnescape
  simp [octal, hex]

theorem plainUnescape {c : CodeUnit} (plain : c ≠ slash) (rest : Text) : copyUnescape (c :: rest) = c :: copyUnescape rest := by
  conv_lhs => unfold copyUnescape
  simp [plain]

theorem letterBare {c l : CodeUnit} (spelled : copyLetter c = some l) :
    octalValue l = none ∧ l ≠ 120 ∧ l ≠ 46 ∧ l ≠ 9 ∧ l ≠ 10 ∧ l ≠ 13 := by
  unfold copyLetter at spelled
  split_ifs at spelled <;> cases spelled <;> decide

theorem unescapeCopied (t : Text) : copyUnescape (escapeCopyText t) = t := by
  induction t with
  | nil =>
    show copyUnescape [] = []
    unfold copyUnescape
    rfl
  | cons c t ih =>
    rw [escapeCopyText, List.flatMap_cons, ← escapeCopyText]
    cases spelled : copyLetter c with
    | some l =>
      have bare := letterBare spelled
      show copyUnescape (slash :: l :: escapeCopyText t) = c :: t
      rw [slashUnescape bare.1 bare.2.1, ih]
      exact congrArg (· :: t) (copySpelling.back spelled)
    | none =>
      have plain : c ≠ slash := fun same => by
        have some' := copySpelling.marked c (.inl same)
        exact absurd (show (copyLetter c).isSome = true from some') (by simp [spelled])
      show copyUnescape (c :: escapeCopyText t) = c :: t
      rw [plainUnescape plain, ih]

theorem escapedUnits (t : Text) : ∀ c ∈ escapeCopyText t, c ≠ tab ∧ c ≠ lineEnd ∧ c ≠ 13 := by
  intro c member
  obtain ⟨d, -, inside⟩ := List.mem_flatMap.mp member
  cases spelled : copyLetter d with
  | some l =>
    have bare := letterBare spelled
    simp only [spelled, List.mem_cons, List.not_mem_nil, or_false] at inside
    rcases inside with rfl | rfl
    · decide
    · exact bare.2.2.2
  | none =>
    simp only [spelled, List.mem_singleton] at inside
    subst inside
    refine ⟨?_, ?_, ?_⟩ <;> rintro rfl <;> contradiction

theorem textRead (t : Text) : readCopyField (escapeCopyText t) = some t := by
  have present : escapeCopyText t ≠ absent := copySpelling.escapePresent t
  rw [readCopyField, if_neg present, unescapeCopied]

theorem fieldRead (cell : { cell : Cell // Spelled cell }) : readCopyField (pgCopyField cell.1) = copyField cell.1 := by
  rw [fieldWritten]
  cases copyField cell.1 with
  | none => rfl
  | some t => exact textRead t

theorem fieldUnits (cell : { cell : Cell // Spelled cell }) : ∀ c ∈ pgCopyField cell.1, c ≠ tab ∧ c ≠ lineEnd ∧ c ≠ 13 := by
  rw [fieldWritten]
  cases copyField cell.1 with
  | none => decide
  | some t => exact escapedUnits t

theorem fieldGoes (cell : { cell : Cell // Spelled cell }) : pgCopyField cell.1 ≠ units "\\." := by
  have shape : units "\\." = [92, 46] := rfl
  rw [fieldWritten, shape]
  cases copyField cell.1 with
  | none => decide
  | some t =>
    intro same
    have back := textRead t
    rw [show escapeCopyText t = [92, 46] from same] at back
    cases t with
    | nil => contradiction
    | cons c t =>
      rw [show copySpelling.writeField (some (c :: t)) = escapeCopyText (c :: t) from rfl, escapeCopyText, List.flatMap_cons] at same
      cases spelled : copyLetter c with
      | some l =>
        simp only [spelled, List.cons_append, List.nil_append, List.cons.injEq] at same
        exact (letterBare spelled).2.2.1 same.2.1
      | none =>
        simp only [spelled, List.cons_append, List.nil_append, List.cons.injEq] at same
        rw [same.1] at spelled
        contradiction

theorem faithfulCommon (cell : { cell : Cell // Spelled cell }) : Faithful cell.1 ↔ Common cell.1 := by
  have units' := fieldUnits cell
  have read := fieldRead cell
  obtain ⟨cell, spelled⟩ := cell
  constructor
  · intro faithful
    have bound := faithful.bound
    rw [read] at bound
    cases cell with
    | boolean value => cases value <;> exact absurd (Option.some.inj bound) (by decide)
    | number n =>
      intro infinite
      simp only [copyField, infinite, pgParam, boundText, Option.some.injEq] at bound
      exact bound.symm
    | _ => trivial
  · intro common
    refine ⟨units', ?_, fun β column octets => ?_⟩
    · rw [read]
      cases cell with
      | boolean value => exact common.elim
      | number n =>
        cases finite : n.finite with
        | true => simp [copyField, finite, pgParam, boundText]
        | false => simp [copyField, finite, pgParam, boundText, common finite]
      | tagged tag v of => cases tag <;> rfl
      | _ => rfl
    · rw [read]
      cases cell with
      | boolean value => exact common.elim
      | number n =>
        cases finite : n.finite with
        | true => simp [copyField, finite, copied, pgParam, sent]
        | false => simp [copyField, finite, copied, pgParam, sent, common finite]
      | tagged tag v of =>
        cases tag with
        | bytes => exact octets _
        | _ => rfl
      | _ => rfl

end Fields

section Streams
variable (table : LoadTable)

theorem streamRead {rows : List WireRow} (wide : Wide table rows) :
    copyLines (rows.flatMap copyLine) = rows.map fun row => row.map fun cell => readCopyField (pgCopyField cell.1) := by
  have stream : rows.flatMap copyLine = copySpelling.writeLines (rows.map fun row => row.map fun cell => copyField cell.1) := by
    rw [Spelling.writeLines, List.flatMap_map]
    exact congrArg (rows.flatMap ·) (funext lineWritten)
  have some' : ∀ fields ∈ rows.map (fun row => row.map fun cell => copyField cell.1), fields ≠ [] := by
    refine List.forall_mem_map.mpr fun row member => List.length_pos_iff.mp ?_
    rw [List.length_map, wide row member]
    exact List.length_pos_iff.mpr table.mapped
  have raw : rows.map ((fun fields => fields.map copySpelling.writeField) ∘ fun row => row.map fun cell => copyField cell.1) =
      rows.map fun row => row.map fun cell => pgCopyField cell.1 := by
    refine List.map_congr_left fun row _ => ?_
    simp [Function.comp_def, fieldWritten]
  have goes : ∀ fields ∈ rows.map fun row => row.map fun cell => pgCopyField cell.1, decide (fields ≠ [units "\\."]) = true := by
    refine List.forall_mem_map.mpr fun row _ => decide_eq_true fun same => ?_
    obtain ⟨cell, rest, rfl⟩ := List.exists_cons_of_ne_nil (show row ≠ [] by rintro rfl; contradiction)
    exact fieldGoes cell (List.cons.inj same).1
  rw [copyLines, stream, copySpelling.rawWritten _ some', List.map_map, raw, List.takeWhile_eq_self_iff.mpr goes, List.map_map]
  simp [Function.comp_def]

theorem copiedAsBound (table : LoadTable) {rows : List WireRow} (wide : Wide table rows) :
    Encoded rows ↔ ∀ row ∈ rows, ∀ cell ∈ row, Common cell.1 := by
  rw [Encoded, and_iff_left (streamRead table wide)]
  exact forall₂_congr fun row _ => forall₂_congr fun cell _ => faithfulCommon cell

section Examples

def paddedRow : WireRow := [⟨.null, trivial⟩, ⟨.string (units "\\N\ta"), trivial⟩, ⟨bytesCell [1, 255], trivial⟩]

def threeColumns : LoadTable := ⟨none, units "t", [units "a", units "b", units "c"], [], [], by decide⟩

theorem paddedEncoded : Encoded [paddedRow, paddedRow] :=
  (copiedAsBound threeColumns (by simp [Wide, paddedRow, threeColumns])).mpr (by simp [-Subtype.forall, paddedRow, Common, bytesCell])

-- An infinite number is copied as one that is not a number.
theorem infinityLost : ¬∀ (table : LoadTable) (rows : List WireRow), Wide table rows → Encoded rows := by
  intro encoded
  have infinite : Spelled (.number ⟨units "Infinity", false⟩) := ⟨by decide, by decide⟩
  have row := encoded ⟨none, units "t", [units "x"], [], [], by decide⟩ [[⟨_, infinite⟩]] (by simp [Wide])
  have same := (row.1 _ List.mem_cons_self _ List.mem_cons_self).bound
  have copied : readCopyField (pgCopyField (.number ⟨units "Infinity", false⟩)) = some (units "NaN") := fieldRead ⟨_, infinite⟩
  rw [copied] at same
  exact absurd (Option.some.inj same) (by decide)

end Examples

end Streams

end DatabaseAdmin.CopyFields
