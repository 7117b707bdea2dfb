import Mathlib.Data.List.Basic

/-! Rows of fields as lines: fields between tabs, some units spelled with a backslash and a letter,
and a field that is absent as a backslash and N. -/
namespace DatabaseAdmin.EscapedLines

abbrev slash : Nat := 92
abbrev tab : Nat := 9
abbrev lineEnd : Nat := 10
abbrev absent : List Nat := [slash, 78]

structure Spelling where
  letter : Nat → Option Nat
  unit : Nat → Nat
  marked : ∀ c, c = slash ∨ c = tab ∨ c = lineEnd → (letter c).isSome = true
  back : ∀ {c l}, letter c = some l → unit l = c
  bare : ∀ {c l}, letter c = some l → l ≠ 78

namespace Spelling
variable (s : Spelling)

def escape (t : List Nat) : List Nat :=
  t.flatMap fun c => match s.letter c with
    | some l => [slash, l]
    | none => [c]

def writeField : Option (List Nat) → List Nat
  | none => absent
  | some t => s.escape t

def writeLine : List (Option (List Nat)) → List Nat
  | [] => [lineEnd]
  | [f] => s.writeField f ++ [lineEnd]
  | f :: g :: rest => s.writeField f ++ tab :: writeLine (g :: rest)

def writeLines (rows : List (List (Option (List Nat)))) : List Nat := rows.flatMap s.writeLine

def unescape : List Nat → List Nat
  | [] => []
  | c :: rest =>
    if c = slash then
      match rest with
      | [] => [slash]
      | l :: rest => s.unit l :: unescape rest
    else c :: unescape rest

def readField (raw : List Nat) : Option (List Nat) := if raw = absent then none else some (s.unescape raw)

end Spelling

structure Splitter where
  rows : List (List (List Nat))
  row : List (List Nat)
  raw : List Nat
  escaped : Bool

namespace Splitter

def step (p : Splitter) (c : Nat) : Splitter :=
  if p.escaped then { p with raw := p.raw ++ [c], escaped := false }
  else if c = slash then { p with raw := p.raw ++ [c], escaped := true }
  else if c = tab then { p with row := p.row ++ [p.raw], raw := [] }
  else if c = lineEnd then ⟨p.rows ++ [p.row ++ [p.raw]], [], [], false⟩
  else { p with raw := p.raw ++ [c] }

def read (p : Splitter) (t : List Nat) : Splitter := t.foldl step p

theorem readAppend (p : Splitter) (s t : List Nat) : p.read (s ++ t) = (p.read s).read t := List.foldl_append

def finish (p : Splitter) : List (List (List Nat)) :=
  if p.row = [] ∧ p.raw = [] then p.rows else p.rows ++ [p.row ++ [p.raw]]

end Splitter

namespace Spelling
variable (s : Spelling)

def readLines (t : List Nat) : List (List (Option (List Nat))) :=
  ((Splitter.read ⟨[], [], [], false⟩ t).finish).map fun row => row.map s.readField

theorem unescapePlain {c : Nat} (plain : c ≠ slash) (rest : List Nat) : s.unescape (c :: rest) = c :: s.unescape rest := by
  cases rest <;> simp [unescape, plain]

theorem unescapeEscape (t : List Nat) : s.unescape (s.escape t) = t := by
  induction t with
  | nil => rfl
  | cons c t ih =>
    rw [escape, List.flatMap_cons, ← escape]
    cases spelled : s.letter c with
    | some l =>
      show s.unit l :: s.unescape (s.escape t) = c :: t
      rw [s.back spelled, ih]
    | none =>
      have plain : c ≠ slash := fun same => by
        have some' := s.marked c (.inl same)
        rw [spelled] at some'
        contradiction
      show s.unescape (c :: s.escape t) = c :: t
      rw [unescapePlain s plain, ih]

theorem escapePlain {t : List Nat} (plain : ∀ c ∈ t, s.letter c = none) : s.escape t = t := by
  induction t with
  | nil => rfl
  | cons c t ih =>
    rw [escape, List.flatMap_cons, ← escape, ih fun d member => plain d (List.mem_cons_of_mem _ member),
      plain c List.mem_cons_self]
    rfl

theorem writeLineJoin (fields : List (Option (List Nat))) :
    s.writeLine fields = [tab].intercalate (fields.map s.writeField) ++ [lineEnd] := by
  induction fields with
  | nil => rfl
  | cons f fields ih =>
    cases fields with
    | nil => simp [writeLine]
    | cons g rest => simp [writeLine, ih, List.intercalate_cons_cons]

theorem escapePresent (t : List Nat) : s.escape t ≠ absent := by
  intro same
  cases t with
  | nil => contradiction
  | cons c t =>
    rw [escape, List.flatMap_cons] at same
    cases spelled : s.letter c with
    | some l =>
      simp only [spelled, List.cons_append, List.nil_append, List.cons.injEq] at same
      exact s.bare spelled same.2.1
    | none =>
      simp only [spelled, List.cons_append, List.nil_append, List.cons.injEq] at same
      have some' := s.marked c (.inl same.1)
      rw [spelled] at some'
      contradiction

theorem readWriteField (f : Option (List Nat)) : s.readField (s.writeField f) = f := by
  cases f with
  | none => rfl
  | some t => rw [readField, writeField, if_neg (s.escapePresent t), unescapeEscape]

theorem escapeRead (rows : List (List (List Nat))) (row : List (List Nat)) (raw t : List Nat) :
    Splitter.read ⟨rows, row, raw, false⟩ (s.escape t) = ⟨rows, row, raw ++ s.escape t, false⟩ := by
  induction t generalizing raw with
  | nil => simp [escape, Splitter.read]
  | cons c t ih =>
    rw [escape, List.flatMap_cons, ← escape]
    cases spelled : s.letter c with
    | some l =>
      have next := ih (raw ++ [slash, l])
      simpa [Splitter.read, Splitter.step, spelled] using next
    | none =>
      have plain : ¬(c = slash ∨ c = tab ∨ c = lineEnd) := fun special => by
        have some' := s.marked c special
        rw [spelled] at some'
        contradiction
      rw [not_or, not_or] at plain
      have next := ih (raw ++ [c])
      simpa [Splitter.read, Splitter.step, spelled, plain.1, plain.2.1, plain.2.2] using next

theorem fieldRead (rows : List (List (List Nat))) (row : List (List Nat)) (f : Option (List Nat)) :
    Splitter.read ⟨rows, row, [], false⟩ (s.writeField f) = ⟨rows, row, s.writeField f, false⟩ := by
  cases f with
  | none => rfl
  | some t => exact s.escapeRead rows row [] t

theorem lineRead (rows : List (List (List Nat))) (row : List (List Nat)) (fields : List (Option (List Nat)))
    (some' : fields ≠ []) :
    Splitter.read ⟨rows, row, [], false⟩ (s.writeLine fields) = ⟨rows ++ [row ++ fields.map s.writeField], [], [], false⟩ := by
  induction fields generalizing row with
  | nil => contradiction
  | cons f fields ih =>
    cases fields with
    | nil =>
      rw [writeLine, Splitter.readAppend, fieldRead]
      rfl
    | cons g rest =>
      have next := ih (row ++ [s.writeField f]) (by simp)
      rw [writeLine, Splitter.readAppend, fieldRead]
      show Splitter.read ⟨rows, row ++ [s.writeField f], [], false⟩ (s.writeLine (g :: rest)) = _
      rw [next]
      simp

theorem rawWritten (rows : List (List (Option (List Nat)))) (some' : ∀ row ∈ rows, row ≠ []) :
    (Splitter.read ⟨[], [], [], false⟩ (s.writeLines rows)).finish = rows.map fun row => row.map s.writeField := by
  have whole (before : List (List (List Nat))) : Splitter.read ⟨before, [], [], false⟩ (s.writeLines rows) =
      ⟨before ++ rows.map fun row => row.map s.writeField, [], [], false⟩ := by
    induction rows generalizing before with
    | nil => simp [writeLines, Splitter.read]
    | cons row rest ih =>
      have later := ih (fun row member => some' row (List.mem_cons_of_mem _ member))
      rw [writeLines, List.flatMap_cons, Splitter.readAppend, s.lineRead before [] row (some' row List.mem_cons_self),
        ← writeLines, later]
      simp
  rw [whole []]
  simp [Splitter.finish]

theorem readWritten (rows : List (List (Option (List Nat)))) (some' : ∀ row ∈ rows, row ≠ []) :
    s.readLines (s.writeLines rows) = rows := by
  rw [readLines, rawWritten s rows some']
  simp [Function.comp_def, readWriteField]

end Spelling

end DatabaseAdmin.EscapedLines
