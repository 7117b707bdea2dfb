import Mathlib.Data.List.Basic

/-! Records of fields as delimited text. A field that could be misread stands between quotes, a
quote inside is doubled, and an empty line is no record. -/
namespace DatabaseAdmin.DelimitedText

abbrev mark : Nat := 34
abbrev lineEnd : Nat := 10

section Writing
variable (delimiter : Nat)

def special (c : Nat) : Bool := c = delimiter || c = mark || c = lineEnd || c = 13

def doubled (t : List Nat) : List Nat := t.flatMap fun c => if c = mark then [mark, mark] else [c]

def writeField : Option (List Nat) → List Nat
  | none => []
  | some t => if t = [] || t.any (special delimiter) then mark :: (doubled t ++ [mark]) else t

def writeRecord : List (Option (List Nat)) → List Nat
  | [] => [lineEnd]
  | [f] => writeField delimiter f ++ [lineEnd]
  | f :: g :: rest => writeField delimiter f ++ delimiter :: writeRecord (g :: rest)

def writeRecords (records : List (List (Option (List Nat)))) : List Nat := records.flatMap (writeRecord delimiter)

end Writing

inductive Mode where
  | start | bare | quoted | closed
  deriving DecidableEq

structure Reader where
  records : List (List (List Nat))
  record : List (List Nat)
  field : List Nat
  mode : Mode

namespace Reader

def push (r : Reader) (c : Nat) (mode : Mode) : Reader := { r with field := r.field ++ [c], mode := mode }

def endField (r : Reader) : Reader := { r with record := r.record ++ [r.field], field := [], mode := .start }

def endRecord (r : Reader) : Reader := ⟨r.records ++ [r.record ++ [r.field]], [], [], .start⟩

def step (delimiter : Nat) (r : Reader) (c : Nat) : Reader :=
  match r.mode with
  | .start =>
    if c = mark then { r with mode := .quoted }
    else if c = delimiter then r.endField
    else if c = lineEnd then if r.record = [] then r else r.endRecord
    else r.push c .bare
  | .bare => if c = delimiter then r.endField else if c = lineEnd then r.endRecord else r.push c .bare
  | .quoted => if c = mark then { r with mode := .closed } else r.push c .quoted
  | .closed =>
    if c = mark then r.push c .quoted
    else if c = delimiter then r.endField
    else if c = lineEnd then r.endRecord
    else r.push c .bare

def read (delimiter : Nat) (r : Reader) (t : List Nat) : Reader := t.foldl (step delimiter) r

theorem readAppend (delimiter : Nat) (r : Reader) (s t : List Nat) :
    r.read delimiter (s ++ t) = (r.read delimiter s).read delimiter t := List.foldl_append

def finish (r : Reader) : List (List (List Nat)) :=
  if r.record = [] ∧ r.mode = .start then r.records else r.endRecord.records

end Reader

def readRecords (delimiter : Nat) (t : List Nat) : List (List (List Nat)) := (Reader.read delimiter ⟨[], [], [], .start⟩ t).finish

section RoundTrip
variable {delimiter : Nat}

theorem quotedRead (records : List (List (List Nat))) (record : List (List Nat)) (field t : List Nat) :
    Reader.read delimiter ⟨records, record, field, .quoted⟩ (doubled t) = ⟨records, record, field ++ t, .quoted⟩ := by
  induction t generalizing field with
  | nil => simp [doubled, Reader.read]
  | cons c t ih =>
    have next := ih (field ++ [c])
    rw [List.append_assoc, List.singleton_append] at next
    by_cases quote : c = mark
    · subst quote
      simpa [doubled, Reader.read, Reader.step, Reader.push] using next
    · simpa [doubled, Reader.read, Reader.step, Reader.push, quote] using next

theorem bareRead (records : List (List (List Nat))) (record : List (List Nat)) (field t : List Nat)
    (plain : ∀ c ∈ t, special delimiter c = false) :
    Reader.read delimiter ⟨records, record, field, .bare⟩ t = ⟨records, record, field ++ t, .bare⟩ := by
  induction t generalizing field with
  | nil => simp [Reader.read]
  | cons c t ih =>
    have next := ih (field ++ [c]) fun d member => plain d (List.mem_cons_of_mem _ member)
    have here := plain c List.mem_cons_self
    simp only [special, Bool.or_eq_false_iff, decide_eq_false_iff_not] at here
    rw [List.append_assoc, List.singleton_append] at next
    simpa [Reader.read, Reader.step, Reader.push, here.1.1.1, here.1.2] using next

def Ended : Option (List Nat) → Mode → Prop
  | none, mode => mode = .start
  | some _, mode => mode = .bare ∨ mode = .closed

theorem fieldRead (records : List (List (List Nat))) (record : List (List Nat)) (f : Option (List Nat)) :
    ∃ mode, Ended f mode ∧ Reader.read delimiter ⟨records, record, [], .start⟩ (writeField delimiter f) =
      ⟨records, record, f.getD [], mode⟩ := by
  cases f with
  | none => exact ⟨.start, rfl, rfl⟩
  | some t =>
    by_cases needs : (t = [] || t.any (special delimiter)) = true
    · refine ⟨.closed, .inr rfl, ?_⟩
      have inner := @quotedRead delimiter records record [] t
      simp only [writeField, needs, if_true]
      show Reader.read delimiter ⟨records, record, [], .quoted⟩ (doubled t ++ [mark]) = _
      rw [Reader.readAppend, inner]
      simp [Reader.read, Reader.step]
    · refine ⟨.bare, .inl rfl, ?_⟩
      rw [Bool.not_eq_true, Bool.or_eq_false_iff, decide_eq_false_iff_not, List.any_eq_false] at needs
      obtain ⟨some', plain⟩ := needs
      cases t with
      | nil => contradiction
      | cons c t =>
        have here := plain c List.mem_cons_self
        have rest := bareRead records record [c] t fun d member => by
          simpa using plain d (List.mem_cons_of_mem _ member)
        simp only [special, Bool.or_eq_true, decide_eq_true_eq, not_or] at here
        have none' : (c :: t).any (special delimiter) = false :=
          List.any_eq_false.mpr plain
        simp only [writeField, none', Bool.or_false, reduceCtorEq, decide_false, Bool.false_eq_true, if_false]
        show Reader.read delimiter (Reader.step delimiter ⟨records, record, [], .start⟩ c) t = _
        simpa [Reader.step, Reader.push, here.1.1.1, here.1.1.2, here.1.2] using rest

variable (apart : delimiter ≠ mark ∧ delimiter ≠ lineEnd)
include apart

theorem endedSome {t : List Nat} {mode : Mode} (ended : Ended (some t) mode) (r : Reader) (reached : r.mode = mode) :
    r.step delimiter delimiter = r.endField ∧ r.step delimiter lineEnd = r.endRecord := by
  rcases ended with bare | closed
  · simp [Reader.step, reached, bare, Ne.symm apart.2]
  · simp [Reader.step, reached, closed, apart.1, Ne.symm apart.2, mark, lineEnd]

theorem recordRead (records : List (List (List Nat))) (record : List (List Nat)) (fields : List (Option (List Nat)))
    (some' : fields ≠ []) :
    Reader.read delimiter ⟨records, record, [], .start⟩ (writeRecord delimiter fields) =
      ⟨if record = [] ∧ fields = [none] then records else records ++ [record ++ fields.map (·.getD [])], [], [], .start⟩ := by
  induction fields generalizing record with
  | nil => contradiction
  | cons f fields ih =>
    obtain ⟨mode, ended, read⟩ := @fieldRead delimiter records record f
    cases fields with
    | nil =>
      rw [writeRecord, Reader.readAppend, read]
      simp only [Reader.read, List.foldl_cons, List.foldl_nil]
      cases f with
      | none =>
        cases ended
        by_cases first : record = [] <;>
          simp [Reader.step, Reader.endRecord, first, Ne.symm apart.2, mark, lineEnd]
      | some t =>
        have last := (endedSome apart ended ⟨records, record, t, mode⟩ rfl).2
        simp [last, Reader.endRecord]
    | cons g rest =>
      have next := ih (record ++ [f.getD []]) (by simp)
      rw [writeRecord, Reader.readAppend, read]
      simp only [Reader.read, List.foldl_cons] at next ⊢
      have between : Reader.step delimiter ⟨records, record, f.getD [], mode⟩ delimiter =
          ⟨records, record ++ [f.getD []], [], .start⟩ := by
        cases f with
        | none =>
          cases ended
          simp [Reader.step, Reader.endField, apart.1]
        | some t => exact (endedSome apart ended ⟨records, record, t, mode⟩ rfl).1
      rw [between, next]
      simp

theorem readWritten (records : List (List (Option (List Nat)))) (some' : ∀ r ∈ records, r ≠ []) :
    readRecords delimiter (writeRecords delimiter records) =
      (records.filter (· ≠ [none])).map fun r => r.map (·.getD []) := by
  have whole (before : List (List (List Nat))) : Reader.read delimiter ⟨before, [], [], .start⟩ (writeRecords delimiter records) =
      ⟨before ++ (records.filter (· ≠ [none])).map fun r => r.map (·.getD []), [], [], .start⟩ := by
    induction records generalizing before with
    | nil => simp [writeRecords, Reader.read]
    | cons r rest ih =>
      have first := recordRead apart before [] r (some' r List.mem_cons_self)
      have later := ih (fun r member => some' r (List.mem_cons_of_mem _ member))
      rw [writeRecords, List.flatMap_cons, Reader.readAppend, first, ← writeRecords, later]
      by_cases blank : r = [none] <;> simp [blank]
  rw [readRecords, whole []]
  simp [Reader.finish]

end RoundTrip

end DatabaseAdmin.DelimitedText
