import DatabaseAdmin.Patterns
import DatabaseAdmin.SqlDialect
import Mathlib.Data.List.Sort
import Mathlib.Data.List.Nodup
import Mathlib.Data.List.Perm.Subperm

/-! A directory of delimited files, one a table: the file names the export gives its sources, and
the tables the import reads out of them. -/
namespace DatabaseAdmin.DirectoryBundles

open CodeUnits Patterns

structure Source where
  schema : Option Text
  table : Text
  deriving DecidableEq

structure Address where
  schema : Option Text
  table : Text
  deriving DecidableEq

def addressOf (s : Source) : Address := ⟨s.schema.filter (· ≠ []), s.table⟩

def sourceLabel (s : Source) : Text :=
  match (addressOf s).schema with
  | some schema => schema ++ units "." ++ s.table
  | none => s.table

def isStemUnit (c : CodeUnit) : Bool :=
  (65 ≤ c && c ≤ 90) || (97 ≤ c && c ≤ 122) || isDigit c || c == '.' || c == '_' || c == '-'

def sanitizeFileStem (label : Text) : Text :=
  let cleaned := (replaceAll (oneOrMore (.one fun c => !isStemUnit c)) (units "_") label).dropWhile (· == 46)
  if 0 < cleaned.length then cleaned.take 120 else units "export"

def candidate (base : Text) (n : Nat) : Text := base ++ units "-" ++ (Nat.toDigits 10 n).map Char.toNat

def firstFree (used : List Text) (base : Text) : Nat → Nat → Option Text
  | 0, _ => none
  | fuel + 1, n => if candidate base n ∈ used then firstFree used base fuel (n + 1) else some (candidate base n)

def uniqueStem (used : List Text) (label : Text) : Text :=
  let base := sanitizeFileStem label
  if base ∉ used then base else (firstFree used base (used.length + 1) 2).getD base

def exportFrom (used : List Text) : List Source → List (Text × Source)
  | [] => []
  | s :: rest =>
    let stem := uniqueStem used (sourceLabel s)
    (stem, s) :: exportFrom (stem :: used) rest

def exportDirectory (sources : List Source) : List (Text × Source) := exportFrom [] sources

inductive DelimitedFormat where
  | csv | tsv
  deriving DecidableEq

def fileExtension : DelimitedFormat → Text
  | .csv => units "csv"
  | .tsv => units "tsv"

def fileName (format : DelimitedFormat) (stem : Text) : Text := stem ++ units "." ++ fileExtension format

def incompleteMarker : Text := units ".dbadmin-incomplete"

inductive EntryKind where
  | file | symbolicLink | other
  deriving DecidableEq

structure Entry where
  name : Text
  kind : EntryKind
  deriving DecidableEq

structure BundleMember where
  path : Text
  table : Text
  schema : Option Text
  deriving DecidableEq

structure DbError where
  message : Text
  code : String

def lastDot (t : Text) : Option Nat := (indexOf ['.'] t.reverse).map (t.length - 1 - ·)

-- `path.extname` of a name without a slash.
def extname (name : Text) : Text :=
  match lastDot name with
  | none => []
  | some i => if i = 0 ∨ name = units ".." then [] else name.drop i

-- `toLowerCase` as far as the result is ASCII.
def toLowerCase (t : Text) : Text := t.map lowerUnit

def isDelimited (ext : Text) : Bool := decide (ext = units ".csv" ∨ ext = units ".tsv")

def isCompressedData (name : Text) : Bool :=
  let lower := toLowerCase name
  let wrapper := extname lower
  if wrapper ≠ units ".gz" ∧ wrapper ≠ units ".zst" ∧ wrapper ≠ units ".bz2" then false
  else isDelimited (extname (lower.take (lower.length - wrapper.length)))

def readStem (stem : Text) : Address :=
  match lastDot stem with
  | none => ⟨none, stem⟩
  | some cut => if cut = 0 ∨ cut = stem.length - 1 then ⟨none, stem⟩ else ⟨some (stem.take cut), stem.drop (cut + 1)⟩

def tableNameFor (name : Text) : Option Address :=
  let ext := toLowerCase (extname name)
  if !isDelimited ext then none
  else
    let stem := name.take (name.length - ext.length)
    if stem = [] then none else some (readStem stem)

def joinPath (dir name : Text) : Text := dir ++ units "/" ++ name

def conflict (previous name table : Text) : DbError :=
  ⟨units "\"" ++ previous ++ units "\" and \"" ++ name ++ units "\" would both load into the table \"" ++ table ++
    units "\". Rename one, or move it out of the directory.", "BUNDLE_CONFLICT"⟩

def incomplete (dir : Text) : DbError :=
  ⟨dir ++ units " is marked incomplete: the export that wrote it did not finish, so some tables are missing. Re-run the export, or delete " ++
    incompleteMarker ++ units " to import it anyway.", "INCOMPLETE_BUNDLE"⟩

def compressedRefused (names : List Text) : DbError :=
  ⟨units "Cannot import compressed files: " ++ (units ", ").intercalate names ++
    units ". A bundle import reads plain CSV/TSV — decompress the folder first, or re-export it without gzip.",
    "COMPRESSED_BUNDLE"⟩

def emptyRefused (dir : Text) : DbError :=
  ⟨units "No CSV or TSV files in " ++ dir ++
    units ". A bundle import loads one file per table, so point it at a directory an export wrote.", "EMPTY_BUNDLE"⟩

def collect (dir : Text) : List (Text × Text) → List Entry → Except DbError (List BundleMember × List Text)
  | _, [] => .ok ([], [])
  | seen, entry :: rest =>
    if entry.kind = .other then collect dir seen rest
    else if isCompressedData entry.name then do
      let (members, compressed) ← collect dir seen rest
      .ok (members, entry.name :: compressed)
    else
      match tableNameFor entry.name with
      | none => collect dir seen rest
      | some address =>
        match seen.lookup address.table with
        | some previous => .error (conflict previous entry.name address.table)
        | none => do
          let (members, compressed) ← collect dir ((address.table, entry.name) :: seen) rest
          .ok (⟨joinPath dir entry.name, address.table, address.schema⟩ :: members, compressed)

def sortText (names : List Text) : List Text := names.insertionSort fun a b => ¬b < a

def bundleMembers (dir : Text) (entries : List Entry) : Except DbError (List BundleMember) :=
  if entries.any fun e => e.kind = .file ∧ e.name = incompleteMarker then .error (incomplete dir)
  else do
    let (members, compressed) ← collect dir [] entries
    if 0 < compressed.length then .error (compressedRefused (sortText compressed))
    else if members.length = 0 then .error (emptyRefused dir)
    else .ok (members.insertionSort fun a b => ¬b.table < a.table)

structure MemberTarget where
  path : Text
  address : Address
  deriving DecidableEq

def bundleMemberOverrides (targetSchema : Option Text) (m : BundleMember) : MemberTarget :=
  ⟨m.path, targetSchema <|> m.schema, m.table⟩

def entryOf (format : DelimitedFormat) (stem : Text) : Entry := ⟨fileName format stem, .file⟩

def memberOf (dir : Text) (format : DelimitedFormat) (stem : Text) : BundleMember :=
  ⟨joinPath dir (fileName format stem), (readStem stem).table, (readStem stem).schema⟩

def Restores (dir : Text) (format : DelimitedFormat) (sources : List Source) :
    Except DbError (List BundleMember) → Prop
  | .error _ => True
  | .ok members => (members.map (bundleMemberOverrides none)).Perm
      ((exportDirectory sources).map fun x => ⟨joinPath dir (fileName format x.1), addressOf x.2⟩)

def Separated (s : Source) : Prop :=
  match (addressOf s).schema with
  | some _ => s.table ≠ [] ∧ 46 ∉ s.table
  | none => ∀ i ∈ lastDot s.table, i = 0 ∨ i = s.table.length - 1

instance (s : Source) : Decidable (Separated s) := by
  unfold Separated
  cases (addressOf s).schema <;> infer_instance

def Refused (sources : List Source) : Prop :=
  sources = [] ∨ ¬((exportDirectory sources).map fun x => (readStem x.1).table).Nodup

def Plain (sources : List Source) : Prop := ∀ x ∈ exportDirectory sources, x.1 = sourceLabel x.2 ∧ Separated x.2

section Stems

theorem sanitizedSome (label : Text) : sanitizeFileStem label ≠ [] := by
  simp only [sanitizeFileStem]
  split
  · rename_i some'
    intro none
    have short := congrArg List.length none
    rw [List.length_take, List.length_nil] at short
    omega
  · decide

theorem candidateInj {base : Text} {n m : Nat} (same : candidate base n = candidate base m) : n = m := by
  have digits : Nat.toDigits 10 n = Nat.toDigits 10 m :=
    List.map_injective_iff.mpr (fun _ _ => Char.toNat_inj.mp) (List.append_cancel_left same)
  have read := congrArg (fun ds => Nat.ofDigitChars 10 ds 0) digits
  simpa using read

theorem firstFreeSpec {used : List Text} {base : Text} (fuel n : Nat) :
    (∃ m, firstFree used base fuel n = some (candidate base m) ∧ candidate base m ∉ used) ∨
      firstFree used base fuel n = none ∧ ∀ i < fuel, candidate base (n + i) ∈ used := by
  induction fuel generalizing n with
  | zero => exact .inr ⟨rfl, fun i below => absurd below (Nat.not_lt_zero i)⟩
  | succ fuel ih =>
    rw [firstFree]
    by_cases taken : candidate base n ∈ used
    · rw [if_pos taken]
      rcases ih (n + 1) with free | ⟨none, all⟩
      · exact .inl free
      · refine .inr ⟨none, fun i below => ?_⟩
        rcases i with _ | i
        · exact taken
        · rw [← Nat.add_assoc, Nat.add_right_comm]
          exact all i (by omega)
    · rw [if_neg taken]
      exact .inl ⟨n, rfl, taken⟩

theorem firstFreeFound (used : List Text) (base : Text) :
    ∃ m, firstFree used base (used.length + 1) 2 = some (candidate base m) ∧ candidate base m ∉ used := by
  rcases @firstFreeSpec used base (used.length + 1) 2 with free | ⟨_, all⟩
  · exact free
  · exfalso
    have once : ((List.range (used.length + 1)).map fun i => candidate base (2 + i)).Nodup := by
      refine List.Nodup.map (fun i j same => ?_) List.nodup_range
      have := candidateInj same
      omega
    have inside : (List.range (used.length + 1)).map (fun i => candidate base (2 + i)) ⊆ used := by
      intro x mem
      obtain ⟨i, below, rfl⟩ := List.mem_map.mp mem
      exact all i (List.mem_range.mp below)
    have size := (List.subperm_of_subset once inside).length_le
    rw [List.length_map, List.length_range] at size
    omega

theorem uniqueStemFresh (used : List Text) (label : Text) : uniqueStem used label ∉ used ∧ uniqueStem used label ≠ [] := by
  rw [uniqueStem]
  split
  · rename_i free
    exact ⟨free, sanitizedSome label⟩
  · obtain ⟨m, found, free⟩ := firstFreeFound used (sanitizeFileStem label)
    rw [found, Option.getD_some]
    exact ⟨free, by simp [candidate, sanitizedSome]⟩

theorem exportStems (sources : List Source) : ∀ used, ((exportFrom used sources).map Prod.fst).Nodup ∧
    ∀ x ∈ exportFrom used sources, x.1 ∉ used ∧ x.1 ≠ [] := by
  induction sources with
  | nil => exact fun used => ⟨List.nodup_nil, fun x mem => absurd mem List.not_mem_nil⟩
  | cons s rest ih =>
    intro used
    have own := uniqueStemFresh used (sourceLabel s)
    obtain ⟨once, later⟩ := ih (uniqueStem used (sourceLabel s) :: used)
    refine ⟨List.nodup_cons.mpr ⟨fun mem => ?_, once⟩, fun x mem => ?_⟩
    · obtain ⟨x, inside, same⟩ := List.mem_map.mp mem
      exact (later x inside).1 (same ▸ List.mem_cons_self)
    · rcases List.mem_cons.mp mem with rfl | inside
      · exact own
      · exact ⟨fun old => (later x inside).1 (List.mem_cons_of_mem _ old), (later x inside).2⟩

end Stems

section Names

theorem lastDotSplit {t : Text} {i : Nat} (found : lastDot t = some i) :
    i < t.length ∧ t = t.take i ++ 46 :: t.drop (i + 1) ∧ 46 ∉ t.drop (i + 1) := by
  obtain ⟨n, behind, rfl⟩ := Option.map_eq_some_iff.mp found
  obtain ⟨absent, split⟩ := indexOfUnit behind
  have fits := (indexOfFits behind).2
  rw [List.length_reverse, List.length_singleton] at fits
  obtain ⟨lead, tail, whole, free, size⟩ : ∃ lead tail : Text, t = lead ++ 46 :: tail ∧ 46 ∉ tail ∧
      lead.length = t.length - 1 - n := by
    refine ⟨(t.reverse.drop (n + 1)).reverse, (t.reverse.take n).reverse, ?_, by rwa [List.mem_reverse], ?_⟩
    · have turned := congrArg List.reverse split
      rw [List.reverse_reverse, List.reverse_append, List.reverse_cons, List.append_assoc] at turned
      exact turned
    · rw [List.length_reverse, List.length_drop, List.length_reverse]
      omega
  rw [← size, whole, List.take_left, dropPast]
  exact ⟨by simp, rfl, free⟩

theorem lastDotAppend {lead tail : Text} (absent : 46 ∉ tail) : lastDot (lead ++ 46 :: tail) = some lead.length := by
  have turned : (lead ++ 46 :: tail).reverse = tail.reverse ++ 46 :: lead.reverse := by simp
  have found : indexOf ['.'] (tail.reverse ++ 46 :: lead.reverse) = some tail.reverse.length :=
    indexOfStop (by rwa [List.mem_reverse]) lead.reverse
  rw [lastDot, turned, found, Option.map_some, Option.some.injEq, List.length_reverse, List.length_append, List.length_cons]
  omega

theorem extnameOf {lead tail : Text} (absent : 46 ∉ tail) (some' : lead ≠ []) (more : tail ≠ []) :
    extname (lead ++ 46 :: tail) = 46 :: tail := by
  have size := List.length_pos_iff.mpr some'
  have other : lead ++ 46 :: tail ≠ units ".." := by
    intro same
    have ends := congrArg List.getLast? same
    rw [List.getLast?_append, List.getLast?_cons] at ends
    obtain ⟨init, last, rfl⟩ := List.eq_nil_or_concat tail |>.resolve_left more
    simp [units] at ends
    exact absent (by simp [ends])
  simp only [extname, lastDotAppend absent]
  rw [if_neg (by rintro (none | same); exacts [by omega, other same]), List.drop_left]

theorem lowerFile (format : DelimitedFormat) (stem : Text) :
    toLowerCase (fileName format stem) = fileName format (toLowerCase stem) := by
  have same : toLowerCase (units "." ++ fileExtension format) = units "." ++ fileExtension format := by
    cases format <;> decide
  rw [fileName, List.append_assoc, toLowerCase, List.map_append]
  exact (congrArg (toLowerCase stem ++ ·) same).trans (List.append_assoc _ _ _).symm

theorem fileExtname (format : DelimitedFormat) {stem : Text} (some' : stem ≠ []) :
    extname (fileName format stem) = 46 :: fileExtension format := by
  have shape : fileName format stem = stem ++ 46 :: fileExtension format := by simp [fileName, units]
  rw [shape, extnameOf (by cases format <;> decide) some' (by cases format <;> decide)]

theorem fileRead (format : DelimitedFormat) {stem : Text} (some' : stem ≠ []) :
    isCompressedData (fileName format stem) = false ∧ tableNameFor (fileName format stem) = some (readStem stem) := by
  have lowered : toLowerCase stem ≠ [] := fun none => some' (List.map_eq_nil_iff.mp none)
  have ext : toLowerCase (46 :: fileExtension format) = 46 :: fileExtension format := by cases format <;> decide
  have delimited : isDelimited (46 :: fileExtension format) = true := by cases format <;> decide
  have cut : (fileName format stem).take ((fileName format stem).length - (46 :: fileExtension format).length) = stem := by
    have shape : fileName format stem = stem ++ 46 :: fileExtension format := by simp [fileName, units]
    rw [shape, List.length_append, Nat.add_sub_cancel, List.take_left]
  constructor
  · rw [isCompressedData, lowerFile, fileExtname format lowered]
    exact if_pos (by cases format <;> decide)
  · simp only [tableNameFor, fileExtname format some', ext, delimited, cut, Bool.not_true, Bool.false_eq_true, if_false,
      if_neg some']

theorem readLabel {stem : Text} {s : Source} : readStem stem = addressOf s ↔ stem = sourceLabel s ∧ Separated s := by
  have whole : ∀ t : Text, readStem t = ⟨none, t⟩ ↔ ∀ i, lastDot t = some i → i = 0 ∨ i = t.length - 1 := by
    intro t
    cases found : lastDot t with
    | none => simp [readStem, found]
    | some cut =>
      by_cases ends : cut = 0 ∨ cut = t.length - 1
      · simp [readStem, found, ends]
      · simp [readStem, found, ends]
  constructor
  · intro read
    cases own : (addressOf s).schema with
    | none =>
      have plain : addressOf s = ⟨none, s.table⟩ := by rw [← own]; rfl
      have bare : ∀ t : Text, (readStem t).schema = none → readStem t = ⟨none, t⟩ := by
        intro t missing
        cases found : lastDot t with
        | none => simp only [readStem, found]
        | some cut =>
          by_cases ends : cut = 0 ∨ cut = t.length - 1
          · simp only [readStem, found, if_pos ends]
          · simp only [readStem, found, if_neg ends] at missing
            contradiction
      have stemPlain := bare stem (by rw [read, own])
      have same : stem = s.table := by
        rw [read, plain] at stemPlain
        exact (Address.mk.inj stemPlain).2.symm
      refine ⟨by simp only [sourceLabel, own, same], ?_⟩
      simp only [Separated, own]
      rw [← same]
      exact (whole stem).mp stemPlain
    | some schema =>
      cases found : lastDot stem with
      | none =>
        simp only [readStem, found] at read
        rw [← read] at own
        contradiction
      | some cut =>
        by_cases ends : cut = 0 ∨ cut = stem.length - 1
        · simp only [readStem, found, if_pos ends] at read
          rw [← read] at own
          contradiction
        · simp only [readStem, found, if_neg ends] at read
          obtain ⟨inside, split, absent⟩ := lastDotSplit found
          have parts : stem.take cut = schema ∧ stem.drop (cut + 1) = s.table := by
            rw [← read] at own
            exact ⟨Option.some.inj own, congrArg Address.table read⟩
          rw [parts.1, parts.2] at split
          rw [parts.2] at absent
          refine ⟨by simpa [sourceLabel, own, units] using split, ?_⟩
          simp only [Separated, own]
          refine ⟨fun none => ?_, absent⟩
          rw [none] at parts
          have short := List.drop_eq_nil_iff.mp parts.2
          omega
  · rintro ⟨rfl, apart⟩
    cases own : (addressOf s).schema with
    | none =>
      simp only [Separated, own] at apart
      have label : sourceLabel s = s.table := by simp only [sourceLabel, own]
      rw [label, (whole s.table).mpr apart, ← own]
      rfl
    | some schema =>
      simp only [Separated, own] at apart
      have filled : schema ≠ [] := by
        have kept := (Option.filter_eq_some_iff.mp own).2
        simpa using kept
      have label : sourceLabel s = schema ++ 46 :: s.table := by simp [sourceLabel, own, units]
      have found := @lastDotAppend schema s.table apart.2
      have inner : ¬(schema.length = 0 ∨ schema.length = (schema ++ 46 :: s.table).length - 1) := by
        have first := List.length_pos_iff.mpr filled
        have last := List.length_pos_iff.mpr apart.1
        rw [List.length_append, List.length_cons]
        omega
      rw [label]
      simp only [readStem, found, if_neg inner, List.take_left, dropPast]
      rw [← own]
      rfl

end Names

section Import
variable {dir : Text} {format : DelimitedFormat}

theorem collectFiles (order : List Text) (filled : ∀ stem ∈ order, stem ≠ []) (seen : List (Text × Text)) :
    (collect dir seen (order.map (entryOf format)) = .ok (order.map (memberOf dir format), []) ∧
      (order.map fun stem => (readStem stem).table).Nodup ∧ ∀ stem ∈ order, seen.lookup (readStem stem).table = none) ∨
    (∃ e, collect dir seen (order.map (entryOf format)) = .error e) ∧
      ¬((order.map fun stem => (readStem stem).table).Nodup ∧ ∀ stem ∈ order, seen.lookup (readStem stem).table = none) := by
  induction order generalizing seen with
  | nil => exact .inl ⟨rfl, List.nodup_nil, fun stem mem => absurd mem List.not_mem_nil⟩
  | cons stem rest ih =>
    obtain ⟨plain, read⟩ := @fileRead format stem (filled stem List.mem_cons_self)
    have other : ∀ s ∈ rest, s ≠ [] := fun s mem => filled s (List.mem_cons_of_mem stem mem)
    rw [List.map_cons]
    simp only [collect, entryOf, plain, read, reduceCtorEq, if_false, Bool.false_eq_true]
    cases known : seen.lookup (readStem stem).table with
    | some previous =>
      refine .inr ⟨⟨_, rfl⟩, fun all => ?_⟩
      have := all.2 stem List.mem_cons_self
      rw [known] at this
      contradiction
    | none =>
      have fresh : ∀ s ∈ rest, List.lookup (readStem s).table (((readStem stem).table, fileName format stem) :: seen) = none ↔
          (readStem s).table ≠ (readStem stem).table ∧ seen.lookup (readStem s).table = none := by
        intro s _
        by_cases same : (readStem s).table = (readStem stem).table
        · simp [same]
        · have apart : ((readStem s).table == (readStem stem).table) = false := by simp [same]
          rw [List.lookup_cons, apart]
          simp [same]
      rcases ih other (((readStem stem).table, fileName format stem) :: seen) with ⟨ok, once, new⟩ | ⟨⟨e, failed⟩, clash⟩
      · refine .inl ⟨by rw [ok]; rfl, ?_, ?_⟩
        · rw [List.map_cons, List.nodup_cons]
          refine ⟨fun mem => ?_, once⟩
          obtain ⟨s, inside, same⟩ := List.mem_map.mp mem
          exact ((fresh s inside).mp (new s inside)).1 same
        · intro s mem
          rcases List.mem_cons.mp mem with rfl | inside
          · exact known
          · exact ((fresh s inside).mp (new s inside)).2
      · refine .inr ⟨⟨e, by rw [failed]; rfl⟩, fun ⟨once, new⟩ => clash ?_⟩
        rw [List.map_cons, List.nodup_cons] at once
        refine ⟨once.2, fun s inside => (fresh s inside).mpr ⟨fun same => ?_, new s (List.mem_cons_of_mem stem inside)⟩⟩
        exact once.1 (List.mem_map.mpr ⟨s, inside, same⟩)

theorem fileNameInj {a b : Text} (same : fileName format a = fileName format b) : a = b := by
  rw [fileName, fileName, List.append_assoc, List.append_assoc] at same
  exact List.append_cancel_right same

theorem pairedRight {xs : List (Text × Source)} (once : (xs.map Prod.fst).Nodup) :
    (xs.map fun x => (⟨joinPath dir (fileName format x.1), readStem x.1⟩ : MemberTarget)).Perm
      (xs.map fun x => ⟨joinPath dir (fileName format x.1), addressOf x.2⟩) ↔
    ∀ x ∈ xs, readStem x.1 = addressOf x.2 := by
  constructor
  · intro perm x mem
    have there := perm.mem_iff.mp (List.mem_map.mpr ⟨x, mem, rfl⟩)
    obtain ⟨y, inside, same⟩ := List.mem_map.mp there
    obtain ⟨path, address⟩ := MemberTarget.mk.inj same
    have stem : y.1 = x.1 := fileNameInj (List.append_cancel_left path)
    have one : y = x := List.inj_on_of_nodup_map once inside mem stem
    rw [← address, one]
  · intro right
    rw [List.map_congr_left fun x mem => by rw [right x mem]]

theorem directoryRestored (dir : Text) (format : DelimitedFormat) (sources : List Source) (order : List Text)
    (listed : order.Perm ((exportDirectory sources).map Prod.fst)) :
    Restores dir format sources (bundleMembers dir (order.map (entryOf format))) ↔ Refused sources ∨ Plain sources := by
  have once : ((exportDirectory sources).map Prod.fst).Nodup := (exportStems sources []).1
  have fresh := (exportStems sources []).2
  have filled : ∀ stem ∈ order, stem ≠ [] := by
    intro stem mem
    obtain ⟨x, inside, rfl⟩ := List.mem_map.mp (listed.mem_iff.mp mem)
    exact (fresh x inside).2
  have unmarked : ((order.map (entryOf format)).any fun e => e.kind = .file ∧ e.name = incompleteMarker) = false := by
    rw [List.any_eq_false]
    intro e mem
    obtain ⟨stem, inside, rfl⟩ := List.mem_map.mp mem
    have ext := @fileExtname format stem (filled stem inside)
    simp only [entryOf, true_and, decide_eq_true_eq]
    intro marked
    rw [marked] at ext
    cases format <;> exact absurd ext (by decide)
  have tables : (order.map fun stem => (readStem stem).table).Nodup ↔
      ((exportDirectory sources).map fun x => (readStem x.1).table).Nodup := by
    rw [(listed.map _).nodup_iff, List.map_map]
    rfl
  simp only [bundleMembers, unmarked, Bool.false_eq_true, if_false]
  rcases @collectFiles dir format order filled [] with ⟨ok, apart, -⟩ | ⟨⟨e, failed⟩, clash⟩
  · rw [ok]
    simp only [bind, Except.bind, List.length_nil, Nat.lt_irrefl, if_false, List.length_map]
    by_cases short : order.length = 0
    · have empty : sources = [] := by
        have size := listed.length_eq
        rw [short, List.length_map] at size
        cases sources with
        | nil => rfl
        | cons s rest => simp [exportDirectory, exportFrom] at size
      simp only [short, if_true, Restores, true_iff]
      exact .inl (.inl empty)
    · have some' : sources ≠ [] := by
        rintro rfl
        exact short (by rw [listed.length_eq]; rfl)
      have open' : ¬Refused sources := by
        rintro (empty | clash)
        · exact some' empty
        · exact clash (tables.mp apart)
      have plain : Plain sources ↔ ∀ x ∈ exportDirectory sources, readStem x.1 = addressOf x.2 :=
        forall₂_congr fun x _ => readLabel.symm
      rw [or_iff_right open', plain, ← pairedRight once]
      simp only [short, if_false, Restores]
      have members : ((order.map (memberOf dir format)).insertionSort fun a b => ¬b.table < a.table).map
          (bundleMemberOverrides none) |>.Perm
          ((exportDirectory sources).map fun x => ⟨joinPath dir (fileName format x.1), readStem x.1⟩) := by
        refine ((List.perm_insertionSort _ _).map _).trans ?_
        rw [List.map_map]
        refine (listed.map _).trans ?_
        rw [List.map_map]
        exact List.Perm.refl _
      exact ⟨fun right => members.symm.trans right, fun right => members.trans right⟩
  · rw [failed]
    simp only [bind, Except.bind, Restores, true_iff]
    exact .inl (.inr fun once => clash ⟨tables.mpr once, fun stem _ => rfl⟩)

def twoSources : List Source := [⟨some (units "public"), units "users"⟩, ⟨some (units "shop"), units "orders"⟩]

def spacedSource : List Source := [⟨none, units "my table"⟩]

theorem twoRestored : Restores (units "/exports") .csv twoSources
    (bundleMembers (units "/exports") ([units "shop.orders", units "public.users"].map (entryOf .csv))) :=
  (directoryRestored (units "/exports") .csv twoSources [units "shop.orders", units "public.users"] (by decide)).mpr
    (.inr (by unfold Plain; decide))

theorem spacedRenamed : ¬∀ (dir : Text) (format : DelimitedFormat) (sources : List Source) (order : List Text),
    order.Perm ((exportDirectory sources).map Prod.fst) →
    Restores dir format sources (bundleMembers dir (order.map (entryOf format))) := by
  intro restored
  have same := restored [] .csv spacedSource [units "my_table"] (by decide)
  have read : bundleMembers [] ([units "my_table"].map (entryOf .csv)) =
      .ok [⟨units "/my_table.csv", units "my_table", none⟩] := rfl
  rw [read] at same
  have perm : List.Perm _ _ := same
  exact absurd perm (by decide)

end Import

end DatabaseAdmin.DirectoryBundles
