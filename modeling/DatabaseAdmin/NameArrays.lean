import DatabaseAdmin.ArrayText
import Mathlib.Algebra.GroupWithZero.Nat
import Mathlib.Data.List.Count

/-! The catalog's lists of names as PostgreSQL prints them, and the reader that takes a table's keys
from them. -/
namespace DatabaseAdmin.NameArrays
open CodeUnits ArrayText

section Server

def isArraySpace (c : CodeUnit) : Bool := (9 ≤ c && c ≤ 13) || c == 32

def isArrayMark (c : CodeUnit) : Bool :=
  c == doubleQuote || c == backslash || c == openBrace || c == closeBrace || c == comma || isArraySpace c

def needsQuotes (name : Text) : Bool :=
  name.isEmpty || name.map lowerUnit == units "null" || name.any isArrayMark

def printedName (name : Text) : Text := if needsQuotes name then quotedElement name else name

def printedNames (names : List Text) : Text := braced (names.map printedName)

end Server

section Reader

def dropFirst (c : CodeUnit) (text : Text) : Text := if text.head? = some c then text.tail else text

def dropFinal (c : CodeUnit) (text : Text) : Text := if text.getLast? = some c then text.dropLast else text

def freeQuotes : Text → Text
  | [] => []
  | [c] => [c]
  | c :: d :: rest =>
      if c = backslash ∧ d = doubleQuote then doubleQuote :: freeQuotes rest else c :: freeQuotes (d :: rest)

def nameOf (piece : Text) : Text := freeQuotes (dropFinal doubleQuote (dropFirst doubleQuote piece))

def parseNameArray : Option Text → List Text
  | none => []
  | some [] => []
  | some value =>
      let inner := dropFinal closeBrace (dropFirst openBrace value)
      if inner = [] then [] else (inner.splitOn comma).map nameOf

structure KeyRow where
  pk : Option Text
  uk : Option Text

structure KeyNames where
  primaryKey : List Text
  uniqueKey : List Text
  deriving DecidableEq

def relationKeys (r : KeyRow) : KeyNames := ⟨parseNameArray r.pk, parseNameArray r.uk⟩

end Reader

section Pieces

theorem freePlain {c : CodeUnit} {text : Text} (apart : c = backslash → text.head? ≠ some doubleQuote) :
    freeQuotes (c :: text) = c :: freeQuotes text := by
  cases text with
  | nil => rfl
  | cons d text =>
    rw [freeQuotes, if_neg]
    rintro ⟨slash, rfl⟩
    exact apart slash rfl

theorem escapedHead (name : Text) : (escapeElement name).head? ≠ some doubleQuote := by
  cases name with
  | nil => exact nofun
  | cons c name =>
    rw [escapedUnit]
    split
    · simp [backslash, doubleQuote]
    · rename_i plain
      simp [(not_or.mp plain).2]

theorem freeEscaped (name : Text) : freeQuotes (escapeElement name) = replaceUnit backslash [backslash, backslash] name := by
  induction name with
  | nil => rfl
  | cons c name ih =>
    rw [escapedUnit]
    by_cases slash : c = backslash
    · subst slash
      have doubled : freeQuotes (backslash :: backslash :: escapeElement name) =
          backslash :: backslash :: freeQuotes (escapeElement name) := by
        rw [freePlain fun _ => by simp [backslash, doubleQuote], freePlain fun _ => escapedHead name]
      rw [replaceUnit] at ih
      simpa [replaceUnit, ih] using doubled
    · by_cases quote : c = doubleQuote
      · subst quote
        rw [replaceUnit] at ih
        simp [freeQuotes, replaceUnit, ih, slash]
      · rw [replaceUnit] at ih
        simp [slash, quote, freePlain, replaceUnit, ih]

theorem quotedName (name : Text) : nameOf (quotedElement name) = replaceUnit backslash [backslash, backslash] name := by
  have bare : dropFinal doubleQuote (dropFirst doubleQuote (quotedElement name)) = escapeElement name := by
    simp [dropFirst, dropFinal, quotedElement]
  rw [nameOf, bare, freeEscaped]

theorem unmarked {name : Text} (plain : needsQuotes name = false) : ∀ c ∈ name, isArrayMark c = false := by
  simp only [needsQuotes, Bool.or_eq_false_iff, List.any_eq_false, Bool.not_eq_true] at plain
  exact plain.2

theorem absentMark {name : Text} (plain : needsQuotes name = false) {c : CodeUnit} (mark : isArrayMark c = true) : c ∉ name := by
  intro member
  rw [unmarked plain c member] at mark
  contradiction

theorem freeSame {text : Text} (plain : backslash ∉ text) : freeQuotes text = text := by
  induction text with
  | nil => rfl
  | cons c text ih =>
    rw [List.mem_cons, not_or] at plain
    rw [freePlain fun slash => absurd slash.symm plain.1, ih plain.2]

theorem bareName {name : Text} (plain : needsQuotes name = false) : nameOf name = name := by
  have quoteless : doubleQuote ∉ name := absentMark plain rfl
  have first : dropFirst doubleQuote name = name := if_neg fun head => quoteless (List.mem_of_mem_head? head)
  have final : dropFinal doubleQuote name = name := if_neg fun last => quoteless (List.mem_of_getLast? last)
  rw [nameOf, first, final, freeSame (absentMark plain rfl)]

theorem doubledLength (name : Text) :
    (replaceUnit backslash [backslash, backslash] name).length = name.length + name.count backslash := by
  induction name with
  | nil => rfl
  | cons c name ih =>
    by_cases slash : c = backslash
    · subst slash
      simp only [replaceUnit, List.flatMap_cons, if_pos, List.length_append, List.length_cons, List.length_nil,
        List.count_cons_self] at ih ⊢
      omega
    · simp only [replaceUnit, List.flatMap_cons, if_neg slash, List.length_append, List.length_cons, List.length_nil,
        List.count_cons_of_ne slash] at ih ⊢
      omega

theorem undoubled {name : Text} (plain : backslash ∉ name) : replaceUnit backslash [backslash, backslash] name = name := by
  have same : ∀ c ∈ name, (if c = backslash then [backslash, backslash] else [c]) = [c] :=
    fun c member => if_neg (ne_of_mem_of_not_mem member plain)
  rw [replaceUnit, List.flatMap_congr same, List.flatMap_singleton']

theorem nameBack (name : Text) : nameOf (printedName name) = name ↔ backslash ∉ name := by
  rw [printedName]
  split
  · rw [quotedName]
    refine ⟨fun same => ?_, undoubled⟩
    have long := congrArg List.length same
    rw [doubledLength] at long
    exact List.count_eq_zero.mp (by omega)
  · rename_i bare
    rw [Bool.not_eq_true] at bare
    exact ⟨fun _ => absentMark bare rfl, fun _ => bareName bare⟩

end Pieces

section Lists

theorem splitLength (c : CodeUnit) (text : Text) : (text.splitOn c).length = text.count c + 1 := by
  induction text with
  | nil => rfl
  | cons d text ih =>
    rw [List.splitOn_cons_eq_if_modifyHead, List.count_cons]
    split <;> simp [ih]

theorem escapedComma (name : Text) : (escapeElement name).count comma = name.count comma := by
  induction name with
  | nil => rfl
  | cons c name ih =>
    rw [escapedUnit, List.count_append, ih, List.count_cons]
    split
    · rename_i mark
      rcases mark with rfl | rfl <;> simp [backslash, doubleQuote, comma]
    · by_cases same : c = comma <;> simp [same, Nat.add_comm]

theorem printedComma (name : Text) : (printedName name).count comma = name.count comma := by
  rw [printedName]
  split
  · simp [quotedElement, escapedComma, doubleQuote, comma]
  · rfl

theorem printedSome (name : Text) : printedName name ≠ [] := by
  rw [printedName]
  split
  · exact List.cons_ne_nil _ _
  · rename_i bare
    rintro rfl
    exact bare rfl

theorem joinedCount (texts : List Text) :
    (List.intercalate [comma] texts).count comma + 1 = (texts.map (List.count comma)).sum + max texts.length 1 := by
  induction texts with
  | nil => rfl
  | cons text texts ih =>
    cases texts with
    | nil => simp [List.intercalate]
    | cons next texts =>
      rw [List.intercalate_cons_cons, List.count_append, List.count_append, List.map_cons, List.sum_cons]
      simp only [List.length_cons, List.count_cons_self, List.count_nil] at ih ⊢
      omega

theorem joinedSome {names : List Text} (some : names ≠ []) : List.intercalate [comma] (names.map printedName) ≠ [] := by
  obtain ⟨name, names, rfl⟩ := List.exists_cons_of_ne_nil some
  cases names with
  | nil => simpa [List.intercalate] using printedSome name
  | cons next names =>
    rw [List.map_cons, List.map_cons, List.intercalate_cons_cons]
    simp

theorem printedRead {names : List Text} (some' : names ≠ []) : parseNameArray (some (printedNames names)) =
    ((List.intercalate [comma] (names.map printedName)).splitOn comma).map nameOf := by
  have inner : dropFinal closeBrace (dropFirst openBrace (printedNames names)) =
      List.intercalate [comma] (names.map printedName) := by
    simp [dropFirst, dropFinal, printedNames, braced]
  have read : parseNameArray (some (printedNames names)) =
      let inner := dropFinal closeBrace (dropFirst openBrace (printedNames names))
      if inner = [] then [] else (inner.splitOn comma).map nameOf := rfl
  rw [read, inner]
  exact if_neg (joinedSome some')

theorem commaless {names : List Text} (some' : names ≠ []) (same : parseNameArray (some (printedNames names)) = names) :
    ∀ name ∈ names, comma ∉ name := by
  have long := congrArg List.length same
  rw [printedRead some', List.length_map, splitLength, joinedCount, List.map_map, List.length_map] at long
  have none : (names.map (List.count comma ∘ printedName)).sum = 0 := by
    have := List.length_pos_iff.mpr some'
    omega
  intro name member
  have part := List.sum_eq_zero_iff_forall_eq_nat.mp none _ (List.mem_map_of_mem member)
  rw [Function.comp_apply, printedComma] at part
  exact List.count_eq_zero.mp part

theorem namesSplit {names : List Text} (some' : names ≠ []) (plain : ∀ name ∈ names, comma ∉ name) :
    parseNameArray (some (printedNames names)) = names.map (nameOf ∘ printedName) := by
  have apart : ∀ text ∈ names.map printedName, comma ∉ text := by
    intro text listed
    obtain ⟨name, member, rfl⟩ := List.mem_map.mp listed
    rw [← List.count_eq_zero, printedComma]
    exact List.count_eq_zero.mpr (plain name member)
  rw [printedRead some', List.splitOn_intercalate comma apart (by simpa using some'), List.map_map]

def Decodable (names : List Text) : Prop := ∀ name ∈ names, comma ∉ name ∧ backslash ∉ name

instance (names : List Text) : Decidable (Decodable names) := inferInstanceAs (Decidable (∀ name ∈ names, _))

theorem namesBack (names : List Text) : parseNameArray (some (printedNames names)) = names ↔ Decodable names := by
  by_cases some' : names = []
  · subst some'
    exact ⟨fun _ => nofun, fun _ => rfl⟩
  · have each : (∀ name ∈ names, comma ∉ name) → (names.map (nameOf ∘ printedName) = names ↔ ∀ name ∈ names, backslash ∉ name) := by
      intro _
      nth_rewrite 2 [← List.map_id names]
      rw [List.map_inj_left]
      exact forall₂_congr fun name _ => nameBack name
    constructor
    · intro same
      have plain := commaless some' same
      rw [namesSplit some' plain, each plain] at same
      exact fun name member => ⟨plain name member, same name member⟩
    · intro decodable
      have plain : ∀ name ∈ names, comma ∉ name := fun name member => (decodable name member).1
      rw [namesSplit some' plain, each plain]
      exact fun name member => (decodable name member).2

structure TableKeys where
  primary : Option (List Text)
  unique : Option (List Text)

def TableKeys.row (keys : TableKeys) : KeyRow := ⟨keys.primary.map printedNames, keys.unique.map printedNames⟩

def TableKeys.real (keys : TableKeys) : KeyNames := ⟨keys.primary.getD [], keys.unique.getD []⟩

theorem keyBack (key : Option (List Text)) :
    parseNameArray (key.map printedNames) = key.getD [] ↔ ∀ names ∈ key, Decodable names := by
  cases key with
  | none => exact ⟨fun _ => nofun, fun _ => rfl⟩
  | some names => simpa using namesBack names

theorem keysDecoded (names : List Text) (keys : TableKeys) :
    (parseNameArray (some (printedNames names)) = names ↔ Decodable names) ∧
    (relationKeys keys.row = keys.real ↔
      (∀ names ∈ keys.primary, Decodable names) ∧ ∀ names ∈ keys.unique, Decodable names) := by
  refine ⟨namesBack names, ?_⟩
  rw [relationKeys, TableKeys.real, KeyNames.mk.injEq]
  exact and_congr (keyBack keys.primary) (keyBack keys.unique)

theorem commaSplitsKey : ¬ ((∀ names, parseNameArray (some (printedNames names)) = names) ∧
    ∀ keys : TableKeys, relationKeys keys.row = keys.real) := by
  intro decoded
  have same := decoded.1 [units "last, first"]
  revert same
  decide +kernel

end Lists

section Sibling

theorem barePiece {name : Text} (plain : needsQuotes name = false) : Parses name (.text name) where
  opened c head same := absentMark plain rfl (same ▸ List.mem_of_mem_head? head)
  some empty := by
    subst empty
    exact absurd plain (by decide)
  read more ends := by
    have notNull : name ≠ units "NULL" := by
      rintro rfl
      exact absurd plain (by decide)
    have all : name.all isBare = true := by
      rw [List.all_eq_true]
      intro c member
      have marks := unmarked plain c member
      simp only [isArrayMark, Bool.or_eq_false_iff, beq_eq_false_iff_ne] at marks
      simp [isBare, marks]
    have bare : parseElement comma (name ++ more) = bareElement comma (name ++ more) := by
      cases name with
      | nil => exact absurd plain (by decide)
      | cons c name =>
        have head := unmarked plain c List.mem_cons_self
        simp only [isArrayMark, Bool.or_eq_false_iff, beq_eq_false_iff_ne] at head
        rw [List.cons_append, parseElement, if_neg head.1.1.1.2, if_neg head.1.1.1.1.1]
    rw [bare, bareElement, bareRun all ends]
    simp [notNull]

theorem printedPiece (name : Text) : Parses (printedName name) (.text name) := by
  rw [printedName]
  split
  · exact quotedParses name
  · rename_i bare
    exact barePiece (by simpa using bare)

theorem siblingReads (names : List Text) : parsePgArray (printedNames names) comma = names.map .text := by
  have each : List.Forall₂ Parses (names.map printedName) (names.map .text) := by
    rw [List.forall₂_map_left_iff, List.forall₂_map_right_iff]
    exact List.forall₂_same.mpr fun name _ => printedPiece name
  exact bracedBack each

end Sibling

end DatabaseAdmin.NameArrays
