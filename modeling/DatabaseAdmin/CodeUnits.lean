import Mathlib.Data.List.DropRight
import Mathlib.Data.List.Infix

/-! JavaScript strings as lists of UTF-16 code units. A character literal stands
for its code unit. Offsets of the source are lengths of prefixes here. -/
namespace DatabaseAdmin

abbrev CodeUnit := Nat
abbrev Text := List CodeUnit

instance : Coe Char CodeUnit := ⟨Char.toNat⟩

namespace CodeUnits

scoped instance lawfulText : LawfulBEq Text := inferInstance

def units (s : String) : Text := s.toList.map Char.toNat

theorem unitsInjective : Function.Injective units := fun _ _ same =>
  String.toList_injective (List.map_injective_iff.mpr (fun _ _ one => Char.toNat_inj.mp one) same)

def startsWith (pattern text : Text) : Bool := pattern.isPrefixOf text

theorem startsWithIff {pattern text : Text} :
    startsWith pattern text = true ↔ pattern <+: text := List.isPrefixOf_iff_prefix

def indexOf (pattern : Text) : Text → Option Nat
  | [] => if pattern.isEmpty then some 0 else none
  | c :: rest => if startsWith pattern (c :: rest) then some 0
      else (indexOf pattern rest).map (· + 1)

theorem indexOfFits {pattern text : Text} {n : Nat} (found : indexOf pattern text = some n) :
    pattern <+: text.drop n ∧ n + pattern.length ≤ text.length := by
  induction text generalizing n with
  | nil =>
    simp only [indexOf] at found
    split at found
    · rename_i empty
      cases Option.some.inj found
      rw [List.isEmpty_iff] at empty
      simp [empty]
    · contradiction
  | cons c rest ih =>
    simp only [indexOf] at found
    split at found
    · rename_i head
      cases Option.some.inj found
      have stands := startsWithIff.mp head
      exact ⟨by simpa using stands, by simpa using stands.length_le⟩
    · obtain ⟨m, inner, rfl⟩ := Option.map_eq_some_iff.mp found
      have tail := ih inner
      exact ⟨by simpa using tail.1, by simp only [List.length_cons]; omega⟩

abbrev apostrophe : CodeUnit := 39
abbrev doubleQuote : CodeUnit := 34
abbrev backtick : CodeUnit := 96
abbrev backslash : CodeUnit := 92
abbrev newline : CodeUnit := 10

def isQuote (c : CodeUnit) : Bool := c == apostrophe || c == doubleQuote || c == backtick

def trimBy (p : CodeUnit → Bool) (text : Text) : Text := (text.dropWhile p).rdropWhile p

def lowerUnit (c : CodeUnit) : CodeUnit := if ('A' : CodeUnit) ≤ c ∧ c ≤ 'Z' then c + 32 else c

def isWhite (c : CodeUnit) : Bool :=
  (9 ≤ c && c ≤ 13) || c == 32 || c == 0xA0 || c == 0x1680 || (0x2000 ≤ c && c ≤ 0x200A) ||
  c == 0x2028 || c == 0x2029 || c == 0x202F || c == 0x205F || c == 0x3000 || c == 0xFEFF

theorem whiteRange {c : Nat} (white : isWhite c = true) : c ≤ 32 ∨ c = 0xA0 ∨ 0x1680 ≤ c ∧ c ≤ 0x3000 ∨ c = 0xFEFF := by
  have range : (((((((((9 ≤ c ∧ c ≤ 13) ∨ c = 32) ∨ c = 0xA0) ∨ c = 0x1680) ∨ (0x2000 ≤ c ∧ c ≤ 0x200A)) ∨ c = 0x2028) ∨
    c = 0x2029) ∨ c = 0x202F) ∨ c = 0x205F) ∨ c = 0x3000 ∨ c = 0xFEFF := by
    simpa [isWhite, or_assoc] using white
  omega

def trim (text : Text) : Text := trimBy isWhite text

theorem indexOfAppend {pattern text : Text} {n : Nat} (found : indexOf pattern text = some n)
    (more : Text) : indexOf pattern (text ++ more) = some n := by
  induction text generalizing n with
  | nil =>
    simp only [indexOf] at found
    split at found
    · rename_i empty
      cases Option.some.inj found
      rw [List.isEmpty_iff] at empty
      subst empty
      cases more <;> simp [indexOf, startsWith]
    · contradiction
  | cons c rest ih =>
    simp only [indexOf] at found
    split at found
    · rename_i head
      cases Option.some.inj found
      have stands : pattern <+: c :: (rest ++ more) :=
        (startsWithIff.mp head).trans (List.prefix_append (c :: rest) more)
      simp only [List.cons_append, indexOf, if_pos (startsWithIff.mpr stands)]
    · rename_i miss
      obtain ⟨m, inner, rfl⟩ := Option.map_eq_some_iff.mp found
      have fits := (indexOfFits inner).2
      have stillMiss : ¬ startsWith pattern (c :: (rest ++ more)) = true := by
        intro head
        apply miss
        rw [startsWithIff] at head ⊢
        exact List.prefix_of_prefix_length_le head (List.prefix_append (c :: rest) more)
          (by simp only [List.length_cons]; omega)
      simp only [List.cons_append, indexOf, if_neg stillMiss, ih inner, Option.map_some]

theorem indexOfUnit {c : CodeUnit} {text : Text} {n : Nat} (found : indexOf [c] text = some n) :
    c ∉ text.take n ∧ text = text.take n ++ c :: text.drop (n + 1) := by
  induction text generalizing n with
  | nil => simp [indexOf] at found
  | cons d text ih =>
    simp only [indexOf] at found
    split at found
    · rename_i head
      cases Option.some.inj found
      have same : c = d := by simpa [startsWith] using head
      simp [same]
    · rename_i apart
      obtain ⟨m, inner, rfl⟩ := Option.map_eq_some_iff.mp found
      have other : c ≠ d := by simpa [startsWith] using apart
      obtain ⟨absent, split⟩ := ih inner
      refine ⟨by simp [other, absent], ?_⟩
      rw [List.take_succ_cons, List.drop_succ_cons, List.cons_append, ← split]

theorem indexOfAbsent {c : CodeUnit} {text : Text} (none : indexOf [c] text = none) : c ∉ text := by
  induction text with
  | nil => simp
  | cons d text ih =>
    simp only [indexOf] at none
    split at none
    · simp at none
    · rename_i apart
      have other : c ≠ d := by simpa [startsWith] using apart
      simp [other, ih (Option.map_eq_none_iff.mp none)]

theorem indexOfStop {c : CodeUnit} {lead : Text} (absent : c ∉ lead) (rest : Text) :
    indexOf [c] (lead ++ c :: rest) = some lead.length := by
  induction lead with
  | nil => simp [indexOf, startsWith]
  | cons d lead ih =>
    rw [List.mem_cons, not_or] at absent
    have miss : ¬ startsWith [c] (d :: (lead ++ c :: rest)) = true := by
      simpa [startsWith] using absent.1
    simp only [List.cons_append, indexOf, if_neg miss, ih absent.2, Option.map_some, List.length_cons]

theorem dropPast (a : Text) (c : CodeUnit) (t : Text) : (a ++ c :: t).drop (a.length + 1) = t := by
  rw [← List.drop_drop, List.drop_left, List.drop_one, List.tail_cons]

theorem takeWhileStops {p : CodeUnit → Bool} {lead text : Text} (all : ∀ c ∈ lead, p c = true)
    (stop : ∀ c ∈ text.head?, p c = false) : (lead ++ text).takeWhile p = lead := by
  have whole : lead.takeWhile p = lead := List.takeWhile_eq_self_iff.mpr all
  have none : text.takeWhile p = [] := by
    cases text with
    | nil => rfl
    | cons c text => simp [stop c rfl]
  rw [List.takeWhile_append, whole, if_pos rfl, none, List.append_nil]

theorem takeWhileSplit (p : CodeUnit → Bool) (text : Text) :
    text.takeWhile p ++ text.drop (text.takeWhile p).length = text := by
  conv_lhs => arg 1; rw [List.prefix_iff_eq_take.mp (List.takeWhile_prefix p (l := text))]
  exact List.take_append_drop _ _

theorem takeWhileHead (p : CodeUnit → Bool) (text : Text) :
    ∀ c ∈ (text.drop (text.takeWhile p).length).head?, p c = false := by
  induction text with
  | nil => simp
  | cons d text ih =>
    by_cases pass : p d = true
    · simpa [pass] using ih
    · simp [pass]

theorem trimBySplit (p : CodeUnit → Bool) (text : Text) :
    ∃ trail, text = text.takeWhile p ++ (trimBy p text ++ trail) ∧ ∀ c ∈ trail, p c = true := by
  refine ⟨(text.dropWhile p).rtakeWhile p, ?_, fun c member => List.mem_rtakeWhile_imp member⟩
  rw [trimBy, List.rdropWhile_append_rtakeWhile, List.takeWhile_append_dropWhile]

theorem trimByHead (p : CodeUnit → Bool) (text : Text) :
    ∀ c ∈ (trimBy p text).head?, p c = false := by
  intro c head
  have inside : (trimBy p text) <+: text.dropWhile p := List.rdropWhile_prefix p _
  cases trimmed : trimBy p text with
  | nil => simp [trimmed] at head
  | cons d rest =>
    rw [trimmed] at head inside
    cases head
    obtain ⟨after, whole⟩ := inside
    have first := List.head?_dropWhile_not p text
    rw [← whole] at first
    simpa using first

theorem trimByNil {p : CodeUnit → Bool} : trimBy p [] = [] := by simp [trimBy]

theorem trimByLead {p : CodeUnit → Bool} {lead : Text} (all : ∀ c ∈ lead, p c = true)
    (text : Text) : trimBy p (lead ++ text) = trimBy p text := by
  have gone : lead.dropWhile p = [] := List.dropWhile_eq_nil_iff.mpr all
  simp [trimBy, List.dropWhile_append, gone]

theorem trimTrail {q : CodeUnit → Bool} {trail : Text} (all : ∀ c ∈ trail, q c = true) (text : Text) :
    trimBy q (text ++ trail) = trimBy q text := by
  have gone : trail.dropWhile q = [] := List.dropWhile_eq_nil_iff.mpr all
  have shed (text : Text) : (text ++ trail).rdropWhile q = text.rdropWhile q := by
    induction trail using List.reverseRecOn with
    | nil => rw [List.append_nil]
    | append_singleton trail c ih =>
      obtain ⟨others, last⟩ := List.forall_mem_append.mp all
      rw [← List.append_assoc, List.rdropWhile_concat_pos _ _ _ (last c List.mem_cons_self)]
      exact ih others (List.dropWhile_eq_nil_iff.mpr others)
  rw [trimBy, trimBy, List.dropWhile_append]
  split
  · rename_i none
    rw [List.isEmpty_iff.mp none, gone]
  · exact shed _

theorem trimByOpen {p : CodeUnit → Bool} {c : CodeUnit} {text : Text} (keep : p c = false) :
    trimBy p (c :: text) = (c :: text).rdropWhile p := by
  simp [trimBy, keep]

theorem trimKept {p : CodeUnit → Bool} {text : Text} (first : ∀ c ∈ text.head?, p c = false) (last : ∀ c ∈ text.getLast?, p c = false) :
    trimBy p text = text := by
  cases text with
  | nil => exact trimByNil
  | cons c text =>
    rw [trimByOpen (first c rfl), List.rdropWhile_eq_self_iff]
    intro full
    rw [last _ (List.getLast?_eq_some_getLast full)]
    decide

theorem trimByTwice (p : CodeUnit → Bool) (text : Text) : trimBy p (trimBy p text) = trimBy p text := by
  have first := trimByHead p text
  cases trimmed : trimBy p text with
  | nil => exact trimByNil
  | cons d rest =>
    rw [trimmed] at first
    rw [trimByOpen (first d rfl), ← trimmed, trimBy, List.rdropWhile_idempotent]

end CodeUnits
end DatabaseAdmin
