import DatabaseAdmin.JsonReader

/-! Texts the reader takes as a given value, whatever comes behind: strings spelled with escapes,
sequences put together from their items, and whole documents. -/
namespace DatabaseAdmin.JsonReader

section Spelling

def hexLetter (d : Nat) : Nat := if d < 10 then d + 48 else d + 87

def unicodeEscape (c : Nat) : Units :=
  [92, 117, hexLetter (c / 4096 % 16), hexLetter (c / 256 % 16), hexLetter (c / 16 % 16), hexLetter (c % 16)]

def isHighSurrogate (c : Nat) : Bool := decide (0xD800 ≤ c ∧ c < 0xDC00)

def isLowSurrogate (c : Nat) : Bool := decide (0xDC00 ≤ c ∧ c < 0xE000)

def spellUnit (paired : Bool) (c : Nat) : Units :=
  if c = 34 ∨ c = 92 then [92, c]
  else if c = 8 then [92, 98]
  else if c = 9 then [92, 116]
  else if c = 10 then [92, 110]
  else if c = 12 then [92, 102]
  else if c = 13 then [92, 114]
  else if c < 32 then unicodeEscape c
  else if (isHighSurrogate c || isLowSurrogate c) && !paired then unicodeEscape c
  else [c]

def spell (after : Bool) : Units → Units
  | [] => []
  | c :: rest =>
      spellUnit (if isHighSurrogate c then rest.head?.any isLowSurrogate else after) c ++ spell (isHighSurrogate c) rest

def quoted (text : Units) : Units := 34 :: (spell false text ++ [34])

theorem hexLetterDigit {d : Nat} (small : d < 16) : hexDigit (hexLetter d) = some d := by
  unfold hexLetter hexDigit
  split
  · rw [if_pos (by omega), Nat.add_sub_cancel]
  · rw [if_neg (by omega), if_neg (by omega), if_pos (by omega), Nat.add_sub_cancel]

theorem unicodeUnit {c : Nat} (wide : c < 65536) :
    hexUnit (hexLetter (c / 4096 % 16)) (hexLetter (c / 256 % 16)) (hexLetter (c / 16 % 16)) (hexLetter (c % 16)) = some c := by
  have small (n : Nat) : n % 16 < 16 := Nat.mod_lt n (by decide)
  simp only [hexUnit, hexLetterDigit (small _), bind, Option.bind_some, pure, Option.some.injEq]
  omega

theorem unitRead (paired : Bool) (c : Nat) (rest : Units) :
    stringTail (spellUnit paired c ++ rest) = (stringTail rest).map fun read => (c :: read.1, read.2) := by
  unfold spellUnit
  split
  · rename_i plain
    rcases plain with rfl | rfl <;> exact tailEscape rfl rest
  rename_i notQuote
  iterate 5
    split
    · subst c
      exact tailEscape rfl rest
  split
  · exact tailUnicode (unicodeUnit (by omega)) rest
  split
  · rename_i lone
    simp only [isHighSurrogate, isLowSurrogate, Bool.and_eq_true, Bool.or_eq_true, decide_eq_true_eq] at lone
    exact tailUnicode (unicodeUnit (by omega)) rest
  · exact tailPlain (by omega) (by omega) (by omega) rest

theorem spellRead (after : Bool) (text s : Units) : stringTail (spell after text ++ 34 :: s) = some (text, s) := by
  induction text generalizing after with
  | nil => exact tailQuote s
  | cons c text ih =>
    rw [spell, List.append_assoc, unitRead, ih]
    rfl

theorem unitLine (paired : Bool) (c : Nat) : 10 ∉ spellUnit paired c := by
  unfold spellUnit
  iterate 8
    split
    · simp only [unicodeEscape, hexLetter, List.mem_cons, List.not_mem_nil]
      grind
  simp only [List.mem_cons, List.not_mem_nil]
  grind

theorem spellLine (after : Bool) (text : Units) : 10 ∉ spell after text := by
  induction text generalizing after with
  | nil => exact List.not_mem_nil
  | cons c text ih => exact fun member => (List.mem_append.mp member).elim (unitLine _ c) (ih _)

theorem quotedLine (text : Units) : 10 ∉ quoted text := by
  simp [quoted, spellLine]

end Spelling

section Writing

def Spells {α : Type} (reader : Nat → Units → Option (α × Units)) (x : α) (text : Units) : Prop :=
  ∀ s, Closed s → ∀ fuel, text.length < fuel → ∃ r, Blank r ∧ reader fuel (text ++ s) = some (x, r ++ s)

def joined (texts : List Units) : Units := List.intercalate [44] texts

variable {α : Type} {close : Nat} {item : Nat → Units → Option (α × Units)}

def Shut (close : Nat) (item : Nat → Units → Option (α × Units)) : Prop :=
  ∀ n t rest, dropBlank t = close :: rest → item n t = none

theorem closedBlank {lead s : Units} (blank : Blank lead) (closed : Closed s) : Closed (lead ++ s) := by
  cases lead with
  | nil => exact closed
  | cons c lead =>
    have own := blank c List.mem_cons_self
    simp only [isBlank, Bool.or_eq_true, beq_iff_eq] at own
    intro d first
    cases first
    rcases own with ((rfl | rfl) | rfl) | rfl <;> decide

theorem itemsRead (closes : isBlank close = false ∧ isScalarUnit close = false ∧ close ≠ 44) {xs : List α}
    {texts : List Units} (reads : List.Forall₂ (Spells item) xs texts) (some' : texts ≠ []) {tail : Units} (blank : Blank tail)
    (s : Units) {n fuel : Nat} (enough : texts.length ≤ n) (wide : ∀ text ∈ texts, text.length < fuel) :
    readItems close (item fuel) n (joined texts ++ (tail ++ close :: s)) = some (xs, s) := by
  induction reads generalizing n with
  | nil => exact absurd rfl some'
  | @cons x text xs texts first rest ih =>
    cases n with
    | zero => simp at enough
    | succ n =>
      have own := wide text List.mem_cons_self
      cases texts with
      | nil =>
        cases rest
        have ends : Closed (close :: s) := by simp [Closed, closes.2.1]
        obtain ⟨r, after, read⟩ := first (tail ++ close :: s) (closedBlank blank ends) fuel own
        simp only [joined, List.intercalate_singleton, readItems, bind, read, Option.bind_some, dropLead after, dropLead blank,
          dropInk closes.1, if_true]
        rfl
      | cons next texts =>
        have more : joined (text :: next :: texts) ++ (tail ++ close :: s) =
            text ++ 44 :: (joined (next :: texts) ++ (tail ++ close :: s)) := by
          simp [joined, List.intercalate]
        have comma : isBlank 44 = false := by decide
        have parted : Closed (44 :: (joined (next :: texts) ++ (tail ++ close :: s))) := by
          simp only [Closed, List.head?_cons, Option.mem_def, Option.some.injEq, forall_eq']
          decide
        obtain ⟨r, after, read⟩ := first _ parted fuel own
        have later := ih (by simp) (Nat.le_of_succ_le_succ enough) fun t member => wide t (List.mem_cons_of_mem _ member)
        simp only [more, readItems, bind, read, Option.bind_some, dropLead after, dropInk comma, if_neg (Ne.symm closes.2.2),
          if_true, later]
        rfl

theorem sequenceRead (closes : isBlank close = false ∧ isScalarUnit close = false ∧ close ≠ 44) (shut : Shut close item)
    {xs : List α} {texts : List Units} (reads : List.Forall₂ (Spells item) xs texts) {tail : Units} (blank : Blank tail)
    (s : Units) {n fuel : Nat} (enough : texts.length ≤ n) (wide : ∀ text ∈ texts, text.length < fuel) :
    readSequence close (item fuel) n (joined texts ++ (tail ++ close :: s)) = some (xs, s) := by
  by_cases some' : texts = []
  · subst some'
    cases reads
    have found : dropBlank (tail ++ close :: s) = close :: s := by rw [dropLead blank, dropInk closes.1]
    simp only [readSequence, joined, List.intercalate_nil, List.nil_append, found, List.head?_cons, if_true, List.drop_one,
      List.tail_cons]
  · have read := itemsRead closes reads some' blank s enough wide
    have other : (dropBlank (joined texts ++ (tail ++ close :: s))).head? ≠ some close := by
      intro first
      obtain ⟨rest, found⟩ := List.head?_eq_some_iff.mp first
      cases n with
      | zero => contradiction
      | succ n => simp [readItems, shut fuel _ rest found] at read
    rw [readSequence, if_neg other, read]

theorem textsFit (texts : List Units) :
    (∀ text ∈ texts, text.length ≤ (joined texts).length) ∧ texts.length ≤ (joined texts).length + 1 := by
  induction texts with
  | nil => simp
  | cons text texts ih =>
    cases texts with
    | nil => simp [joined]
    | cons next texts =>
      have more : (joined (text :: next :: texts)).length = text.length + 1 + (joined (next :: texts)).length := by
        simp [joined, List.intercalate]
        omega
      refine ⟨fun t member => ?_, by rw [List.length_cons]; omega⟩
      rcases List.mem_cons.mp member with rfl | later
      · omega
      · have own := ih.1 t later
        omega

section Values
variable (isNumber : Units → Bool)

theorem valueLead (n : Nat) {lead : Units} (blank : Blank lead) (t : Units) :
    readValue isNumber n (lead ++ t) = readValue isNumber n t := by
  cases n with
  | zero => rfl
  | succ n => rw [readValue, readValue, dropLead blank]

theorem memberLead {lead : Units} (blank : Blank lead) (reader : Units → Option (α × Units)) (t : Units) :
    readMember reader (lead ++ t) = readMember reader t := by
  rw [readMember, readMember, dropLead blank]

theorem readsLead {x : α} {text lead : Units} (ignored : ∀ n t, item n (lead ++ t) = item n t) (reads : Spells item x text) :
    Spells item x (lead ++ text) := by
  intro s closed fuel wide
  rw [List.length_append] at wide
  rw [List.append_assoc, ignored]
  exact reads s closed fuel (by omega)

theorem valueShut (bare : isNumber [] = false) : Shut 93 (readValue isNumber) := by
  intro n t rest found
  cases n with
  | zero => rfl
  | succ n =>
    have nothing : (93 :: rest).takeWhile isScalarUnit = [] := by
      rw [List.takeWhile_cons]
      rfl
    simp [readValue, found, readScalar, nothing, scalar, bare]

theorem memberShut (reader : Nat → Units → Option (α × Units)) : Shut 125 fun n => readMember (reader n) := by
  intro n t rest found
  simp [readMember, found]

theorem stringReads (text : Units) : Spells (readValue isNumber) (.string text) (quoted text) := by
  intro s _ fuel wide
  cases fuel with
  | zero => exact absurd wide (Nat.not_lt_zero _)
  | succ n =>
    refine ⟨[], by simp [Blank], ?_⟩
    have ink : isBlank 34 = false := by decide
    simp only [quoted, List.cons_append, List.append_assoc, List.nil_append, readValue, dropInk ink, if_true, spellRead,
      Option.map_some]

theorem scalarReads {token : Units} {value : JsonValue} (named : scalar isNumber token = some value) (some' : token ≠ [])
    (units : ∀ c ∈ token, isScalarUnit c = true) : Spells (readValue isNumber) value token := by
  intro s closed fuel wide
  cases fuel with
  | zero => exact absurd wide (Nat.not_lt_zero _)
  | succ n =>
    refine ⟨[], by simp [Blank], ?_⟩
    obtain ⟨c, rest, rfl⟩ := List.exists_cons_of_ne_nil some'
    have own := units c List.mem_cons_self
    have ink : isBlank c = false := by
      simp only [isScalarUnit, isBlank] at own ⊢
      grind
    have apart : c ≠ 34 ∧ c ≠ 91 ∧ c ≠ 123 := by
      refine ⟨?_, ?_, ?_⟩ <;> rintro rfl <;> contradiction
    have read : readScalar isNumber (c :: rest) = some (value, []) := by
      rw [readScalar, List.takeWhile_eq_self_iff.mpr units, named, List.dropWhile_eq_nil_iff.mpr units]
      rfl
    simp only [readValue, List.cons_append, dropInk ink, if_neg apart.1, if_neg apart.2.1, if_neg apart.2.2]
    exact scalarExtends isNumber (c :: rest) value [] s read closed

theorem documentReads {text : Units} {value : JsonValue} (read : parse isNumber text = some value) :
    Spells (readValue isNumber) value text := by
  unfold parse at read
  split at read
  · rename_i read' rest found
    split at read
    · rename_i blank
      cases read
      intro s closed fuel wide
      exact ⟨rest, blankOf blank, valueCovers isNumber wide _ _ (valueExtends isNumber _ text value rest s found closed)⟩
    · contradiction
  · contradiction

theorem textsWithin (texts : List Units) {n : ℕ} (wide : (joined texts).length + 1 ≤ n) :
    (∀ text ∈ texts, text.length < n) ∧ texts.length ≤ n := by
  have fits := textsFit texts
  refine ⟨fun text member => ?_, by omega⟩
  have own := fits.1 text member
  omega

theorem readsDocument {text : Units} {value : JsonValue} (reads : Spells (readValue isNumber) value text) {tail : Units}
    (blank : Blank tail) : parse isNumber (text ++ tail) = some value := by
  have ends : Closed tail := by
    have closed : Closed ([] : Units) := by simp [Closed]
    simpa using closedBlank blank closed
  obtain ⟨r, after, read⟩ := reads tail ends ((text ++ tail).length + 1) (by rw [List.length_append]; omega)
  have nothing : dropBlank (r ++ tail) = [] := by
    rw [dropLead after]
    exact List.dropWhile_eq_nil_iff.mpr blank
  simp only [parse, read, nothing, if_true]

theorem memberReads {key text gap : Units} {value : JsonValue} (blank : Blank gap) (reads : Spells (readValue isNumber) value text) :
    Spells (fun n => readMember (readValue isNumber n)) (key, value) (quoted key ++ 58 :: (gap ++ text)) := by
  intro s closed fuel wide
  simp only [List.length_append, List.length_cons] at wide
  obtain ⟨r, after, read⟩ := reads s closed fuel (by omega)
  have quote : isBlank 34 = false := by decide
  have colon : isBlank 58 = false := by decide
  refine ⟨r, after, ?_⟩
  simp only [readMember, quoted, List.cons_append, List.append_assoc, List.nil_append, dropInk quote, if_true, bind, spellRead,
    Option.bind_some, dropInk colon, valueLead isNumber fuel blank, read]
  rfl

theorem arrayReads (bare : isNumber [] = false) {values : List JsonValue} {texts : List Units}
    (reads : List.Forall₂ (Spells (readValue isNumber)) values texts) {tail : Units} (blank : Blank tail) :
    Spells (readValue isNumber) (.array values) (91 :: (joined texts ++ (tail ++ [93]))) := by
  intro s closed fuel wide
  cases fuel with
  | zero => exact absurd wide (Nat.not_lt_zero _)
  | succ n =>
    have inner := Nat.lt_of_succ_lt_succ wide
    simp only [List.length_append, List.length_singleton] at inner
    obtain ⟨within, enough⟩ := textsWithin texts (n := n) (by omega)
    have closes : isBlank 93 = false ∧ isScalarUnit 93 = false ∧ (93 : Nat) ≠ 44 := by decide
    have read := sequenceRead closes (valueShut isNumber bare) reads blank s enough within
    have ink : isBlank 91 = false := by decide
    have apart : (91 : Nat) ≠ 34 := by decide
    refine ⟨[], by simp [Blank], ?_⟩
    simp only [readValue, List.cons_append, List.append_assoc, List.nil_append, dropInk ink, if_neg apart, if_true, read,
      Option.map_some]

theorem objectReads {members : List (Units × JsonValue)} {texts : List Units}
    (reads : List.Forall₂ (Spells fun n => readMember (readValue isNumber n)) members texts) :
    Spells (readValue isNumber) (.object (collapse members)) (123 :: (joined texts ++ [125])) := by
  intro s closed fuel wide
  cases fuel with
  | zero => exact absurd wide (Nat.not_lt_zero _)
  | succ n =>
    have inner := Nat.lt_of_succ_lt_succ wide
    simp only [List.length_append, List.length_singleton] at inner
    obtain ⟨within, enough⟩ := textsWithin texts (n := n) (by omega)
    have closes : isBlank 125 = false ∧ isScalarUnit 125 = false ∧ (125 : Nat) ≠ 44 := by decide
    have nothing : Blank ([] : Units) := by simp [Blank]
    have read := sequenceRead closes (memberShut (readValue isNumber)) reads nothing s enough within
    have ink : isBlank 123 = false := by decide
    have apart : (123 : Nat) ≠ 34 ∧ (123 : Nat) ≠ 91 := by decide
    rw [List.nil_append] at read
    refine ⟨[], by simp [Blank], ?_⟩
    simp only [readValue, List.cons_append, List.append_assoc, List.nil_append, dropInk ink, if_neg apart.1, if_neg apart.2,
      if_true, read, Option.map_some]

end Values

end Writing

section Members

theorem collapseDistinct {members : List (Units × JsonValue)} (distinct : (members.map Prod.fst).Nodup) :
    collapse members = members := by
  suffices grown : ∀ before, ((before ++ members).map Prod.fst).Nodup → members.foldl putMember before = before ++ members by
    exact grown [] distinct
  intro before
  induction members generalizing before with
  | nil => simp
  | cons m members ih =>
    intro apart
    have fresh : m.1 ∉ before.map Prod.fst := by
      rw [List.map_append, List.nodup_append] at apart
      exact fun member => apart.2.2 m.1 member m.1 (by simp) rfl
    rw [List.foldl_cons, putMember, if_neg fresh, ih (List.nodup_cons.mp distinct).2 (before ++ [m]) (by simpa using apart)]
    simp

theorem putMembers (members : List (Units × JsonValue)) (m : Units × JsonValue) :
    (putMember members m).map Prod.fst = if m.1 ∈ members.map Prod.fst then members.map Prod.fst else members.map Prod.fst ++ [m.1] := by
  unfold putMember
  split
  · rw [List.map_map]
    refine List.map_congr_left fun old _ => ?_
    simp only [Function.comp]
    split
    · rename_i same
      exact same.symm
    · rfl
  · simp

theorem collapseKeys (members : List (Units × JsonValue)) :
    ((collapse members).map Prod.fst).Nodup ∧ ∀ key, key ∈ (collapse members).map Prod.fst ↔ key ∈ members.map Prod.fst := by
  suffices grown : ∀ before : List (Units × JsonValue), (before.map Prod.fst).Nodup →
      ((members.foldl putMember before).map Prod.fst).Nodup ∧
      ∀ key, key ∈ (members.foldl putMember before).map Prod.fst ↔ key ∈ before.map Prod.fst ∨ key ∈ members.map Prod.fst by
    simpa [collapse] using grown [] List.nodup_nil
  induction members with
  | nil => intro before distinct; simpa using distinct
  | cons m members ih =>
    intro before distinct
    have put : ((putMember before m).map Prod.fst).Nodup := by
      rw [putMembers]
      split
      · exact distinct
      · rename_i fresh
        exact List.nodup_append.mpr ⟨distinct, by simp, by grind⟩
    obtain ⟨apart, keys⟩ := ih (putMember before m) put
    refine ⟨apart, fun key => ?_⟩
    rw [List.foldl_cons, keys key, putMembers]
    split <;> grind

end Members

end DatabaseAdmin.JsonReader
