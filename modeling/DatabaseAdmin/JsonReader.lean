import Mathlib.Data.List.DropRight

/-! JSON as values: a reader of texts given as lists of units. What a number may look like is a
parameter. -/
namespace DatabaseAdmin.JsonReader

abbrev Units := List Nat

inductive JsonValue where
  | null
  | boolean (value : Bool)
  | number (token : Units)
  | string (text : Units)
  | array (items : List JsonValue)
  | object (members : List (Units × JsonValue))

def isBlank (c : Nat) : Bool := c == 32 || c == 9 || c == 10 || c == 13

def dropBlank (t : Units) : Units := t.dropWhile isBlank

section Blanks

def Blank (t : Units) : Prop := ∀ c ∈ t, isBlank c = true

theorem dropLead {lead : Units} (blank : Blank lead) (t : Units) : dropBlank (lead ++ t) = dropBlank t := by
  rw [dropBlank, List.dropWhile_append, List.dropWhile_eq_nil_iff.mpr blank]
  rfl

theorem dropInk {c : Nat} (ink : isBlank c = false) (t : Units) : dropBlank (c :: t) = c :: t := by
  simp [dropBlank, ink]

theorem dropMore {t rest : Units} {c : Nat} (found : dropBlank t = c :: rest) (s : Units) :
    dropBlank (t ++ s) = c :: (rest ++ s) := by
  rw [dropBlank, List.dropWhile_append]
  rw [dropBlank] at found
  simp [found]

theorem blankOf {t : Units} (none : dropBlank t = []) : Blank t := List.dropWhile_eq_nil_iff.mp none

end Blanks

def hexDigit (c : Nat) : Option Nat :=
  if 48 ≤ c ∧ c ≤ 57 then some (c - 48)
  else if 65 ≤ c ∧ c ≤ 70 then some (c - 55)
  else if 97 ≤ c ∧ c ≤ 102 then some (c - 87)
  else none

def hexUnit (a b c d : Nat) : Option Nat := do
  let a ← hexDigit a
  let b ← hexDigit b
  let c ← hexDigit c
  let d ← hexDigit d
  return 4096 * a + 256 * b + 16 * c + d

def escapes : List (Nat × Nat) := [(34, 34), (92, 92), (47, 47), (98, 8), (102, 12), (110, 10), (114, 13), (116, 9)]

def escaped (letter : Nat) : Option Nat := (escapes.find? (·.1 = letter)).map (·.2)

def stringTail : Units → Option (Units × Units)
  | [] => none
  | c :: rest =>
      if c = 34 then some ([], rest)
      else if c = 92 then
        match rest with
        | [] => none
        | e :: rest =>
            if e = 117 then
              match rest with
              | a :: b :: c :: d :: rest => do
                  let u ← hexUnit a b c d
                  let (text, rest) ← stringTail rest
                  return (u :: text, rest)
              | _ => none
            else do
              let u ← escaped e
              let (text, rest) ← stringTail rest
              return (u :: text, rest)
      else if c < 32 then none
      else do
        let (text, rest) ← stringTail rest
        return (c :: text, rest)

theorem tailQuote (rest : Units) : stringTail (34 :: rest) = some ([], rest) := by
  unfold stringTail
  simp

theorem tailUnicode {a b c d u : Nat} (unit : hexUnit a b c d = some u) (rest : Units) :
    stringTail (92 :: 117 :: a :: b :: c :: d :: rest) = (stringTail rest).map fun read => (u :: read.1, read.2) := by
  have apart : (92 : Nat) ≠ 34 := by decide
  conv_lhs => unfold stringTail
  simp only [unit, bind, Option.bind_some, apart, if_false, if_true]
  cases stringTail rest <;> rfl

theorem tailEscape {e u : Nat} (known : escaped e = some u) (rest : Units) :
    stringTail (92 :: e :: rest) = (stringTail rest).map fun read => (u :: read.1, read.2) := by
  have letter : e ≠ 117 := by
    rintro rfl
    have unknown : escaped 117 = none := rfl
    rw [unknown] at known
    contradiction
  have apart : (92 : Nat) ≠ 34 := by decide
  conv_lhs => unfold stringTail
  simp only [known, bind, Option.bind_some, apart, if_false, if_true, letter]
  cases stringTail rest <;> rfl

theorem tailPlain {c : Nat} (open' : c ≠ 34) (literal : c ≠ 92) (printable : 32 ≤ c) (rest : Units) :
    stringTail (c :: rest) = (stringTail rest).map fun read => (c :: read.1, read.2) := by
  conv_lhs => unfold stringTail
  simp only [open', literal, Nat.not_lt.mpr printable, bind, if_false]
  cases stringTail rest <;> rfl

section Sequences
variable {α : Type} (close : Nat) (item : Units → Option (α × Units))

def readItems : Nat → Units → Option (List α × Units)
  | 0, _ => none
  | n + 1, t => do
      let (x, t) ← item t
      match dropBlank t with
      | [] => none
      | c :: rest =>
          if c = close then return ([x], rest)
          else if c = 44 then do
            let (xs, rest) ← readItems n rest
            return (x :: xs, rest)
          else none

def readSequence (n : Nat) (t : Units) : Option (List α × Units) :=
  if (dropBlank t).head? = some close then some ([], (dropBlank t).drop 1) else readItems close item n t

end Sequences

section Fuel
variable {α : Type} {close : Nat}

def Covers (less more : Units → Option (α × Units)) : Prop := ∀ t read, less t = some read → more t = some read

variable {less more : Units → Option (α × Units)}

theorem itemsCover (covers : Covers less more) {n m : Nat} (fuel : n ≤ m) :
    Covers (readItems close less n) (readItems close more m) := by
  induction n generalizing m with
  | zero => exact fun t read made => nomatch made
  | succ n ih =>
    intro t read made
    cases m with
    | zero => exact absurd fuel (by omega)
    | succ m =>
      simp only [readItems, bind, Option.bind_eq_some_iff, Prod.exists] at made ⊢
      obtain ⟨x, u, first, rest⟩ := made
      refine ⟨x, u, covers t (x, u) first, ?_⟩
      cases behind : dropBlank u with
      | nil => simp [behind] at rest
      | cons c v =>
        simp only [behind] at rest ⊢
        split at rest
        · rename_i last
          simpa [last] using rest
        · rename_i other
          split at rest
          · rename_i comma
            rw [if_neg other, if_pos comma]
            simp only [Option.bind_eq_some_iff, Prod.exists] at rest ⊢
            obtain ⟨xs, w, later, made⟩ := rest
            exact ⟨xs, w, ih (Nat.le_of_succ_le_succ fuel) v (xs, w) later, made⟩
          · contradiction

theorem sequenceCovers (covers : Covers less more) {n m : Nat} (fuel : n ≤ m) :
    Covers (readSequence close less n) (readSequence close more m) := by
  intro t read made
  unfold readSequence at made ⊢
  split at made
  · rename_i first
    rwa [if_pos first]
  · rename_i other
    rw [if_neg other]
    exact itemsCover covers fuel t read made

end Fuel

section Members
variable {α : Type} (item : Units → Option (α × Units))

def readMember (t : Units) : Option ((Units × α) × Units) :=
  match dropBlank t with
  | [] => none
  | c :: rest =>
      if c = 34 then do
        let (key, t) ← stringTail rest
        match dropBlank t with
        | [] => none
        | c :: rest =>
            if c = 58 then do
              let (value, rest) ← item rest
              return ((key, value), rest)
            else none
      else none

def Inked {α : Type} (reader : Units → Option (α × Units)) : Prop := ∀ t, dropBlank t = [] → reader t = none

variable {item}

theorem memberInked : Inked (readMember item) := fun t none => by simp [readMember, none]

end Members

section Values
variable (isNumber : Units → Bool)

def isScalarUnit (c : Nat) : Bool :=
  decide (48 ≤ c ∧ c ≤ 57) || decide (97 ≤ c ∧ c ≤ 122) || decide (65 ≤ c ∧ c ≤ 90) || c == 43 || c == 45 || c == 46

def scalar (token : Units) : Option JsonValue :=
  if token = [110, 117, 108, 108] then some .null
  else if token = [116, 114, 117, 101] then some (.boolean true)
  else if token = [102, 97, 108, 115, 101] then some (.boolean false)
  else if isNumber token then some (.number token)
  else none

def readScalar (t : Units) : Option (JsonValue × Units) :=
  (scalar isNumber (t.takeWhile isScalarUnit)).map (·, t.dropWhile isScalarUnit)

def putMember (members : List (Units × JsonValue)) (m : Units × JsonValue) : List (Units × JsonValue) :=
  if m.1 ∈ members.map Prod.fst then members.map fun old => if old.1 = m.1 then m else old else members ++ [m]

def collapse (members : List (Units × JsonValue)) : List (Units × JsonValue) := members.foldl putMember []

def readValue : Nat → Units → Option (JsonValue × Units)
  | 0, _ => none
  | n + 1, t =>
      match dropBlank t with
      | [] => none
      | c :: rest =>
          if c = 34 then (stringTail rest).map fun read => (.string read.1, read.2)
          else if c = 91 then (readSequence 93 (readValue n) n rest).map fun read => (.array read.1, read.2)
          else if c = 123 then
            (readSequence 125 (readMember (readValue n)) n rest).map fun read => (.object (collapse read.1), read.2)
          else readScalar isNumber (c :: rest)

theorem valueInked (n : Nat) : Inked (readValue isNumber n) := by
  intro t none
  cases n with
  | zero => rfl
  | succ n => simp [readValue, none]

def parse (t : Units) : Option JsonValue :=
  match readValue isNumber (t.length + 1) t with
  | some (value, rest) => if dropBlank rest = [] then some value else none
  | none => none

end Values

section Extensions

def Closed (s : Units) : Prop := ∀ c ∈ s.head?, isScalarUnit c = false

def Extends {α : Type} (reader : Units → Option (α × Units)) : Prop :=
  ∀ t x r s, reader t = some (x, r) → Closed s → reader (t ++ s) = some (x, r ++ s)

theorem stringExtends (s : Units) {t text r : Units} (read : stringTail t = some (text, r)) :
    stringTail (t ++ s) = some (text, r ++ s) := by
  fun_induction stringTail t generalizing text r with
  | case1 => contradiction
  | case2 rest =>
    cases read
    exact tailQuote (rest ++ s)
  | case3 => contradiction
  | case4 a b c d rest _ ih =>
    simp only [bind, Option.bind_eq_some_iff, Prod.exists, pure, Option.some.injEq, Prod.mk.injEq] at read
    obtain ⟨u, unit, tail, rest', more, rfl, rfl⟩ := read
    exact (tailUnicode unit (rest ++ s)).trans (by rw [ih more]; rfl)
  | case5 => contradiction
  | case6 e rest notU _ ih =>
    simp only [bind, Option.bind_eq_some_iff, Prod.exists, pure, Option.some.injEq, Prod.mk.injEq] at read
    obtain ⟨u, known, tail, rest', more, rfl, rfl⟩ := read
    exact (tailEscape known (rest ++ s)).trans (by rw [ih more]; rfl)
  | case7 => contradiction
  | case8 c rest notQuote notSlash printable ih =>
    simp only [bind, Option.bind_eq_some_iff, Prod.exists, pure, Option.some.injEq, Prod.mk.injEq] at read
    obtain ⟨tail, rest', more, rfl, rfl⟩ := read
    exact (tailPlain notQuote notSlash (Nat.le_of_not_lt printable) (rest ++ s)).trans (by rw [ih more]; rfl)

variable {α : Type} {close : Nat} {item : Units → Option (α × Units)}

theorem itemsExtend (extends' : Extends item) (n : Nat) : Extends (readItems close item n) := by
  induction n with
  | zero => exact fun t x r s read => nomatch read
  | succ n ih =>
    intro t xs r s read closed
    simp only [readItems, bind, Option.bind_eq_some_iff, Prod.exists] at read
    obtain ⟨x, u, first, more⟩ := read
    have next := extends' t x u s first closed
    cases behind : dropBlank u with
    | nil => simp [behind] at more
    | cons c rest =>
      simp only [behind] at more
      simp only [readItems, bind, next, Option.bind_some, dropMore behind s]
      split at more
      · rename_i last
        cases more
        simp [last]
      · rename_i other
        split at more
        · rename_i comma
          simp only [Option.bind_eq_some_iff, Prod.exists] at more
          obtain ⟨ys, v, later, made⟩ := more
          cases made
          have last := ih rest ys r s later closed
          rw [comma] at other
          simp only [comma, other, if_false, if_true, last, Option.bind_some]
          rfl
        · contradiction

theorem sequenceExtends (extends' : Extends item) (inked : Inked item) (n : Nat) : Extends (readSequence close item n) := by
  intro t xs r s read closed
  unfold readSequence at read ⊢
  split at read
  · rename_i first
    cases found : dropBlank t with
    | nil => simp [found] at first
    | cons c rest =>
      rw [found] at first read
      rw [dropMore found s, List.head?_cons, if_pos (by simpa using first)]
      cases read
      rfl
  · rename_i other
    have still : ¬(dropBlank (t ++ s)).head? = some close := by
      cases found : dropBlank t with
      | nil =>
        have nothing : readItems close item n t = none := by
          cases n with
          | zero => rfl
          | succ n => simp [readItems, inked t found]
        rw [nothing] at read
        contradiction
      | cons c rest =>
        rw [dropMore found s]
        rwa [found] at other
    rw [if_neg still]
    exact itemsExtend extends' n t xs r s read closed

theorem memberExtends (extends' : Extends item) : Extends (readMember item) := by
  intro t x r s read closed
  unfold readMember at read ⊢
  cases found : dropBlank t with
  | nil => simp [found] at read
  | cons c rest =>
    simp only [found] at read
    simp only [dropMore found s]
    split at read
    · rename_i quote
      simp only [bind, Option.bind_eq_some_iff, Prod.exists] at read
      obtain ⟨key, u, named, more⟩ := read
      simp only [quote, if_true, bind, stringExtends s named, Option.bind_some]
      cases behind : dropBlank u with
      | nil => simp [behind] at more
      | cons d rest' =>
        simp only [behind] at more
        simp only [dropMore behind s]
        split at more
        · rename_i colon
          simp only [Option.bind_eq_some_iff, Prod.exists] at more
          obtain ⟨value, v, valued, made⟩ := more
          cases made
          simp only [colon, if_true, extends' rest' value r s valued closed, Option.bind_some]
          rfl
        · contradiction
    · contradiction

section Values
variable (isNumber : Units → Bool)

theorem scalarExtends : Extends (readScalar isNumber) := by
  intro t x r s read closed
  obtain ⟨value, named, made⟩ := Option.map_eq_some_iff.mp read
  cases made
  have ends : s.takeWhile isScalarUnit = [] ∧ s.dropWhile isScalarUnit = s := by
    cases s with
    | nil => exact ⟨rfl, rfl⟩
    | cons c s => simp [closed c rfl]
  have taken : (t ++ s).takeWhile isScalarUnit = t.takeWhile isScalarUnit := by
    rw [List.takeWhile_append]
    split
    · rename_i whole
      rw [ends.1, List.append_nil, (List.takeWhile_sublist _).eq_of_length whole]
    · rfl
  have left : (t ++ s).dropWhile isScalarUnit = t.dropWhile isScalarUnit ++ s := by
    rw [List.dropWhile_append]
    split
    · rename_i nothing
      rw [ends.2, List.isEmpty_iff.mp nothing, List.nil_append]
    · rfl
  rw [readScalar, taken, left, named]
  rfl

theorem valueExtends (n : Nat) : Extends (readValue isNumber n) := by
  induction n with
  | zero => exact fun t x r s read => nomatch read
  | succ n ih =>
    intro t x r s read closed
    unfold readValue at read ⊢
    cases found : dropBlank t with
    | nil => simp [found] at read
    | cons c rest =>
      simp only [found] at read
      simp only [dropMore found s]
      split at read
      · rename_i quote
        obtain ⟨⟨text, u⟩, named, made⟩ := Option.map_eq_some_iff.mp read
        cases made
        simp only [quote, if_true, stringExtends s named, Option.map_some]
      split at read
      · rename_i other array
        obtain ⟨⟨items, u⟩, listed, made⟩ := Option.map_eq_some_iff.mp read
        cases made
        have more := sequenceExtends ih (valueInked isNumber n) n rest items u s listed closed
        rw [if_neg other, if_pos array, more]
        rfl
      split at read
      · rename_i other array object
        obtain ⟨⟨members, u⟩, listed, made⟩ := Option.map_eq_some_iff.mp read
        cases made
        have more := sequenceExtends (memberExtends ih) memberInked n rest members u s listed closed
        rw [if_neg other, if_neg array, if_pos object, more]
        rfl
      · rename_i other array object
        simp only [other, array, object, if_false]
        exact scalarExtends isNumber (c :: rest) x r s read closed

end Values

end Extensions

section Fuel
variable {α : Type} {less more : Units → Option (α × Units)}

theorem memberCovers (covers : Covers less more) : Covers (readMember less) (readMember more) := by
  intro t read made
  unfold readMember at made ⊢
  cases found : dropBlank t with
  | nil => simp [found] at made
  | cons c rest =>
    simp only [found] at made ⊢
    split at made
    · rename_i quote
      rw [if_pos quote]
      simp only [bind, Option.bind_eq_some_iff, Prod.exists] at made ⊢
      obtain ⟨key, u, named, behind⟩ := made
      refine ⟨key, u, named, ?_⟩
      split at behind
      · contradiction
      · split at behind
        · rename_i colon
          rw [if_pos colon]
          simp only [Option.bind_eq_some_iff, Prod.exists] at behind ⊢
          obtain ⟨value, v, valued, made⟩ := behind
          exact ⟨value, v, covers _ _ valued, made⟩
        · contradiction
    · contradiction

theorem valueCovers (isNumber : Units → Bool) {n m : Nat} (fuel : n ≤ m) :
    Covers (readValue isNumber n) (readValue isNumber m) := by
  induction n generalizing m with
  | zero => exact fun t read made => nomatch made
  | succ n ih =>
    intro t read made
    cases m with
    | zero => exact absurd fuel (by omega)
    | succ m =>
      have less := Nat.le_of_succ_le_succ fuel
      unfold readValue at made ⊢
      cases found : dropBlank t with
      | nil => simp [found] at made
      | cons c rest =>
        simp only [found] at made ⊢
        split at made
        · rename_i quote
          rwa [if_pos quote]
        rename_i other
        rw [if_neg other]
        split at made
        · rename_i array
          obtain ⟨items, listed, rfl⟩ := Option.map_eq_some_iff.mp made
          rw [if_pos array, sequenceCovers (ih less) less rest items listed]
          rfl
        rename_i notArray
        rw [if_neg notArray]
        split at made
        · rename_i object
          obtain ⟨members, listed, rfl⟩ := Option.map_eq_some_iff.mp made
          rw [if_pos object, sequenceCovers (memberCovers (ih less)) less rest members listed]
          rfl
        · rename_i notObject
          rwa [if_neg notObject]

end Fuel

end DatabaseAdmin.JsonReader
