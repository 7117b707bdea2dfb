import DatabaseAdmin.ChangeTemplates
import Mathlib.Data.List.Forall2

/-! The numbers that stand in PostgreSQL's change statements, and the cell that is bound to each. -/
namespace DatabaseAdmin.PgNumbering
open CodeUnits Templates ChangeStatements

section Meaning

def quotedEntries (values : Record) : List (Text × Cell) := values.map fun e => (escapeIdentifier e.1, e.2)

def quotedKey (key : Record) (cols : List Text) : List (Text × Option Cell) :=
  cols.map fun col => (escapeIdentifier col, present key col)

def wanted (keyColumns : List Text) : ChangeOp → List (Filled Cell)
  | .insert values => [.insert (quotedEntries values)]
  | .update key values =>
      if values = [] ∨ keyNames key keyColumns = [] then []
      else [.update (quotedEntries values) (quotedKey key (keyNames key keyColumns))]
  | .delete key =>
      if keyNames key keyColumns = [] then [] else [.delete (quotedKey key (keyNames key keyColumns))]

def wantedTemplate (cs : Changeset) : Filled Cell → Template Cell :=
  template (units " DEFAULT VALUES") (pgQualify cs.schema cs.table)

def placeholders : Bool → Text → List Text
  | _, [] => []
  | quoted, c :: rest =>
      if c = doubleQuote then placeholders (!quoted) rest
      else if quoted = false ∧ c = ('$' : CodeUnit) then rest.takeWhile isDigit :: placeholders quoted rest
      else placeholders quoted rest

theorem quotedPlaceholders (name more : Text) :
    placeholders true (replaceUnit doubleQuote [doubleQuote, doubleQuote] name ++ doubleQuote :: more) = placeholders false more := by
  induction name with
  | nil => rfl
  | cons c name ih =>
    rw [replaceUnit, List.flatMap_cons, ← replaceUnit, List.append_assoc]
    by_cases quote : c = doubleQuote
    · rw [if_pos quote]
      exact ih
    · rw [if_neg quote, List.singleton_append, placeholders, if_neg quote, if_neg fun both => Bool.false_ne_true both.1.symm]
      exact ih

def numbers (count : Nat) : List Text := (List.range' 1 count).map fun n => units (toString n)

structure Numbers {π : Type} (bound : Cell → Except String (PgBound π)) (t : Template Cell) (s : PgChangeStatement π) : Prop where
  text : s.text = numbered 1 t
  params : List.Forall₂ (fun cell param => (bound cell).map PgBound.param = .ok param) (values t) s.params
  marks : placeholders false s.text = numbers s.params.length

inductive SameNames : ChangeOp → ChangeOp → Prop where
  | insert {values values' : Record} (names : values.map Prod.fst = values'.map Prod.fst) : SameNames (.insert values) (.insert values')
  | update {key key' values values' : Record} (names : values.map Prod.fst = values'.map Prod.fst)
      (keyed : key.map Prod.fst = key'.map Prod.fst) (nulls : ∀ col, (present key col).isNone = (present key' col).isNone) :
      SameNames (.update key values) (.update key' values')
  | delete {key key' : Record} (keyed : key.map Prod.fst = key'.map Prod.fst)
      (nulls : ∀ col, (present key col).isNone = (present key' col).isNone) : SameNames (.delete key) (.delete key')

structure SameShape (cs cs' : Changeset) : Prop where
  schema : cs.schema = cs'.schema
  table : cs.table = cs'.table
  keyColumns : cs.keyColumns = cs'.keyColumns
  changes : List.Forall₂ SameNames cs.changes cs'.changes

end Meaning

section Marks

def Front (text : Text) : Prop := ∀ c ∈ text.head?, isDigit c = false

def Marks (text : Text) (found : List Text) : Prop :=
  ∀ more, Front more → placeholders false (text ++ more) = found ++ placeholders false more

theorem frontAppend {a b : Text} (first : Front a) (last : Front b) : Front (a ++ b) := by
  cases a with
  | nil => exact last
  | cons c a => exact first

theorem marksAppend {a b : Text} {x y : List Text} (first : Marks a x) (last : Marks b y) (front : Front b) :
    Marks (a ++ b) (x ++ y) := by
  intro more open_
  rw [List.append_assoc, first _ (frontAppend front open_), last more open_, List.append_assoc]

theorem marksPlain {text : Text} (plain : ∀ c ∈ text, c ≠ doubleQuote ∧ c ≠ ('$' : CodeUnit)) : Marks text [] := by
  intro more open_
  induction text with
  | nil => rfl
  | cons c text ih =>
    obtain ⟨quote, dollar⟩ := plain c List.mem_cons_self
    rw [List.cons_append, placeholders, if_neg quote, if_neg fun both => dollar both.2]
    exact ih fun d member => plain d (List.mem_cons_of_mem _ member)

theorem marksIdent (name : Text) : Marks (escapeIdentifier name) [] := by
  intro more open_
  have inner := quotedPlaceholders name more
  rw [escapeIdentifier, List.append_assoc, List.cons_append, placeholders, if_pos rfl]
  exact inner

theorem digitPlain {c : Nat} (digit : isDigit c = true) : c ≠ doubleQuote ∧ c ≠ ('$' : CodeUnit) := by
  have range : 48 ≤ c ∧ c ≤ 57 := by simpa [isDigit] using digit
  have quote : c ≠ 34 := by omega
  have dollar : c ≠ 36 := by omega
  exact ⟨quote, dollar⟩

theorem marksDollar (n : Nat) : Marks (dollar n) [units (toString n)] := by
  intro more open_
  have digits := (shownDigits n).2
  have plain := marksPlain fun c member => digitPlain (digits c member)
  rw [dollar, List.append_assoc, show units "$" = [36] from rfl, List.singleton_append, placeholders, if_neg (by decide),
    if_pos ⟨rfl, rfl⟩, takeWhileStops digits open_, plain more open_]
  rfl

theorem dollarFront (n : Nat) : Front (dollar n) := by
  intro c head
  rw [dollar, show units "$" = [36] from rfl, List.singleton_append] at head
  cases head
  rfl

end Marks

section Holes
variable {α : Type}

structure Marked (t : Template α) : Prop where
  front : ∀ n, Front (numbered n t)
  marks : ∀ n, Marks (numbered n t) ((List.range' n (values t).length).map fun n => units (toString n))

theorem markedAppend {s t : Template α} (first : Marked s) (last : Marked t) : Marked (s ++ t) where
  front n := by
    rw [numberedAppend]
    exact frontAppend (first.front n) (last.front _)
  marks n := by
    rw [numberedAppend, valuesAppend, List.length_append, ← List.range'_append_1, List.map_append]
    exact marksAppend (first.marks n) (last.marks _) (last.front _)

theorem markedRaw {text : Text} (front : Front text) (marks : Marks text []) : Marked (raw text : Template α) where
  front n := by rwa [numberedRaw]
  marks n := by
    rw [numberedRaw, valuesRaw]
    exact marks

theorem markedHole (v : α) : Marked (hole v) where
  front n := by
    rw [numberedHole]
    exact dollarFront n
  marks n := by
    rw [numberedHole]
    exact marksDollar n

theorem markedPlain {text : Text} (plain : ∀ c ∈ text, c ≠ doubleQuote ∧ c ≠ ('$' : CodeUnit) ∧ isDigit c = false) :
    Marked (raw text : Template α) :=
  markedRaw (fun c head => (plain c (List.mem_of_mem_head? head)).2.2) (marksPlain fun c member => (plain c member).imp_right And.left)

theorem identFront (name : Text) : Front (escapeIdentifier name) := by
  intro c head
  cases head
  rfl

theorem markedIdent (name : Text) : Marked (raw (escapeIdentifier name) : Template α) := markedRaw (identFront name) (marksIdent name)

theorem markedNil : Marked ([] : Template α) where
  front _ := nofun
  marks _ := fun _ _ => rfl

theorem markedJoined {sep : Text} (between : Marked (raw sep : Template α)) : ∀ {parts : List (Template α)},
    (∀ p ∈ parts, Marked p) → Marked (joined sep parts)
  | [], _ => markedNil
  | [p], each => by simpa [joined, List.intercalate] using each p List.mem_cons_self
  | p :: q :: rest, each => by
    rw [joinedCons]
    exact markedAppend (each p List.mem_cons_self) (markedAppend between
      (markedJoined between fun r member => each r (List.mem_cons_of_mem _ member)))

theorem markedQualified (schema : Option Text) (table : Text) : Marked (raw (pgQualify schema table) : Template α) := by
  unfold pgQualify
  split
  · exact markedIdent table
  · exact markedIdent table
  · rw [rawAppend, rawAppend]
    exact markedAppend (markedAppend (markedIdent _) (markedPlain (by decide))) (markedIdent table)

def Quoted : Filled α → Prop
  | .insert entries => ∀ e ∈ entries, ∃ name, e.1 = escapeIdentifier name
  | .update entries keys => (∀ e ∈ entries, ∃ name, e.1 = escapeIdentifier name) ∧ ∀ k ∈ keys, ∃ name, k.1 = escapeIdentifier name
  | .delete keys => ∀ k ∈ keys, ∃ name, k.1 = escapeIdentifier name

theorem markedWhere {keys : List (Text × Option α)} (quoted : ∀ k ∈ keys, ∃ name, k.1 = escapeIdentifier name) :
    Marked (whereTemplate keys) := by
  refine markedJoined (markedPlain (by decide)) fun t member => ?_
  obtain ⟨⟨ident, v⟩, listed, rfl⟩ := List.mem_map.mp member
  obtain ⟨name, rfl⟩ := quoted _ listed
  cases v with
  | none =>
    rw [termTemplate, rawAppend]
    exact markedAppend (markedIdent name) (markedPlain (by decide))
  | some v =>
    rw [termTemplate, rawAppend]
    exact markedAppend (markedAppend (markedIdent name) (markedPlain (by decide))) (markedHole v)

theorem markedAssigns {entries : List (Text × α)} (quoted : ∀ e ∈ entries, ∃ name, e.1 = escapeIdentifier name) :
    Marked (joined (units ", ") (entries.map assignTemplate)) := by
  refine markedJoined (markedPlain (by decide)) fun t member => ?_
  obtain ⟨⟨ident, v⟩, listed, rfl⟩ := List.mem_map.mp member
  obtain ⟨name, rfl⟩ := quoted _ listed
  rw [assignTemplate, rawAppend]
  exact markedAppend (markedAppend (markedIdent name) (markedPlain (by decide))) (markedHole v)

theorem markedTemplate {schema : Option Text} {table : Text} {f : Filled α} (quoted : Quoted f) :
    Marked (template (units " DEFAULT VALUES") (pgQualify schema table) f) := by
  have target := @markedQualified α schema table
  cases f with
  | insert entries =>
    by_cases empty : entries.isEmpty = true
    · rw [template, if_pos empty, rawAppend, rawAppend]
      exact markedAppend (markedAppend (markedPlain (by decide)) target) (markedPlain (by decide))
    · have names : Marked (raw (join ", " (entries.map Prod.fst)) : Template α) := by
        rw [join, rawJoined]
        refine markedJoined (markedPlain (by decide)) fun t member => ?_
        obtain ⟨ident, listed, rfl⟩ := List.mem_map.mp member
        obtain ⟨e, inside, rfl⟩ := List.mem_map.mp listed
        obtain ⟨name, same⟩ := quoted e inside
        exact same ▸ markedIdent name
      have holes : Marked (joined (units ", ") (entries.map fun e => hole e.2)) := by
        refine markedJoined (markedPlain (by decide)) fun t member => ?_
        obtain ⟨e, inside, rfl⟩ := List.mem_map.mp member
        exact markedHole e.2
      rw [template, if_neg empty, rawAppend, rawAppend, rawAppend, rawAppend]
      exact markedAppend (markedAppend (markedAppend (markedAppend (markedAppend (markedAppend (markedPlain (by decide)) target)
        (markedPlain (by decide))) names) (markedPlain (by decide))) holes) (markedPlain (by decide))
  | update entries keys =>
    rw [template, rawAppend, rawAppend]
    exact markedAppend (markedAppend (markedAppend (markedAppend (markedAppend (markedPlain (by decide)) target)
      (markedPlain (by decide))) (markedAssigns quoted.1)) (markedPlain (by decide))) (markedWhere quoted.2)
  | delete keys =>
    rw [template, rawAppend, rawAppend]
    exact markedAppend (markedAppend (markedAppend (markedPlain (by decide)) target) (markedPlain (by decide))) (markedWhere quoted)

end Holes

section Pairing
variable {α β : Type}

def mapPiece (g : α → β) : Templates.Piece α → Templates.Piece β
  | .unit c => .unit c
  | .hole v => .hole (g v)

def mapTemplate (g : α → β) (t : Template α) : Template β := t.map (mapPiece g)

def mapKeys (g : α → β) (keys : List (Text × Option α)) : List (Text × Option β) := keys.map fun k => (k.1, k.2.map g)

def mapFilled (g : α → β) : Filled α → Filled β
  | .insert entries => .insert (entries.map fun e => (e.1, g e.2))
  | .update entries keys => .update (entries.map fun e => (e.1, g e.2)) (mapKeys g keys)
  | .delete keys => .delete (mapKeys g keys)

theorem numberedMap (g : α → β) (t : Template α) (n : Nat) : numbered n (mapTemplate g t) = numbered n t := by
  induction t generalizing n with
  | nil => rfl
  | cons p t ih => cases p <;> exact congrArg _ (ih _)

theorem valuesMap (g : α → β) (t : Template α) : values (mapTemplate g t) = (values t).map g := by
  induction t with
  | nil => rfl
  | cons p t ih => cases p <;> simpa [mapTemplate, mapPiece, values] using ih

theorem mapRaw (g : α → β) (text : Text) : mapTemplate g (raw text) = raw text := by
  simp [mapTemplate, raw, mapPiece, Function.comp_def]

theorem mapAppend (g : α → β) (s t : Template α) : mapTemplate g (s ++ t) = mapTemplate g s ++ mapTemplate g t := List.map_append

theorem mapJoined (g : α → β) (sep : Text) (parts : List (Template α)) :
    mapTemplate g (joined sep parts) = joined sep (parts.map (mapTemplate g)) := by
  have read := joinedRead (mapTemplate g) (mapAppend g) rfl sep parts
  rwa [mapRaw] at read

theorem mapTerm (g : α → β) (k : Text × Option α) : mapTemplate g (termTemplate k) = termTemplate (k.1, k.2.map g) := by
  obtain ⟨ident, v⟩ := k
  cases v with
  | none => exact mapRaw g _
  | some v => exact (mapAppend g _ _).trans (by rw [mapRaw]; rfl)

theorem mapWhere (g : α → β) (keys : List (Text × Option α)) :
    mapTemplate g (whereTemplate keys) = whereTemplate (mapKeys g keys) := by
  rw [whereTemplate, mapJoined, whereTemplate, mapKeys, List.map_map, List.map_map]
  exact congrArg _ (List.map_congr_left fun k _ => mapTerm g k)

theorem templateMap (g : α → β) (bare target : Text) (f : Filled α) :
    template bare target (mapFilled g f) = mapTemplate g (template bare target f) := by
  cases f with
  | insert entries =>
    cases entries with
    | nil => exact (mapRaw g _).symm
    | cons e rest =>
      simp only [mapFilled, template, List.map_cons, List.isEmpty_cons, mapAppend, mapRaw, mapJoined, Bool.false_eq_true, if_false,
        List.map_map]
      rfl
  | update entries keys =>
    have assigns : mapTemplate g (joined (units ", ") (entries.map assignTemplate)) =
        joined (units ", ") ((entries.map fun e => (e.1, g e.2)).map assignTemplate) := by
      rw [mapJoined, List.map_map, List.map_map]
      refine congrArg _ (List.map_congr_left fun e _ => ?_)
      exact (mapAppend g _ _).trans (by rw [mapRaw]; rfl)
    simp only [mapFilled, template, mapAppend, mapRaw, assigns, mapWhere]
  | delete keys => simp only [mapFilled, template, mapAppend, mapRaw, mapWhere]

end Pairing

section Statements
variable {π : Type} {bound : Cell → Except String (PgBound π)}

abbrev Paired (π : Type) := Cell × PgBound π

def Binds (bound : Cell → Except String (PgBound π)) (b : Paired π) : Prop := bound b.1 = .ok b.2

def EachBound (bound : Cell → Except String (PgBound π)) (f : Filled (Paired π)) : Prop :=
  match f with
  | .insert entries => ∀ e ∈ entries, Binds bound e.2
  | .update entries keys => (∀ e ∈ entries, Binds bound e.2) ∧ ∀ k ∈ keys, ∀ b ∈ k.2, Binds bound b
  | .delete keys => ∀ k ∈ keys, ∀ b ∈ k.2, Binds bound b

theorem pairedEntries {values : Record} {entries : List (Text × PgBound π)} (ok : pgEntries bound values = .ok entries) :
    ∃ pairs : List (Text × Paired π), (pairs.map fun e => (e.1, e.2.1)) = quotedEntries values ∧
      (pairs.map fun e => (e.1, e.2.2)) = entries ∧ ∀ e ∈ pairs, Binds bound e.2 := by
  induction values generalizing entries with
  | nil =>
    cases ok
    exact ⟨[], rfl, rfl, List.forall_mem_nil _⟩
  | cons e rest ih =>
    simp only [pgEntries, boundEntries] at ok
    cases first : bound e.2 with
    | error message => simp [first, bind, Except.bind, Except.map] at ok
    | ok v =>
      cases more : boundEntries bound rest with
      | error message => simp [first, more, bind, Except.bind, Except.map] at ok
      | ok tail =>
        simp only [first, more, bind, Except.bind, pure, Except.pure, Except.map, Except.ok.injEq] at ok
        have later : pgEntries bound rest = .ok (pgQuoted tail) := by
          rw [pgEntries, more]
          rfl
        obtain ⟨pairs, cells, params, each⟩ := ih later
        refine ⟨(escapeIdentifier e.1, e.2, v) :: pairs, ?_, ?_, ?_⟩
        · rw [List.map_cons, cells]
          rfl
        · rw [List.map_cons, params, ← ok]
          rfl
        · exact List.forall_mem_cons.mpr ⟨first, each⟩

theorem pairedKeys {key : Record} {cols : List Text} {keys : List (Text × Option (PgBound π))}
    (ok : pgKeys bound key cols = .ok keys) : ∃ pairs : List (Text × Option (Paired π)),
      mapKeys Prod.fst pairs = quotedKey key cols ∧ mapKeys Prod.snd pairs = keys ∧ ∀ k ∈ pairs, ∀ b ∈ k.2, Binds bound b := by
  induction cols generalizing keys with
  | nil =>
    cases ok
    exact ⟨[], rfl, rfl, List.forall_mem_nil _⟩
  | cons col rest ih =>
    simp only [pgKeys] at ok
    cases here : present key col with
    | none =>
      simp only [here] at ok
      obtain ⟨tail, more, last⟩ := bindOk ok
      cases last
      obtain ⟨pairs, cells, params, each⟩ := ih more
      refine ⟨(escapeIdentifier col, none) :: pairs, ?_, ?_, List.forall_mem_cons.mpr ⟨by rintro _ ⟨⟩, each⟩⟩
      · rw [quotedKey, List.map_cons, here, ← quotedKey, ← cells]
        rfl
      · rw [← params]
        rfl
    | some cell =>
      simp only [here] at ok
      obtain ⟨v, first, later⟩ := bindOk ok
      obtain ⟨tail, more, last⟩ := bindOk later
      cases last
      obtain ⟨pairs, cells, params, each⟩ := ih more
      refine ⟨(escapeIdentifier col, some (cell, v)) :: pairs, ?_, ?_, List.forall_mem_cons.mpr ⟨?_, each⟩⟩
      · rw [quotedKey, List.map_cons, here, ← quotedKey, ← cells]
        rfl
      · rw [← params]
        rfl
      · intro b same
        cases same
        exact first

theorem pairedNone {key : Record} {cols : List Text} {pairs : List (Text × Option (Paired π))}
    (members : mapKeys Prod.fst pairs = quotedKey key cols) : mapKeys Prod.snd pairs = [] ↔ cols = [] := by
  have long := congrArg List.length members
  rw [mapKeys, quotedKey, List.length_map, List.length_map] at long
  rw [mapKeys, List.map_eq_nil_iff, ← List.length_eq_zero_iff, long, List.length_eq_zero_iff]

theorem pairedChange {keyColumns : List Text} {change : ChangeOp} {filled : List (Filled (PgBound π))}
    (ok : pgFilled bound keyColumns change = .ok filled) : ∃ pairs : List (Filled (Paired π)),
      pairs.map (mapFilled Prod.fst) = wanted keyColumns change ∧ pairs.map (mapFilled Prod.snd) = filled ∧
      ∀ f ∈ pairs, EachBound bound f := by
  cases change with
  | insert values =>
    obtain ⟨entries, made, last⟩ := bindOk ok
    cases last
    obtain ⟨pairs, cells, rfl, each⟩ := pairedEntries made
    exact ⟨[.insert pairs], by simp [mapFilled, wanted, cells], rfl, by simpa [EachBound] using each⟩
  | update key values =>
    rw [pgFilled] at ok
    split at ok <;> rename_i full
    · cases ok
      exact ⟨[], by simp [wanted, full], rfl, List.forall_mem_nil _⟩
    · obtain ⟨entries, made, later⟩ := bindOk ok
      obtain ⟨keys, named, last⟩ := bindOk later
      obtain ⟨pairs, cells, rfl, each⟩ := pairedEntries made
      obtain ⟨terms, members, rfl, bounds⟩ := pairedKeys named
      cases last
      by_cases empty : keyNames key keyColumns = []
      · exact ⟨[], by simp [wanted, empty], by rw [if_pos ((pairedNone members).mpr empty)]; rfl, List.forall_mem_nil _⟩
      · refine ⟨[.update pairs terms], ?_, by rw [if_neg fun none => empty ((pairedNone members).mp none)]; rfl, ?_⟩
        · simp [mapFilled, wanted, full, empty, cells, members]
        · exact List.forall_mem_singleton.mpr ⟨each, bounds⟩
  | delete key =>
    obtain ⟨keys, named, last⟩ := bindOk ok
    obtain ⟨terms, members, rfl, bounds⟩ := pairedKeys named
    cases last
    by_cases empty : keyNames key keyColumns = []
    · exact ⟨[], by simp [wanted, empty], by rw [if_pos ((pairedNone members).mpr empty)]; rfl, List.forall_mem_nil _⟩
    · refine ⟨[.delete terms], ?_, by rw [if_neg fun none => empty ((pairedNone members).mp none)]; rfl, ?_⟩
      · simp [mapFilled, wanted, empty, members]
      · exact List.forall_mem_singleton.mpr bounds

theorem pairedChanges {keyColumns : List Text} {changes : List ChangeOp} {filled : List (Filled (PgBound π))}
    (ok : gather (pgFilled bound keyColumns) changes = .ok filled) : ∃ pairs : List (Filled (Paired π)),
      pairs.map (mapFilled Prod.fst) = changes.flatMap (wanted keyColumns) ∧ pairs.map (mapFilled Prod.snd) = filled ∧
      ∀ f ∈ pairs, EachBound bound f := by
  induction changes generalizing filled with
  | nil =>
    cases ok
    exact ⟨[], rfl, rfl, List.forall_mem_nil _⟩
  | cons change rest ih =>
    obtain ⟨first, made, later⟩ := bindOk ok
    obtain ⟨more, others, last⟩ := bindOk later
    cases last
    obtain ⟨pairs, cells, rfl, each⟩ := pairedChange made
    obtain ⟨tail, rests, rfl, every⟩ := ih others
    refine ⟨pairs ++ tail, ?_, List.map_append, List.forall_mem_append.mpr ⟨each, every⟩⟩
    rw [List.map_append, cells, rests, List.flatMap_cons]

theorem boundValues {bare target : Text} {f : Filled (Paired π)} (each : EachBound bound f) :
    ∀ b ∈ values (template bare target f), Binds bound b := by
  intro b member
  rw [filledValues] at member
  have entry {entries : List (Text × Paired π)} (all : ∀ e ∈ entries, Binds bound e.2) (inside : b ∈ entries.map Prod.snd) :
      Binds bound b := by
    obtain ⟨e, listed, rfl⟩ := List.mem_map.mp inside
    exact all e listed
  have term {keys : List (Text × Option (Paired π))} (all : ∀ k ∈ keys, ∀ b ∈ k.2, Binds bound b)
      (inside : b ∈ keys.filterMap Prod.snd) : Binds bound b := by
    obtain ⟨k, listed, here⟩ := List.mem_filterMap.mp inside
    exact all k listed b here
  cases f with
  | insert entries => exact entry each member
  | update entries keys => exact (List.mem_append.mp member).elim (entry each.1) (term each.2)
  | delete keys => exact term each member

theorem quotedWanted {keyColumns : List Text} {change : ChangeOp} : ∀ f ∈ wanted keyColumns change, Quoted f := by
  have entries (values : Record) : ∀ e ∈ quotedEntries values, ∃ name, e.1 = escapeIdentifier name := by
    intro e member
    obtain ⟨v, -, rfl⟩ := List.mem_map.mp member
    exact ⟨v.1, rfl⟩
  have keys (key : Record) (cols : List Text) : ∀ k ∈ quotedKey key cols, ∃ name, k.1 = escapeIdentifier name := by
    intro k member
    obtain ⟨col, -, rfl⟩ := List.mem_map.mp member
    exact ⟨col, rfl⟩
  cases change with
  | insert values => exact List.forall_mem_singleton.mpr (entries values)
  | update key values =>
    rw [wanted]
    split
    · exact nofun
    · exact List.forall_mem_singleton.mpr ⟨entries values, keys key _⟩
  | delete key =>
    rw [wanted]
    split
    · exact nofun
    · exact List.forall_mem_singleton.mpr (keys key _)

theorem statementNumbers {cs : Changeset} {f : Filled (Paired π)} (each : EachBound bound f) (quoted : Quoted (mapFilled Prod.fst f)) :
    Numbers bound (wantedTemplate cs (mapFilled Prod.fst f))
      (pgBoundForm (pgTemplate (pgQualify cs.schema cs.table) (mapFilled Prod.snd f))) := by
  have text : numbered 1 (pgTemplate (pgQualify cs.schema cs.table) (mapFilled Prod.snd f)) =
      numbered 1 (wantedTemplate cs (mapFilled Prod.fst f)) := by
    rw [pgTemplate, wantedTemplate, templateMap, templateMap, numberedMap, numberedMap]
  refine ⟨text, ?_, ?_⟩
  · rw [wantedTemplate, pgBoundForm, pgTemplate, templateMap, templateMap, valuesMap, valuesMap, List.map_map,
      List.forall₂_map_left_iff, List.forall₂_map_right_iff, List.forall₂_same]
    intro b member
    rw [boundValues each b member]
    rfl
  · have marks := (@markedTemplate _ cs.schema cs.table _ quoted).marks 1 [] (by rintro _ ⟨⟩)
    have count : (pgBoundForm (pgTemplate (pgQualify cs.schema cs.table) (mapFilled Prod.snd f))).params.length =
        (values (wantedTemplate cs (mapFilled Prod.fst f))).length := by
      rw [pgBoundForm, pgTemplate, wantedTemplate, templateMap, templateMap, valuesMap, valuesMap, List.length_map, List.length_map,
        List.length_map]
    rw [List.append_nil, show placeholders false [] = [] from rfl, List.append_nil] at marks
    rw [count, show PgChangeStatement.text _ = _ from text]
    exact marks

theorem statementsNumbered (bound : Cell → Except String (PgBound π)) {cs : Changeset} {statements : List (PgChangeStatement π)}
    {warnings : List Text} (ok : buildPgChangeStatements bound cs = .ok (statements, warnings)) :
    List.Forall₂ (Numbers bound) ((cs.changes.flatMap (wanted cs.keyColumns)).map (wantedTemplate cs)) statements := by
  have built := pgBuiltOf bound cs
  rw [ok, pgTemplates] at built
  cases made : gather (pgFilled bound cs.keyColumns) cs.changes with
  | error message => simp [made, Except.map] at built
  | ok filled =>
    obtain ⟨pairs, cells, rfl, each⟩ := pairedChanges made
    simp only [made, Except.map, Except.ok.injEq] at built
    rw [← cells, built, List.map_map, List.map_map, List.map_map, List.forall₂_map_left_iff, List.forall₂_map_right_iff,
      List.forall₂_same]
    intro f member
    have listed : mapFilled Prod.fst f ∈ cs.changes.flatMap (wanted cs.keyColumns) := cells ▸ List.mem_map_of_mem member
    obtain ⟨change, -, inside⟩ := List.mem_flatMap.mp listed
    exact statementNumbers (each f member) (quotedWanted _ inside)

theorem entriesBlank {values values' : Record} (names : values.map Prod.fst = values'.map Prod.fst) :
    (quotedEntries values).map (fun e => (e.1, ())) = (quotedEntries values').map fun e => (e.1, ()) := by
  have blank (values : Record) : (quotedEntries values).map (fun e => (e.1, ())) =
      (values.map Prod.fst).map fun name => (escapeIdentifier name, ()) := by
    rw [quotedEntries, List.map_map, List.map_map]
    rfl
  rw [blank, blank, names]

theorem keysBlank {key key' : Record} (nulls : ∀ col, (present key col).isNone = (present key' col).isNone) (cols : List Text) :
    mapKeys (fun _ => ()) (quotedKey key cols) = mapKeys (fun _ => ()) (quotedKey key' cols) := by
  rw [mapKeys, quotedKey, mapKeys, quotedKey, List.map_map, List.map_map]
  refine List.map_congr_left fun col _ => ?_
  have same := nulls col
  simp only [Function.comp_apply, Prod.mk.injEq, true_and]
  cases here : present key col <;> cases there : present key' col <;> simp [here, there] at same ⊢

theorem wantedBlank {keyColumns : List Text} {change change' : ChangeOp} (same : SameNames change change') :
    (wanted keyColumns change).map (mapFilled fun _ => ()) = (wanted keyColumns change').map (mapFilled fun _ => ()) := by
  cases same with
  | insert names => simp [wanted, mapFilled, entriesBlank names]
  | @update key key' values values' names keyed nulls =>
    have empty : values = [] ↔ values' = [] := by
      rw [← List.map_eq_nil_iff (f := Prod.fst), names, List.map_eq_nil_iff]
    have cols : keyNames key keyColumns = keyNames key' keyColumns := by rw [keyNames, keyNames, keyed]
    simp only [wanted, empty, cols]
    split
    · rfl
    · simp only [List.map_cons, List.map_nil, mapFilled, entriesBlank names, keysBlank nulls]
  | @delete key key' keyed nulls =>
    have cols : keyNames key keyColumns = keyNames key' keyColumns := by rw [keyNames, keyNames, keyed]
    simp only [wanted, cols]
    split
    · rfl
    · simp only [List.map_cons, List.map_nil, mapFilled, keysBlank nulls]

theorem templatesBlank {cs cs' : Changeset} (same : SameShape cs cs') :
    ((cs.changes.flatMap (wanted cs.keyColumns)).map (wantedTemplate cs)).map (numbered 1) =
      ((cs'.changes.flatMap (wanted cs'.keyColumns)).map (wantedTemplate cs')).map (numbered 1) := by
  have blank (target : Text) (filled : List (Filled Cell)) : (filled.map (template (units " DEFAULT VALUES") target)).map (numbered 1) =
      (filled.map (mapFilled fun _ => ())).map fun f => numbered 1 (template (units " DEFAULT VALUES") target f) := by
    rw [List.map_map, List.map_map]
    refine List.map_congr_left fun f _ => ?_
    simp only [Function.comp_apply, templateMap, numberedMap]
  have changes : (cs.changes.flatMap (wanted cs.keyColumns)).map (mapFilled fun _ => ()) =
      (cs'.changes.flatMap (wanted cs.keyColumns)).map (mapFilled fun _ => ()) := by
    have each := same.changes
    generalize cs.changes = changes at each
    generalize cs'.changes = changes' at each
    induction each with
    | nil => rfl
    | cons first rest ih => rw [List.flatMap_cons, List.map_append, wantedBlank first, ih, List.flatMap_cons, List.map_append]
  show ((cs.changes.flatMap _).map (template _ _)).map _ = ((cs'.changes.flatMap _).map (template _ _)).map _
  rw [blank, blank, changes, same.schema, same.table, same.keyColumns]

theorem numbersText {ts : List (Template Cell)} {statements : List (PgChangeStatement π)} (each : List.Forall₂ (Numbers bound) ts statements) :
    statements.map PgChangeStatement.text = ts.map (numbered 1) := by
  induction each with
  | nil => rfl
  | cons first rest ih => rw [List.map_cons, List.map_cons, first.text, ih]

theorem changeStatementsNumbered (bound : Cell → Except String (PgBound π)) (cs : Changeset) (statements : List (PgChangeStatement π))
    (warnings : List Text) (ok : buildPgChangeStatements bound cs = .ok (statements, warnings)) :
    List.Forall₂ (Numbers bound) ((cs.changes.flatMap (wanted cs.keyColumns)).map (wantedTemplate cs)) statements ∧
    ∀ cs' statements' warnings', SameShape cs cs' → buildPgChangeStatements bound cs' = .ok (statements', warnings') →
      statements'.map PgChangeStatement.text = statements.map PgChangeStatement.text := by
  have each := statementsNumbered bound ok
  refine ⟨each, fun cs' statements' warnings' same other => ?_⟩
  rw [numbersText each, numbersText (statementsNumbered bound other), templatesBlank same]

def plainBound : Cell → Except String (PgBound Cell) := fun cell => .ok ⟨cell, []⟩

def trickyChangeset : Changeset where
  schema := none
  table := units "t $1"
  keyColumns := [units "a\"$2", units "b", units "c"]
  changes := [.update [(units "a\"$2", .boolean true), (units "b", .null), (units "c", .boolean false)] [(units "$3", .null)]]

theorem trickyNumbered : ∃ s : PgChangeStatement Cell, (buildPgChangeStatements plainBound trickyChangeset).map Prod.fst = .ok [s] ∧
    s.text = units "UPDATE \"t $1\" SET \"$3\" = $1 WHERE \"a\"\"$2\" = $2 AND \"b\" IS NULL AND \"c\" = $3" ∧
    placeholders false s.text = [units "1", units "2", units "3"] := by
  refine ⟨_, rfl, by decide +kernel, ?_⟩
  have each := (changeStatementsNumbered plainBound trickyChangeset _ _ rfl).1
  cases each with
  | cons first rest => exact first.marks

end Statements

end DatabaseAdmin.PgNumbering
