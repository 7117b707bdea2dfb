import Mathlib.Data.List.Basic
import Mathlib.Data.List.Perm.Basic

/-! Tables with unique keys, the statements that put rows into them and what each does with a row
whose key is there. An absent field clashes with nothing. -/
namespace DatabaseAdmin.KeyedTables

variable {κ β : Type}

abbrev Row (κ β : Type) := κ → Option β

structure Rules (κ β : Type) where
  uniques : List (List κ)
  valid : Row κ β → Bool

inductive OnClash (κ : Type) where
  | fail
  | skip
  | skipOn (key : List κ)
  | update (key set : List κ)

section Clashes
variable [DecidableEq β]

def clash (key : List κ) (a b : Row κ β) : Bool := key.all fun c => (a c).isSome && a c = b c

theorem clashSymm {key : List κ} {a b : Row κ β} (same : clash key a b = true) : clash key b a = true := by
  simp only [clash, List.all_eq_true, Bool.and_eq_true, decide_eq_true_eq] at same ⊢
  intro c member
  obtain ⟨some', equal⟩ := same c member
  exact ⟨equal ▸ some', equal.symm⟩

theorem clashTrans {key : List κ} {a b c : Row κ β} (first : clash key a b = true) (second : clash key b c = true) :
    clash key a c = true := by
  simp only [clash, List.all_eq_true, Bool.and_eq_true, decide_eq_true_eq] at first second ⊢
  intro k member
  exact ⟨(first k member).1, (first k member).2.trans (second k member).2⟩

end Clashes

section Same

abbrev SameTable : Option (List (Row κ β)) → Option (List (Row κ β)) → Prop := Option.Rel List.Perm

theorem sameRefl (table : Option (List (Row κ β))) : SameTable table table := by
  cases table with
  | none => exact .none
  | some rows => exact .some (List.Perm.refl rows)

theorem sameTrans {a b c : Option (List (Row κ β))} (first : SameTable a b) (second : SameTable b c) : SameTable a c := by
  cases first with
  | none => exact second
  | some ab =>
    cases second with
    | some bc => exact .some (ab.trans bc)

theorem sameSymm {a b : Option (List (Row κ β))} (same : SameTable a b) : SameTable b a := by
  cases same with
  | none => exact .none
  | some perm => exact .some perm.symm

theorem sameNone {table : Option (List (Row κ β))} : SameTable none table ↔ table = none := by
  constructor
  · intro same
    cases same
    rfl
  · rintro rfl
    exact .none

theorem anyPerm {α : Type} {xs ys : List α} (perm : xs.Perm ys) (f : α → Bool) : xs.any f = ys.any f := by
  rw [Bool.eq_iff_iff, List.any_eq_true, List.any_eq_true]
  exact ⟨fun ⟨x, member, holds⟩ => ⟨x, perm.mem_iff.mp member, holds⟩, fun ⟨x, member, holds⟩ => ⟨x, perm.mem_iff.mpr member, holds⟩⟩

theorem anyMember {α : Type} {xs : List α} {f g : α → Bool} (each : ∀ x ∈ xs, f x = g x) : xs.any f = xs.any g := by
  rw [Bool.eq_iff_iff, List.any_eq_true, List.any_eq_true]
  exact exists_congr fun x => and_congr_right fun member => by rw [each x member]

theorem allPerm {α : Type} {xs ys : List α} (perm : xs.Perm ys) (f : α → Bool) : xs.all f = ys.all f := by
  rw [Bool.eq_iff_iff, List.all_eq_true, List.all_eq_true]
  exact ⟨fun holds x member => holds x (perm.mem_iff.mpr member), fun holds x member => holds x (perm.mem_iff.mp member)⟩

end Same

variable [DecidableEq κ] [DecidableEq β]

def merge (set : List κ) (old row : Row κ β) : Row κ β := fun c => if c ∈ set then row c else old c

namespace Rules
variable (rules : Rules κ β)

def clashes (a b : Row κ β) : Bool := rules.uniques.any fun key => clash key a b

def isKey (key : List κ) : Bool := rules.uniques.any fun unique => unique.all (· ∈ key) && key.all (· ∈ unique)

def ready : OnClash κ → Bool
  | .fail | .skip => true
  | .skipOn key | .update key _ => rules.isKey key

def push (stored : List (Row κ β)) (row : Row κ β) : Option (List (Row κ β)) :=
  if stored.any (rules.clashes row) then none else some (stored ++ [row])

def fits (key set : List κ) (stored : List (Row κ β)) (row old : Row κ β) : Bool :=
  rules.valid (merge set old row) && !stored.any fun other => !clash key row other && rules.clashes (merge set old row) other

def place (action : OnClash κ) (stored : List (Row κ β)) (row : Row κ β) : Option (List (Row κ β)) :=
  if rules.ready action && rules.valid row then
    match action with
    | .fail => rules.push stored row
    | .skip => if stored.any (rules.clashes row) then some stored else some (stored ++ [row])
    | .skipOn key => if stored.any (clash key row) then some stored else rules.push stored row
    | .update key set =>
      if stored.any (clash key row) then
        if stored.all fun old => !clash key row old || rules.fits key set stored row old then
          some (stored.map fun old => if clash key row old then merge set old row else old)
        else none
      else rules.push stored row
  else none

end Rules

def Distinct : OnClash κ → List (Row κ β) → Prop
  | .update key _, rows => rows.Pairwise fun a b => clash key a b = false
  | _, _ => True

instance (action : OnClash κ) (rows : List (Row κ β)) : Decidable (Distinct action rows) := by
  cases action <;> unfold Distinct <;> infer_instance

namespace Rules
variable (rules : Rules κ β)

def statement (action : OnClash κ) (stored rows : List (Row κ β)) : Option (List (Row κ β)) :=
  if Distinct action rows then rows.foldlM (rules.place action) stored else none

def replaceRows (key : List κ) (stored rows : List (Row κ β)) : Option (List (Row κ β)) :=
  rules.statement .fail (stored.filter fun old => !rows.any fun row => clash key row old) rows

def Consistent (stored : List (Row κ β)) : Prop := stored.Pairwise fun a b => rules.clashes a b = false

omit [DecidableEq κ] in
theorem clashesSymm {a b : Row κ β} (same : rules.clashes a b = true) : rules.clashes b a = true := by
  obtain ⟨key, member, here⟩ := List.any_eq_true.mp same
  exact List.any_eq_true.mpr ⟨key, member, clashSymm here⟩

theorem keyClashes {key : List κ} (unique : rules.isKey key = true) {a b : Row κ β} (same : clash key a b = true) :
    rules.clashes a b = true := by
  obtain ⟨known, member, equal⟩ := List.any_eq_true.mp unique
  rw [Bool.and_eq_true] at equal
  refine List.any_eq_true.mpr ⟨known, member, List.all_eq_true.mpr fun c inside => ?_⟩
  have within : c ∈ key := by simpa using List.all_eq_true.mp equal.1 c inside
  exact List.all_eq_true.mp same c within

theorem statementFails (stored rows : List (Row κ β)) :
    rules.statement .fail stored rows = rows.foldlM (rules.place .fail) stored := if_pos trivial

omit [DecidableEq κ] in
theorem pushConsistent {stored after : List (Row κ β)} {row : Row κ β} (consistent : rules.Consistent stored)
    (pushed : rules.push stored row = some after) : rules.Consistent after := by
  unfold push at pushed
  split at pushed
  · contradiction
  rename_i free
  cases pushed
  refine List.pairwise_append.mpr ⟨consistent, List.pairwise_singleton _ _, fun old member new added => ?_⟩
  rw [List.mem_singleton.mp added, Bool.eq_false_iff]
  exact fun same => free (List.any_eq_true.mpr ⟨old, member, rules.clashesSymm same⟩)

theorem failConsistent {stored after rows : List (Row κ β)} (consistent : rules.Consistent stored)
    (placed : rows.foldlM (rules.place .fail) stored = some after) : rules.Consistent after := by
  induction rows generalizing stored with
  | nil =>
    cases placed
    exact consistent
  | cons row rest ih =>
    rw [List.foldlM_cons] at placed
    obtain ⟨next, first, later⟩ := Option.bind_eq_some_iff.mp placed
    unfold place at first
    split at first
    · exact ih (rules.pushConsistent consistent first) later
    · contradiction

theorem replaceConsistent {key : List κ} {stored after rows : List (Row κ β)} (consistent : rules.Consistent stored)
    (replaced : rules.replaceRows key stored rows = some after) : rules.Consistent after := by
  rw [replaceRows, statementFails] at replaced
  exact rules.failConsistent (consistent.sublist List.filter_sublist) replaced

end Rules

section Order
variable (rules : Rules κ β)

omit [DecidableEq κ] in
theorem pushPerm {stored other : List (Row κ β)} (perm : stored.Perm other) (row : Row κ β) :
    SameTable (rules.push stored row) (rules.push other row) := by
  rw [Rules.push, Rules.push, anyPerm perm]
  split
  · exact .none
  · exact .some (perm.append_right [row])

theorem placePerm (action : OnClash κ) {stored other : List (Row κ β)} (perm : stored.Perm other) (row : Row κ β) :
    SameTable (rules.place action stored row) (rules.place action other row) := by
  unfold Rules.place
  split
  · cases action with
    | fail => exact pushPerm rules perm row
    | skip =>
      simp only [anyPerm perm]
      split
      · exact .some perm
      · exact .some (perm.append_right [row])
    | skipOn key =>
      simp only [anyPerm perm]
      split
      · exact .some perm
      · exact pushPerm rules perm row
    | update key set =>
      have fits (old : Row κ β) : rules.fits key set stored row old = rules.fits key set other row old := by
        rw [Rules.fits, Rules.fits, anyPerm perm]
      simp only [anyPerm perm, allPerm perm, fits]
      split
      · split
        · exact .some (perm.map _)
        · exact .none
      · exact pushPerm rules perm row
  · exact .none

theorem placesPerm (action : OnClash κ) (rows : List (Row κ β)) {stored other : List (Row κ β)} (perm : stored.Perm other) :
    SameTable (rows.foldlM (rules.place action) stored) (rows.foldlM (rules.place action) other) := by
  induction rows generalizing stored other with
  | nil => exact .some perm
  | cons row rest ih =>
    rw [List.foldlM_cons, List.foldlM_cons]
    have step := placePerm rules action perm row
    generalize rules.place action stored row = first at step ⊢
    generalize rules.place action other row = second at step ⊢
    cases step with
    | none => exact .none
    | some next => exact ih next

end Order

section Replacing
variable (rules : Rules κ β)

def upsert (key set : List κ) : OnClash κ := if set = [] then .skipOn key else .update key set

structure Replaceable (key set : List κ) (stored rows : List (Row κ β)) : Prop where
  distinct : rows.Pairwise fun a b => clash key a b = false
  whole : ∀ row ∈ rows, ∀ old ∈ stored, clash key row old = true → merge set old row = row
  ordered : rows.Pairwise fun a b => ∀ old ∈ stored, clash key b old = true → rules.clashes a old = false

structure Halfway (key set : List κ) (front waiting rows : List (Row κ β)) : Prop where
  matched : ∀ old ∈ waiting, ∃ row ∈ rows, clash key row old = true
  apart : waiting.Pairwise fun a b => rules.clashes a b = false
  free : ∀ row ∈ rows, ∀ old ∈ front, clash key row old = false
  clear : ∀ old ∈ front, ∀ later ∈ waiting, rules.clashes old later = false
  rest : Replaceable rules key set waiting rows

variable {rules} {key set : List κ} {front waiting rows : List (Row κ β)} {row : Row κ β}

theorem Halfway.onlyOne (unique : rules.isKey key = true) (half : Halfway rules key set front waiting (row :: rows))
    {old : Row κ β} (member : old ∈ waiting) (same : clash key row old = true) :
    waiting.Perm (old :: waiting.filter fun other => !clash key row other) := by
  have alone : waiting.filter (fun other => clash key row other) = [old] := by
    have pairs := (half.apart.sublist (List.filter_sublist (p := fun other => clash key row other)))
    have inside : old ∈ waiting.filter fun other => clash key row other := List.mem_filter.mpr ⟨member, same⟩
    match found : waiting.filter (fun other => clash key row other), pairs, inside with
    | [one], _, inside => rw [List.mem_singleton.mp inside]
    | one :: two :: more, pairs, _ =>
      have listed {other : Row κ β} (among : other ∈ one :: two :: more) : clash key row other = true := by
        rw [← found] at among
        exact (List.mem_filter.mp among).2
      have first := listed List.mem_cons_self
      have second := listed (List.mem_cons_of_mem _ List.mem_cons_self)
      have against := (List.pairwise_cons.mp pairs).1 two (by simp)
      rw [rules.keyClashes unique (clashTrans (clashSymm first) second)] at against
      contradiction
  have split := (List.filter_append_perm (fun other => clash key row other) waiting).symm
  rwa [alone] at split

theorem Halfway.laterWaits (half : Halfway rules key set front waiting (row :: rows)) {other : Row κ β} (member : other ∈ waiting)
    (apart : clash key row other = false) : rules.clashes row other = false := by
  obtain ⟨later, inside, same⟩ := half.matched other member
  rcases List.mem_cons.mp inside with rfl | inside
  · rw [same] at apart
    contradiction
  · exact (List.pairwise_cons.mp half.rest.ordered).1 later inside other member same

theorem Halfway.next (half : Halfway rules key set front waiting (row :: rows)) :
    Halfway rules key set (front ++ [row]) (waiting.filter fun other => !clash key row other) rows where
  matched old member := by
    obtain ⟨inside, other⟩ := List.mem_filter.mp member
    obtain ⟨later, among, same⟩ := half.matched old inside
    rcases List.mem_cons.mp among with rfl | among
    · rw [same] at other
      contradiction
    · exact ⟨later, among, same⟩
  apart := half.apart.sublist List.filter_sublist
  free later member old inside := by
    rcases List.mem_append.mp inside with before | added
    · exact half.free later (List.mem_cons_of_mem _ member) old before
    · rw [List.mem_singleton.mp added, Bool.eq_false_iff]
      intro same
      have distinct := (List.pairwise_cons.mp half.rest.distinct).1 later member
      rw [clashSymm same] at distinct
      contradiction
  clear old member later inside := by
    obtain ⟨waits, other⟩ := List.mem_filter.mp inside
    rcases List.mem_append.mp member with before | added
    · exact half.clear old before later waits
    · rw [List.mem_singleton.mp added]
      exact half.laterWaits waits (by simpa using other)
  rest :=
    { distinct := (List.pairwise_cons.mp half.rest.distinct).2
      whole := fun later member old inside same =>
        half.rest.whole later (List.mem_cons_of_mem _ member) old (List.mem_filter.mp inside).1 same
      ordered := (List.pairwise_cons.mp half.rest.ordered).2.imp fun holds old inside same =>
        holds old (List.mem_filter.mp inside).1 same }

section Placing
variable {stored : List (Row κ β)} (valid : rules.valid row = true)
include valid

theorem placeFail : rules.place .fail stored row = rules.push stored row := by
  simp [Rules.place, Rules.ready, valid]

theorem placeSkipOn (unique : rules.isKey key = true) : rules.place (.skipOn key) stored row =
    if stored.any (clash key row) then some stored else rules.push stored row := by
  simp [Rules.place, Rules.ready, valid, unique]

theorem placeUpdate (unique : rules.isKey key = true) : rules.place (.update key set) stored row =
    if stored.any (clash key row) then
      if stored.all fun old => !clash key row old || rules.fits key set stored row old then
        some (stored.map fun old => if clash key row old then merge set old row else old)
      else none
    else rules.push stored row := by
  simp [Rules.place, Rules.ready, valid, unique]

theorem placeNew (unique : rules.isKey key = true) (new : stored.any (clash key row) = false) :
    rules.place (upsert key set) stored row = rules.push stored row := by
  unfold upsert
  split
  · rw [placeSkipOn valid unique, new, if_neg Bool.false_ne_true]
  · rw [placeUpdate valid unique, new, if_neg Bool.false_ne_true]

end Placing

omit [DecidableEq β] in
theorem mergeNothing (old row : Row κ β) : merge [] old row = old := by
  funext c
  simp [merge]

theorem Halfway.placedOver (unique : rules.isKey key = true) (half : Halfway rules key set front waiting (row :: rows))
    (valid : rules.valid row = true) {old : Row κ β} (member : old ∈ waiting) (same : clash key row old = true) :
    SameTable (rules.place (upsert key set) (front ++ old :: waiting.filter fun other => !clash key row other) row)
      ((rules.push front row).map fun after => after ++ waiting.filter fun other => !clash key row other) := by
  have whole := half.rest.whole row List.mem_cons_self old member same
  have hit : (front ++ old :: waiting.filter fun other => !clash key row other).any (clash key row) = true := by
    simp [same]
  by_cases bare : set = []
  · have kept : old = row := by rw [← whole, bare, mergeNothing]
    have room : front.any (rules.clashes row) = false := by
      rw [List.any_eq_false]
      intro other inside against
      have clear := half.clear other inside old member
      rw [kept, rules.clashesSymm against] at clear
      contradiction
    rw [upsert, if_pos bare, placeSkipOn valid unique, hit, if_pos rfl, Rules.push, room, if_neg Bool.false_ne_true, kept]
    exact .some (by simp)
  · have others : ∀ other ∈ waiting.filter fun other => !clash key row other, rules.clashes row other = false := by
      intro other inside
      obtain ⟨waits, apart⟩ := List.mem_filter.mp inside
      exact half.laterWaits waits (by simpa using apart)
    have stands : (front ++ old :: waiting.filter fun other => !clash key row other).any
        (fun other => !clash key row other && rules.clashes row other) = front.any (rules.clashes row) := by
      have behind : (waiting.filter fun other => !clash key row other).any
          (fun other => !clash key row other && rules.clashes row other) = false := by
        rw [List.any_eq_false]
        intro other inside
        simp [others other inside]
      rw [List.any_append, List.any_cons, behind, same]
      simp only [Bool.not_true, Bool.false_and, Bool.or_false]
      exact anyMember fun other inside => by rw [half.free row List.mem_cons_self other inside, Bool.not_false, Bool.true_and]
    have fits : rules.fits key set (front ++ old :: waiting.filter fun other => !clash key row other) row old =
        !front.any (rules.clashes row) := by
      rw [Rules.fits, whole, valid, Bool.true_and, stands]
    have checked : (front ++ old :: waiting.filter fun other => !clash key row other).all (fun other => !clash key row other ||
        rules.fits key set (front ++ old :: waiting.filter fun other => !clash key row other) row other) =
        !front.any (rules.clashes row) := by
      have before : front.all (fun other => !clash key row other ||
          rules.fits key set (front ++ old :: waiting.filter fun other => !clash key row other) row other) = true :=
        List.all_eq_true.mpr fun other inside => by simp [half.free row List.mem_cons_self other inside]
      have behind : (waiting.filter fun other => !clash key row other).all (fun other => !clash key row other ||
          rules.fits key set (front ++ old :: waiting.filter fun other => !clash key row other) row other) = true :=
        List.all_eq_true.mpr fun other inside => by simp [(List.mem_filter.mp inside).2]
      rw [List.all_append, List.all_cons, before, behind, fits, same]
      simp
    have updated : (front ++ old :: waiting.filter fun other => !clash key row other).map
        (fun other => if clash key row other then merge set other row else other) =
        front ++ row :: waiting.filter fun other => !clash key row other := by
      rw [List.map_append, List.map_cons, same, if_pos rfl, whole]
      congr 2
      · refine (List.map_congr_left fun other inside => ?_).trans (List.map_id front)
        rw [half.free row List.mem_cons_self other inside]
        rfl
      · refine (List.map_congr_left fun other inside => ?_).trans (List.map_id _)
        have apart : clash key row other = false := by simpa using (List.mem_filter.mp inside).2
        rw [apart]
        rfl
    rw [upsert, if_neg bare, placeUpdate valid unique, hit, if_pos rfl, checked, updated, Rules.push]
    cases front.any (rules.clashes row) with
    | true => exact .none
    | false => exact .some (by simp)

theorem Halfway.placed (unique : rules.isKey key = true) (half : Halfway rules key set front waiting (row :: rows)) :
    SameTable (rules.place (upsert key set) (front ++ waiting) row)
      ((rules.place .fail front row).map fun after => after ++ waiting.filter fun other => !clash key row other) := by
  by_cases valid : rules.valid row = true
  case neg =>
    simp only [Rules.place, valid, Bool.and_false, Bool.false_eq_true, if_false]
    exact .none
  rw [placeFail valid]
  by_cases waits : ∃ old ∈ waiting, clash key row old = true
  · obtain ⟨old, member, same⟩ := waits
    have perm := (half.onlyOne unique member same).append_left front
    exact sameTrans (placePerm rules (upsert key set) perm row) (half.placedOver unique valid member same)
  · have apart : ∀ old ∈ waiting, clash key row old = false := fun old member => by
      rw [Bool.eq_false_iff]
      exact fun same => waits ⟨old, member, same⟩
    have new : (front ++ waiting).any (clash key row) = false := by
      rw [List.any_eq_false]
      intro old member
      rcases List.mem_append.mp member with before | later
      · simp [half.free row List.mem_cons_self old before]
      · simp [apart old later]
    have stands : (front ++ waiting).any (rules.clashes row) = front.any (rules.clashes row) := by
      have behind : waiting.any (rules.clashes row) = false := by
        rw [List.any_eq_false]
        intro old member
        simp [half.laterWaits member (apart old member)]
      rw [List.any_append, behind, Bool.or_false]
    have stay : (waiting.filter fun other => !clash key row other) = waiting :=
      List.filter_eq_self.mpr fun old member => by simp [apart old member]
    rw [placeNew valid unique new, Rules.push, Rules.push, stands, stay]
    split
    · exact .none
    · exact .some (by simpa using (List.perm_append_singleton row waiting).append_left front)

theorem Halfway.run (unique : rules.isKey key = true) (half : Halfway rules key set front waiting rows) :
    SameTable (rows.foldlM (rules.place (upsert key set)) (front ++ waiting)) (rows.foldlM (rules.place .fail) front) := by
  induction rows generalizing front waiting with
  | nil =>
    have none' : waiting = [] := List.eq_nil_iff_forall_not_mem.mpr fun old member => by
      obtain ⟨row, inside, -⟩ := half.matched old member
      contradiction
    rw [none', List.append_nil]
    exact sameRefl _
  | cons row rest ih =>
    have step := half.placed unique
    rw [List.foldlM_cons, List.foldlM_cons]
    by_cases valid : rules.valid row = true
    · rw [placeFail valid, Rules.push] at step ⊢
      split at step
      · rename_i against
        rw [if_pos against]
        generalize rules.place (upsert key set) (front ++ waiting) row = first at step ⊢
        cases step
        exact .none
      · rename_i room
        rw [if_neg room]
        generalize rules.place (upsert key set) (front ++ waiting) row = first at step ⊢
        cases step with
        | some perm => exact sameTrans (placesPerm rules (upsert key set) rest perm) (ih half.next)
    · simp only [Rules.place, valid, Bool.and_false, Bool.false_eq_true, if_false]
      exact .none

variable (rules key set)

theorem replaceSame (unique : rules.isKey key = true) {stored : List (Row κ β)} (consistent : rules.Consistent stored)
    (fits : Replaceable rules key set stored rows) :
    SameTable (rows.foldlM (rules.place (upsert key set)) stored) (rules.replaceRows key stored rows) := by
  have split : stored.Perm ((stored.filter fun old => !rows.any fun row => clash key row old) ++
      stored.filter fun old => rows.any fun row => clash key row old) :=
    ((List.filter_append_perm (fun old => rows.any fun row => clash key row old) stored).symm).trans List.perm_append_comm
  have half : Halfway rules key set (stored.filter fun old => !rows.any fun row => clash key row old)
      (stored.filter fun old => rows.any fun row => clash key row old) rows :=
    { matched := fun old member => List.any_eq_true.mp (List.mem_filter.mp member).2
      apart := consistent.sublist List.filter_sublist
      free := fun row member old inside => by
        have none' := (List.mem_filter.mp inside).2
        rw [Bool.not_eq_true', List.any_eq_false] at none'
        exact Bool.eq_false_iff.mpr (none' row member)
      clear := fun old member later inside => by
        have parts := (split.pairwise_iff fun {a b} apart => Bool.eq_false_iff.mpr fun same => by
          rw [rules.clashesSymm same] at apart
          contradiction).mp consistent
        exact (List.pairwise_append.mp parts).2.2 old member later inside
      rest :=
        { distinct := fits.distinct
          whole := fun row member old inside => fits.whole row member old (List.mem_filter.mp inside).1
          ordered := fits.ordered.imp fun holds old inside => holds old (List.mem_filter.mp inside).1 } }
  refine sameTrans (placesPerm rules (upsert key set) rows split) ?_
  rw [Rules.replaceRows, Rules.statementFails]
  exact half.run unique

def Replaces : List (Row κ β) → List (List (Row κ β)) → Prop
  | _, [] => True
  | stored, rows :: rest =>
    Replaceable rules key set stored rows ∧ ∀ after, rules.replaceRows key stored rows = some after → Replaces after rest

end Replacing

section Batches

theorem foldlMFlatten {α γ : Type} (f : γ → α → Option γ) (start : γ) (chunks : List (List α)) :
    chunks.flatten.foldlM f start = chunks.foldlM (fun s chunk => chunk.foldlM f s) start := by
  induction chunks generalizing start with
  | nil => rfl
  | cons chunk rest ih =>
    rw [List.flatten_cons, List.foldlM_append, List.foldlM_cons]
    exact bind_congr fun s => ih s

variable (rules : Rules κ β) (key set : List κ) (stored : List (Row κ β)) (batches : List (List (Row κ β)))

theorem replacesSame (unique : rules.isKey key = true) (consistent : rules.Consistent stored)
    (fits : Replaces rules key set stored batches) :
    SameTable (batches.flatten.foldlM (rules.place (upsert key set)) stored) (batches.foldlM (rules.replaceRows key) stored) := by
  rw [foldlMFlatten]
  induction batches generalizing stored with
  | nil => exact sameRefl _
  | cons rows rest ih =>
    obtain ⟨first, later⟩ := fits
    have step := replaceSame rules key set unique consistent first
    rw [List.foldlM_cons, List.foldlM_cons]
    cases replaced : rules.replaceRows key stored rows with
    | none =>
      rw [replaced] at step
      generalize List.foldlM (rules.place (upsert key set)) stored rows = one at step ⊢
      cases step
      exact .none
    | some after =>
      rw [replaced] at step
      generalize List.foldlM (rules.place (upsert key set)) stored rows = one at step ⊢
      cases step with
      | some perm =>
        have behind := placesPerm rules (upsert key set) rest.flatten perm
        rw [foldlMFlatten, foldlMFlatten] at behind
        exact sameTrans behind (ih after (rules.replaceConsistent consistent replaced) (later after replaced))

theorem batchesEach {action : OnClash κ} (distinct : ∀ rows ∈ batches, Distinct action rows) :
    batches.foldlM (rules.statement action) stored = batches.flatten.foldlM (rules.place action) stored := by
  rw [foldlMFlatten]
  induction batches generalizing stored with
  | nil => rfl
  | cons rows rest ih =>
    rw [List.foldlM_cons, List.foldlM_cons, Rules.statement, if_pos (distinct rows List.mem_cons_self)]
    exact bind_congr fun s => ih s fun later member => distinct later (List.mem_cons_of_mem _ member)

theorem batchesSame (action : OnClash κ) :
    SameTable (batches.foldlM (rules.statement action) stored) (batches.flatten.foldlM (rules.place action) stored) ↔
      batches.flatten.foldlM (rules.place action) stored = none ∨ ∀ rows ∈ batches, Distinct action rows := by
  by_cases distinct : ∀ rows ∈ batches, Distinct action rows
  · exact ⟨fun _ => .inr distinct, fun _ => batchesEach rules stored batches distinct ▸ sameRefl _⟩
  · have refused : batches.foldlM (rules.statement action) stored = none := by
      induction batches generalizing stored with
      | nil => simp at distinct
      | cons rows rest ih =>
        rw [List.foldlM_cons]
        by_cases first : Distinct action rows
        · have later : ¬∀ rows ∈ rest, Distinct action rows := fun each =>
            distinct (List.forall_mem_cons.mpr ⟨first, each⟩)
          cases rules.statement action stored rows with
          | none => rfl
          | some after => exact ih after later
        · rw [Rules.statement, if_neg first]
          rfl
    simp only [refused, distinct, or_false, sameNone]

end Batches

end DatabaseAdmin.KeyedTables
