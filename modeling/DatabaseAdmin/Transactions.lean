import Mathlib.Data.List.TakeWhile

/-! Transactions of one connection: committed contents, a working copy while a transaction is
open, and savepoints over it. A transaction is begun or held open by a savepoint. -/
namespace DatabaseAdmin.Transactions

universe u v

structure Transaction (δ : Type u) (ν : Type v) where
  begun : Bool
  aborted : Bool
  working : δ
  savepoints : List (ν × δ)
  isOpen : begun = true ∨ savepoints ≠ []

structure Connection (δ : Type u) (ν : Type v) where
  committed : δ
  transaction : Option (Transaction δ ν)

variable {δ : Type u} {ν : Type v}

namespace Connection

def seen (c : Connection δ ν) : δ := c.transaction.elim c.committed Transaction.working

def write (c : Connection δ ν) (d : δ) : Connection δ ν :=
  match c.transaction with
  | none => { c with committed := d }
  | some t => { c with transaction := some { t with working := d } }

def abort (c : Connection δ ν) : Connection δ ν :=
  { c with transaction := c.transaction.map fun t => { t with aborted := true } }

def isAborted (c : Connection δ ν) : Bool := c.transaction.any Transaction.aborted

def start (c : Connection δ ν) : Connection δ ν :=
  { c with transaction := some ⟨true, false, c.committed, [], Or.inl rfl⟩ }

def discard (c : Connection δ ν) : Connection δ ν := { c with transaction := none }

def keep (c : Connection δ ν) : Connection δ ν := ⟨c.seen, none⟩

def savepoint (c : Connection δ ν) (n : ν) : Connection δ ν :=
  match c.transaction with
  | none => { c with transaction := some ⟨false, false, c.committed, [(n, c.committed)], Or.inr nofun⟩ }
  | some t => { c with
      transaction := some { t with savepoints := (n, t.working) :: t.savepoints, isOpen := Or.inr nofun } }

def names (c : Connection δ ν) : List ν := c.transaction.elim [] fun t => t.savepoints.map Prod.fst

def depth (c : Connection δ ν) : Nat := c.transaction.elim 0 fun t => t.savepoints.length + 1

variable [DecidableEq ν]

def backTo (n : ν) (savepoints : List (ν × δ)) : List (ν × δ) := savepoints.dropWhile fun s => s.1 ≠ n

def release (c : Connection δ ν) (n : ν) : Option (Connection δ ν) :=
  match c.transaction with
  | none => none
  | some t => match backTo n t.savepoints with
    | [] => none
    | _ :: outer =>
        if isOpen : t.begun = true ∨ outer ≠ [] then
          some { c with transaction := some { t with savepoints := outer, isOpen := isOpen } }
        else some ⟨t.working, none⟩

def rollbackTo (c : Connection δ ν) (n : ν) : Option (Connection δ ν) :=
  match c.transaction with
  | none => none
  | some t => match backTo n t.savepoints with
    | [] => none
    | kept :: outer => some { c with transaction := some { t with
        working := kept.2, savepoints := kept :: outer, isOpen := Or.inr nofun } }

end Connection

open Connection
variable [DecidableEq ν] {c : Connection δ ν} {n m : ν}

theorem backToHead (n : ν) (d : δ) (outer : List (ν × δ)) : backTo n ((n, d) :: outer) = (n, d) :: outer := by
  simp [backTo]

theorem backToOther (apart : m ≠ n) (d : δ) (outer : List (ν × δ)) : backTo n ((m, d) :: outer) = backTo n outer := by
  simp [backTo, apart]

theorem backToNone {savepoints : List (ν × δ)} (absent : n ∉ savepoints.map Prod.fst) : backTo n savepoints = [] := by
  simp only [backTo, List.dropWhile_eq_nil_iff]
  intro s inside
  have named : s.1 ≠ n := fun same => absent (same ▸ List.mem_map_of_mem inside)
  simpa using named

theorem backToSome {savepoints : List (ν × δ)} (present : n ∈ savepoints.map Prod.fst) :
    ∃ d outer, backTo n savepoints = (n, d) :: outer ∧ outer.length < savepoints.length := by
  induction savepoints with
  | nil => simp at present
  | cons s rest ih =>
    obtain ⟨m, d⟩ := s
    by_cases same : m = n
    · subst same
      exact ⟨d, rest, backToHead m d rest, by simp⟩
    · have inside : n ∈ rest.map Prod.fst := by
        rcases List.mem_cons.mp present with here | later
        · exact absurd here.symm same
        · exact later
      obtain ⟨e, outer, found, shorter⟩ := ih inside
      exact ⟨e, outer, by rw [backToOther same, found], by simp only [List.length_cons]; omega⟩

theorem savepointUndone (c : Connection δ ν) (n : ν) (d : δ) :
    (((c.savepoint n).write d).rollbackTo n).bind (Connection.release · n) = some c := by
  obtain ⟨committed, transaction⟩ := c
  cases transaction with
  | none => simp [savepoint, write, rollbackTo, release, backToHead]
  | some t =>
    obtain ⟨begun, aborted, working, savepoints, isOpen⟩ := t
    simp [savepoint, write, rollbackTo, release, backToHead, isOpen]

omit [DecidableEq ν] in
theorem savepointOpen (c : Connection δ ν) (n : ν) : (c.savepoint n).transaction.isSome = true := by
  obtain ⟨committed, transaction⟩ := c
  cases transaction <;> rfl

theorem releaseOwn (n : ν) (c : Connection δ ν) : (c.savepoint n).release n = some c := by
  obtain ⟨committed, transaction⟩ := c
  cases transaction with
  | none => simp [savepoint, release, backToHead]
  | some t =>
    obtain ⟨begun, aborted, working, savepoints, isOpen⟩ := t
    simp [savepoint, release, backToHead, isOpen]

theorem rollbackToOwn (n : ν) (c : Connection δ ν) :
    (c.savepoint n).rollbackTo n = some (c.savepoint n) := by
  obtain ⟨committed, transaction⟩ := c
  cases transaction <;> simp [savepoint, rollbackTo, backToHead]

omit [DecidableEq ν] in
theorem writeSeen (c : Connection δ ν) (d : δ) : (c.write d).seen = d := by
  obtain ⟨committed, transaction⟩ := c
  cases transaction <;> rfl

omit [DecidableEq ν] in
theorem savepointSeen (c : Connection δ ν) (n : ν) : (c.savepoint n).seen = c.seen := by
  obtain ⟨committed, transaction⟩ := c
  cases transaction <;> rfl

omit [DecidableEq ν] in
theorem savepointDepth (c : Connection δ ν) (n : ν) : c.depth < (c.savepoint n).depth := by
  obtain ⟨committed, transaction⟩ := c
  cases transaction <;> simp [depth, savepoint]

theorem releaseBelow (apart : n ≠ m) : (c.savepoint m).release n = c.release n := by
  obtain ⟨committed, transaction⟩ := c
  cases transaction with
  | none => simp [savepoint, release, backTo, apart.symm]
  | some t => simp [savepoint, release, backToOther apart.symm]

theorem rollbackToBelow (apart : n ≠ m) : (c.savepoint m).rollbackTo n = c.rollbackTo n := by
  obtain ⟨committed, transaction⟩ := c
  cases transaction with
  | none => simp [savepoint, rollbackTo, backTo, apart.symm]
  | some t => simp [savepoint, rollbackTo, backToOther apart.symm]

theorem rollbackToStays : c.rollbackTo n = some c ↔ ∃ t ∈ c.transaction, t.savepoints.head? = some (n, t.working) := by
  obtain ⟨committed, transaction⟩ := c
  cases transaction with
  | none => simp [rollbackTo]
  | some t =>
    obtain ⟨begun, aborted, working, savepoints, isOpen⟩ := t
    cases savepoints with
    | nil => simp [rollbackTo, backTo]
    | cons s rest =>
      obtain ⟨m, d⟩ := s
      by_cases same : m = n
      · subst same
        simp [rollbackTo, backToHead, eq_comm]
      · have shorter : (backTo n rest).length ≤ rest.length := (List.dropWhile_suffix _).length_le
        simp only [rollbackTo, backToOther same]
        cases found : backTo n rest with
        | nil => simp [same]
        | cons kept outer =>
          have apart : outer ≠ rest := by
            rintro rfl
            simp only [found, List.length_cons] at shorter
            omega
          simp [same, apart]

theorem releaseAbsent (absent : n ∉ c.names) : c.release n = none := by
  obtain ⟨committed, transaction⟩ := c
  cases transaction with
  | none => rfl
  | some t =>
    have gone : backTo n t.savepoints = [] := backToNone absent
    simp [release, gone]

theorem rollbackToAbsent (absent : n ∉ c.names) : c.rollbackTo n = none := by
  obtain ⟨committed, transaction⟩ := c
  cases transaction with
  | none => rfl
  | some t =>
    have gone : backTo n t.savepoints = [] := backToNone absent
    simp [rollbackTo, gone]

theorem releaseShrinks (present : n ∈ c.names) : ∃ d, c.release n = some d ∧ d.depth < c.depth := by
  obtain ⟨committed, transaction⟩ := c
  cases transaction with
  | none => simp [names] at present
  | some t =>
    obtain ⟨d, outer, found, shorter⟩ := backToSome present
    by_cases isOpen : t.begun = true ∨ outer ≠ []
    · refine ⟨_, by simp only [release, found, dif_pos isOpen]; rfl, ?_⟩
      simpa [depth] using shorter
    · exact ⟨_, by simp only [release, found, dif_neg isOpen]; rfl, by simp [depth]⟩

theorem rollbackToPresent (present : n ∈ c.names) :
    ∃ d, c.rollbackTo n = some d ∧ n ∈ d.names ∧ d.depth ≤ c.depth := by
  obtain ⟨committed, transaction⟩ := c
  cases transaction with
  | none => simp [names] at present
  | some t =>
    obtain ⟨d, outer, found, shorter⟩ := backToSome present
    refine ⟨_, by simp only [rollbackTo, found]; rfl, by simp [names], ?_⟩
    simp only [depth, Option.elim_some, List.length_cons]
    omega

end DatabaseAdmin.Transactions
