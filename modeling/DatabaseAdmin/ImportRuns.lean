import DatabaseAdmin.StepSystem
import Mathlib.Algebra.GroupWithZero.Nat

/-! A row import that was asked for one transaction and stops at the first error: the steps before
BEGIN, the reader, the loader's statements, and the end of the transaction. -/
namespace DatabaseAdmin.ImportRuns

open StepSystem

variable {ρ τ : Type}

inductive Engine where
  | postgres | mysql | sqlite
  deriving DecidableEq

inductive SourceKind where
  | csv | json | ndjson | xlsx
  deriving DecidableEq

inductive OnConflict where
  | insert | upsert | replace | ignore
  deriving DecidableEq

structure Options where
  onConflict : OnConflict
  createTable : Bool
  truncateFirst : Bool
  disableForeignKeys : Bool
  useFastPath : Bool
  batchSize : Nat

-- One statement for the whole file, or one for each so many rows; MySQL's INSERT also counts
-- bytes. A checked path looks at the signal before each statement.
inductive LoadPath where
  | single
  | chunked (rows : Nat) (checked : Bool)
  | budgeted (rows bytes : Nat)
  deriving DecidableEq

-- An item of the source that is `none` cannot be read or coerced. The reader looks at the
-- signal between chunks: a record of a CSV file, a read of a JSON file, a row of a sheet.
structure Job (ρ τ : Type) where
  engine : Engine
  kind : SourceKind
  options : Options
  localInfile : Bool
  width : Nat
  packet : Nat
  rowBytes : ρ → Nat
  source : List (List (Option ρ))
  empty : τ
  send : List ρ → τ → Option τ

namespace Job

def readerBatch (j : Job ρ τ) : Nat := max 1 j.options.batchSize

def loaderBatch (j : Job ρ τ) : Nat := max 1 (if j.options.batchSize = 0 then 1000 else j.options.batchSize)

def path (j : Job ρ τ) : LoadPath :=
  match j.engine with
  | .postgres =>
    if !j.options.useFastPath then .chunked (max 1 (min j.loaderBatch (65535 / max 1 j.width))) true
    else if j.options.onConflict = .insert then .single
    else .chunked (max j.loaderBatch 10000) false
  | .mysql =>
    if j.options.useFastPath && j.localInfile && j.options.onConflict ≠ .upsert then .single
    else .budgeted j.loaderBatch (j.packet * 7 / 10)
  | .sqlite => .chunked j.loaderBatch true

def isFull (j : Job ρ τ) (pending : List ρ) : Bool :=
  match j.path with
  | .single => false
  | .chunked n _ => decide (n ≤ pending.length)
  | .budgeted n bytes => decide (n ≤ pending.length ∨ bytes ≤ (pending.map j.rowBytes).sum)

def checked (j : Job ρ τ) : Bool :=
  match j.path with
  | .chunked _ checked => checked
  | _ => false

end Job

inductive Phase where
  | create | verify | foreignKeys | truncate | begin | load | commit | rollback | ended
  deriving DecidableEq

-- `working` is the table inside the open transaction; `early` is whether the signal was already
-- raised when the reader began to listen; `loaded` are the rows the server has taken.
structure State (ρ τ : Type) where
  phase : Phase
  signal : Bool
  early : Bool
  committed : Option τ
  working : Option τ
  chunks : List (List (Option ρ))
  current : List (Option ρ)
  batch : List ρ
  done : Bool
  incoming : List ρ
  pending : List ρ
  loaded : List ρ

-- `lost` is a COMMIT that took effect although the client sees it fail.
inductive Event where
  | proceed | fault | lost | raise
  deriving DecidableEq

def start (j : Job ρ τ) (before : Option τ) : State ρ τ :=
  ⟨if j.options.createTable then .create else .verify, false, false, before, none, j.source, [], [], false, [], [], []⟩

def failed (s : State ρ τ) : State ρ τ := { s with phase := .rollback }

def flush (j : Job ρ τ) (s : State ρ τ) : State ρ τ :=
  if j.checked && s.signal then failed s
  else
    match s.working.bind (j.send s.pending) with
    | none => failed s
    | some table => { s with working := some table, pending := [], loaded := s.loaded ++ s.pending }

-- Every loader looks at the signal when a batch comes in.
def deliver (s : State ρ τ) : State ρ τ :=
  if s.signal then failed s else { s with incoming := s.batch, batch := [] }

-- A cancelled job closes the file, so the next record of a CSV or JSON reader is an error. A
-- sheet's reader returns, and so does every reader that finds the signal raised at its start.
def resume (j : Job ρ τ) (s : State ρ τ) : State ρ τ :=
  match s.current with
  | none :: _ => failed s
  | some row :: rest =>
    let s := { s with current := rest, batch := s.batch ++ [row] }
    if j.readerBatch ≤ s.batch.length then deliver s else s
  | [] =>
    match s.chunks with
    | chunk :: rest =>
      if s.signal then
        if j.kind = .xlsx || s.early then { s with done := true, batch := [], chunks := [] } else failed s
      else { s with chunks := rest, current := chunk }
    | [] =>
      let s := { s with done := true }
      if s.batch.isEmpty then s else deliver s

def loadStep (j : Job ρ τ) (s : State ρ τ) : State ρ τ :=
  match s.incoming with
  | row :: rest =>
    let s := { s with incoming := rest, pending := s.pending ++ [row] }
    if j.isFull s.pending then flush j s else s
  | [] =>
    if !s.done then resume j s
    else if s.pending.isEmpty then { s with phase := .commit }
    else flush j s

def afterVerify (j : Job ρ τ) : Phase :=
  if j.options.disableForeignKeys then .foreignKeys else if j.options.truncateFirst then .truncate else .begin

def afterForeignKeys (j : Job ρ τ) : Phase := if j.options.truncateFirst then .truncate else .begin

def step (j : Job ρ τ) (s : State ρ τ) (e : Event) : Option (State ρ τ) :=
  match s.phase, e with
  | .ended, _ => none
  | _, .raise => some { s with signal := true }
  | .create, .proceed => some { s with committed := some (s.committed.getD j.empty), phase := .verify }
  | .verify, .proceed => some { s with phase := if s.committed.isSome then afterVerify j else .ended }
  | .foreignKeys, .proceed => some { s with phase := afterForeignKeys j }
  | .foreignKeys, .fault => some { s with phase := if j.engine = .postgres then afterForeignKeys j else .ended }
  | .truncate, .proceed => some { s with committed := some j.empty, phase := .begin }
  | .begin, .proceed => some { s with working := s.committed, early := s.signal, phase := .load }
  | .create, .fault | .verify, .fault | .truncate, .fault | .begin, .fault => some { s with phase := .ended }
  | .load, .proceed => some (loadStep j s)
  | .load, .fault | .commit, .fault => some (failed s)
  | .commit, .proceed => some { s with committed := s.working, working := none, phase := .ended }
  | .commit, .lost => some { s with committed := s.working, working := none, phase := .rollback }
  | .rollback, .proceed | .rollback, .fault => some { s with working := none, phase := .ended }
  | _, .lost => none

def sendAll (j : Job ρ τ) : List (List ρ) → τ → Option τ
  | [], table => some table
  | rows :: rest, table => (j.send rows table).bind (sendAll j rest)

def Sent (j : Job ρ τ) (base : τ) (rows : List ρ) (table : τ) : Prop :=
  ∃ groups : List (List ρ), (∀ g ∈ groups, g ≠ []) ∧ groups.flatten = rows ∧ sendAll j groups base = some table

def Prepared (j : Job ρ τ) (before table : Option τ) : Prop :=
  table = before ∨ (j.options.createTable = true ∧ before = none ∨ j.options.truncateFirst = true) ∧ table = some j.empty

def base (j : Job ρ τ) (before : Option τ) : τ := if j.options.truncateFirst then j.empty else before.getD j.empty

def EveryRow (j : Job ρ τ) (before table : Option τ) : Prop :=
  ∃ rows after, j.source.flatten = rows.map some ∧ Sent j (base j before) rows after ∧ table = some after

def Whole (j : Job ρ τ) (before table : Option τ) : Prop := Prepared j before table ∨ EveryRow j before table

def SheetUndisturbed (j : Job ρ τ) (s : State ρ τ) (e : Event) : Prop :=
  e = .raise → j.kind = .xlsx → s.phase = .load → s.done = false → s.incoming ++ s.pending ++ s.loaded = []

instance (j : Job ρ τ) (s : State ρ τ) (e : Event) [DecidableEq ρ] : Decidable (SheetUndisturbed j s e) := by
  unfold SheetUndisturbed; infer_instance

structure Unread (j : Job ρ τ) (s : State ρ τ) : Prop where
  chunks : s.chunks = j.source
  current : s.current = []
  batch : s.batch = []
  done : s.done = false
  incoming : s.incoming = []
  pending : s.pending = []
  loaded : s.loaded = []

theorem Unread.elsewhere {j : Job ρ τ} {s : State ρ τ} (u : Unread j s) (phase : Phase) (signal early : Bool)
    (committed working : Option τ) : Unread j { s with
      phase := phase, signal := signal, early := early, committed := committed, working := working } :=
  ⟨u.chunks, u.current, u.batch, u.done, u.incoming, u.pending, u.loaded⟩

def Accounted (j : Job ρ τ) (s : State ρ τ) : Prop :=
  j.source.flatten = (s.loaded ++ s.pending ++ s.incoming ++ s.batch).map some ++ s.current ++ s.chunks.flatten ∧
    (s.done = true → s.batch = [] ∧ s.current = [] ∧ s.chunks = [])

def Untouched (s : State ρ τ) : Prop := s.loaded = [] ∧ s.pending = [] ∧ s.incoming = []

structure Reading (j : Job ρ τ) (b : τ) (s : State ρ τ) : Prop where
  committed : s.committed = some b
  working : ∃ table, s.working = some table ∧ Sent j b s.loaded table
  rows : Accounted j s ∨ s.done = true ∧ Untouched s
  early : s.early = true → s.signal = true
  quiet : s.signal = true → s.done = false → (s.early = true ∨ j.kind = .xlsx) → Untouched s

def Inv (j : Job ρ τ) (before : Option τ) (s : State ρ τ) : Prop :=
  match s.phase with
  | .create => Unread j s ∧ s.committed = before ∧ j.options.createTable = true
  | .verify => Unread j s ∧ s.committed = if j.options.createTable then some (before.getD j.empty) else before
  | .foreignKeys => Unread j s ∧ Prepared j before s.committed ∧ s.committed = some (before.getD j.empty)
  | .truncate =>
    Unread j s ∧ Prepared j before s.committed ∧ s.committed = some (before.getD j.empty) ∧ j.options.truncateFirst = true
  | .begin => Unread j s ∧ Prepared j before s.committed ∧ s.committed = some (base j before)
  | .load => Prepared j before s.committed ∧ Reading j (base j before) s
  | .commit => Prepared j before s.committed ∧ Whole j before s.working
  | .rollback => Whole j before s.committed
  | .ended => Whole j before s.committed

section Loading
variable {j : Job ρ τ} {b : τ} {s : State ρ τ}

theorem sendAppend (groups more : List (List ρ)) (table : τ) :
    sendAll j (groups ++ more) table = (sendAll j groups table).bind (sendAll j more) := by
  induction groups generalizing table with
  | nil => rfl
  | cons rows rest ih =>
    rw [List.cons_append, sendAll, sendAll, Option.bind_assoc]
    exact congrArg _ (funext ih)

theorem sentMore {rows more : List ρ} {table after : τ} (sent : Sent j b rows table) (some' : more ≠ [])
    (taken : j.send more table = some after) : Sent j b (rows ++ more) after := by
  obtain ⟨groups, filled, joined, ran⟩ := sent
  refine ⟨groups ++ [more], fun g mem => ?_, by simp [joined], ?_⟩
  · rcases List.mem_append.mp mem with old | new
    · exact filled g old
    · exact List.mem_singleton.mp new ▸ some'
  rw [sendAppend, ran, Option.bind_some, sendAll, taken, Option.bind_some, sendAll]

theorem sentNone {table : τ} (sent : Sent j b [] table) : table = b := by
  obtain ⟨groups, filled, joined, ran⟩ := sent
  cases groups with
  | nil => exact (Option.some.inj ran).symm
  | cons g rest => exact absurd (List.append_eq_nil_iff.mp joined).1 (filled g List.mem_cons_self)

def Goes (j : Job ρ τ) (b : τ) (s s' : State ρ τ) : Prop :=
  s'.phase = .load ∧ Reading j b s' ∨ s'.phase = .rollback ∧ s'.committed = s.committed

theorem failedGoes : Goes j b s (failed s) := .inr ⟨rfl, rfl⟩

theorem flushGoes (loading : s.phase = .load) (reading : Reading j b s) (some' : s.pending ≠ [])
    (calm : s.signal = true → s.done = false → ¬(s.early = true ∨ j.kind = .xlsx)) : Goes j b s (flush j s) := by
  obtain ⟨table, open', sent⟩ := reading.working
  simp only [flush, open', Option.bind_some]
  split
  · exact failedGoes
  · cases taken : j.send s.pending table with
    | none => exact failedGoes
    | some after =>
      refine .inl ⟨loading, reading.committed, ⟨after, rfl, sentMore sent some' taken⟩, ?_, reading.early, ?_⟩
      · rcases reading.rows with all | ⟨done, none, empty, out⟩
        · exact .inl (by simpa [Accounted] using all)
        · exact .inr ⟨done, by simp [Untouched, none, empty, out]⟩
      · exact fun raised open'' which => absurd which (calm raised open'')

theorem deliverGoes (loading : s.phase = .load) (committed : s.committed = some b)
    (working : ∃ table, s.working = some table ∧ Sent j b s.loaded table)
    (early : s.early = true → s.signal = true)
    (rows : j.source.flatten = (s.loaded ++ s.pending ++ s.batch).map some ++ s.current ++ s.chunks.flatten)
    (ended : s.done = true → s.current = [] ∧ s.chunks = []) : Goes j b s (deliver s) := by
  rw [deliver]
  split
  · exact failedGoes
  · rename_i calm
    refine .inl ⟨loading, committed, working, .inl ⟨?_, fun done => ⟨rfl, ended done⟩⟩, early,
      fun raised => absurd raised calm⟩
    simpa using rows

theorem resumeGoes (loading : s.phase = .load) (reading : Reading j b s) (idle : s.incoming = []) (open' : s.done = false) :
    Goes j b s (resume j s) := by
  have all : Accounted j s := by
    rcases reading.rows with all | ⟨done, _⟩
    · exact all
    · rw [open'] at done
      contradiction
  rw [resume]
  split
  · exact failedGoes
  · rename_i row rest here
    have next : Reading j b { s with current := rest, batch := s.batch ++ [row] } := by
      refine ⟨reading.committed, reading.working, .inl ⟨?_, fun done => ?_⟩, reading.early, reading.quiet⟩
      · rw [all.1, here]
        simp
      · rw [open'] at done
        contradiction
    simp only
    split
    · refine deliverGoes loading next.committed next.working next.early ?_ fun done => ?_
      · rw [all.1, here, idle]
        simp
      · rw [open'] at done
        contradiction
    · exact .inl ⟨loading, next⟩
  · rename_i here
    split
    · rename_i chunk rest more
      split
      · rename_i raised
        split
        · rename_i silent
          have which : s.early = true ∨ j.kind = .xlsx := by
            rcases (Bool.or_eq_true _ _).mp silent with sheet | early
            · exact .inr (of_decide_eq_true sheet)
            · exact .inl early
          refine .inl ⟨loading, reading.committed, reading.working, .inr ⟨rfl, reading.quiet raised open' which⟩,
            reading.early, ?_⟩
          exact fun _ still => absurd still (by simp)
        · exact failedGoes
      · refine .inl ⟨loading, reading.committed, reading.working, .inl ⟨?_, fun done => ?_⟩, reading.early, reading.quiet⟩
        · rw [all.1, here, more]
          simp
        · rw [open'] at done
          contradiction
    · rename_i last
      simp only
      split
      · rename_i empty
        refine .inl ⟨loading, reading.committed, reading.working, .inl ⟨all.1, fun _ => ?_⟩, reading.early, ?_⟩
        · exact ⟨by simpa using empty, here, last⟩
        · exact fun _ still => absurd still (by simp)
      · refine deliverGoes loading reading.committed reading.working reading.early ?_ fun _ => ⟨here, last⟩
        rw [all.1, idle]
        simp

theorem loadKeeps {before : Option τ} (loading : s.phase = .load) (prepared : Prepared j before s.committed)
    (reading : Reading j (base j before) s) : Inv j before (loadStep j s) := by
  have goes : ∀ {s'}, Goes j (base j before) s s' → Inv j before s' := by
    rintro s' (⟨phase, next⟩ | ⟨phase, same⟩)
    · simp only [Inv, phase]
      rw [next.committed, ← reading.committed]
      exact ⟨prepared, next⟩
    · simp only [Inv, phase]
      rw [same]
      exact .inl prepared
  rw [loadStep]
  split
  · rename_i row rest here
    have loud : ¬Untouched s := fun none => by
      rw [none.2.2] at here
      contradiction
    have all : Accounted j s := by
      rcases reading.rows with all | ⟨_, none⟩
      · exact all
      · exact absurd none loud
    have next : Reading j (base j before) { s with incoming := rest, pending := s.pending ++ [row] } := by
      refine ⟨reading.committed, reading.working, .inl ⟨?_, all.2⟩, reading.early, fun raised open' which => ?_⟩
      · rw [all.1, here]
        simp
      · exact absurd (reading.quiet raised open' which) loud
    simp only
    split
    · refine goes (flushGoes loading next (by simp) fun raised open' which => ?_)
      exact loud (reading.quiet raised open' which)
    · exact goes (.inl ⟨loading, next⟩)
  · rename_i idle
    split
    · rename_i more
      exact goes (resumeGoes loading reading idle (by simpa using more))
    · rename_i last
      have done : s.done = true := by simpa using last
      split
      · rename_i empty
        have none : s.pending = [] := by simpa using empty
        simp only [Inv]
        refine ⟨prepared, ?_⟩
        obtain ⟨table, open', sent⟩ := reading.working
        rw [open']
        rcases reading.rows with all | ⟨_, untouched⟩
        · obtain ⟨batch, current, chunks⟩ := all.2 done
          refine .inr ⟨s.loaded, table, ?_, sent, rfl⟩
          rw [all.1, none, idle, batch, current, chunks]
          simp
        · rw [untouched.1] at sent
          rw [sentNone sent, ← reading.committed]
          exact .inl prepared
      · rename_i some'
        exact goes (flushGoes loading reading (by simpa using some') fun _ open' => by rw [done] at open'; contradiction)

end Loading

section Runs
variable {j : Job ρ τ} {before : Option τ}

theorem preparedEmpty (create : j.options.createTable = true) : Prepared j before (some (before.getD j.empty)) := by
  cases before with
  | none => exact .inr ⟨.inl ⟨create, rfl⟩, rfl⟩
  | some table => exact .inl rfl

theorem startInv (j : Job ρ τ) (before : Option τ) : Inv j before (start j before) := by
  by_cases create : j.options.createTable = true
  · simp only [Inv, start, create, if_true]
    exact ⟨⟨rfl, rfl, rfl, rfl, rfl, rfl, rfl⟩, trivial, trivial⟩
  · simp only [Inv, start, if_neg create]
    exact ⟨⟨rfl, rfl, rfl, rfl, rfl, rfl, rfl⟩, trivial⟩

theorem afterForeignKeysKeeps {s : State ρ τ} (unread : Unread j s) (prepared : Prepared j before s.committed)
    (there : s.committed = some (before.getD j.empty)) : Inv j before { s with phase := afterForeignKeys j } := by
  have same := unread.elsewhere (afterForeignKeys j) s.signal s.early s.committed s.working
  rw [afterForeignKeys] at same ⊢
  by_cases truncate : j.options.truncateFirst = true
  · simp only [Inv, if_pos truncate] at same ⊢
    exact ⟨same, prepared, there, truncate⟩
  · simp only [Inv, if_neg truncate, base] at same ⊢
    exact ⟨same, prepared, there⟩

theorem afterVerifyKeeps {s : State ρ τ} (unread : Unread j s) (prepared : Prepared j before s.committed)
    (there : s.committed = some (before.getD j.empty)) : Inv j before { s with phase := afterVerify j } := by
  rw [afterVerify]
  by_cases disable : j.options.disableForeignKeys = true
  · simp only [Inv, if_pos disable]
    exact ⟨unread.elsewhere _ _ _ _ _, prepared, there⟩
  · rw [if_neg disable]
    exact afterForeignKeysKeeps unread prepared there

theorem verifiedKeeps {s : State ρ τ}
    (there : s.committed = if j.options.createTable then some (before.getD j.empty) else before) :
    Prepared j before s.committed ∧ (s.committed.isSome = true → s.committed = some (before.getD j.empty)) := by
  rw [there]
  by_cases create : j.options.createTable = true
  · rw [if_pos create]
    exact ⟨preparedEmpty create, fun _ => rfl⟩
  · rw [if_neg create]
    refine ⟨.inl rfl, fun known => ?_⟩
    obtain ⟨table, rfl⟩ := Option.isSome_iff_exists.mp known
    rfl

theorem raiseKeeps {s : State ρ τ} (inv : Inv j before s) (undisturbed : SheetUndisturbed j s .raise) :
    Inv j before { s with signal := true } := by
  cases phase : s.phase with
  | load =>
    simp only [Inv, phase] at inv ⊢
    obtain ⟨prepared, reading⟩ := inv
    refine ⟨prepared, reading.committed, reading.working, reading.rows, fun _ => rfl, fun _ open' which => ?_⟩
    rcases which with early | sheet
    · exact reading.quiet (reading.early early) open' (.inl early)
    · have none := undisturbed rfl sheet phase open'
      simp only [List.append_eq_nil_iff] at none
      exact ⟨none.2, none.1.2, none.1.1⟩
  | commit | rollback | ended =>
    simp only [Inv, phase] at inv ⊢
    exact inv
  | create | verify | foreignKeys | truncate | begin =>
    simp only [Inv, phase] at inv ⊢
    exact ⟨inv.1.elsewhere _ _ _ _ _, inv.2⟩

theorem beginKeeps {s : State ρ τ} (unread : Unread j s) (prepared : Prepared j before s.committed)
    (there : s.committed = some (base j before)) :
    Inv j before { s with working := s.committed, early := s.signal, phase := .load } := by
  refine ⟨prepared, there, ⟨base j before, there, ?_⟩, .inl ⟨?_, ?_⟩, fun raised => raised, fun _ _ _ => ?_⟩
  · rw [unread.loaded]
    exact ⟨[], fun g mem => absurd mem List.not_mem_nil, rfl, rfl⟩
  · simp [unread.loaded, unread.pending, unread.incoming, unread.batch, unread.current, unread.chunks]
  · intro done
    rw [unread.done] at done
    contradiction
  · exact ⟨unread.loaded, unread.pending, unread.incoming⟩

theorem stepKeeps {s s' : State ρ τ} {e : Event} (inv : Inv j before s) (undisturbed : SheetUndisturbed j s e)
    (moved : step j s e = some s') : Inv j before s' := by
  have raised : e = .raise → Inv j before { s with signal := true } := fun same =>
    raiseKeeps inv (same ▸ undisturbed)
  cases phase : s.phase <;> cases e <;> simp only [step, phase, reduceCtorEq, Option.some.injEq] at moved <;>
    subst moved
  all_goals simp only [Inv, phase] at inv
  case create.raise | verify.raise | foreignKeys.raise | truncate.raise | begin.raise | load.raise | commit.raise |
      rollback.raise =>
    rw [phase] at raised
    exact raised rfl
  case create.proceed =>
    obtain ⟨unread, there, create⟩ := inv
    simp only [Inv, create, if_true, there]
    exact ⟨unread.elsewhere _ _ _ _ _, trivial⟩
  case create.fault => exact .inl (.inl inv.2.1)
  case verify.proceed =>
    obtain ⟨unread, there⟩ := inv
    obtain ⟨prepared, known⟩ := verifiedKeeps there
    by_cases some' : s.committed.isSome = true
    · rw [if_pos some']
      exact afterVerifyKeeps unread prepared (known some')
    · rw [if_neg some']
      exact .inl prepared
  case verify.fault => exact .inl (verifiedKeeps inv.2).1
  case foreignKeys.proceed => exact afterForeignKeysKeeps inv.1 inv.2.1 inv.2.2
  case foreignKeys.fault =>
    by_cases soft : j.engine = .postgres
    · rw [if_pos soft]
      exact afterForeignKeysKeeps inv.1 inv.2.1 inv.2.2
    · rw [if_neg soft]
      exact .inl inv.2.1
  case truncate.proceed =>
    obtain ⟨unread, _, _, truncate⟩ := inv
    simp only [Inv, base, if_pos truncate]
    exact ⟨unread.elsewhere _ _ _ _ _, .inr ⟨.inr truncate, rfl⟩, trivial⟩
  case truncate.fault => exact .inl inv.2.1
  case begin.proceed => exact beginKeeps inv.1 inv.2.1 inv.2.2
  case begin.fault => exact .inl inv.2.1
  case load.proceed => exact loadKeeps phase inv.1 inv.2
  case load.fault => exact .inl inv.1
  case commit.proceed => exact inv.2
  case commit.fault => exact .inl inv.1
  case commit.lost => exact inv.2
  case rollback.proceed => exact inv
  case rollback.fault => exact inv

theorem importWhole (j : Job ρ τ) (before : Option τ) (acts : List Event) (s : State ρ τ)
    (undisturbed : Along (SheetUndisturbed j) (step j) (start j before) acts)
    (ran : runSteps (step j) (start j before) acts = some s) (ended : s.phase = .ended) :
    Whole j before s.committed := by
  have inv : Inv j before s := runKeeps stepKeeps (startInv j before) undisturbed ran
  simpa only [Inv, ended] using inv

def twoRows (truncate : Bool) (kind : SourceKind) (second : Option Nat) : Job Nat (List Nat) where
  engine := .postgres
  kind := kind
  options := ⟨.insert, false, truncate, false, false, 1⟩
  localInfile := false
  width := 1
  packet := 0
  rowBytes := fun _ => 1
  source := [[some 7], [second]]
  empty := []
  send rows table := some (table ++ rows)

theorem bothLoaded : Whole (twoRows false .csv (some 8)) (some [1]) (some [1, 7, 8]) :=
  importWhole (twoRows false .csv (some 8)) (some [1]) (List.replicate 11 .proceed) _ (by decide) rfl rfl

example : (runSteps (step (twoRows false .xlsx (some 8))) (start (twoRows false .xlsx (some 8)) (some [1]))
    (List.replicate 5 .proceed ++ [.raise] ++ List.replicate 3 .proceed)).map (fun s => (s.phase, s.committed)) =
    some (.ended, some [1, 7]) := by decide

-- The rows of the table are gone for good before the transaction begins.
theorem truncationStays : ¬∀ (j : Job Nat (List Nat)) (before : Option (List Nat)) (acts : List Event)
    (s : State Nat (List Nat)), runSteps (step j) (start j before) acts = some s → s.phase = .ended →
    s.committed = before ∨ EveryRow j before s.committed := by
  intro whole
  have ran : (runSteps (step (twoRows true .csv none)) (start (twoRows true .csv none) (some [1]))
      (List.replicate 9 .proceed)).map (fun s => (s.phase, s.committed)) = some (.ended, some []) := by decide
  obtain ⟨s, run, shown⟩ := Option.map_eq_some_iff.mp ran
  obtain ⟨ended, committed⟩ := Prod.mk.inj shown
  rcases whole _ _ _ s run ended with same | ⟨rows, after, read, _⟩
  · rw [committed] at same
    contradiction
  · match rows with
    | [] | [_] | [_, _] | _ :: _ :: _ :: _ => simp [twoRows] at read

end Runs

end DatabaseAdmin.ImportRuns
