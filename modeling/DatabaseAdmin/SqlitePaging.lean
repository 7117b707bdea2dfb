import DatabaseAdmin.PagedReads

/-! How the SQLite worker pages a result: behind a live iterator on a handle of its own, or,
where no such handle is to be had, out of a bounded buffer in the worker's memory. -/
namespace DatabaseAdmin.SqlitePaging
open PagedReads

variable {ρ : Type}

def maxBufferedRows : Nat := 200000

def cutNotice : String :=
  "Result exceeded 200,000 buffered rows and was cut short; add a LIMIT or export with stream()."

inductive Cursor (ρ : Type) where
  | live (iter : List ρ) (pending : Option ρ)
  | buffered (buffer : List ρ) (pos : Nat)

structure QueryResult (ρ : Type) where
  rows : List ρ
  truncated : Bool
  cursor : Option (Cursor ρ)
  notices : List String

structure Connection where
  memory : Bool
  inTransaction : Bool

def canUseReadHandle (c : Connection) : Bool := !c.memory && !c.inTransaction

def firstPage (limit : Option Nat) (rows : List ρ) : List ρ → List ρ × Option (ρ × List ρ)
  | [] => (rows, none)
  | row :: iter =>
      if limit.any (fun n => n ≤ rows.length) then (rows, some (row, iter))
      else firstPage limit (rows ++ [row]) iter

def fillBuffer (buffer : List ρ) : List ρ → List ρ × Bool
  | [] => (buffer, false)
  | row :: iter =>
      if maxBufferedRows ≤ buffer.length then (buffer, true) else fillBuffer (buffer ++ [row]) iter

def runQuery (c : Connection) (opens : Bool) (maxRows : Nat) (iter : List ρ) : QueryResult ρ :=
  match firstPage (if 0 < maxRows then some maxRows else none) [] iter with
  | (rows, none) => ⟨rows, false, none, []⟩
  | (rows, some (pending, iter)) =>
      if canUseReadHandle c && opens then ⟨rows, true, some (.live iter (some pending)), []⟩
      else
        let (buffer, overflow) := fillBuffer [pending] iter
        let notices := if overflow then [cutNotice] else []
        if buffer.isEmpty then ⟨rows, false, none, notices⟩
        else ⟨rows, true, some (.buffered buffer 0), notices⟩

def pull (n : Nat) (rows : List ρ) : List ρ → List ρ × Option (List ρ)
  | [] => (rows, if rows.length < n then none else some [])
  | row :: iter => if rows.length < n then pull n (rows ++ [row]) iter else (rows, some (row :: iter))

def cursorFetch (cursor : Cursor ρ) (n : Nat) : List ρ × Option (Cursor ρ) :=
  match cursor with
  | .buffered buffer pos =>
      let stop := min buffer.length (pos + n)
      ((buffer.drop pos).take (stop - pos),
        if stop < buffer.length then some (.buffered buffer stop) else none)
  | .live iter pending =>
      let (rows, iter) := pull n pending.toList iter
      (rows, iter.map (fun iter => .live iter none))

def streamChunk : Nat := 2000

def stream (c : Connection) (opens : Bool) (maxRows rounds : Nat) (iter : List ρ) :
    List ρ × Option (Cursor ρ) :=
  let chunk := if 0 < maxRows then maxRows else streamChunk
  let first := runQuery c opens chunk iter
  let later := readOut cursorFetch first.cursor (List.replicate rounds chunk)
  (first.rows ++ later.1, later.2)

def uncons : List ρ → Option (ρ × List ρ)
  | [] => none
  | row :: iter => some (row, iter)

theorem firstPageTakes {rows iter : List ρ} {n : Nat} (room : rows.length ≤ n) :
    firstPage (some n) rows iter =
      (rows ++ iter.take (n - rows.length), uncons (iter.drop (n - rows.length))) := by
  induction iter generalizing rows with
  | nil => simp [firstPage, uncons]
  | cons row iter ih =>
    simp only [firstPage, Option.any_some, decide_eq_true_eq]
    split
    · rename_i full
      have none : n - rows.length = 0 := Nat.sub_eq_zero_of_le full
      simp [none, uncons]
    · rename_i short
      obtain ⟨k, size⟩ : ∃ k, n - rows.length = k + 1 := ⟨n - rows.length - 1, by omega⟩
      have next : n - (rows ++ [row]).length = k := by
        simp only [List.length_append, List.length_singleton]
        omega
      rw [ih (by simp only [List.length_append, List.length_singleton]; omega), next, size]
      simp

theorem firstPageUnlimited (rows iter : List ρ) : firstPage none rows iter = (rows ++ iter, none) := by
  induction iter generalizing rows with
  | nil => simp [firstPage]
  | cons row iter ih => simp [firstPage, ih]

theorem fillBufferTakes {buffer iter : List ρ} (room : buffer.length ≤ maxBufferedRows) :
    fillBuffer buffer iter = ((buffer ++ iter).take maxBufferedRows,
      decide (maxBufferedRows < (buffer ++ iter).length)) := by
  induction iter generalizing buffer with
  | nil => simp [fillBuffer, List.take_of_length_le room, Nat.not_lt.mpr room]
  | cons row iter ih =>
    simp only [fillBuffer]
    split
    · rename_i full
      have size : buffer.length = maxBufferedRows := Nat.le_antisymm room full
      simp [← size]
    · rename_i short
      rw [ih (by simp only [List.length_append, List.length_singleton]; omega)]
      simp

theorem pullWhole (n : Nat) (rows iter : List ρ) :
    (pull n rows iter).1 ++ (pull n rows iter).2.getD [] = rows ++ iter := by
  induction iter generalizing rows with
  | nil =>
    simp only [pull]
    split <;> simp
  | cons row iter ih =>
    simp only [pull]
    split
    · rw [ih]
      simp
    · rfl

theorem pullMoves {n : Nat} {rows iter iter' : List ρ} (more : (pull n rows iter).2 = some iter') :
    n ≤ (pull n rows iter).1.length := by
  induction iter generalizing rows with
  | nil =>
    simp only [pull] at more ⊢
    split at more
    · contradiction
    · rename_i full
      exact Nat.not_lt.mp full
  | cons row iter ih =>
    simp only [pull] at more ⊢
    split
    · rename_i short
      rw [if_pos short] at more
      exact ih more
    · rename_i full
      exact Nat.not_lt.mp full

def remaining : Cursor ρ → List ρ
  | .live iter pending => pending.toList ++ iter
  | .buffered buffer pos => buffer.drop pos

theorem fetchLossless : Lossless (cursorFetch (ρ := ρ)) remaining := by
  refine ⟨fun cursor n positive => ?_, fun cursor n next positive more => ?_⟩
  · cases cursor with
    | live iter pending =>
      have whole := pullWhole n pending.toList iter
      simp only [cursorFetch, remaining]
      rw [← whole]
      cases (pull n pending.toList iter).2 <;> simp [left, remaining]
    | buffered buffer pos =>
      simp only [cursorFetch, remaining]
      split
      · rename_i short
        have stop : min buffer.length (pos + n) = pos + n := by omega
        have rest : buffer.drop (pos + n) = (buffer.drop pos).drop n := by rw [List.drop_drop]
        rw [stop, left, remaining, rest, Nat.add_sub_cancel_left, List.take_append_drop]
      · rw [left, List.append_nil, List.take_of_length_le]
        simp only [List.length_drop]
        omega
  · cases cursor with
    | live iter pending =>
      simp only [cursorFetch, Option.map_eq_some_iff] at more ⊢
      obtain ⟨iter', pulled, -⟩ := more
      have moved := pullMoves pulled
      exact List.ne_nil_of_length_pos (by omega)
    | buffered buffer pos =>
      simp only [cursorFetch] at more ⊢
      split at more
      · rename_i short
        apply List.ne_nil_of_length_pos
        simp only [List.length_take, List.length_drop]
        omega
      · contradiction

section Delivery

def delivered (c : Connection) (opens : Bool) (maxRows : Nat) (rows : List ρ) : List ρ :=
  if (canUseReadHandle c && opens) = true ∨ maxRows = 0 then rows
  else rows.take (maxRows + maxBufferedRows)

def isCut (c : Connection) (opens : Bool) (maxRows : Nat) (rows : List ρ) : Prop :=
  (canUseReadHandle c && opens) = false ∧ 0 < maxRows ∧ maxRows + maxBufferedRows < rows.length

theorem runQueryUnlimited (c : Connection) (opens : Bool) (rows : List ρ) :
    runQuery c opens 0 rows = ⟨rows, false, none, []⟩ := by
  simp [runQuery, firstPageUnlimited]

theorem runQueryFits {c : Connection} {opens : Bool} {maxRows : Nat} {rows : List ρ}
    (fits : rows.length ≤ maxRows) : runQuery c opens maxRows rows = ⟨rows, false, none, []⟩ := by
  cases Nat.eq_zero_or_pos maxRows with
  | inl zero => rw [zero, runQueryUnlimited]
  | inr positive =>
    simp [runQuery, positive, firstPageTakes, List.take_of_length_le fits,
      List.drop_eq_nil_of_le fits, uncons]

theorem runQueryMore {c : Connection} {opens : Bool} {maxRows : Nat} {rows iter : List ρ} {row : ρ}
    (positive : 0 < maxRows) (more : rows.drop maxRows = row :: iter) :
    runQuery c opens maxRows rows =
      if canUseReadHandle c && opens then ⟨rows.take maxRows, true, some (.live iter (some row)), []⟩
      else ⟨rows.take maxRows, true, some (.buffered ((row :: iter).take maxBufferedRows) 0),
        if maxBufferedRows < (row :: iter).length then [cutNotice] else []⟩ := by
  have page : firstPage (some maxRows) [] rows = (rows.take maxRows, some (row, iter)) := by
    rw [firstPageTakes (Nat.zero_le _)]
    simp [more, uncons]
  have buffer : fillBuffer [row] iter = ((row :: iter).take maxBufferedRows,
      decide (maxBufferedRows < (row :: iter).length)) :=
    fillBufferTakes (by simp [maxBufferedRows])
  have kept : ((row :: iter).take maxBufferedRows).isEmpty = false := by simp [maxBufferedRows]
  simp only [runQuery, if_pos positive, page, buffer, kept, decide_eq_true_eq, Bool.false_eq_true,
    if_false]

theorem runQuerySpec (c : Connection) (opens : Bool) (maxRows : Nat) (rows : List ρ) :
    (runQuery c opens maxRows rows).rows ++ left remaining (runQuery c opens maxRows rows).cursor =
        delivered c opens maxRows rows ∧
      (runQuery c opens maxRows rows).truncated = (runQuery c opens maxRows rows).cursor.isSome ∧
      ((runQuery c opens maxRows rows).notices = [cutNotice] ↔ isCut c opens maxRows rows) := by
  cases Nat.eq_zero_or_pos maxRows with
  | inl zero =>
    subst zero
    simp [runQueryUnlimited, delivered, isCut, left]
  | inr positive =>
    cases more : rows.drop maxRows with
    | nil =>
      have fits : rows.length ≤ maxRows := List.drop_eq_nil_iff.mp more
      have whole : rows.take (maxRows + maxBufferedRows) = rows := List.take_of_length_le (by omega)
      have uncut : ¬ maxRows + maxBufferedRows < rows.length := by omega
      simp [runQueryFits fits, delivered, isCut, left, whole, uncut]
    | cons row iter =>
      have split : rows.take maxRows ++ (row :: iter) = rows := by
        rw [← more, List.take_append_drop]
      have size : rows.length = maxRows + (row :: iter).length := by
        have drop := congrArg List.length more
        rw [List.length_drop] at drop
        simp only [List.length_cons] at drop ⊢
        omega
      rw [runQueryMore positive more]
      split
      · rename_i handle
        simp [delivered, isCut, handle, left, remaining, split]
      · rename_i none
        have cut : rows.take (maxRows + maxBufferedRows) =
            rows.take maxRows ++ (row :: iter).take maxBufferedRows := by
          rw [List.take_add, more]
        simp [delivered, isCut, none, left, remaining, cut, size, positive, Nat.pos_iff_ne_zero.mp positive]

theorem deliveredUncut {c : Connection} {opens : Bool} {maxRows : Nat} {rows : List ρ}
    (uncut : ¬ isCut c opens maxRows rows) : delivered c opens maxRows rows = rows := by
  unfold delivered
  split
  · rfl
  · rename_i buffered
    apply List.take_of_length_le
    simp only [isCut, not_and] at uncut
    simp only [not_or, Bool.not_eq_true] at buffered
    exact Nat.not_lt.mp (uncut buffered.1 (Nat.pos_of_ne_zero buffered.2))

theorem streamWhole (c : Connection) (opens : Bool) (maxRows : Nat) {rows : List ρ} {rounds : Nat}
    (enough : rows.length < rounds)
    (uncut : ¬ isCut c opens (if 0 < maxRows then maxRows else streamChunk) rows) :
    stream c opens maxRows rounds rows = (rows, none) := by
  have chunk : ∀ n ∈ List.replicate rounds (if 0 < maxRows then maxRows else streamChunk), 0 < n := by
    intro n member
    rw [(List.mem_replicate.mp member).2]
    split
    · assumption
    · simp [streamChunk]
  have pages := (runQuerySpec c opens (if 0 < maxRows then maxRows else streamChunk) rows).1
  rw [deliveredUncut uncut] at pages
  have size := congrArg List.length pages
  simp only [List.length_append] at size
  have ends := readOutEnds fetchLossless
    (runQuery c opens (if 0 < maxRows then maxRows else streamChunk) rows).cursor chunk
    (by rw [List.length_replicate]; omega)
  unfold stream
  dsimp only
  rw [ends, readOutAll fetchLossless _ chunk ends, pages]

theorem pagesAreDelivered (c : Connection) (opens : Bool) (maxRows : Nat) (rows : List ρ)
    (sizes : List Nat) (positive : ∀ n ∈ sizes, 0 < n) :
    let first := runQuery c opens maxRows rows
    let later := readOut cursorFetch first.cursor sizes
    (later.2 = none → first.rows ++ later.1 = delivered c opens maxRows rows) ∧
      (rows.length < sizes.length → later.2 = none) ∧
      first.truncated = first.cursor.isSome ∧
      (first.notices = [cutNotice] ↔ isCut c opens maxRows rows) ∧
      ∀ chunk rounds, rows.length < rounds →
        ¬ isCut c opens (if 0 < chunk then chunk else streamChunk) rows →
        stream c opens chunk rounds rows = (rows, none) := by
  obtain ⟨pages, truncated, notices⟩ := runQuerySpec c opens maxRows rows
  refine ⟨fun done => ?_, fun enough => ?_, truncated, notices,
    fun chunk rounds enough uncut => streamWhole c opens chunk enough uncut⟩
  · rw [readOutAll fetchLossless _ positive done]
    exact pages
  · apply readOutEnds fetchLossless _ positive
    have size := congrArg List.length pages
    have taken : (delivered c opens maxRows rows).length ≤ rows.length := by
      unfold delivered
      split
      · exact Nat.le_refl _
      · exact List.length_take_le' _ _
    rw [List.length_append] at size
    omega

theorem pagesOfThreeRows :
    let first := runQuery ⟨false, false⟩ true 1 ["a", "b", "c"]
    let later := readOut cursorFetch first.cursor [1, 2, 1, 1]
    first.rows ++ later.1 = ["a", "b", "c"] ∧ later.2 = none ∧
      stream ⟨false, false⟩ true 2 4 ["a", "b", "c"] = (["a", "b", "c"], none) := by
  obtain ⟨whole, ends, -, -, streamed⟩ :=
    pagesAreDelivered ⟨false, false⟩ true 1 ["a", "b", "c"] [1, 2, 1, 1] (by decide)
  exact ⟨whole (ends (by decide)), ends (by decide), streamed 2 4 (by decide) (by simp [isCut, canUseReadHandle])⟩

-- An in-memory database: page one row, then ask for all the buffer holds.
theorem bufferLosesRows :
    let rows := List.range 200002
    let first := runQuery ⟨true, false⟩ true 1 rows
    let later := readOut cursorFetch first.cursor [200000]
    later.2 = none ∧ first.rows ++ later.1 ≠ rows := by
  intro rows first later
  have size : rows.length = 200002 := List.length_range
  have pages := (runQuerySpec ⟨true, false⟩ true 1 rows).1
  have positive : ∀ n ∈ [200000], 0 < n := by decide
  obtain ⟨buffer, cursor, fits⟩ : ∃ buffer, first.cursor = some (.buffered buffer 0) ∧
      buffer.length ≤ maxBufferedRows := by
    cases more : rows.drop 1 with
    | nil =>
      have short : rows.length ≤ 1 := List.drop_eq_nil_iff.mp more
      omega
    | cons row iter =>
      refine ⟨(row :: iter).take maxBufferedRows, ?_, List.length_take_le _ _⟩
      simp only [first, runQueryMore Nat.one_pos more]
      rfl
  have ends : later.2 = none := by
    have stop : min buffer.length (0 + 200000) = buffer.length := by
      rw [maxBufferedRows] at fits
      omega
    simp [later, cursor, readOut, cursorFetch, stop]
  refine ⟨ends, fun same => ?_⟩
  rw [readOutAll fetchLossless _ positive ends] at same
  have cut := congrArg List.length (pages.symm.trans same)
  have buffered : delivered ⟨true, false⟩ true 1 rows = rows.take (1 + maxBufferedRows) := by
    simp [delivered, canUseReadHandle]
  rw [buffered, List.length_take, size] at cut
  simp [maxBufferedRows] at cut

end Delivery

end DatabaseAdmin.SqlitePaging
