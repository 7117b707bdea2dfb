import DatabaseAdmin.PagedReads

/-! How the PostgreSQL connector pages a portal. Each read asks for one row more than the page holds, and
that row waits with the cursor for the next page. -/
namespace DatabaseAdmin.PgPages
open PagedReads

variable {ρ ω : Type}

structure CursorEntry (ρ ω : Type) where
  portal : List ρ
  pending : Option ω

structure ResultChunk (ω : Type) where
  rows : List ω
  truncated : Bool

def cursorRead (portal : List ρ) (n : Nat) : List ρ × List ρ := (portal.take n, portal.drop n)

def pageOf (want : Nat) (rows : List ω) (portal : List ρ) : ResultChunk ω × Option (CursorEntry ρ ω) :=
  if want < rows.length then (⟨rows.dropLast, true⟩, some ⟨portal, rows.getLast?⟩) else (⟨rows, false⟩, none)

variable (encode : ρ → ω)

def query (maxRows : Nat) (portal : List ρ) : ResultChunk ω × Option (CursorEntry ρ ω) :=
  let want := max 1 maxRows
  let (batch, rest) := cursorRead portal (want + 1)
  pageOf want (batch.map encode) rest

def refill (want : Nat) (rows : List ω) (portal : List ρ) : List ω × List ρ :=
  if rows.length ≤ want then
    match read : portal.take (want + 1 - rows.length) with
    | [] => (rows, portal)
    | row :: batch => refill want (rows ++ (row :: batch).map encode) (portal.drop (want + 1 - rows.length))
  else (rows, portal)
termination_by portal.length
decreasing_by
  have some : portal ≠ [] := by
    rintro rfl
    simp at read
  have long := List.length_pos_of_ne_nil some
  rw [List.length_drop]
  omega

def fetchMore (entry : CursorEntry ρ ω) (n : Nat) : ResultChunk ω × Option (CursorEntry ρ ω) :=
  let want := max 1 n
  let (rows, portal) := refill encode want entry.pending.toList entry.portal
  pageOf want rows portal

def fetchPages : Option (CursorEntry ρ ω) → List Nat → List (ResultChunk ω)
  | none, _ => []
  | some _, [] => []
  | some entry, n :: sizes => (fetchMore encode entry n).1 :: fetchPages (fetchMore encode entry n).2 sizes

def pages (maxRows : Nat) (sizes : List Nat) (portal : List ρ) : List (ResultChunk ω) :=
  (query encode maxRows portal).1 :: fetchPages encode (query encode maxRows portal).2 sizes

section Paging
variable {encode}

def undelivered (encode : ρ → ω) (entry : CursorEntry ρ ω) : List ω := entry.pending.toList ++ entry.portal.map encode

theorem refillReads (want : Nat) (rows : List ω) (portal : List ρ) : refill encode want rows portal =
    (rows ++ (portal.take (want + 1 - rows.length)).map encode, portal.drop (want + 1 - rows.length)) := by
  rw [refill]
  split
  · rename_i room
    split <;> rename_i read
    · have none : portal = [] := (List.take_eq_nil_iff.mp read).resolve_left (by omega)
      simp [none]
    · have some : portal ≠ [] := by
        rintro rfl
        simp at read
      have long := List.length_pos_of_ne_nil some
      rw [← read, refillReads]
      rcases Nat.le_total portal.length (want + 1 - rows.length) with short | enough
      · simp [List.drop_eq_nil_of_le short, List.take_of_length_le short]
      · have done : want + 1 - (rows.length + (want + 1 - rows.length)) = 0 := by omega
        simp [Nat.min_eq_left enough, done]
  · rename_i full
    have none : want + 1 - rows.length = 0 := by omega
    simp [none]
termination_by portal.length
decreasing_by
  rw [List.length_drop]
  omega

structure PageOf (encode : ρ → ω) (want : Nat) (rows : List ω) (page : ResultChunk ω × Option (CursorEntry ρ ω)) : Prop where
  whole : page.1.rows ++ left (undelivered encode) page.2 = rows
  short : page.1.rows.length ≤ want
  flag : page.1.truncated = true ↔ left (undelivered encode) page.2 ≠ []
  held : page.1.truncated = page.2.isSome
  full : page.1.truncated = true → page.1.rows.length = want

theorem pageOfRows {want : Nat} {rows : List ω} {portal : List ρ} (rest : portal.map encode = rows.drop (want + 1)) :
    PageOf encode want rows (pageOf want (rows.take (want + 1)) portal) := by
  unfold pageOf
  split <;> rename_i size <;> rw [List.length_take] at size
  · have more : want < rows.length := by omega
    have held : (rows.take (want + 1)).getLast? = some rows[want] := by
      simp [List.getLast?_take, List.getElem?_eq_getElem more]
    have page : (rows.take (want + 1)).dropLast = rows.take want := by
      have counts : min (min (want + 1) rows.length - 1) (want + 1) = want := by omega
      rw [List.dropLast_eq_take, List.take_take, List.length_take, counts]
    have later : undelivered encode (⟨portal, some rows[want]⟩ : CursorEntry ρ ω) = rows.drop want := by
      rw [undelivered, rest, List.drop_eq_getElem_cons more]
      rfl
    rw [held, page]
    refine ⟨?_, List.length_take_le _ _, iff_of_true rfl ?_, rfl, fun _ => List.length_take_of_le (Nat.le_of_lt more)⟩
    · simp only [left, later, List.take_append_drop]
    · simp only [left, later, ne_eq, List.drop_eq_nil_iff]
      omega
  · have all : rows.length ≤ want := by omega
    rw [List.take_of_length_le (Nat.le_succ_of_le all)]
    exact ⟨by simp [left], all, by simp [left], rfl, fun on => by cases on⟩

theorem queryPage (maxRows : Nat) (portal : List ρ) :
    PageOf encode (max 1 maxRows) (portal.map encode) (query encode maxRows portal) := by
  have page := @pageOfRows _ _ encode (max 1 maxRows) (portal.map encode) (portal.drop (max 1 maxRows + 1)) (by rw [List.map_drop])
  rwa [← List.map_take] at page

theorem fetchPage (entry : CursorEntry ρ ω) (n : Nat) :
    PageOf encode (max 1 n) (undelivered encode entry) (fetchMore encode entry n) := by
  have held : entry.pending.toList.length ≤ max 1 n + 1 := by
    have one : entry.pending.toList.length ≤ 1 := by cases entry.pending <;> simp
    omega
  have page := @pageOfRows _ _ encode (max 1 n) (undelivered encode entry)
    (entry.portal.drop (max 1 n + 1 - entry.pending.toList.length)) (by
      rw [undelivered, List.drop_append, List.drop_eq_nil_of_le held, List.nil_append, List.map_drop])
  rw [undelivered, List.take_append, List.take_of_length_le held, ← List.map_take] at page
  simpa only [fetchMore, refillReads, undelivered] using page

def fetchRows (encode : ρ → ω) (entry : CursorEntry ρ ω) (n : Nat) : List ω × Option (CursorEntry ρ ω) :=
  ((fetchMore encode entry n).1.rows, (fetchMore encode entry n).2)

theorem fetchLossless : Lossless (fetchRows encode) (undelivered encode) where
  whole entry n _ := (fetchPage entry n).whole
  moves entry n entry' _ next empty := by
    have page := @fetchPage _ _ encode entry n
    have size := page.full (by rw [page.held, show (fetchMore encode entry n).2 = some entry' from next]; rfl)
    have none : (fetchMore encode entry n).1.rows = [] := empty
    rw [none, List.length_nil] at size
    omega

def Delivers (all : List ω) (sizes : List Nat) (read : List (ResultChunk ω)) : Prop :=
  ∀ i chunk, read[i]? = some chunk → ∃ rest, ((read.take (i + 1)).flatMap ResultChunk.rows) ++ rest = all ∧
    (chunk.truncated = true ↔ rest ≠ []) ∧ ∃ size, sizes[i]? = some size ∧ chunk.rows.length ≤ max 1 size

theorem deliversCons {all later : List ω} {n : Nat} {sizes : List Nat} {chunk : ResultChunk ω} {read : List (ResultChunk ω)}
    (whole : chunk.rows ++ later = all) (flag : chunk.truncated = true ↔ later ≠ []) (short : chunk.rows.length ≤ max 1 n)
    (tail : Delivers later sizes read) : Delivers all (n :: sizes) (chunk :: read) := by
  intro i page here
  cases i with
  | zero =>
    cases here
    exact ⟨later, by simpa using whole, flag, n, rfl, short⟩
  | succ i =>
    obtain ⟨rest, given, more, size, asked, fits⟩ := tail i page here
    exact ⟨rest, by rw [List.take_succ_cons, List.flatMap_cons, List.append_assoc, given, whole], more, size, asked, fits⟩

theorem fetchPagesDeliver (o : Option (CursorEntry ρ ω)) (sizes : List Nat) :
    Delivers (left (undelivered encode) o) sizes (fetchPages encode o sizes) := by
  induction sizes generalizing o with
  | nil => cases o <;> intro i page here <;> simp [fetchPages] at here
  | cons n sizes ih =>
    cases o with
    | none =>
      intro i page here
      simp [fetchPages] at here
    | some entry =>
      have page := @fetchPage _ _ encode entry n
      exact deliversCons page.whole page.flag page.short (ih _)

theorem pagesEnd {o : Option (CursorEntry ρ ω)} {sizes : List Nat} (some : o ≠ none)
    (done : (readOut (fetchRows encode) o sizes).2 = none) : ∃ chunk ∈ fetchPages encode o sizes, chunk.truncated = false := by
  induction sizes generalizing o with
  | nil => cases o <;> simp_all [readOut]
  | cons n sizes ih =>
    obtain ⟨entry, rfl⟩ := Option.ne_none_iff_exists'.mp some
    rw [fetchPages]
    by_cases closed : (fetchMore encode entry n).2 = none
    · have held := (@fetchPage _ _ encode entry n).held
      rw [closed] at held
      exact ⟨_, List.mem_cons_self, held⟩
    · obtain ⟨chunk, member, ends⟩ := ih closed done
      exact ⟨chunk, List.mem_cons_of_mem _ member, ends⟩

theorem pagesWhole (encode : ρ → ω) (portal : List ρ) (maxRows : Nat) (sizes : List Nat) :
    Delivers (portal.map encode) (maxRows :: sizes) (pages encode maxRows sizes portal) ∧
    ((∀ n ∈ sizes, 0 < n) → portal.length ≤ sizes.length →
      ∃ chunk ∈ pages encode maxRows sizes portal, chunk.truncated = false) := by
  have first := @queryPage _ _ encode maxRows portal
  refine ⟨deliversCons first.whole first.flag first.short (fetchPagesDeliver _ sizes), fun positive enough => ?_⟩
  by_cases closed : (query encode maxRows portal).2 = none
  · have held := first.held
    rw [closed] at held
    exact ⟨_, List.mem_cons_self, held⟩
  · have size := first.full (by rw [first.held, Option.isSome_iff_ne_none]; exact closed)
    have whole := congrArg List.length first.whole
    rw [List.length_append, List.length_map] at whole
    have fewer : (left (undelivered encode) (query encode maxRows portal).2).length < sizes.length := by omega
    obtain ⟨chunk, member, ends⟩ := pagesEnd closed (readOutEnds fetchLossless _ positive fewer)
    exact ⟨chunk, List.mem_cons_of_mem _ member, ends⟩

example : (pages id 2 [2, 2] [1, 2, 3, 4]).map (fun c => (c.rows, c.truncated)) = [([1, 2], true), ([3, 4], false)] := by
  simp [pages, query, fetchPages, fetchMore, refillReads, pageOf, cursorRead]

theorem threeRowsPaged : ∃ chunk ∈ pages id 2 [1, 1, 1] [1, 2, 3], chunk.truncated = false :=
  (pagesWhole id [1, 2, 3] 2 [1, 1, 1]).2 (by decide) (by decide)

end Paging

end DatabaseAdmin.PgPages
