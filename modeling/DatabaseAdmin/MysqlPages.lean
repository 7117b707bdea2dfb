import DatabaseAdmin.PagedReads

/-! How the MySQL connector pages a statement's result. -/
namespace DatabaseAdmin.MysqlPages
open PagedReads

variable {φ α β : Type}

inductive Answer (φ α : Type) where
  | okPacket
  | resultSet (fields : List φ) (rows : List α)

inductive Pushed (α : Type) where
  | row (values : α)
  | header

inductive Event (φ α : Type) where
  | fields (fields : Option (List φ))
  | result (pushed : Pushed α)

def Answer.events : Answer φ α → List (Event φ α)
  | .okPacket => [.fields none, .result .header]
  | .resultSet fields rows => .fields (some fields) :: rows.map (fun r => .result (.row r))

def Event.pushed : Event φ α → Option (Pushed α)
  | .fields _ => none
  | .result pushed => some pushed

structure StreamMeta (φ : Type) where
  fields : Option (List φ)
  sets : Nat
  boundary : Option Nat
  produced : Nat

def onEvent (m : StreamMeta φ) : Event φ α → StreamMeta φ
  | .result _ => { m with produced := m.produced + 1 }
  | .fields none => m
  | .fields (some fields) =>
      if m.fields.isNone then { m with sets := m.sets + 1, fields := some fields }
      else if m.boundary.isNone then { m with sets := m.sets + 1, boundary := some m.produced }
      else { m with sets := m.sets + 1 }

def metaOf (arrived : List (Event φ α)) : StreamMeta φ := arrived.foldl onEvent ⟨none, 0, none, 0⟩

structure StreamPump (α : Type) where
  pushed : List (Pushed α)
  stream : List (Pushed α)

def StreamPump.take : Nat → StreamPump α → List (Pushed α) × StreamPump α
  | 0, pump => ([], pump)
  | n + 1, ⟨row :: pushed, stream⟩ =>
      let (rows, pump) := StreamPump.take n ⟨pushed, stream⟩
      (row :: rows, pump)
  | n + 1, ⟨[], row :: stream⟩ =>
      let (rows, pump) := StreamPump.take n ⟨[], stream⟩
      (row :: rows, pump)
  | _ + 1, ⟨[], []⟩ => ([], ⟨[], []⟩)

def StreamPump.pushBack (pump : StreamPump α) (rows : List (Pushed α)) : StreamPump α :=
  { pump with pushed := rows ++ pump.pushed }

structure CursorState (φ α : Type) where
  pump : StreamPump α
  fields : List φ

structure ResultSet (φ α β : Type) where
  fields : List φ
  rows : List β
  truncated : Bool
  cursor : Option (CursorState φ α)

def query (encodeRow : List φ → Pushed α → β) (maxRows arrived : Nat) (events : List (Event φ α)) :
    ResultSet φ α β :=
  let maxRows := max 1 maxRows
  let (first, pump) := StreamPump.take (maxRows + 1) ⟨[], events.filterMap Event.pushed⟩
  let info := metaOf (events.take arrived)
  match first with
  | .header :: _ => ⟨[], [], false, none⟩
  | _ =>
      let fields := info.fields.getD []
      let available := match info.boundary with
        | some boundary => if boundary < first.length then first.take boundary else first
        | none => first
      let truncated := maxRows < available.length
      ⟨fields, (available.take maxRows).map (encodeRow fields), truncated,
        if truncated then some ⟨pump.pushBack (available.drop maxRows), fields⟩ else none⟩

def fetchMore (encodeRow : List φ → Pushed α → β) (cursor : CursorState φ α) (n : Nat) :
    List β × Option (CursorState φ α) :=
  let want := max 1 n
  let (rows, pump) := cursor.pump.take (want + 1)
  let truncated := want < rows.length
  ((rows.take want).map (encodeRow cursor.fields),
    if truncated then some { cursor with pump := pump.pushBack (rows.drop want) } else none)

section Pump

def StreamPump.unread (pump : StreamPump α) : List (Pushed α) := pump.pushed ++ pump.stream

theorem takeUnread (n : Nat) (pump : StreamPump α) :
    (pump.take n).1 = pump.unread.take n ∧ (pump.take n).2.unread = pump.unread.drop n := by
  induction n generalizing pump with
  | zero => simp [StreamPump.take]
  | succ n ih =>
    obtain ⟨pushed, stream⟩ := pump
    cases pushed with
    | cons row pushed => simpa [StreamPump.take, StreamPump.unread] using ih ⟨pushed, stream⟩
    | nil =>
      cases stream with
      | cons row stream => simpa [StreamPump.take, StreamPump.unread] using ih ⟨[], stream⟩
      | nil => simp [StreamPump.take, StreamPump.unread]

theorem pushBackUnread (pump : StreamPump α) (rows : List (Pushed α)) :
    (pump.pushBack rows).unread = rows ++ pump.unread := by
  simp [StreamPump.pushBack, StreamPump.unread]

def cursorRows (encodeRow : List φ → Pushed α → β) (cursor : CursorState φ α) : List β :=
  cursor.pump.unread.map (encodeRow cursor.fields)

theorem pageTake (l : List α) (n : Nat) : (l.take (n + 1)).take n = l.take n := by
  rw [List.take_take, Nat.min_eq_left (Nat.le_succ n)]

theorem pageRest (l : List α) (n : Nat) : (l.take (n + 1)).drop n ++ l.drop (n + 1) = l.drop n := by
  have one : l.drop (n + 1) = (l.drop n).drop 1 := by rw [List.drop_drop]
  rw [one, List.drop_take, Nat.add_sub_cancel_left, List.take_append_drop]

theorem fetchLossless (encodeRow : List φ → Pushed α → β) :
    Lossless (fetchMore encodeRow) (cursorRows encodeRow) := by
  refine ⟨fun cursor n positive => ?_, fun cursor n next positive more => ?_⟩
  · obtain ⟨rows, pump⟩ := takeUnread (n + 1) cursor.pump
    have want : max 1 n = n := by omega
    simp only [fetchMore, want, rows, pageTake]
    split
    · simp only [left, cursorRows, pushBackUnread, pump, pageRest, ← List.map_append,
        List.take_append_drop]
    · rename_i all
      have short : cursor.pump.unread.length ≤ n := by
        simp only [List.length_take] at all
        omega
      simp [left, cursorRows, List.take_of_length_le short]
  · obtain ⟨rows, -⟩ := takeUnread (n + 1) cursor.pump
    have want : max 1 n = n := by omega
    simp only [fetchMore, want, rows, pageTake] at more ⊢
    split at more
    · rename_i long
      apply List.ne_nil_of_length_pos
      simp only [List.length_take, List.length_map] at long ⊢
      omega
    · contradiction

end Pump

section Boundary

theorem boundaryKeeps {m : StreamMeta φ} {b : Nat} (set : m.boundary = some b)
    (arrived : List (Event φ α)) : (arrived.foldl onEvent m).boundary = some b := by
  induction arrived generalizing m with
  | nil => exact set
  | cons event arrived ih =>
    apply ih
    cases event with
    | result => exact set
    | fields fields =>
      cases fields with
      | none => exact set
      | some => cases known : m.fields <;> simp [onEvent, known, set]

theorem fieldsKeep {m : StreamMeta φ} {fields : List φ} (set : m.fields = some fields)
    (arrived : List (Event φ α)) : (arrived.foldl onEvent m).fields = some fields := by
  induction arrived generalizing m with
  | nil => exact set
  | cons event arrived ih =>
    apply ih
    cases event with
    | result => exact set
    | fields more =>
      cases more with
      | none => exact set
      | some => cases known : m.boundary <;> simp [onEvent, known, set]

theorem boundaryLate {m : StreamMeta φ} {arrived : List (Event φ α)} {b : Nat}
    (unset : m.boundary = none) (set : (arrived.foldl onEvent m).boundary = some b) :
    m.produced ≤ b := by
  induction arrived generalizing m with
  | nil =>
    rw [List.foldl_nil, unset] at set
    contradiction
  | cons event arrived ih =>
    rw [List.foldl_cons] at set
    cases event with
    | result =>
      have later : m.produced + 1 ≤ b := ih (m := { m with produced := m.produced + 1 }) unset set
      omega
    | fields fields =>
      cases fields with
      | none => exact ih unset set
      | some fields =>
        cases known : m.fields with
        | none =>
          have here : onEvent m (Event.fields (α := α) (some fields)) =
              { m with sets := m.sets + 1, fields := some fields } := by simp [onEvent, known]
          rw [here] at set
          exact ih (m := { m with sets := m.sets + 1, fields := some fields }) unset set
        | some =>
          have here : (onEvent m (Event.fields (α := α) (some fields))).boundary = some m.produced := by
            simp [onEvent, known, unset]
          rw [boundaryKeeps here] at set
          exact Nat.le_of_eq (Option.some.inj set)

theorem rowsCount (m : StreamMeta φ) (rows : List α) :
    (rows.map (fun r => Event.result (φ := φ) (.row r))).foldl onEvent m =
      { m with produced := m.produced + rows.length } := by
  induction rows generalizing m with
  | nil => rfl
  | cons row rows ih =>
    simp only [List.map_cons, List.foldl_cons, ih, onEvent, List.length_cons]
    congr 1
    omega

theorem metaFirst (fields : List φ) (rows : List α) (later : List (Event φ α)) {arrived : Nat}
    (announced : 0 < arrived) :
    metaOf ((Event.fields (some fields) :: rows.map (fun r => Event.result (.row r)) ++ later).take
        arrived) =
      (later.take (arrived - 1 - rows.length)).foldl onEvent
        ⟨some fields, 1, none, min (arrived - 1) rows.length⟩ := by
  obtain ⟨k, rfl⟩ := Nat.exists_eq_succ_of_ne_zero (Nat.pos_iff_ne_zero.mp announced)
  have counted := rowsCount (⟨some fields, 1, none, 0⟩ : StreamMeta φ) (rows.take k)
  rw [List.map_take] at counted
  simp only [metaOf, List.cons_append, List.take_succ_cons, List.foldl_cons, List.take_append,
    List.foldl_append, List.length_map, Nat.succ_eq_add_one, Nat.add_sub_cancel]
  have first : onEvent ⟨none, 0, none, 0⟩ (Event.fields (α := α) (some fields)) =
      ⟨some fields, 1, none, 0⟩ := rfl
  rw [first, counted]
  simp

end Boundary

section Delivery

def Answer.pushes : Answer φ α → List (Pushed α)
  | .okPacket => [.header]
  | .resultSet _ rows => rows.map .row

def eventsOf (answers : List (Answer φ α)) : List (Event φ α) := answers.flatMap Answer.events

def pushesOf (answers : List (Answer φ α)) : List (Pushed α) := answers.flatMap Answer.pushes

theorem eventsPush (answers : List (Answer φ α)) :
    (eventsOf answers).filterMap Event.pushed = pushesOf answers := by
  induction answers with
  | nil => rfl
  | cons answer later ih =>
    simp only [eventsOf, pushesOf, List.flatMap_cons, List.filterMap_append] at ih ⊢
    rw [ih]
    cases answer with
    | okPacket => rfl
    | resultSet fields rows =>
      rw [Answer.events, Answer.pushes, List.filterMap_cons_none rfl, List.filterMap_map]
      exact List.filterMap_eq_map.symm ▸ rfl

def HasArrived (events : List (Event φ α)) (wanted arrived : Nat) : Prop :=
  wanted ≤ ((events.take arrived).filterMap Event.pushed).length ∨ events.length ≤ arrived

def total (encodeRow : List φ → Pushed α → β) (q : ResultSet φ α β) : List β :=
  q.rows ++ left (cursorRows encodeRow) q.cursor

theorem queryHeader {encodeRow : List φ → Pushed α → β} {maxRows arrived : Nat}
    {events : List (Event φ α)} {rest : List (Pushed α)}
    (header : events.filterMap Event.pushed = .header :: rest) :
    total encodeRow (query encodeRow maxRows arrived events) = [] := by
  obtain ⟨rows, -⟩ := takeUnread (max 1 maxRows + 1) (⟨[], events.filterMap Event.pushed⟩ : StreamPump α)
  simp only [StreamPump.unread, List.nil_append, header, List.take_succ_cons] at rows
  unfold query
  simp only [header, rows]
  rfl

theorem pageTotal (encodeRow : List φ → Pushed α → β) (fields : List φ) (m : Nat)
    (available : List (Pushed α)) (pump : StreamPump α) :
    (available.take m).map (encodeRow fields) ++ left (cursorRows encodeRow)
        (if m < available.length then some ⟨pump.pushBack (available.drop m), fields⟩ else none) =
      (if m < available.length then available ++ pump.unread else available).map (encodeRow fields) := by
  split
  · simp only [left, cursorRows, pushBackUnread, ← List.map_append, ← List.append_assoc,
      List.take_append_drop]
  · rename_i short
    simp [left, List.take_of_length_le (Nat.not_lt.mp short)]

theorem pageWhole (l : List α) (m : Nat) :
    (if m < (l.take (m + 1)).length then l.take (m + 1) ++ l.drop (m + 1) else l.take (m + 1)) = l := by
  split
  · exact List.take_append_drop _ _
  · rename_i short
    apply List.take_of_length_le
    simp only [List.length_take] at short
    omega

def cutAt (m : Nat) (pushes : List (Pushed α)) : Option Nat → List (Pushed α)
  | some b => if b < (pushes.take (m + 1)).length then pushes.take b else pushes
  | none => pushes

theorem queryTotal {encodeRow : List φ → Pushed α → β} {maxRows arrived : Nat}
    {events : List (Event φ α)} (notHeader : ∀ rest, events.filterMap Event.pushed ≠ .header :: rest) :
    total encodeRow (query encodeRow maxRows arrived events) =
      (cutAt (max 1 maxRows) (events.filterMap Event.pushed) (metaOf (events.take arrived)).boundary).map
        (encodeRow ((metaOf (events.take arrived)).fields.getD [])) := by
  obtain ⟨rows, pump⟩ := takeUnread (max 1 maxRows + 1) (⟨[], events.filterMap Event.pushed⟩ : StreamPump α)
  simp only [StreamPump.unread, List.nil_append] at rows pump
  unfold query
  dsimp only
  split
  · rename_i header
    rw [rows] at header
    cases pushes : events.filterMap Event.pushed with
    | nil => simp [pushes] at header
    | cons first rest =>
      simp only [pushes, List.take_succ_cons, List.cons.injEq] at header
      exact absurd (header.1 ▸ pushes) (notHeader rest)
  · simp only [total]
    rw [pageTotal, rows, StreamPump.unread, pump]
    generalize events.filterMap Event.pushed = pushes
    cases (metaOf (events.take arrived)).boundary with
    | none => simp only [cutAt, pageWhole]
    | some b =>
      simp only [cutAt]
      split
      · rename_i inside
        have within : b ≤ max 1 maxRows := by
          simp only [List.length_take] at inside
          omega
        have page : (pushes.take (max 1 maxRows + 1)).take b = pushes.take b := by
          rw [List.take_take, Nat.min_eq_left (by omega)]
        have fits : ¬ max 1 maxRows < (pushes.take b).length := by
          simp only [List.length_take]
          omega
        rw [page, if_neg fits]
      · rw [pageWhole]

def firstSet : List (Answer φ α) → Option (List φ × List α)
  | [] => none
  | .okPacket :: later => firstSet later
  | .resultSet fields rows :: _ => some (fields, rows)

def firstSetRows (encodeRow : List φ → Pushed α → β) (answers : List (Answer φ α)) : List β :=
  match firstSet answers with
  | none => []
  | some (fields, rows) => rows.map (fun r => encodeRow fields (.row r))

-- What the first page and its cursor can tell apart: the first set is empty, nothing is pushed
-- after it, or it fits the page and another set's columns are announced right after it.
def FirstSetAlone (maxRows : Nat) : List (Answer φ α) → Prop
  | [] => True
  | .okPacket :: later => ∀ p ∈ firstSet later, p.2 = []
  | .resultSet _ rows :: later => rows = [] ∨ pushesOf later = [] ∨
      (rows.length ≤ max 1 maxRows ∧ ∃ fields more rest, later = .resultSet fields more :: rest)

theorem eventsOfSet (fields : List φ) (rows : List α) (later : List (Answer φ α)) :
    eventsOf (.resultSet fields rows :: later) =
      Event.fields (some fields) :: rows.map (fun r => Event.result (.row r)) ++ eventsOf later := by
  simp [eventsOf, Answer.events]

theorem arrivedAnnounced {fields : List φ} {rows : List α} {later : List (Answer φ α)}
    {wanted arrived : Nat} (positive : 0 < wanted)
    (come : HasArrived (eventsOf (.resultSet fields rows :: later)) wanted arrived) : 0 < arrived := by
  rcases Nat.eq_zero_or_pos arrived with none | some
  · subst none
    rcases come with enough | all
    · simp only [List.take_zero, List.filterMap_nil, List.length_nil] at enough
      omega
    · simp [eventsOfSet] at all
  · exact some

theorem arrivedPast {fields more : List φ} {rows next : List α} {rest : List (Answer φ α)}
    {m arrived : Nat} (fits : rows.length ≤ m)
    (come : HasArrived (eventsOf (.resultSet fields rows :: .resultSet more next :: rest)) (m + 1) arrived) :
    rows.length < arrived - 1 := by
  have announced := arrivedAnnounced (Nat.succ_pos m) come
  rw [eventsOfSet, eventsOfSet] at come
  by_contra early
  rcases come with enough | all
  · obtain ⟨k, rfl⟩ := Nat.exists_eq_succ_of_ne_zero (Nat.pos_iff_ne_zero.mp announced)
    have short : k ≤ rows.length := by omega
    have silent : Event.pushed (Event.fields (some fields) : Event φ α) = none := rfl
    have pushes := List.length_filterMap_le Event.pushed
      ((rows.map (fun r => Event.result (φ := φ) (.row r))).take k)
    simp only [List.cons_append, List.take_succ_cons, Nat.succ_eq_add_one, List.take_append,
      List.length_map, Nat.sub_eq_zero_of_le short, List.take_zero, List.append_nil,
      List.filterMap_cons_none silent] at enough
    simp only [List.length_take, List.length_map] at pushes
    omega
  · simp only [List.cons_append, List.length_cons, List.length_append, List.length_map] at all
    omega

section Known
variable {fields : List φ} {rows : List α} {later : List (Answer φ α)} {arrived : Nat}

theorem knownFields (announced : 0 < arrived) :
    (metaOf ((eventsOf (.resultSet fields rows :: later)).take arrived)).fields = some fields := by
  rw [eventsOfSet, metaFirst fields rows _ announced]
  exact fieldsKeep rfl _

theorem knownBoundary {b : Nat} (announced : 0 < arrived)
    (set : (metaOf ((eventsOf (.resultSet fields rows :: later)).take arrived)).boundary = some b) :
    rows.length ≤ b ∧ ∀ rest, later = .okPacket :: rest → rows.length + 1 ≤ b := by
  rw [eventsOfSet, metaFirst fields rows _ announced] at set
  cases past : arrived - 1 - rows.length with
  | zero => simp [past] at set
  | succ k =>
    have whole : min (arrived - 1) rows.length = rows.length := by omega
    rw [past, whole] at set
    refine ⟨boundaryLate rfl set, ?_⟩
    rintro rest rfl
    cases k with
    | zero => simp [eventsOf, Answer.events, onEvent] at set
    | succ k =>
      have counted : (((eventsOf rest).take k).foldl onEvent
          ⟨some fields, 1, none, rows.length + 1⟩).boundary = some b := by
        simpa [eventsOf, Answer.events, onEvent] using set
      exact boundaryLate rfl counted

theorem boundaryAnnounced {more : List φ} {next : List α} {rest : List (Answer φ α)}
    (past : rows.length < arrived - 1) :
    (metaOf ((eventsOf (.resultSet fields rows :: .resultSet more next :: rest)).take arrived)).boundary =
      some rows.length := by
  have announced : 0 < arrived := by omega
  obtain ⟨k, inside⟩ : ∃ k, arrived - 1 - rows.length = k + 1 := ⟨arrived - 1 - rows.length - 1, by omega⟩
  have whole : min (arrived - 1) rows.length = rows.length := by omega
  rw [eventsOfSet, metaFirst fields rows _ announced, inside, whole, eventsOfSet]
  simp only [List.cons_append, List.take_succ_cons, List.foldl_cons]
  exact boundaryKeeps rfl _

end Known

theorem pushesOfSet (fields : List φ) (rows : List α) (later : List (Answer φ α)) :
    pushesOf (.resultSet fields rows :: later) = rows.map .row ++ pushesOf later := by
  simp [pushesOf, Answer.pushes]

theorem cutFits {m : Nat} {pushes : List (Pushed α)} {o : Option Nat}
    (past : ∀ b ∈ o, pushes.length ≤ b) : cutAt m pushes o = pushes := by
  cases o with
  | none => rfl
  | some b =>
    have long := past b rfl
    have outside : ¬ b < (pushes.take (m + 1)).length := by
      simp only [List.length_take]
      omega
    simp only [cutAt, if_neg outside]

theorem cutSet {m : Nat} (rows more : List (Pushed α)) (fits : rows.length ≤ m) :
    cutAt m (rows ++ more) (some rows.length) = rows := by
  simp only [cutAt]
  split
  · simp
  · rename_i outside
    have none : more.length = 0 := by
      simp only [List.length_take, List.length_append] at outside
      omega
    rw [List.length_eq_zero_iff.mp none, List.append_nil]

theorem cutLength {m : Nat} {rows more : List (Pushed α)} {o : Option Nat} (extra : more ≠ [])
    (same : (cutAt m (rows ++ more) o).length = rows.length) : o = some rows.length ∧ rows.length ≤ m := by
  have longer := List.length_pos_of_ne_nil extra
  cases o with
  | none =>
    simp only [cutAt, List.length_append] at same
    omega
  | some b =>
    simp only [cutAt] at same
    split at same
    · rename_i inside
      simp only [List.length_take] at inside same
      have cut : b = rows.length := by omega
      exact ⟨by rw [cut], by omega⟩
    · simp only [List.length_append] at same
      omega

section OfSet
variable {encodeRow : List φ → Pushed α → β} {maxRows arrived : Nat} {fields : List φ}
  {rows : List α} {later : List (Answer φ α)}

theorem emptySetTotal
    (come : HasArrived (eventsOf (.resultSet fields ([] : List α) :: later)) (max 1 maxRows + 1) arrived) :
    total encodeRow (query encodeRow maxRows arrived (eventsOf (.resultSet fields [] :: later))) = [] := by
  have pushes : (eventsOf (.resultSet fields ([] : List α) :: later)).filterMap Event.pushed =
      pushesOf later := by
    rw [eventsPush, pushesOfSet]
    rfl
  cases later with
  | nil =>
    rw [queryTotal (by simp [pushes, pushesOf]), pushes]
    exact List.map_eq_nil_iff.mpr (cutFits (fun b _ => Nat.zero_le b))
  | cons answer rest =>
    cases answer with
    | okPacket => exact queryHeader pushes
    | resultSet more next =>
      have boundary : (metaOf ((eventsOf (.resultSet fields [] :: .resultSet more next :: rest)).take
          arrived)).boundary = some 0 := boundaryAnnounced (arrivedPast (Nat.zero_le _) come)
      cases headed : pushesOf (.resultSet more next :: rest) with
      | nil =>
        rw [queryTotal (by simp [pushes, headed]), pushes, headed, boundary]
        exact List.map_eq_nil_iff.mpr (cutFits (fun b _ => Nat.zero_le b))
      | cons first others =>
        cases first with
        | header => exact queryHeader (pushes.trans headed)
        | row r =>
          rw [queryTotal (by simp [pushes, headed]), pushes, boundary]
          exact List.map_eq_nil_iff.mpr (cutSet [] _ (Nat.zero_le _))

theorem queryOfSet
    (come : HasArrived (eventsOf (.resultSet fields rows :: later)) (max 1 maxRows + 1) arrived) :
    total encodeRow (query encodeRow maxRows arrived (eventsOf (.resultSet fields rows :: later))) =
        firstSetRows encodeRow (.resultSet fields rows :: later) ↔
      FirstSetAlone maxRows (.resultSet fields rows :: later) := by
  cases rows with
  | nil => simp [emptySetTotal come, firstSetRows, firstSet, FirstSetAlone]
  | cons r rows =>
    have announced := arrivedAnnounced (Nat.succ_pos _) come
    have pushes := pushesOfSet fields (r :: rows) later
    have notHeader : ∀ rest, (eventsOf (.resultSet fields (r :: rows) :: later)).filterMap
        Event.pushed ≠ .header :: rest := by
      intro rest
      rw [eventsPush, pushes]
      simp
    have expected : firstSetRows encodeRow (.resultSet fields (r :: rows) :: later) =
        ((r :: rows).map Pushed.row).map (encodeRow fields) := by
      simp [firstSetRows, firstSet]
    rw [queryTotal notHeader, knownFields announced, eventsPush, pushes, expected]
    have size : (r :: rows).length = ((r :: rows).map Pushed.row).length := List.length_map _ |>.symm
    constructor
    · intro same
      by_cases extra : pushesOf later = []
      · exact Or.inr (Or.inl extra)
      · have lengths := congrArg List.length same
        rw [List.length_map, List.length_map] at lengths
        obtain ⟨boundary, fits⟩ := cutLength extra lengths
        rw [← size] at boundary fits
        refine Or.inr (Or.inr ⟨fits, ?_⟩)
        cases later with
        | nil => exact absurd rfl extra
        | cons answer rest =>
          cases answer with
          | okPacket =>
            have past := (knownBoundary announced boundary).2 rest rfl
            omega
          | resultSet more next => exact ⟨more, next, rest, rfl⟩
    · rintro (empty | alone | ⟨fits, more, next, rest, rfl⟩)
      · contradiction
      · rw [alone, List.append_nil, cutFits]
        · rfl
        · intro b known
          rw [← size]
          exact (knownBoundary announced known).1
      · rw [boundaryAnnounced (arrivedPast fits come), size, cutSet _ _ (size ▸ fits)]
        rfl

end OfSet

theorem queryIsFirstSet (encodeRow : List φ → Pushed α → β) {maxRows arrived : Nat}
    {answers : List (Answer φ α)} (come : HasArrived (eventsOf answers) (max 1 maxRows + 1) arrived) :
    total encodeRow (query encodeRow maxRows arrived (eventsOf answers)) = firstSetRows encodeRow answers ↔
      FirstSetAlone maxRows answers := by
  cases answers with
  | nil =>
    rw [queryTotal (by simp [eventsOf])]
    simp only [FirstSetAlone, iff_true]
    exact List.map_eq_nil_iff.mpr (cutFits (fun b _ => Nat.zero_le b))
  | cons answer later =>
    cases answer with
    | resultSet fields rows => exact queryOfSet come
    | okPacket =>
      have header : (eventsOf (.okPacket :: later)).filterMap Event.pushed = .header :: pushesOf later := by
        rw [eventsPush]
        rfl
      rw [queryHeader header]
      cases set : firstSet later with
      | none => simp [firstSetRows, firstSet, set, FirstSetAlone]
      | some p => cases p.2 <;> simp [firstSetRows, firstSet, set, FirstSetAlone]

theorem pagesAreTheFirstSet (encodeRow : List φ → Pushed α → β) {maxRows arrived : Nat}
    {answers : List (Answer φ α)} (come : HasArrived (eventsOf answers) (max 1 maxRows + 1) arrived) :
    let first := query encodeRow maxRows arrived (eventsOf answers)
    (∃ enough, ∀ sizes : List Nat, (∀ n ∈ sizes, 0 < n) → enough < sizes.length →
        (readOut (fetchMore encodeRow) first.cursor sizes).2 = none) ∧
      ((∀ sizes : List Nat, (∀ n ∈ sizes, 0 < n) →
          (readOut (fetchMore encodeRow) first.cursor sizes).2 = none →
          first.rows ++ (readOut (fetchMore encodeRow) first.cursor sizes).1 =
            firstSetRows encodeRow answers) ↔
        FirstSetAlone maxRows answers) := by
  intro first
  have ends : ∀ sizes : List Nat, (∀ n ∈ sizes, 0 < n) →
      (left (cursorRows encodeRow) first.cursor).length < sizes.length →
      (readOut (fetchMore encodeRow) first.cursor sizes).2 = none :=
    fun sizes positive enough => readOutEnds (fetchLossless encodeRow) first.cursor positive enough
  refine ⟨⟨_, ends⟩, ?_⟩
  rw [← queryIsFirstSet encodeRow come]
  constructor
  · intro pages
    have ones : ∀ n ∈ List.replicate ((left (cursorRows encodeRow) first.cursor).length + 1) 1, 0 < n :=
      fun n member => (List.mem_replicate.mp member).2 ▸ Nat.one_pos
    have done := ends _ ones (by simp)
    have same := pages _ ones done
    rwa [readOutAll (fetchLossless encodeRow) _ ones done] at same
  · intro same sizes positive done
    rw [readOutAll (fetchLossless encodeRow) _ positive done]
    exact same

def spell (fields : List String) : Pushed String → String
  | .row values => String.intercalate "," fields ++ ":" ++ values
  | .header => String.intercalate "," fields ++ ":null"

theorem pagesOfOneSet :
    (∀ sizes : List Nat, (∀ n ∈ sizes, 0 < n) →
      (readOut (fetchMore spell) (query spell 1 9 (eventsOf [.resultSet ["a"] ["x", "y", "z"]])).cursor sizes).2 =
        none →
      (query spell 1 9 (eventsOf [.resultSet ["a"] ["x", "y", "z"]])).rows ++
          (readOut (fetchMore spell)
            (query spell 1 9 (eventsOf [.resultSet ["a"] ["x", "y", "z"]])).cursor sizes).1 =
        ["a:x", "a:y", "a:z"]) ∧
      (readOut (fetchMore spell) (query spell 1 9 (eventsOf [.resultSet ["a"] ["x", "y", "z"]])).cursor
        [1, 2]).2.isNone = true := by
  have come : HasArrived (eventsOf [.resultSet ["a"] ["x", "y", "z"]]) (max 1 1 + 1) 9 := Or.inr (by decide)
  exact ⟨(pagesAreTheFirstSet spell come).2.mpr (Or.inr (Or.inl rfl)), by decide⟩

-- CALL of a procedure with one SELECT: the OK packet at its end comes back as a row.
theorem callEndsInARow :
    let first := query spell 10 9 (eventsOf [.resultSet ["a"] ["x", "y"], .okPacket])
    first.cursor.isNone = true ∧ first.rows = ["a:x", "a:y", "a:null"] ∧
      firstSetRows spell [.resultSet ["a"] ["x", "y"], .okPacket] = ["a:x", "a:y"] := by
  decide

end Delivery

end DatabaseAdmin.MysqlPages
