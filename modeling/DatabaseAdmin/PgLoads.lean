import DatabaseAdmin.EscapedLines
import DatabaseAdmin.ImportRuns
import DatabaseAdmin.KeyedTables
import DatabaseAdmin.LoadTables

/-! The ways rows reach a PostgreSQL table: one COPY stream, a staging table that is merged chunk by
chunk, or INSERT statements over batches of rows. -/
namespace DatabaseAdmin.PgLoads
open CodeUnits BinaryText WireCells EscapedLines KeyedTables LoadTables
open ImportRuns (OnConflict)

inductive Input where
  | null
  | text (t : Text)
  | binary (bytes : List UInt8)

structure Server (β : Type) where
  read : Text → Input → Option (Option β)
  fill : Nat → Text → Option β
  rules : Rules Text β

section Cells

def copyLetter (ch : CodeUnit) : Option CodeUnit :=
  if ch = 92 then some 92
  else if ch = 9 then some 116
  else if ch = 10 then some 110
  else if ch = 13 then some 114
  else if ch = 11 then some 118
  else if ch = 12 then some 102
  else if ch = 8 then some 98
  else none

def escapeCopyText (s : Text) : Text :=
  s.flatMap fun ch => match copyLetter ch with
    | some l => [92, l]
    | none => [ch]

def pgCopyField (cell : Cell) : Text :=
  match cell with
  | .null => units "\\N"
  | .boolean value => units (if value then "t" else "f")
  | .number n => if n.finite then n.text else units "NaN"
  | .tagged .bytes v _ => units "\\\\x" ++ hexText (base64ToBytes v)
  | .tagged _ v _ => escapeCopyText v
  | .string text => escapeCopyText text

def copyUnit (l : CodeUnit) : CodeUnit :=
  if l = 98 then 8
  else if l = 102 then 12
  else if l = 110 then 10
  else if l = 114 then 13
  else if l = 116 then 9
  else if l = 118 then 11
  else l

def copySpelling : Spelling where
  letter := copyLetter
  unit := copyUnit
  marked c special := by rcases special with rfl | rfl | rfl <;> rfl
  back {c l} spelled := by
    unfold copyLetter at spelled
    split_ifs at spelled with slash tab line feed vertical form back <;> cases spelled
    · exact slash.symm
    · exact tab.symm
    · exact line.symm
    · exact feed.symm
    · exact vertical.symm
    · exact form.symm
    · exact back.symm
  bare {c l} spelled := by
    unfold copyLetter at spelled
    split_ifs at spelled <;> cases spelled <;> decide

inductive Param where
  | null
  | boolean (value : Bool)
  | number (n : JsNumber)
  | text (t : Text)
  | buffer (bytes : List UInt8)

def pgParam : Cell → Param
  | .null => .null
  | .tagged .bytes v _ => .buffer (base64ToBytes v)
  | .tagged _ v _ => .text v
  | .string text => .text text
  | .number n => .number n
  | .boolean value => .boolean value

def sent : Param → Input
  | .null => .null
  | .boolean value => .text (units (if value then "true" else "false"))
  | .number n => .text n.text
  | .text t => .text t
  | .buffer bytes => .binary bytes

def copied : Option Text → Input
  | none => .null
  | some t => .text t

def copyField (cell : Cell) : Option Text :=
  match cell with
  | .null => none
  | .boolean value => some (units (if value then "t" else "f"))
  | .number n => some (if n.finite then n.text else units "NaN")
  | .tagged .bytes v _ => some (units "\\x" ++ hexText (base64ToBytes v))
  | .tagged _ v _ => some v
  | .string text => some text

theorem hexPlain (bytes : List UInt8) : ∀ c ∈ hexText bytes, copyLetter c = none := by
  refine hexEach (fun n small => ?_) bytes
  unfold copyLetter hexUnit
  grind

theorem numberPlain {c : CodeUnit} (spelled : c ∈ numberUnits) : copyLetter c = none := by
  revert c
  decide

theorem fieldWritten (cell : { cell : Cell // Spelled cell }) : pgCopyField cell.1 = copySpelling.writeField (copyField cell.1) := by
  obtain ⟨cell, spelled⟩ := cell
  cases cell with
  | null => rfl
  | boolean value => cases value <;> rfl
  | number n =>
    cases finite : n.finite with
    | true =>
      simp only [pgCopyField, copyField, finite, if_true, Spelling.writeField]
      exact (copySpelling.escapePlain fun c member => numberPlain (spelled.2 c member)).symm
    | false =>
      simp only [pgCopyField, copyField, finite, Bool.false_eq_true, if_false]
      rfl
  | string t => rfl
  | tagged tag v of =>
    cases tag with
    | bytes =>
      have hex := copySpelling.escapePlain (hexPlain (base64ToBytes v))
      show units "\\\\x" ++ hexText (base64ToBytes v) = copySpelling.escape (units "\\x" ++ hexText (base64ToBytes v))
      rw [Spelling.escape, List.flatMap_append, ← Spelling.escape, ← Spelling.escape, hex]
      rfl
    | _ => rfl

end Cells

section Paths
variable {β : Type} [DecidableEq β] (server : Server β) (table : LoadTable)

abbrev Stored (β : Type) := List (Row Text β)

abbrev Numbered := WireRow × Nat

def readInputs (i : Nat) (inputs : List Input) : Option (Row Text β) :=
  ((table.columns.zip inputs).mapM fun (column, input) => (server.read column input).map (column, ·)).map fun (values : List (Text × Option β)) column =>
    match values.lookup column with
    | some value => value
    | none => server.fill i column

def copyLine (row : WireRow) : Text := [(9 : CodeUnit)].intercalate (row.map fun cell => pgCopyField cell.1) ++ [10]

def copyRows (rows : List Numbered) : Option (List (Row Text β)) :=
  if checkWidth table (rows.map Prod.fst) then
    let lines := copySpelling.readLines (rows.flatMap fun row => copyLine row.1)
    (lines.zip (rows.map Prod.snd)).mapM fun (fields, i) => readInputs server table i (fields.map copied)
  else none

def paramRow (row : Numbered) : Option (Row Text β) :=
  if row.1.length = table.columns.length then readInputs server table row.2 (row.1.map fun cell => sent (pgParam cell.1))
  else none

def updatable : List Text := table.columns.filter fun column => !table.keyColumns.contains column

def needsKeys : OnConflict → Bool
  | .upsert | .replace => true
  | .insert | .ignore => false

def requireKeys (mode : OnConflict) : Bool := !needsKeys mode || !table.keyColumns.isEmpty

def pgInsertAction : OnConflict → OnClash Text
  | .insert => .fail
  | .ignore => .skip
  | .upsert | .replace => upsert table.keyColumns (updatable table)

def pgInsert (mode : OnConflict) (stored rows : Stored β) : Option (Stored β) :=
  if requireKeys table mode then server.rules.statement (pgInsertAction table mode) stored rows else none

def pgMerge (mode : OnConflict) (stored rows : Stored β) : Option (Stored β) :=
  match mode with
  | .insert => server.rules.statement .fail stored rows
  | .ignore => server.rules.statement .skip stored rows
  | .upsert => server.rules.statement (upsert table.keyColumns (updatable table)) stored rows
  | .replace =>
    if table.keyColumns.all table.columns.contains then server.rules.replaceRows table.keyColumns stored rows else none

def rechunkFrom {α : Type} (n : Nat) : List α → List α → List (List α)
  | buf, [] => if buf = [] then [] else [buf]
  | buf, row :: rest => if n ≤ buf.length + 1 then (buf ++ [row]) :: rechunkFrom n [] rest else rechunkFrom n (buf ++ [row]) rest

def rechunk {α : Type} (n : Nat) (rows : List α) : List (List α) := rechunkFrom n [] rows

def pgCopy (stored : Stored β) (rows : List WireRow) : Option (Stored β) :=
  (copyRows server table rows.zipIdx).bind (server.rules.statement .fail stored)

def stagedSize (batchSize : Nat) : Nat := max batchSize 10000

def pgCopyStaged (batchSize : Nat) (mode : OnConflict) (stored : Stored β) (rows : List WireRow) : Option (Stored β) :=
  if requireKeys table mode then
    (rechunk (stagedSize batchSize) rows.zipIdx).foldlM
      (fun stored chunk => (copyRows server table chunk).bind (pgMerge server table mode stored)) stored
  else none

def loadFast (batchSize : Nat) (mode : OnConflict) (stored : Stored β) (rows : List WireRow) : Option (Stored β) :=
  if mode = .insert then pgCopy server table stored rows else pgCopyStaged server table batchSize mode stored rows

def batchRows (batchSize : Nat) : Nat := max 1 (min batchSize (65535 / max 1 table.columns.length))

def insertGroups (mode : OnConflict) (stored : Stored β) (groups : List (List Numbered)) : Option (Stored β) :=
  groups.foldlM (fun stored group => (group.mapM (paramRow server table)).bind (pgInsert server table mode stored)) stored

def pgInsertBatches (batchSize : Nat) (mode : OnConflict) (stored : Stored β) (rows : List WireRow) : Option (Stored β) :=
  insertGroups server table mode stored (rechunk (batchRows table batchSize) rows.zipIdx)

def oneByOne (mode : OnConflict) (stored : Stored β) (rows : List WireRow) : Option (Stored β) :=
  insertGroups server table mode stored (rows.zipIdx.map fun row => [row])

def Agrees (batchSize : Nat) (mode : OnConflict) (stored : Stored β) (rows : List WireRow) : Prop :=
  SameTable (loadFast server table batchSize mode stored rows) (oneByOne server table mode stored rows) ∧
    SameTable (pgInsertBatches server table batchSize mode stored rows) (oneByOne server table mode stored rows)

end Paths

section Conditions
variable {β : Type} [DecidableEq β] (server : Server β) (table : LoadTable)

def CellAlike (column : Text) : Cell → Prop
  | .boolean value => server.read column (.text (units (if value then "t" else "f"))) =
      server.read column (.text (units (if value then "true" else "false")))
  | .number n => n.finite = false → server.read column (.text (units "NaN")) = server.read column (.text n.text)
  | .tagged .bytes v _ => server.read column (.text (units "\\x" ++ hexText (base64ToBytes v))) =
      server.read column (.binary (base64ToBytes v))
  | _ => True

def CellsAlike (rows : List WireRow) : Prop := ∀ row ∈ rows, ∀ p ∈ table.columns.zip row, CellAlike server p.1 p.2.1

def readable (rows : List Numbered) : Stored β := rows.filterMap (paramRow server table)

def Ungrouped (n : Nat) (mode : OnConflict) (stored : Stored β) (rows : List WireRow) : Prop :=
  oneByOne server table mode stored rows = none ∨
    ∀ group ∈ rechunk n rows.zipIdx, Distinct (pgInsertAction table mode) (readable server table group)

def Replaced (batchSize : Nat) (stored : Stored β) (rows : List WireRow) : Prop :=
  rows = [] ∨ (∃ row ∈ rows.zipIdx, paramRow server table row = none) ∨
    server.rules.isKey table.keyColumns = true ∧ table.keyColumns.all table.columns.contains = true ∧
      Replaces server.rules table.keyColumns (updatable table) stored
        ((rechunk (stagedSize batchSize) rows.zipIdx).map (readable server table))

def Fits (batchSize : Nat) (mode : OnConflict) (stored : Stored β) (rows : List WireRow) : Prop :=
  (rows = [] → requireKeys table mode = true) ∧ Ungrouped server table (batchRows table batchSize) mode stored rows ∧
    if mode = .replace then Replaced server table batchSize stored rows
    else Ungrouped server table (stagedSize batchSize) mode stored rows

end Conditions

section Reading
variable {β : Type} [DecidableEq β] (server : Server β) (table : LoadTable)

theorem mapMAgrees {α γ : Type} {f g : α → Option γ} {xs : List α} (agree : ∀ x ∈ xs, f x = g x) : xs.mapM f = xs.mapM g := by
  induction xs with
  | nil => rfl
  | cons x xs ih =>
    rw [List.mapM_cons, List.mapM_cons, agree x List.mem_cons_self, ih fun y member => agree y (List.mem_cons_of_mem _ member)]

theorem mapMNone {α γ : Type} {f : α → Option γ} {xs : List α} {x : α} (member : x ∈ xs) (fails : f x = none) :
    xs.mapM f = none := by
  induction xs with
  | nil => contradiction
  | cons y xs ih =>
    rw [List.mapM_cons]
    rcases List.mem_cons.mp member with rfl | later
    · rw [fails]
      rfl
    · rw [ih later]
      cases f y <;> rfl

theorem mapMFilter {α γ : Type} {f : α → Option γ} {xs : List α} (each : ∀ x ∈ xs, f x ≠ none) :
    xs.mapM f = some (xs.filterMap f) := by
  induction xs with
  | nil => rfl
  | cons x xs ih =>
    obtain ⟨y, read⟩ := Option.ne_none_iff_exists'.mp (each x List.mem_cons_self)
    rw [List.mapM_cons, read, ih fun y member => each y (List.mem_cons_of_mem _ member), List.filterMap_cons, read]
    rfl

section Groups
variable {α γ σ : Type} {read : α → Option γ} (f : σ → List γ → Option σ) (stored : σ) {groups : List (List α)}

theorem groupsRead (each : ∀ x ∈ groups.flatten, read x ≠ none) :
    groups.foldlM (fun s group => (group.mapM read).bind (f s)) stored = (groups.map (List.filterMap read)).foldlM f stored := by
  induction groups generalizing stored with
  | nil => rfl
  | cons group rest ih =>
    rw [List.flatten_cons] at each
    rw [List.map_cons, List.foldlM_cons, List.foldlM_cons, mapMFilter fun x member => each x (List.mem_append_left _ member)]
    exact bind_congr fun s => ih s fun x member => each x (List.mem_append_right _ member)

theorem groupsFail {x : α} (member : x ∈ groups.flatten) (fails : read x = none) :
    groups.foldlM (fun s group => (group.mapM read).bind (f s)) stored = none := by
  induction groups generalizing stored with
  | nil => contradiction
  | cons group rest ih =>
    rw [List.flatten_cons] at member
    rw [List.foldlM_cons]
    rcases List.mem_append.mp member with here | later
    · rw [mapMNone here fails]
      rfl
    · cases (group.mapM read).bind (f stored) with
      | none => rfl
      | some after => exact ih after later

theorem rechunkFlat {n : Nat} (buf rows : List α) : (rechunkFrom n buf rows).flatten = buf ++ rows := by
  induction rows generalizing buf with
  | nil =>
    rw [rechunkFrom]
    split <;> simp_all
  | cons row rest ih =>
    rw [rechunkFrom]
    split
    · rw [List.flatten_cons, ih]
      simp
    · rw [ih]
      simp

theorem rechunkFull {n : Nat} (buf rows : List α) : ∀ group ∈ rechunkFrom n buf rows, group ≠ [] := by
  induction rows generalizing buf with
  | nil =>
    rw [rechunkFrom]
    split <;> simp_all
  | cons row rest ih =>
    rw [rechunkFrom]
    split
    · refine List.forall_mem_cons.mpr ⟨by simp, ih []⟩
    · exact ih (buf ++ [row])

end Groups

omit [DecidableEq β] in
theorem cellRead {column : Text} {cell : Cell} (alike : CellAlike server column cell) :
    server.read column (copied (copyField cell)) = server.read column (sent (pgParam cell)) := by
  cases cell with
  | null => rfl
  | string t => rfl
  | boolean value => exact alike
  | number n =>
    cases finite : n.finite with
    | true => simp [copyField, finite, copied, pgParam, sent]
    | false => simpa [copyField, finite, copied, pgParam, sent] using alike finite
  | tagged tag v of =>
    cases tag with
    | bytes => exact alike
    | _ => rfl

omit [DecidableEq β] in
theorem textsAlike {rows : List WireRow} (texts : ∀ row ∈ rows, ∀ cell ∈ row, ∃ t, cell.1 = .string t) :
    CellsAlike server table rows := by
  intro row member p inside
  obtain ⟨t, text⟩ := texts row member p.2 (List.of_mem_zip (show (p.1, p.2) ∈ _ from inside)).2
  rw [text]
  trivial

omit [DecidableEq β] in
theorem inputsRead {row : WireRow} (alike : ∀ p ∈ table.columns.zip row, CellAlike server p.1 p.2.1) (i : Nat) :
    readInputs server table i (row.map fun cell => copied (copyField cell.1)) =
      readInputs server table i (row.map fun cell => sent (pgParam cell.1)) := by
  unfold readInputs
  rw [List.zip_map_right, List.zip_map_right, List.mapM_map, List.mapM_map]
  refine congrArg (Option.map _) (mapMAgrees fun p member => ?_)
  exact congrArg (Option.map _) (cellRead server (alike p member))

theorem lineWritten (row : WireRow) : copyLine row = copySpelling.writeLine (row.map fun cell => copyField cell.1) := by
  rw [copyLine, Spelling.writeLineJoin, List.map_map]
  exact congrArg (fun fields => [(9 : CodeUnit)].intercalate fields ++ [10]) (List.map_congr_left fun cell _ => fieldWritten cell)

omit [DecidableEq β] in
theorem copyRead {rows : List Numbered} (alike : CellsAlike server table (rows.map Prod.fst)) :
    copyRows server table rows = rows.mapM (paramRow server table) := by
  by_cases wide : Wide table (rows.map Prod.fst)
  · have stream : rows.flatMap (fun row => copyLine row.1) =
        copySpelling.writeLines (rows.map fun row => row.1.map fun cell => copyField cell.1) := by
      rw [Spelling.writeLines, List.flatMap_map]
      exact congrArg (rows.flatMap ·) (funext fun row => lineWritten row.1)
    have some' : ∀ fields ∈ rows.map (fun row => row.1.map fun cell => copyField cell.1), fields ≠ [] := by
      intro fields member
      obtain ⟨row, inside, rfl⟩ := List.mem_map.mp member
      have long := List.length_pos_iff.mpr table.mapped
      refine List.length_pos_iff.mp ?_
      rw [List.length_map, wide row.1 (List.mem_map_of_mem inside)]
      exact long
    have numbered : (rows.map fun row => row.1.map fun cell => copyField cell.1).zip (rows.map Prod.snd) =
        rows.map fun row => (row.1.map fun cell => copyField cell.1, row.2) := List.zip_map'
    simp only [copyRows, wideChecked table wide, if_true]
    rw [stream, Spelling.readWritten _ _ some', numbered, List.mapM_map]
    refine mapMAgrees fun row member => ?_
    have width := wide row.1 (List.mem_map_of_mem member)
    show readInputs server table row.2 ((row.1.map fun cell => copyField cell.1).map copied) = _
    rw [paramRow, if_pos width, List.map_map]
    exact inputsRead server table (alike row.1 (List.mem_map_of_mem member)) row.2
  · have unread : ∃ row ∈ rows, paramRow server table row = none := by
      unfold Wide at wide
      push Not at wide
      obtain ⟨row, member, other⟩ := wide
      obtain ⟨numbered, inside, rfl⟩ := List.mem_map.mp member
      exact ⟨numbered, inside, if_neg other⟩
    obtain ⟨row, member, fails⟩ := unread
    rw [copyRows, unwide table wide, mapMNone member fails]
    rfl

end Reading

section Agreement
variable {β : Type} [DecidableEq β] (server : Server β) (table : LoadTable) {mode : OnConflict} {stored : Stored β}

theorem insertRead {groups : List (List Numbered)} (keys : requireKeys table mode = true)
    (each : ∀ row ∈ groups.flatten, paramRow server table row ≠ none) :
    insertGroups server table mode stored groups =
      (groups.map (readable server table)).foldlM (server.rules.statement (pgInsertAction table mode)) stored := by
  have sent : pgInsert server table mode = server.rules.statement (pgInsertAction table mode) := by
    funext stored rows
    rw [pgInsert, if_pos keys]
  rw [insertGroups, groupsRead (pgInsert server table mode) stored each, sent]
  rfl

theorem insertKeyless {groups : List (List Numbered)} (keys : requireKeys table mode = false) (some' : groups ≠ []) :
    insertGroups server table mode stored groups = none := by
  cases groups with
  | nil => contradiction
  | cons group rest =>
    rw [insertGroups, List.foldlM_cons]
    cases group.mapM (paramRow server table) with
    | none => rfl
    | some rows =>
      rw [Option.bind_some, pgInsert, keys, if_neg Bool.false_ne_true]
      rfl

theorem singles (rows : List WireRow) : (rows.zipIdx.map fun row => [row]).flatten = rows.zipIdx := by
  rw [← List.flatMap_def]
  exact List.flatMap_singleton' _

omit [DecidableEq β] in
theorem readableFlat (groups : List (List Numbered)) :
    (groups.map (readable server table)).flatten = readable server table groups.flatten :=
  List.filterMap_flatten.symm

theorem oneByOneRead {rows : List WireRow} (keys : requireKeys table mode = true)
    (each : ∀ row ∈ rows.zipIdx, paramRow server table row ≠ none) :
    oneByOne server table mode stored rows =
      (readable server table rows.zipIdx).foldlM (server.rules.place (pgInsertAction table mode)) stored := by
  have lone : ∀ group ∈ (rows.zipIdx.map fun row => [row]).map (readable server table), Distinct (pgInsertAction table mode) group := by
    intro group member
    rw [List.map_map] at member
    obtain ⟨row, -, rfl⟩ := List.mem_map.mp member
    show Distinct _ ([row].filterMap _)
    unfold Distinct
    split
    · cases read : paramRow server table row <;> simp [read]
    · trivial
  rw [oneByOne, insertRead server table keys (by rwa [singles]), batchesEach _ _ _ lone, readableFlat, singles]

variable (mode stored) in
theorem oneByOneFails {rows : List WireRow} {row : Numbered} (member : row ∈ rows.zipIdx) (fails : paramRow server table row = none) :
    oneByOne server table mode stored rows = none :=
  groupsFail (pgInsert server table mode) stored (by rwa [singles]) fails

theorem groupsSame {rows : List WireRow} {groups : List (List Numbered)} (flat : groups.flatten = rows.zipIdx)
    (full : requireKeys table mode = true ∨ ∀ group ∈ groups, group ≠ []) :
    SameTable (insertGroups server table mode stored groups) (oneByOne server table mode stored rows) ↔
      oneByOne server table mode stored rows = none ∨
        ∀ group ∈ groups, Distinct (pgInsertAction table mode) (readable server table group) := by
  cases keys : requireKeys table mode with
  | false =>
    rcases full with contra | full
    · rw [keys] at contra
      contradiction
    cases rows with
    | nil =>
      have empty : groups = [] := List.eq_nil_iff_forall_not_mem.mpr fun group member =>
        full group member (List.flatten_eq_nil_iff.mp flat group member)
      simp only [empty, List.not_mem_nil, false_implies, implies_true, or_true, iff_true]
      exact sameRefl _
    | cons row rest =>
      have some' : groups ≠ [] := by
        rintro rfl
        simp at flat
      have alone : oneByOne server table mode stored (row :: rest) = none := insertKeyless server table keys (by simp)
      simp only [insertKeyless server table keys some', alone, true_or, iff_true]
      exact .none
  | true =>
    by_cases each : ∀ row ∈ rows.zipIdx, paramRow server table row ≠ none
    · rw [insertRead server table keys (by rwa [flat]), oneByOneRead server table keys each, ← flat, ← readableFlat, batchesSame]
      simp
    · push Not at each
      obtain ⟨row, member, fails⟩ := each
      have alone := oneByOneFails server table mode stored member fails
      have grouped : insertGroups server table mode stored groups = none :=
        groupsFail (pgInsert server table mode) stored (flat ▸ member) fails
      simp only [alone, grouped, true_or, iff_true]
      exact .none

theorem ungroupedIff (n : Nat) (rows : List WireRow) :
    SameTable (insertGroups server table mode stored (rechunk n rows.zipIdx)) (oneByOne server table mode stored rows) ↔
      Ungrouped server table n mode stored rows :=
  groupsSame server table (rechunkFlat [] rows.zipIdx) (.inr (rechunkFull [] rows.zipIdx))

variable (mode stored) {rows : List WireRow} (alike : CellsAlike server table rows)
include alike

omit [DecidableEq β] in
theorem copyGroups {groups : List (List Numbered)} (flat : groups.flatten = rows.zipIdx) (f : Stored β → Stored β → Option (Stored β)) :
    groups.foldlM (fun stored chunk => (copyRows server table chunk).bind (f stored)) stored =
      groups.foldlM (fun stored chunk => (chunk.mapM (paramRow server table)).bind (f stored)) stored := by
  have each : ∀ chunk ∈ groups, copyRows server table chunk = chunk.mapM (paramRow server table) := by
    intro chunk member
    refine copyRead server table fun row inside => alike row ?_
    obtain ⟨numbered, within, rfl⟩ := List.mem_map.mp inside
    exact List.fst_mem_of_mem_zipIdx (flat ▸ List.mem_flatten_of_mem member within)
  clear flat
  induction groups generalizing stored with
  | nil => rfl
  | cons chunk rest ih =>
    rw [List.foldlM_cons, List.foldlM_cons, each chunk List.mem_cons_self]
    exact bind_congr fun s => ih s fun later member => each later (List.mem_cons_of_mem _ member)

omit alike in
theorem keylessFails (keys : requireKeys table mode = false) :
    oneByOne server table mode stored rows = none ↔ rows ≠ [] := by
  cases rows with
  | nil => simp [oneByOne, insertGroups]
  | cons row rest =>
    simp only [ne_eq, reduceCtorEq, not_false_eq_true, iff_true]
    exact insertKeyless server table keys (by simp)

theorem fastSame (batchSize : Nat) (other : mode ≠ .replace) :
    SameTable (loadFast server table batchSize mode stored rows) (oneByOne server table mode stored rows) ↔
      (rows = [] → requireKeys table mode = true) ∧ Ungrouped server table (stagedSize batchSize) mode stored rows := by
  by_cases copy : mode = .insert
  · subst copy
    have whole : loadFast server table batchSize .insert stored rows = insertGroups server table .insert stored [rows.zipIdx] := by
      rw [loadFast, if_pos rfl, pgCopy, @copyRead β server table rows.zipIdx (by rwa [List.zipIdx_map_fst])]
      show _ = ((rows.zipIdx.mapM (paramRow server table)).bind (pgInsert server table .insert stored)).bind some
      rw [Option.bind_fun_some]
      rfl
    rw [whole, groupsSame server table (by simp) (.inl rfl)]
    simp [Ungrouped, pgInsertAction, Distinct, requireKeys, needsKeys]
  · rw [loadFast, if_neg copy, pgCopyStaged]
    cases keys : requireKeys table mode with
    | false =>
      rw [if_neg Bool.false_ne_true, sameNone, keylessFails server table mode stored keys]
      simp only [Bool.false_eq_true, imp_false, Ungrouped]
      exact ⟨fun some' => ⟨some', .inl ((keylessFails server table mode stored keys).mpr some')⟩, fun both => both.1⟩
    | true =>
      have merged : pgMerge server table mode = pgInsert server table mode := by
        funext stored rows
        rw [pgInsert, if_pos keys]
        cases mode <;> first | rfl | contradiction
      have flat : (rechunk (stagedSize batchSize) rows.zipIdx).flatten = rows.zipIdx := rechunkFlat [] rows.zipIdx
      rw [if_pos rfl, copyGroups server table stored alike flat, merged]
      simp only [implies_true, true_and]
      exact ungroupedIff server table (stagedSize batchSize) rows

end Agreement

section Main
variable {β : Type} [DecidableEq β] (server : Server β) (table : LoadTable)

structure Target where
  rows : Stored β
  consistent : server.rules.Consistent rows

variable {rows : List WireRow} (alike : CellsAlike server table rows)
include alike

theorem replaceLoads (batchSize : Nat) (target : Target server) (keys : rows = [] → requireKeys table .replace = true)
    (fits : Replaced server table batchSize target.rows rows) :
    SameTable (loadFast server table batchSize .replace target.rows rows) (oneByOne server table .replace target.rows rows) := by
  rw [loadFast, if_neg (by decide), pgCopyStaged]
  cases known : requireKeys table .replace with
  | false =>
    have some' : rows ≠ [] := fun none' => by
      have contra := keys none'
      rw [known] at contra
      contradiction
    rw [if_neg Bool.false_ne_true, (keylessFails server table .replace target.rows known).mpr some']
    exact .none
  | true =>
    have flat : (rechunk (stagedSize batchSize) rows.zipIdx).flatten = rows.zipIdx := rechunkFlat [] rows.zipIdx
    rw [if_pos rfl, copyGroups server table target.rows alike flat]
    rcases fits with rfl | ⟨row, member, fails⟩ | ⟨unique, mapped, replaces⟩
    · exact sameRefl _
    · have alone := oneByOneFails server table .replace target.rows member fails
      rw [alone, groupsFail (pgMerge server table .replace) target.rows (flat.symm ▸ member) fails]
      exact .none
    · by_cases each : ∀ row ∈ rows.zipIdx, paramRow server table row ≠ none
      · have merged : pgMerge server table .replace = server.rules.replaceRows table.keyColumns := by
          funext stored rows
          exact if_pos mapped
        have same := replacesSame server.rules table.keyColumns (updatable table) target.rows
          ((rechunk (stagedSize batchSize) rows.zipIdx).map (readable server table)) unique target.consistent replaces
        rw [readableFlat, flat] at same
        rw [groupsRead (pgMerge server table .replace) target.rows (by rwa [flat]), merged, oneByOneRead server table known each]
        exact sameSymm same
      · push Not at each
        obtain ⟨row, member, fails⟩ := each
        have alone := oneByOneFails server table .replace target.rows member fails
        rw [alone, groupsFail (pgMerge server table .replace) target.rows (flat.symm ▸ member) fails]
        exact .none

theorem loadsAgree (batchSize : Nat) (mode : OnConflict) (target : Target server) :
    (Fits server table batchSize mode target.rows rows → Agrees server table batchSize mode target.rows rows) ∧
      (mode ≠ .replace → Agrees server table batchSize mode target.rows rows → Fits server table batchSize mode target.rows rows) := by
  constructor
  · rintro ⟨keys, batches, chunks⟩
    refine ⟨?_, (ungroupedIff server table _ rows).mpr batches⟩
    by_cases replace : mode = .replace
    · subst replace
      rw [if_pos rfl] at chunks
      exact replaceLoads server table alike batchSize target keys chunks
    · rw [if_neg replace] at chunks
      exact (fastSame server table mode target.rows alike batchSize replace).mpr ⟨keys, chunks⟩
  · rintro other ⟨fast, batched⟩
    obtain ⟨keys, chunks⟩ := (fastSame server table mode target.rows alike batchSize other).mp fast
    refine ⟨keys, (ungroupedIff server table _ rows).mp batched, ?_⟩
    rwa [if_neg other]

end Main

section Examples

def textServer : Server Text where
  read _ input := match input with
    | .null => some none
    | .text t => some (some t)
    | .binary bytes => some (some (bytes.map UInt8.toNat))
  fill _ _ := none
  rules := ⟨[[units "id"]], fun _ => true⟩

def people : LoadTable := ⟨none, units "people", [units "id", units "name"], [units "id"], [], by decide⟩

def nobody : Target textServer := ⟨[], .nil⟩

def person (id name : String) : WireRow := [⟨.string (units id), trivial⟩, ⟨.string (units name), trivial⟩]

theorem peopleLoaded : Agrees textServer people 1000 .upsert [] [person "1" "a", person "2" "b"] := by
  refine (loadsAgree textServer people (textsAlike textServer people (by simp [-Subtype.forall, person])) 1000 .upsert nobody).1 ⟨?_, .inr ?_, .inr ?_⟩
  · decide
  · decide +kernel
  · decide +kernel

theorem sameTwice : ¬∀ (β : Type) (_ : DecidableEq β) (server : Server β) (table : LoadTable) (rows : List WireRow)
    (batchSize : Nat) (mode : OnConflict) (target : Target server), Agrees server table batchSize mode target.rows rows := by
  intro agrees
  have same := (agrees Text inferInstance textServer people [person "1" "a", person "1" "b"] 1 .upsert nobody).1
  have refused : (loadFast textServer people 1 .upsert nobody.rows [person "1" "a", person "1" "b"]).isNone = true := by decide +kernel
  have taken : (oneByOne textServer people .upsert nobody.rows [person "1" "a", person "1" "b"]).isNone = false := by decide +kernel
  rw [Option.isNone_iff_eq_none] at refused
  rw [refused, sameNone] at same
  rw [same] at taken
  contradiction

end Examples

end DatabaseAdmin.PgLoads
