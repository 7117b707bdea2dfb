import DatabaseAdmin.RowEditing
import DatabaseAdmin.WireCells
import Mathlib.Data.List.Forall2

/-! The grid's buffer of pending edits: the reducer that keeps it, the changeset that is built from it, and
what the edits of a user mean. -/
namespace DatabaseAdmin.EditBuffer
open CodeUnits WireCells EditTargets Std

structure PendingInsert where
  id : String
  values : TreeMap Nat Cell

structure EditState where
  updates : TreeMap Nat (TreeMap Nat Cell)
  deletes : TreeSet Nat
  inserts : List PendingInsert

def emptyEditState : EditState := ⟨∅, ∅, []⟩

inductive EditAction where
  | setCell (row col : Nat) (value original : Cell)
  | revertCell (row col : Nat)
  | revertRow (row : Nat)
  | setInsertCell (id : String) (col : Nat) (value : Cell)
  | addInsert (id : String)
  | removeInsert (id : String)
  | setDeleted (rows : List Nat) (deleted : Bool)
  | reset

-- `NaN` alone is not equal to itself.
def cellsEqual : Cell → Cell → Bool
  | .null, .null => true
  | .string a, .string b => a == b
  | .number a, .number b => a.text == b.text && a.text != units "NaN"
  | .boolean a, .boolean b => a == b
  | .tagged t v of, .tagged t' v' of' => t == t' && v == v' && of.getD [] == of'.getD []
  | _, _ => false

def keepRow (updates : TreeMap Nat (TreeMap Nat Cell)) (row : Nat) (edits : TreeMap Nat Cell) :
    TreeMap Nat (TreeMap Nat Cell) :=
  if edits.isEmpty then updates.erase row else updates.insert row edits

def editReducer (state : EditState) : EditAction → EditState
  | .setCell row col value original =>
      let edits := state.updates[row]?.getD ∅
      let edits := if cellsEqual value original then edits.erase col else edits.insert col value
      { state with updates := keepRow state.updates row edits }
  | .revertCell row col => match state.updates[row]? with
    | none => state
    | some edits =>
        if edits.contains col then { state with updates := keepRow state.updates row (edits.erase col) } else state
  | .revertRow row => { state with updates := state.updates.erase row, deletes := state.deletes.erase row }
  | .setInsertCell id col value => { state with inserts := state.inserts.map fun ins =>
      if ins.id = id then { ins with values := ins.values.insert col value } else ins }
  | .addInsert id => { state with inserts := state.inserts ++ [⟨id, ∅⟩] }
  | .removeInsert id => { state with inserts := state.inserts.filter fun ins => ins.id ≠ id }
  | .setDeleted rows deleted =>
      let deletes := rows.foldl (fun deletes r => if deleted then deletes.insert r else deletes.erase r) state.deletes
      { state with deletes }
  | .reset => emptyEditState

section Changesets

abbrev RowKey := List (String × Option Cell)

inductive ChangeOp where
  | update (key : RowKey) (values : List (String × Cell))
  | insert (values : List (String × Cell))
  | delete (key : RowKey)

structure Changeset where
  schema : Option String
  table : String
  keyColumns : List String
  changes : List ChangeOp

structure Counts where
  updates : Nat
  inserts : Nat
  deletes : Nat

structure ChangesetDraft where
  changeset : Option Changeset
  problems : List String
  counts : Counts

def assign {α : Type} (record : List (String × α)) (name : String) (value : α) : List (String × α) :=
  if name = "__proto__" then record
  else if name ∈ record.map Prod.fst then record.map fun e => if e.1 = name then (name, value) else e
  else record ++ [(name, value)]

def assigned {α : Type} (pairs : List (String × α)) : List (String × α) :=
  pairs.foldl (fun record e => assign record e.1 e.2) []

def keyOf (rows : List Row) (ed : Editability) (rowIndex : Nat) : Option RowKey :=
  rows[rowIndex]?.map fun row => assigned ((ed.keyColumns.zip ed.keyIndexes).map fun p => (p.1, row[p.2]?))

def valuesOf (columns : List String) (edits : TreeMap Nat Cell) : List (String × Cell) :=
  assigned (edits.toList.filterMap fun e => columns[e.1]?.map fun name => (name, e.2))

def updateOf (state : EditState) (columns : List String) (rows : List Row) (ed : Editability)
    (e : Nat × TreeMap Nat Cell) : Except String (Option ChangeOp) :=
  if e.1 ∈ state.deletes then .ok none
  else match keyOf rows ed e.1 with
    | none => .error ("Row " ++ toString (e.1 + 1) ++ " is no longer loaded, so its edit was dropped.")
    | some key => match valuesOf columns e.2 with
      | [] => .ok none
      | values => .ok (some (.update key values))

def insertOf (columns : List String) (ins : PendingInsert) : Except String (Option ChangeOp) :=
  match valuesOf columns ins.values with
  | [] => .error "An added row has no values yet and was skipped."
  | values => .ok (some (.insert values))

def deleteOf (rows : List Row) (ed : Editability) (rowIndex : Nat) : Except String (Option ChangeOp) :=
  match keyOf rows ed rowIndex with
  | none => .error ("Row " ++ toString (rowIndex + 1) ++ " is no longer loaded, so its deletion was dropped.")
  | some key => .ok (some (.delete key))

def changesOf (outcomes : List (Except String (Option ChangeOp))) : List ChangeOp :=
  outcomes.filterMap fun outcome => outcome.toOption.join

def problemsOf (outcomes : List (Except String (Option ChangeOp))) : List String :=
  outcomes.filterMap fun
    | .error problem => some problem
    | .ok _ => none

def buildChangeset (state : EditState) (columns : List String) (rows : List Row) (ed : Editability) : ChangesetDraft :=
  match ed.editable, ed.table.bind truthy with
  | true, some table =>
      let updates := state.updates.toList.map (updateOf state columns rows ed)
      let inserts := state.inserts.map (insertOf columns)
      let deletes := state.deletes.toList.map (deleteOf rows ed)
      let changes := changesOf updates ++ changesOf inserts ++ changesOf deletes
      let problems := problemsOf updates ++ problemsOf inserts ++ problemsOf deletes
      let counts := ⟨(changesOf updates).length, (changesOf inserts).length, (changesOf deletes).length⟩
      if changes.isEmpty then
        ⟨none, if problems.isEmpty then ["There is nothing to apply."] else problems, counts⟩
      else ⟨some ⟨ed.schema, table, ed.keyColumns, changes⟩, problems, counts⟩
  | _, _ => ⟨none, [ed.reason.getD "This result is read-only."], ⟨0, 0, 0⟩⟩

end Changesets

section Meaning

structure Pending where
  typed : Nat → Nat → Option Cell
  struck : Nat → Bool
  added : List (String × (Nat → Option Cell))

def untouched : Pending := ⟨fun _ _ => none, fun _ => false, []⟩

def act (p : Pending) : EditAction → Pending
  | .setCell row col value _ => { p with typed := fun r c => if r = row ∧ c = col then some value else p.typed r c }
  | .revertCell row col => { p with typed := fun r c => if r = row ∧ c = col then none else p.typed r c }
  | .revertRow row => { p with
      typed := fun r c => if r = row then none else p.typed r c
      struck := fun r => if r = row then false else p.struck r }
  | .setInsertCell id col value => { p with added := p.added.map fun ins =>
      if ins.1 = id then (ins.1, fun c => if c = col then some value else ins.2 c) else ins }
  | .addInsert id => { p with added := p.added ++ [(id, fun _ => none)] }
  | .removeInsert id => { p with added := p.added.filter fun ins => ins.1 ≠ id }
  | .setDeleted rows deleted => { p with struck := fun r => if r ∈ rows then deleted else p.struck r }
  | .reset => untouched

structure Page where
  columns : List String
  rows : List Row
  verdict : Verdict
  veto : Option (Option String)
  named : columns.Nodup
  whole : ∀ row ∈ rows, row.length = columns.length
  editable : (editabilityOf columns verdict veto).editable = true

def Page.editability (page : Page) : Editability := editabilityOf page.columns page.verdict page.veto

def Page.cell (page : Page) (row col : Nat) : Option Cell := page.rows[row]?.bind fun cells => cells[col]?

def Page.differing (page : Page) (p : Pending) (row col : Nat) : Option Cell :=
  (p.typed row col).filter fun value => !(page.cell row col).any (cellsEqual value)

def Page.Within (page : Page) : EditAction → Prop
  | .setCell row col _ original => page.cell row col = some original
  | .revertCell row col => row < page.rows.length ∧ col < page.columns.length
  | .revertRow row => row < page.rows.length
  | .setInsertCell _ col _ => col < page.columns.length
  | .setDeleted rows _ => ∀ row ∈ rows, row < page.rows.length
  | .addInsert _ | .removeInsert _ | .reset => True

def Page.Plain (page : Page) : EditAction → Prop
  | .setCell _ col _ _ | .setInsertCell _ col _ => page.columns[col]? ≠ some "__proto__"
  | _ => True

def Page.Keyed (page : Page) : Prop :=
  page.editability.table ≠ some "" ∧ "__proto__" ∉ page.editability.keyColumns

def Members (page : Page) (cells : Nat → Option Cell) (values : List (String × Cell)) : Prop :=
  (values.map Prod.fst).Nodup ∧
    ∀ name value, (name, value) ∈ values ↔ ∃ col, page.columns[col]? = some name ∧ cells col = some value

def OriginalKey (page : Page) (row : Nat) (key : RowKey) : Prop :=
  (key.map Prod.fst).Nodup ∧ ∀ name member, (name, member) ∈ key ↔ name ∈ page.editability.keyColumns ∧
    ∃ col cell, page.columns[col]? = some name ∧ page.cell row col = some cell ∧ member = some cell

def RowUpdate (page : Page) (p : Pending) (row : Nat) (change : ChangeOp) : Prop :=
  ∃ key values, change = .update key values ∧ OriginalKey page row key ∧ Members page (page.differing p row) values

def RowInsert (page : Page) (cells : Nat → Option Cell) (change : ChangeOp) : Prop :=
  ∃ values, change = .insert values ∧ Members page cells values

def RowDelete (page : Page) (row : Nat) (change : ChangeOp) : Prop := ∃ key, change = .delete key ∧ OriginalKey page row key

def hasValue (page : Page) (cells : Nat → Option Cell) : Bool :=
  (List.range page.columns.length).any fun col => (cells col).isSome

def Denotes (page : Page) (p : Pending) (changes : List ChangeOp) : Prop :=
  ∃ updated removed updates inserts deletes, changes = updates ++ inserts ++ deletes ∧ (updated ++ removed).Nodup ∧
    (∀ row, row ∈ updated ↔ p.struck row = false ∧ ∃ col, (page.differing p row col).isSome) ∧
    (∀ row, row ∈ removed ↔ p.struck row = true) ∧
    List.Forall₂ (RowUpdate page p) updated updates ∧
    List.Forall₂ (RowInsert page) ((p.added.map Prod.snd).filter (hasValue page)) inserts ∧
    List.Forall₂ (RowDelete page) removed deletes

def Drafts (page : Page) (p : Pending) (draft : ChangesetDraft) : Prop :=
  Denotes page p ((draft.changeset.map Changeset.changes).getD []) ∧
    ∀ changeset, draft.changeset = some changeset → changeset.schema = page.editability.schema ∧
      some changeset.table = page.editability.table ∧ changeset.keyColumns = page.editability.keyColumns

end Meaning

section Runs
variable {page : Page} {state : EditState} {p : Pending}

def cellEdit (updates : TreeMap Nat (TreeMap Nat Cell)) (row col : Nat) : Option Cell :=
  updates[row]?.bind fun edits => edits[col]?

def Filled (updates : TreeMap Nat (TreeMap Nat Cell)) : Prop :=
  ∀ (row : Nat) (edits : TreeMap Nat Cell), updates[row]? = some edits → edits.isEmpty = false

structure Holds (page : Page) (state : EditState) (p : Pending) : Prop where
  cells : ∀ row col, cellEdit state.updates row col = page.differing p row col
  filled : Filled state.updates
  struck : ∀ row, row ∈ state.deletes ↔ p.struck row = true
  added : state.inserts.map (fun ins => (ins.id, fun col => ins.values[col]?)) = p.added

def Page.Takes (page : Page) (col : Nat) : Prop := ∃ name, page.columns[col]? = some name ∧ name ≠ "__proto__"

structure Inside (page : Page) (p : Pending) : Prop where
  typed : ∀ row col value, p.typed row col = some value → row < page.rows.length ∧ page.Takes col
  struck : ∀ row, p.struck row = true → row < page.rows.length
  added : ∀ ins ∈ p.added, ∀ col value, ins.2 col = some value → page.Takes col

theorem keepRowEdit (updates : TreeMap Nat (TreeMap Nat Cell)) (row : Nat) (edits : TreeMap Nat Cell) (r c : Nat) :
    cellEdit (keepRow updates row edits) r c = if r = row then edits[c]? else cellEdit updates r c := by
  unfold keepRow cellEdit
  split <;> rename_i empty
  · rw [TreeMap.getElem?_erase]
    by_cases here : r = row
    · simp [here, TreeMap.getElem?_of_isEmpty empty]
    · simp [here, Ne.symm here]
  · rw [TreeMap.getElem?_insert]
    by_cases here : r = row
    · simp [here]
    · simp [here, Ne.symm here]

theorem keepRowFilled {updates : TreeMap Nat (TreeMap Nat Cell)} (filled : Filled updates) (row : Nat)
    (edits : TreeMap Nat Cell) : Filled (keepRow updates row edits) := by
  intro r entry found
  unfold keepRow at found
  split at found <;> rename_i empty
  · rw [TreeMap.getElem?_erase] at found
    split at found
    · contradiction
    · exact filled r entry found
  · rw [TreeMap.getElem?_insert] at found
    split at found
    · cases found
      exact eq_false_of_ne_true empty
    · exact filled r entry found

theorem cellErase (edits : TreeMap Nat Cell) (col c : Nat) : (edits.erase col)[c]? = if c = col then none else edits[c]? := by
  rw [TreeMap.getElem?_erase]
  by_cases here : c = col
  · simp [here]
  · simp [here, Ne.symm here]

theorem cellInsert (edits : TreeMap Nat Cell) (col : Nat) (value : Cell) (c : Nat) :
    (edits.insert col value)[c]? = if c = col then some value else edits[c]? := by
  rw [TreeMap.getElem?_insert]
  by_cases here : c = col
  · simp [here]
  · simp [here, Ne.symm here]

theorem rowErase (updates : TreeMap Nat (TreeMap Nat Cell)) (row r c : Nat) :
    cellEdit (updates.erase row) r c = if r = row then none else cellEdit updates r c := by
  unfold cellEdit
  rw [TreeMap.getElem?_erase]
  by_cases here : r = row
  · simp [here]
  · simp [here, Ne.symm here]

theorem deletedRows (rows : List Nat) (deleted : Bool) (deletes : TreeSet Nat) (row : Nat) :
    row ∈ rows.foldl (fun deletes r => if deleted then deletes.insert r else deletes.erase r) deletes ↔
      if row ∈ rows then deleted = true else row ∈ deletes := by
  induction rows generalizing deletes with
  | nil => simp
  | cons r rest ih =>
    rw [List.foldl_cons, ih]
    by_cases later : row ∈ rest
    · simp [later]
    · rw [if_neg later]
      by_cases here : row = r
      · cases deleted <;> simp [here, TreeSet.mem_insert, TreeSet.mem_erase]
      · cases deleted <;> simp [here, Ne.symm here, later, TreeSet.mem_insert, TreeSet.mem_erase]

theorem cellWithin {row col : Nat} {cell : Cell} (here : page.cell row col = some cell) :
    row < page.rows.length ∧ col < page.columns.length := by
  obtain ⟨cells, there, found⟩ := Option.bind_eq_some_iff.mp here
  have length := page.whole cells (List.mem_of_getElem? there)
  exact ⟨(List.getElem?_eq_some_iff.mp there).1, length ▸ (List.getElem?_eq_some_iff.mp found).1⟩

theorem takesColumn {col : Nat} (inside : col < page.columns.length) (plain : page.columns[col]? ≠ some "__proto__") :
    page.Takes col := by
  rw [List.getElem?_eq_getElem inside] at plain
  exact ⟨_, List.getElem?_eq_getElem inside, fun same => plain (congrArg some same)⟩

theorem actInside {action : EditAction} (inside : Inside page p) (within : page.Within action) (plain : page.Plain action) :
    Inside page (act p action) := by
  cases action with
  | setCell row col value original =>
    refine ⟨fun r c typed found => ?_, inside.struck, inside.added⟩
    simp only [act] at found
    split at found
    · rename_i here
      have place := cellWithin within
      exact ⟨here.1 ▸ place.1, here.2 ▸ takesColumn place.2 plain⟩
    · exact inside.typed r c typed found
  | revertCell row col =>
    refine ⟨fun r c typed found => ?_, inside.struck, inside.added⟩
    simp only [act] at found
    split at found
    · contradiction
    · exact inside.typed r c typed found
  | revertRow row =>
    refine ⟨fun r c typed found => ?_, fun r found => ?_, inside.added⟩ <;> simp only [act] at found <;> split at found
    · contradiction
    · exact inside.typed r c typed found
    · contradiction
    · exact inside.struck r found
  | setInsertCell id col value =>
    refine ⟨inside.typed, inside.struck, fun ins member c v found => ?_⟩
    obtain ⟨earlier, there, same⟩ := List.mem_map.mp member
    split at same
    · subst same
      simp only at found
      split at found
      · rename_i here
        exact here ▸ takesColumn within plain
      · exact inside.added earlier there c v found
    · exact inside.added earlier there c v (same ▸ found)
  | addInsert id =>
    refine ⟨inside.typed, inside.struck, fun ins member c v found => ?_⟩
    rcases List.mem_append.mp member with there | new
    · exact inside.added ins there c v found
    · rw [List.mem_singleton.mp new] at found
      contradiction
  | removeInsert id => exact ⟨inside.typed, inside.struck, fun ins member => inside.added ins (List.mem_of_mem_filter member)⟩
  | setDeleted rows deleted =>
    refine ⟨inside.typed, fun r found => ?_, inside.added⟩
    simp only [act] at found
    split at found
    · exact within r (by assumption)
    · exact inside.struck r found
  | reset => exact ⟨nofun, nofun, nofun⟩

theorem emptyInside : Inside page untouched := ⟨nofun, nofun, nofun⟩

theorem emptyHolds : Holds page emptyEditState untouched where
  cells _ _ := by simp [emptyEditState, cellEdit, Page.differing, untouched]
  filled _ _ found := by simp [emptyEditState] at found
  struck _ := by simp [emptyEditState, untouched]
  added := rfl

theorem reducerHolds {action : EditAction} (holds : Holds page state p) (within : page.Within action) :
    Holds page (editReducer state action) (act p action) := by
  cases action with
  | setCell row col value original =>
    refine ⟨fun r c => ?_, keepRowFilled holds.filled row _, holds.struck, holds.added⟩
    have before := holds.cells r c
    have origin : page.cell row col = some original := within
    simp only [editReducer, keepRowEdit, act, Page.differing] at before ⊢
    by_cases here : r = row
    · subst here
      have entry : (state.updates[r]?.getD ∅)[c]? = cellEdit state.updates r c := by
        unfold cellEdit
        cases state.updates[r]? <;> simp
      rw [if_pos rfl]
      by_cases there : c = col
      · subst there
        cases equal : cellsEqual value original <;> simp [origin, equal, Option.filter_some]
      · cases cellsEqual value original <;> simp [cellErase, cellInsert, there, entry, before]
    · simp [here, before]
  | revertCell row col =>
    simp only [editReducer]
    split
    · rename_i none
      refine ⟨fun r c => ?_, holds.filled, holds.struck, holds.added⟩
      have before := holds.cells r c
      simp only [act, Page.differing] at before ⊢
      split
      · rename_i here
        simp [cellEdit, here.1, none]
      · exact before
    · rename_i edits found
      split
      · refine ⟨fun r c => ?_, keepRowFilled holds.filled row _, holds.struck, holds.added⟩
        have before := holds.cells r c
        simp only [keepRowEdit, act, Page.differing, cellErase] at before ⊢
        by_cases here : r = row
        · subst here
          by_cases there : c = col
          · simp [there]
          · simpa [there, cellEdit, found] using before
        · simpa [here] using before
      · rename_i absent
        refine ⟨fun r c => ?_, holds.filled, holds.struck, holds.added⟩
        have before := holds.cells r c
        simp only [act, Page.differing] at before ⊢
        split
        · rename_i here
          obtain ⟨rfl, rfl⟩ := here
          simpa [cellEdit, found] using absent
        · exact before
  | revertRow row =>
    refine ⟨fun r c => ?_, fun r edits found => ?_, fun r => ?_, holds.added⟩
    · have before := holds.cells r c
      simp only [editReducer, rowErase, act, Page.differing] at before ⊢
      by_cases here : r = row
      · simp [here]
      · simpa [here] using before
    · simp only [editReducer, TreeMap.getElem?_erase] at found
      split at found
      · contradiction
      · exact holds.filled r edits found
    · simp only [editReducer, act, TreeSet.mem_erase, holds.struck]
      by_cases here : r = row
      · simp [here]
      · simp [here, Ne.symm here]
  | setInsertCell id col value =>
    refine ⟨holds.cells, holds.filled, holds.struck, ?_⟩
    simp only [editReducer, act, ← holds.added, List.map_map]
    refine List.map_congr_left fun ins _ => ?_
    by_cases here : ins.id = id
    · simp [here, cellInsert]
    · simp [here]
  | addInsert id =>
    refine ⟨holds.cells, holds.filled, holds.struck, ?_⟩
    simp [editReducer, act, ← holds.added]
  | removeInsert id =>
    refine ⟨holds.cells, holds.filled, holds.struck, ?_⟩
    simp only [editReducer, act, ← holds.added, List.filter_map]
    rfl
  | setDeleted rows deleted =>
    refine ⟨holds.cells, holds.filled, fun r => ?_, holds.added⟩
    simp only [editReducer, act, deletedRows, holds.struck]
    split <;> rfl
  | reset => exact emptyHolds

theorem runHolds {actions : List EditAction} (within : ∀ action ∈ actions, page.Within action)
    (holds : Holds page state p) : Holds page (actions.foldl editReducer state) (actions.foldl act p) := by
  induction actions generalizing state p with
  | nil => exact holds
  | cons action rest ih =>
    exact ih (fun a member => within a (List.mem_cons_of_mem _ member)) (reducerHolds holds (within action List.mem_cons_self))

theorem runInside {actions : List EditAction} (within : ∀ action ∈ actions, page.Within action)
    (plain : ∀ action ∈ actions, page.Plain action) (inside : Inside page p) : Inside page (actions.foldl act p) := by
  induction actions generalizing p with
  | nil => exact inside
  | cons action rest ih =>
    exact ih (fun a member => within a (List.mem_cons_of_mem _ member)) (fun a member => plain a (List.mem_cons_of_mem _ member))
      (actInside inside (within action List.mem_cons_self) (plain action List.mem_cons_self))

end Runs

section Assembly
variable {page : Page} {state : EditState} {p : Pending}

theorem assignedConcat {α : Type} (pairs : List (String × α)) (e : String × α) :
    assigned (pairs ++ [e]) = assign (assigned pairs) e.1 e.2 := by
  rw [assigned, List.foldl_append]
  rfl

theorem assignedMembers {α : Type} {pairs : List (String × α)} (plain : ∀ e ∈ pairs, e.1 ≠ "__proto__")
    (agree : ∀ e ∈ pairs, ∀ f ∈ pairs, e.1 = f.1 → e = f) :
    ((assigned pairs).map Prod.fst).Nodup ∧ ∀ e, e ∈ assigned pairs ↔ e ∈ pairs := by
  induction pairs using List.reverseRecOn with
  | nil => simp [assigned]
  | append_singleton pairs last ih =>
    obtain ⟨apart, same⟩ := ih (fun e member => plain e (List.mem_append_left _ member))
      (fun e member f other => agree e (List.mem_append_left _ member) f (List.mem_append_left _ other))
    rw [assignedConcat, assign, if_neg (plain last (by simp))]
    split
    · -- The member is there already, and with this value.
      rename_i there
      obtain ⟨old, member, name⟩ := List.mem_map.mp there
      have known := (same old).mp member
      have unchanged : (assigned pairs).map (fun e => if e.1 = last.1 then (last.1, last.2) else e) = assigned pairs := by
        refine (List.map_congr_left fun e here => ?_).trans (List.map_id _)
        split
        · rename_i alike
          exact (agree e (by simp [(same e).mp here]) last (by simp) alike).symm
        · rfl
      have again : last ∈ pairs := agree old (by simp [known]) last (by simp) name ▸ known
      rw [unchanged]
      refine ⟨apart, fun e => (same e).trans ⟨List.mem_append_left _, fun member => ?_⟩⟩
      rcases List.mem_append.mp member with earlier | new
      · exact earlier
      · exact List.mem_singleton.mp new ▸ again
    · rename_i fresh
      refine ⟨?_, fun e => by simp [same]⟩
      rw [List.map_append]
      refine List.nodup_append.mpr ⟨apart, by simp, fun name there other here same => fresh ?_⟩
      rwa [← List.mem_singleton.mp here, ← same]

theorem valuesMembers {edits : TreeMap Nat Cell} (takes : ∀ (col : Nat) (value : Cell), edits[col]? = some value → page.Takes col) :
    Members page (fun col => edits[col]?) (valuesOf page.columns edits) := by
  have pairs : ∀ (name : String) (value : Cell), (name, value) ∈ edits.toList.filterMap (fun e => page.columns[e.1]?.map fun name => (name, e.2)) ↔
      ∃ col : Nat, page.columns[col]? = some name ∧ edits[col]? = some value := by
    intro name value
    rw [List.mem_filterMap]
    constructor
    · rintro ⟨⟨col, v⟩, member, found⟩
      obtain ⟨n, here, same⟩ := Option.map_eq_some_iff.mp found
      cases same
      exact ⟨col, here, TreeMap.mem_toList_iff_getElem?_eq_some.mp member⟩
    · rintro ⟨col, here, found⟩
      exact ⟨(col, value), TreeMap.mem_toList_iff_getElem?_eq_some.mpr found, by simp [here]⟩
  obtain ⟨apart, same⟩ := @assignedMembers _ (edits.toList.filterMap fun e => page.columns[e.1]?.map fun name => (name, e.2))
    (by
      rintro ⟨name, value⟩ member
      obtain ⟨col, here, found⟩ := (pairs name value).mp member
      obtain ⟨other, there, plain⟩ := takes col value found
      exact Option.some.inj (here.symm.trans there) ▸ plain)
    (by
      rintro ⟨name, value⟩ member ⟨name', value'⟩ member' alike
      obtain rfl : name = name' := alike
      obtain ⟨col, here, found⟩ := (pairs name value).mp member
      obtain ⟨col', here', found'⟩ := (pairs name value').mp member'
      have one : col = col' := (List.getElem?_inj (List.getElem?_eq_some_iff.mp here).1 page.named).mp (here.trans here'.symm)
      rw [one, found'] at found
      rw [Option.some.inj found])
  exact ⟨apart, fun name value => (same _).trans (pairs name value)⟩

theorem keyMembers {row : Nat} (inside : row < page.rows.length) (keyed : page.Keyed) :
    ∃ key, keyOf page.rows page.editability row = some key ∧ OriginalKey page row key := by
  obtain ⟨target, indexes, isTarget, found, grid⟩ := gridEditable page.editable
  obtain ⟨paired, all⟩ := keyIndexesPair found
  have columns : page.editability.keyColumns = target.keyColumns := congrArg Editability.keyColumns grid
  have places : page.editability.keyIndexes = indexes := congrArg Editability.keyIndexes grid
  have here := List.getElem?_eq_getElem inside
  have whole := page.whole _ (List.getElem_mem inside)
  have cells : ∀ col, page.cell row col = page.rows[row][col]? := fun col => by rw [Page.cell, here, Option.bind_some]
  have reads : ∀ q ∈ target.keyColumns.zip indexes, page.columns[q.2]? = some q.1 := by
    intro q member
    obtain ⟨column, found⟩ := List.findIdx?_eq_some_iff_getElem.mp (paired q member).2
    rw [List.getElem?_eq_getElem column, of_decide_eq_true found.1]
  have only : ∀ name i j, page.columns[i]? = some name → page.columns[j]? = some name → i = j := fun name i j first second =>
    (List.getElem?_inj (List.getElem?_eq_some_iff.mp first).1 page.named).mp (first.trans second.symm)
  have pairs : ∀ name member, (name, member) ∈ (target.keyColumns.zip indexes).map (fun q => (q.1, page.rows[row][q.2]?)) ↔
      name ∈ target.keyColumns ∧ ∃ col cell, page.columns[col]? = some name ∧ page.cell row col = some cell ∧ member = some cell := by
    intro name member
    rw [List.mem_map]
    constructor
    · rintro ⟨q, there, same⟩
      cases same
      have column := reads q there
      have room : q.2 < page.rows[row].length := whole ▸ (List.getElem?_eq_some_iff.mp column).1
      exact ⟨(paired q there).1, q.2, page.rows[row][q.2], column, by rw [cells, List.getElem?_eq_getElem room],
        List.getElem?_eq_getElem room⟩
    · rintro ⟨named, col, cell, column, held, rfl⟩
      obtain ⟨i, there⟩ := all name named
      refine ⟨(name, i), there, ?_⟩
      rw [only name i col (reads _ there) column, ← cells, held]
  obtain ⟨apart, same⟩ := @assignedMembers _ ((target.keyColumns.zip indexes).map fun q => (q.1, page.rows[row][q.2]?))
    (by
      rintro ⟨name, member⟩ there
      have named := ((pairs name member).mp there).1
      rintro rfl
      exact keyed.2 (columns ▸ named))
    (by
      rintro ⟨name, member⟩ there ⟨name', member'⟩ there' alike
      obtain rfl : name = name' := alike
      obtain ⟨-, col, cell, column, held, rfl⟩ := (pairs name member).mp there
      obtain ⟨-, col', cell', column', held', rfl⟩ := (pairs name member').mp there'
      rw [only name col col' column column', held'] at held
      rw [held])
  refine ⟨assigned ((target.keyColumns.zip indexes).map fun q => (q.1, page.rows[row][q.2]?)), ?_, apart, fun name member => ?_⟩
  · rw [keyOf, here, columns, places, Option.map_some]
  · rw [same, pairs, columns]

theorem changesForall₂ {α : Type} {f : α → Except String (Option ChangeOp)} {keep : α → Bool} {R : α → ChangeOp → Prop}
    {xs : List α} (kept : ∀ x ∈ xs, keep x = true → ∃ change, f x = .ok (some change) ∧ R x change)
    (passed : ∀ x ∈ xs, keep x = false → (f x).toOption.join = none) : List.Forall₂ R (xs.filter keep) (changesOf (xs.map f)) := by
  induction xs with
  | nil => exact .nil
  | cons x rest ih =>
    have tail := ih (fun y member => kept y (List.mem_cons_of_mem _ member)) (fun y member => passed y (List.mem_cons_of_mem _ member))
    cases here : keep x with
    | true =>
      obtain ⟨change, made, right⟩ := kept x List.mem_cons_self here
      rw [List.filter_cons_of_pos here]
      simp only [changesOf, List.map_cons, made, List.filterMap_cons]
      exact .cons right tail
    | false =>
      have none := passed x List.mem_cons_self here
      rw [List.filter_cons_of_neg (by rw [here]; decide)]
      simpa only [changesOf, List.map_cons, List.filterMap_cons, none] using tail

theorem updatesRight (holds : Holds page state p) (inside : Inside page p) (keyed : page.Keyed) :
    List.Forall₂ (fun e change => RowUpdate page p e.1 change) (state.updates.toList.filter fun e => e.1 ∉ state.deletes)
      (changesOf (state.updates.toList.map (updateOf state page.columns page.rows page.editability))) := by
  refine changesForall₂ (fun e member left => ?_) (fun e member struck => ?_)
  · have found := TreeMap.mem_toList_iff_getElem?_eq_some.mp member
    have edits : ∀ col, e.2[col]? = page.differing p e.1 col := fun col => by
      rw [← holds.cells, cellEdit, found, Option.bind_some]
    have places : ∀ (col : Nat) (value : Cell), e.2[col]? = some value → e.1 < page.rows.length ∧ page.Takes col := by
      intro col value here
      rw [edits] at here
      exact inside.typed e.1 col value (Option.filter_eq_some_iff.mp here).1
    have members := valuesMembers fun col value here => (places col value here).2
    obtain ⟨col, there⟩ := TreeMap.isEmpty_eq_false_iff_exists_mem.mp (holds.filled e.1 e.2 found)
    have here := TreeMap.getElem?_eq_some_getElem there
    obtain ⟨row, name, column, -⟩ := places col _ here
    obtain ⟨key, made, original⟩ := keyMembers row keyed
    have some := (members.2 name _).mpr ⟨col, column, here⟩
    refine ⟨.update key (valuesOf page.columns e.2), ?_, key, _, rfl, original, ?_⟩
    · rw [updateOf, if_neg (by simpa using left), made]
      cases values : valuesOf page.columns e.2 with
      | nil => simp [values] at some
      | cons first rest => rfl
    · simpa only [edits] using members
  · rw [updateOf, if_pos (by simpa using struck)]
    rfl

theorem insertsRight (holds : Holds page state p) (inside : Inside page p) :
    List.Forall₂ (RowInsert page) ((p.added.map Prod.snd).filter (hasValue page))
      (changesOf (state.inserts.map (insertOf page.columns))) := by
  rw [← holds.added, List.map_map, List.filter_map, List.forall₂_map_left_iff]
  refine changesForall₂ (fun ins member valued => ?_) (fun ins member bare => ?_)
  all_goals
    have row : (ins.id, fun col => ins.values[col]?) ∈ p.added := holds.added ▸ List.mem_map_of_mem member
    have members := valuesMembers (inside.added _ row)
  · obtain ⟨col, room, some⟩ := List.any_eq_true.mp valued
    obtain ⟨value, here⟩ := Option.isSome_iff_exists.mp some
    have column := List.getElem?_eq_getElem (List.mem_range.mp room)
    have first := (members.2 _ _).mpr ⟨col, column, here⟩
    refine ⟨.insert (valuesOf page.columns ins.values), ?_, _, rfl, members⟩
    rw [insertOf]
    cases values : valuesOf page.columns ins.values with
    | nil => simp [values] at first
    | cons head rest => rfl
  · rw [insertOf]
    cases values : valuesOf page.columns ins.values with
    | nil => rfl
    | cons head rest =>
      obtain ⟨col, column, here⟩ := (members.2 head.1 head.2).mp (by simp [values])
      have room := (List.getElem?_eq_some_iff.mp column).1
      have valued : hasValue page (fun col => ins.values[col]?) = true :=
        List.any_eq_true.mpr ⟨col, List.mem_range.mpr room, by simp only [here, Option.isSome_some]⟩
      exact absurd valued (by simpa using bare)

theorem deletesRight (holds : Holds page state p) (inside : Inside page p) (keyed : page.Keyed) :
    List.Forall₂ (RowDelete page) state.deletes.toList
      (changesOf (state.deletes.toList.map (deleteOf page.rows page.editability))) := by
  have every := @changesForall₂ _ (deleteOf page.rows page.editability) (fun _ => true) (RowDelete page) state.deletes.toList
    (fun row member _ => by
      obtain ⟨key, made, original⟩ := keyMembers (inside.struck row ((holds.struck row).mp (TreeSet.mem_toList.mp member))) keyed
      exact ⟨.delete key, by rw [deleteOf, made], key, rfl, original⟩)
    (fun _ _ => nofun)
  rwa [List.filter_true] at every

def pendingChanges (page : Page) (state : EditState) : List ChangeOp :=
  changesOf (state.updates.toList.map (updateOf state page.columns page.rows page.editability)) ++
    changesOf (state.inserts.map (insertOf page.columns)) ++
    changesOf (state.deletes.toList.map (deleteOf page.rows page.editability))

theorem draftOf {table : String} (named : page.editability.table = some table) (some : table ≠ "") :
    ∃ problems counts, buildChangeset state page.columns page.rows page.editability =
      ⟨if (pendingChanges page state).isEmpty then none
        else Option.some ⟨page.editability.schema, table, page.editability.keyColumns, pendingChanges page state⟩, problems, counts⟩ := by
  have editable : page.editability.editable = true := page.editable
  rw [buildChangeset, editable, named, Option.bind_some, truthy, if_neg some]
  cases none : (pendingChanges page state).isEmpty with
  | true => exact ⟨_, _, if_pos none⟩
  | false => exact ⟨_, _, if_neg (ne_true_of_eq_false none)⟩

theorem updatedRows (holds : Holds page state p) (row : Nat) :
    row ∈ (state.updates.toList.filter fun e => e.1 ∉ state.deletes).map Prod.fst ↔
      p.struck row = false ∧ ∃ col, (page.differing p row col).isSome := by
  have free : (row ∉ state.deletes) ↔ p.struck row = false := by rw [holds.struck, Bool.not_eq_true]
  rw [List.mem_map]
  constructor
  · rintro ⟨e, member, rfl⟩
    obtain ⟨there, kept⟩ := List.mem_filter.mp member
    have found := TreeMap.mem_toList_iff_getElem?_eq_some.mp there
    obtain ⟨col, some⟩ := TreeMap.isEmpty_eq_false_iff_exists_mem.mp (holds.filled e.1 e.2 found)
    refine ⟨free.mp (of_decide_eq_true kept), col, ?_⟩
    rw [← holds.cells, cellEdit, found, Option.bind_some, TreeMap.getElem?_eq_some_getElem some]
    rfl
  · rintro ⟨kept, col, some⟩
    rw [← holds.cells, cellEdit] at some
    obtain ⟨value, here⟩ := Option.isSome_iff_exists.mp some
    obtain ⟨edits, found, -⟩ := Option.bind_eq_some_iff.mp here
    refine ⟨(row, edits), List.mem_filter.mpr ⟨TreeMap.mem_toList_iff_getElem?_eq_some.mpr found, ?_⟩, rfl⟩
    exact decide_eq_true (free.mpr kept)

theorem changesDenote (holds : Holds page state p) (inside : Inside page p) (keyed : page.Keyed) :
    Drafts page p (buildChangeset state page.columns page.rows page.editability) := by
  obtain ⟨target, indexes, -, -, grid⟩ := gridEditable page.editable
  have table : page.editability.table = some target.table := congrArg Editability.table grid
  obtain ⟨problems, counts, draft⟩ := @draftOf page state _ table fun same => keyed.1 (by rw [table, same])
  rw [draft]
  refine ⟨?_, fun changeset made => ?_⟩
  · refine ⟨(state.updates.toList.filter fun e => e.1 ∉ state.deletes).map Prod.fst, state.deletes.toList, _, _, _, ?_, ?_, ?_, ?_,
      List.forall₂_map_left_iff.mpr (updatesRight holds inside keyed), insertsRight holds inside, deletesRight holds inside keyed⟩
    · split
      · rename_i none
        exact (List.isEmpty_iff.mp none).symm
      · rfl
    · have edited : ((state.updates.toList.filter fun e => e.1 ∉ state.deletes).map Prod.fst).Nodup :=
        (TreeMap.map_fst_toList_eq_keys ▸ TreeMap.nodup_keys : (state.updates.toList.map Prod.fst).Nodup).sublist
          (List.filter_sublist.map _)
      refine List.nodup_append.mpr ⟨edited, ?_, fun row there other here same => ?_⟩
      · exact TreeSet.distinct_toList.imp fun apart same => apart (Std.compare_eq_iff_eq.mpr same)
      · obtain ⟨e, member, rfl⟩ := List.mem_map.mp there
        have kept := of_decide_eq_true (List.mem_filter.mp member).2
        exact kept (same ▸ TreeSet.mem_toList.mp here)
    · exact updatedRows holds
    · exact fun row => TreeSet.mem_toList.trans (holds.struck row)
  · split at made
    · contradiction
    · cases made
      exact ⟨rfl, table.symm, rfl⟩

theorem editsDenoted (page : Page) (actions : List EditAction) (within : ∀ action ∈ actions, page.Within action) :
    Filled (actions.foldl editReducer emptyEditState).updates ∧
    (page.Keyed → (∀ action ∈ actions, page.Plain action) → Drafts page (actions.foldl act untouched)
      (buildChangeset (actions.foldl editReducer emptyEditState) page.columns page.rows page.editability)) := by
  have holds := runHolds within (@emptyHolds page)
  exact ⟨holds.filled, fun keyed plain => changesDenote holds (runInside within plain emptyInside) keyed⟩

def pageOf (second : String) (rows : List Row) (whole : ∀ row ∈ rows, row.length = 2) (apart : "id" ≠ second) : Page where
  columns := ["id", second]
  rows := rows
  verdict := grant ⟨none, "users", ["id"]⟩
  veto := none
  named := by simp [apart]
  whole := whole
  editable := by simp [editabilityOf, grant, keyIndexesOf, keyIndexOf, List.findIdx?_cons, Except.map]

def userPage : Page :=
  pageOf "name" [[.number ⟨units "1", true⟩, .string (units "Ada")], [.number ⟨units "2", true⟩, .null]] (by decide) (by decide)

def userEdits : List EditAction :=
  [.setCell 0 1 (.string (units "Bob")) (.string (units "Ada")), .setCell 1 1 (.boolean true) .null, .addInsert "new-1",
    .setInsertCell "new-1" 1 .null, .setDeleted [1] true]

theorem userEditsDenoted : Filled (userEdits.foldl editReducer emptyEditState).updates ∧
    Drafts userPage (userEdits.foldl act untouched)
      (buildChangeset (userEdits.foldl editReducer emptyEditState) userPage.columns userPage.rows userPage.editability) := by
  have run := editsDenoted userPage userEdits (by simp [userEdits, userPage, pageOf, Page.Within, Page.cell])
  exact ⟨run.1, run.2 ⟨by decide, by decide⟩ (by simp [userEdits, userPage, pageOf, Page.Plain])⟩

def protoPage : Page := pageOf "__proto__" [[.number ⟨units "1", true⟩, .string (units "Ada")]] (by decide) (by decide)

def protoEdit : EditAction := .setCell 0 1 (.string (units "Bob")) (.string (units "Ada"))

theorem protoEditLost : protoPage.Within protoEdit ∧ ¬ Drafts protoPage (act untouched protoEdit)
    (buildChangeset (editReducer emptyEditState protoEdit) protoPage.columns protoPage.rows protoPage.editability) := by
  refine ⟨rfl, fun drafts => ?_⟩
  obtain ⟨updated, -, updates, inserts, deletes, whole, -, edited, -, rows, -⟩ := drafts.1
  have none : updates ++ inserts ++ deletes = [] := whole.symm.trans (by decide +kernel)
  have first : 0 ∈ updated := (edited 0).mpr ⟨rfl, 1, by decide⟩
  cases rows with
  | nil => contradiction
  | cons right rest => contradiction

end Assembly

end DatabaseAdmin.EditBuffer
