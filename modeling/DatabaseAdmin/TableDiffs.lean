import DatabaseAdmin.DdlCommon
import DatabaseAdmin.NamedChanges

/-! The diff of two shapes of one table, which the designer plans its statements from. Columns are told apart by name;
a rename is guessed where nothing else fits. -/
namespace DatabaseAdmin.TableDiffs
open CodeUnits SchemaModels MigrationScripts DdlCommon
open NamedChanges (named latest)

section Signatures
variable (toLowerCase : Text → Text)

def orderWord : SortOrder → String
  | .asc => "asc"
  | .desc => "desc"

def nullsWord : NullsOrder → String
  | .first => "first"
  | .last => "last"

def actionWord : ReferentialAction → String
  | .noAction => "no action"
  | .restrict => "restrict"
  | .cascade => "cascade"
  | .setNull => "set null"
  | .setDefault => "set default"

def colon : Text := units ":"

def bar : Text := units "|"

def partSubject (c : IndexColumn) : Text := (c.name.orElse fun _ => c.expression).getD []

def partText (c : IndexColumn) : Text :=
  partSubject c ++ colon ++ units (orderWord (c.order.getD .asc)) ++ colon ++
    ((c.length.map fun n => units (toString n)).getD []) ++ colon ++ ((c.nulls.map fun n => units (nullsWord n)).getD [])

def indexSignature (idx : IndexModel) : Text :=
  bar.intercalate [if idx.unique then units "u" else [], if idx.primary then units "p" else [],
    toLowerCase (idx.method.getD []), idx.predicate.getD [], comma.intercalate (idx.columns.map partText)]

def fkSignature (fk : ForeignKeyModel) : Text :=
  bar.intercalate [comma.intercalate fk.columns, fk.refSchema.getD [], fk.refTable, comma.intercalate fk.refColumns,
    units (actionWord (fk.onUpdate.getD .noAction)), units (actionWord (fk.onDelete.getD .noAction)),
    if fk.deferrable then units "d" else []]

def checkSignature (c : CheckModel) : Text := (normalizeExpression (some c.expression)).getD []

end Signatures

section Renames
variable (toLowerCase : Text → Text)

structure ColumnRename where
  before : Text
  after : Text
  deriving DecidableEq

def renamesOf (taken : List Text) : List (ColumnModel × ColumnModel) → Option (List ColumnRename)
  | [] => some []
  | (a, b) :: rest =>
      if a.name = b.name then renamesOf taken rest
      else if columnAspects toLowerCase a b ≠ [] ∨ b.name ∈ taken then none
      else (renamesOf taken rest).map (⟨a.name, b.name⟩ :: ·)

def columnNames (t : TableModel) : List Text := (orderedColumns t).map (·.name)

def detectColumnRenames (current desired : TableModel) : List ColumnRename :=
  let before := orderedColumns current
  let after := orderedColumns desired
  if before.length ≠ after.length then []
  else (renamesOf toLowerCase (columnNames current) (before.zip after)).getD []

def finalName (renames : List ColumnRename) (c : ColumnModel) : Text :=
  ((named (·.before) renames c.name).map (·.after)).getD c.name

end Renames

section Diffs
variable (toLowerCase : Text → Text)

structure ColumnChange where
  before : ColumnModel
  after : ColumnModel
  aspects : List ColumnAspect

structure ByName (α : Type) where
  added : List α
  dropped : List α
  changed : List (α × α)

def diffByName {α : Type} (nameOf : α → Text) (signature : α → Text) (current desired : List α) : ByName α where
  added := (latest nameOf desired).filter fun item => nameOf item ∉ current.map nameOf
  dropped := (latest nameOf current).filter fun item => nameOf item ∉ desired.map nameOf
  changed := (latest nameOf desired).filterMap fun item =>
    match named nameOf current (nameOf item) with
    | some prev => if signature prev = signature item then none else some (prev, item)
    | none => none

def ByName.isEmpty {α : Type} (d : ByName α) : Bool := d.added.isEmpty && d.dropped.isEmpty && d.changed.isEmpty

inductive TableOptionAspect where
  | engine | collation | comment | partitioning
  deriving DecidableEq

def optionName : TableOptionAspect → String
  | .engine => "engine"
  | .collation => "collation"
  | .comment => "comment"
  | .partitioning => "partitioning"

structure TableDiff where
  current : Option TableModel
  desired : TableModel
  isEmpty : Bool
  renamedTable : Option (Text × Text)
  movedSchema : Option (Option Text × Option Text)
  addedColumns : List ColumnModel
  droppedColumns : List ColumnModel
  alteredColumns : List ColumnChange
  renamedColumns : List ColumnRename
  addedColumnsAtEnd : Bool
  reordered : Bool
  primaryKeyChange : Option (List Text × List Text)
  indexes : ByName IndexModel
  foreignKeys : ByName ForeignKeyModel
  checks : ByName CheckModel
  changedOptions : List TableOptionAspect
  constraintsChanged : Bool
  rebuildReasons : List Text

def createDiff (desired : TableModel) : TableDiff :=
  ⟨none, desired, false, none, none, [], [], [], [], true, false, none, ⟨[], [], []⟩, ⟨[], [], []⟩, ⟨[], [], []⟩, [], false, []⟩

section Columns
variable (current desired : TableModel)

def counterpart (name : Text) : Option ColumnModel :=
  named (finalName (detectColumnRenames toLowerCase current desired)) (orderedColumns current) name

def addedColumns : List ColumnModel :=
  (orderedColumns desired).filter fun after => (counterpart toLowerCase current desired after.name).isNone

def alteredColumns : List ColumnChange :=
  (orderedColumns desired).filterMap fun after =>
    match counterpart toLowerCase current desired after.name with
    | some before =>
        let aspects := columnAspects toLowerCase before after
        if aspects = [] then none else some ⟨before, after, aspects⟩
    | none => none

def survives (c : ColumnModel) : Bool :=
  finalName (detectColumnRenames toLowerCase current desired) c ∈ columnNames desired

def droppedColumns : List ColumnModel :=
  (orderedColumns current).filter fun c => !survives toLowerCase current desired c

def addedColumnsAtEnd : Bool :=
  let added := addedColumns toLowerCase current desired
  let desiredOrder := orderedColumns desired
  added.isEmpty || (desiredOrder.drop (desiredOrder.length - added.length)).map (·.name) = added.map (·.name)

def reordered : Bool :=
  let survivingBefore := ((orderedColumns current).filter (survives toLowerCase current desired)).map
    (finalName (detectColumnRenames toLowerCase current desired))
  let survivingAfter := (columnNames desired).filter fun n =>
    n ∉ (addedColumns toLowerCase current desired).map (·.name)
  comma.intercalate survivingBefore ≠ comma.intercalate survivingAfter

end Columns

def secondary (t : TableModel) : List IndexModel := t.indexes.filter (!·.primary)

def diffOption (aspect : TableOptionAspect) (a b : Option Text) : List TableOptionAspect :=
  if a.getD [] = b.getD [] then [] else [aspect]

def changedOptions (current desired : TableModel) : List TableOptionAspect :=
  diffOption .engine current.engine desired.engine ++ diffOption .collation current.collation desired.collation ++
    diffOption .comment current.comment desired.comment ++ diffOption .partitioning current.partitioning desired.partitioning

def keyChanged (current desired : TableModel) : Bool :=
  comma.intercalate current.primaryKey ≠ comma.intercalate desired.primaryKey

def indexDiff (current desired : TableModel) : ByName IndexModel :=
  diffByName (·.name) (indexSignature toLowerCase) (secondary current) (secondary desired)

def foreignKeyDiff (current desired : TableModel) : ByName ForeignKeyModel :=
  diffByName (·.name) fkSignature current.foreignKeys desired.foreignKeys

def checkDiff (current desired : TableModel) : ByName CheckModel :=
  diffByName (·.name) checkSignature current.checks desired.checks

def uniqueConstraintChanged (d : ByName IndexModel) : Bool :=
  (d.added ++ d.dropped ++ d.changed.map (·.2)).any fun i => i.unique && isConstraintIndex toLowerCase i

def reasonIf (p : Bool) (reason : Text) : List Text := if p then [reason] else []

def listOf (names : List Text) : Text := (units ", ").intercalate names

def rebuildReasons (current desired : TableModel) : List Text :=
  let altered := alteredColumns toLowerCase current desired
  let options := changedOptions current desired
  reasonIf (!altered.isEmpty) (units "column definition changed (" ++ listOf (altered.map (·.after.name)) ++ units ")") ++
    reasonIf (keyChanged current desired) (units "the primary key changed") ++
    reasonIf (!(foreignKeyDiff current desired).isEmpty) (units "foreign keys changed") ++
    reasonIf (!(checkDiff current desired).isEmpty) (units "check constraints changed") ++
    reasonIf (uniqueConstraintChanged toLowerCase (indexDiff toLowerCase current desired))
      (units "a UNIQUE constraint changed") ++
    reasonIf (!options.isEmpty)
      (units "table options changed (" ++ listOf (options.map fun a => units (optionName a)) ++ units ")") ++
    reasonIf (!addedColumnsAtEnd toLowerCase current desired) (units "a column was inserted before the end of the table") ++
    reasonIf (reordered toLowerCase current desired) (units "columns were reordered")

def diffEmpty (current desired : TableModel) : Bool :=
  (addedColumns toLowerCase current desired).isEmpty && (droppedColumns toLowerCase current desired).isEmpty &&
    (alteredColumns toLowerCase current desired).isEmpty && (detectColumnRenames toLowerCase current desired).isEmpty &&
    !reordered toLowerCase current desired && !keyChanged current desired &&
    (indexDiff toLowerCase current desired).isEmpty && (foreignKeyDiff current desired).isEmpty &&
    (checkDiff current desired).isEmpty && (changedOptions current desired).isEmpty &&
    decide (current.name = desired.name) && decide (current.schema.getD [] = desired.schema.getD [])

def alterDiff (current desired : TableModel) : TableDiff where
  current := some current
  desired := desired
  isEmpty := diffEmpty toLowerCase current desired
  renamedTable := if current.name = desired.name then none else some (current.name, desired.name)
  movedSchema := if current.schema.getD [] = desired.schema.getD [] then none else some (current.schema, desired.schema)
  addedColumns := addedColumns toLowerCase current desired
  droppedColumns := droppedColumns toLowerCase current desired
  alteredColumns := alteredColumns toLowerCase current desired
  renamedColumns := detectColumnRenames toLowerCase current desired
  addedColumnsAtEnd := addedColumnsAtEnd toLowerCase current desired
  reordered := reordered toLowerCase current desired
  primaryKeyChange := if keyChanged current desired then some (current.primaryKey, desired.primaryKey) else none
  indexes := indexDiff toLowerCase current desired
  foreignKeys := foreignKeyDiff current desired
  checks := checkDiff current desired
  changedOptions := changedOptions current desired
  constraintsChanged := keyChanged current desired || !(foreignKeyDiff current desired).isEmpty ||
    !(checkDiff current desired).isEmpty || uniqueConstraintChanged toLowerCase (indexDiff toLowerCase current desired)
  rebuildReasons := rebuildReasons toLowerCase current desired

def diffTables (current : Option TableModel) (desired : TableModel) : TableDiff :=
  match current with
  | none => createDiff desired
  | some current => alterDiff toLowerCase current desired

end Diffs

section Guesses
variable {toLowerCase : Text → Text} {current desired : TableModel}

structure RenamesFit (toLowerCase : Text → Text) (current desired : TableModel) (renames : List ColumnRename) : Prop where
  sources : (renames.map (·.before)).Nodup
  targets : (renames.map (·.after)).Nodup
  alike : ∀ r ∈ renames, ∃ b ∈ orderedColumns current, ∃ a ∈ orderedColumns desired,
    b.name = r.before ∧ a.name = r.after ∧ columnAspects toLowerCase b a = []
  free : ∀ r ∈ renames, r.after ∉ columnNames current
  gone : ∀ r ∈ renames, r.before ∉ columnNames desired

theorem renamesNone : RenamesFit toLowerCase current desired [] where
  sources := List.nodup_nil
  targets := List.nodup_nil
  alike := nofun
  free := nofun
  gone := nofun

def PlaceFits (toLowerCase : Text → Text) (taken : List Text) (p : ColumnModel × ColumnModel) : Prop :=
  p.1.name ≠ p.2.name → columnAspects toLowerCase p.1 p.2 = [] ∧ p.2.name ∉ taken

def renameAt (p : ColumnModel × ColumnModel) : Option ColumnRename :=
  if p.1.name = p.2.name then none else some ⟨p.1.name, p.2.name⟩

theorem renamesPlaces {taken : List Text} {places : List (ColumnModel × ColumnModel)} {renames : List ColumnRename}
    (found : renamesOf toLowerCase taken places = some renames) :
    renames = places.filterMap renameAt ∧ ∀ p ∈ places, PlaceFits toLowerCase taken p := by
  induction places generalizing renames with
  | nil => exact ⟨(Option.some.inj found).symm, fun p inside => absurd inside List.not_mem_nil⟩
  | cons p places ih =>
    rw [renamesOf] at found
    split at found
    · rename_i same
      obtain ⟨listed, all⟩ := ih found
      have none' : renameAt p = none := if_pos same
      exact ⟨by rw [List.filterMap_cons_none none', listed],
        List.forall_mem_cons.mpr ⟨fun differ => absurd same differ, all⟩⟩
    · rename_i differ
      split at found
      · contradiction
      · rename_i fits
        rw [not_or, not_not] at fits
        obtain ⟨rest, found', rfl⟩ := Option.map_eq_some_iff.mp found
        obtain ⟨listed, all⟩ := ih found'
        have one : renameAt p = some ⟨p.1.name, p.2.name⟩ := if_neg differ
        exact ⟨by rw [List.filterMap_cons_some one, listed], List.forall_mem_cons.mpr ⟨fun _ => fits, all⟩⟩

theorem renameAtSome {p : ColumnModel × ColumnModel} {r : ColumnRename} (made : renameAt p = some r) :
    p.1.name ≠ p.2.name ∧ p.1.name = r.before ∧ p.2.name = r.after := by
  unfold renameAt at made
  split at made
  · contradiction
  · rename_i differ
    cases made
    exact ⟨differ, rfl, rfl⟩

theorem renamesNodup {β : Type} {f : ColumnRename → β} {g : ColumnModel × ColumnModel → β}
    (own : ∀ p r, renameAt p = some r → f r = g p) {places : List (ColumnModel × ColumnModel)}
    (once : (places.map g).Nodup) : ((places.filterMap renameAt).map f).Nodup := by
  induction places with
  | nil => exact List.nodup_nil
  | cons p places ih =>
    rw [List.map_cons, List.nodup_cons] at once
    cases made : renameAt p with
    | none =>
      rw [List.filterMap_cons_none made]
      exact ih once.2
    | some r =>
      rw [List.filterMap_cons_some made, List.map_cons, List.nodup_cons]
      refine ⟨fun again => ?_, ih once.2⟩
      obtain ⟨q, listed, same⟩ := List.mem_map.mp again
      obtain ⟨place, inside, made'⟩ := List.mem_filterMap.mp listed
      refine once.1 (List.mem_map.mpr ⟨place, inside, ?_⟩)
      rw [← own place q made', same, own p r made]

variable (toLowerCase) in
theorem renamesFit (distinct : (columnNames current).Nodup) (distinct' : (columnNames desired).Nodup) :
    RenamesFit toLowerCase current desired (detectColumnRenames toLowerCase current desired) := by
  simp only [detectColumnRenames]
  split
  · exact renamesNone
  · rename_i same
    rw [not_not] at same
    cases found : renamesOf toLowerCase (columnNames current) ((orderedColumns current).zip (orderedColumns desired)) with
    | none => exact renamesNone
    | some renames =>
      obtain ⟨rfl, all⟩ := renamesPlaces found
      have before : ((orderedColumns current).zip (orderedColumns desired)).map (·.1.name) = columnNames current := by
        rw [← Function.comp_def ColumnModel.name Prod.fst, ← List.map_map, List.map_fst_zip same.le]
        rfl
      have after : ((orderedColumns current).zip (orderedColumns desired)).map (·.2.name) = columnNames desired := by
        rw [← Function.comp_def ColumnModel.name Prod.snd, ← List.map_map, List.map_snd_zip same.ge]
        rfl
      rw [← before] at distinct
      exact {
        sources := renamesNodup (fun p r made => (renameAtSome made).2.1.symm) distinct
        targets := renamesNodup (fun p r made => (renameAtSome made).2.2.symm) (after ▸ distinct')
        alike := fun r inside => by
          obtain ⟨p, listed, made⟩ := List.mem_filterMap.mp inside
          obtain ⟨differ, names⟩ := renameAtSome made
          obtain ⟨own, own'⟩ := List.of_mem_zip listed
          exact ⟨p.1, own, p.2, own', names.1, names.2, (all p listed differ).1⟩
        free := fun r inside => by
          obtain ⟨p, listed, made⟩ := List.mem_filterMap.mp inside
          obtain ⟨differ, -, name⟩ := renameAtSome made
          exact name ▸ (all p listed differ).2
        gone := fun r inside kept => by
          obtain ⟨p, listed, made⟩ := List.mem_filterMap.mp inside
          obtain ⟨differ, name, -⟩ := renameAtSome made
          rw [← after] at kept
          obtain ⟨q, listed', own⟩ := List.mem_map.mp kept
          have taken : q.2.name ∈ columnNames current := by
            rw [own, ← name]
            exact List.mem_map_of_mem (List.of_mem_zip listed).1
          have same' : q.1.name = q.2.name := by
            by_contra other
            exact (all q listed' other).2 taken
          have one : p = q := List.inj_on_of_nodup_map distinct listed listed' (name.trans (own.symm.trans same'.symm))
          exact differ (one ▸ same') }

end Guesses

section Partition
variable {toLowerCase : Text → Text} {current desired : TableModel}

def ExactlyOne (p q r : Prop) : Prop := (p ∧ ¬ q ∧ ¬ r) ∨ (¬ p ∧ q ∧ ¬ r) ∨ (¬ p ∧ ¬ q ∧ r)

def Kept (toLowerCase : Text → Text) (current desired : TableModel) (b a : ColumnModel) : Prop :=
  a ∈ orderedColumns desired ∧ counterpart toLowerCase current desired a.name = some b ∧ b.name = a.name

theorem finalRenamed {renames : List ColumnRename} (once : (renames.map (·.before)).Nodup) {r : ColumnRename}
    (inside : r ∈ renames) {c : ColumnModel} (named' : c.name = r.before) : finalName renames c = r.after := by
  rw [finalName, named', NamedChanges.namedOf once inside]
  rfl

theorem finalKept {renames : List ColumnRename} {c : ColumnModel} (apart : ∀ r ∈ renames, r.before ≠ c.name) :
    finalName renames c = c.name := by
  have none' : named (·.before) renames c.name = none := NamedChanges.namedNone.mpr fun listed => by
    obtain ⟨r, inside, same⟩ := List.mem_map.mp listed
    exact apart r inside same
  rw [finalName, none']
  rfl

theorem finalCases {renames : List ColumnRename} (fit : RenamesFit toLowerCase current desired renames) (c : ColumnModel) :
    (∃ r ∈ renames, r.before = c.name ∧ finalName renames c = r.after) ∨
      (∀ r ∈ renames, r.before ≠ c.name) ∧ finalName renames c = c.name := by
  by_cases source : ∃ r ∈ renames, r.before = c.name
  · obtain ⟨r, inside, own⟩ := source
    exact .inl ⟨r, inside, own, finalRenamed fit.sources inside own.symm⟩
  · have apart : ∀ r ∈ renames, r.before ≠ c.name := fun r inside own => source ⟨r, inside, own⟩
    exact .inr ⟨apart, finalKept apart⟩

theorem finalDistinct {renames : List ColumnRename} (fit : RenamesFit toLowerCase current desired renames)
    (distinct : (columnNames current).Nodup) : ((orderedColumns current).map (finalName renames)).Nodup := by
  refine (List.Nodup.of_map _ distinct).map_on fun b inside c inside' same => ?_
  refine List.inj_on_of_nodup_map distinct inside inside' ?_
  have listed {d : ColumnModel} (own : d ∈ orderedColumns current) : d.name ∈ columnNames current := List.mem_map_of_mem own
  rcases finalCases fit b with ⟨r, made, before, after⟩ | ⟨-, kept⟩ <;>
    rcases finalCases fit c with ⟨q, made', before', after'⟩ | ⟨-, kept'⟩
  · have one : r = q := List.inj_on_of_nodup_map fit.targets made made' (after.symm.trans (same.trans after'))
    rw [← before, ← before', one]
  · exact absurd (after.symm.trans (same.trans kept') ▸ listed inside') (fit.free r made)
  · exact absurd (after'.symm.trans (same.symm.trans kept) ▸ listed inside) (fit.free q made')
  · exact kept.symm.trans (same.trans kept')

theorem counterpartIff (distinct : (columnNames current).Nodup) (distinct' : (columnNames desired).Nodup) {n : Text}
    {b : ColumnModel} : counterpart toLowerCase current desired n = some b ↔
      b ∈ orderedColumns current ∧ finalName (detectColumnRenames toLowerCase current desired) b = n := by
  have fit := renamesFit toLowerCase distinct distinct'
  refine ⟨NamedChanges.namedMem, fun ⟨inside, own⟩ => ?_⟩
  rw [counterpart, ← own]
  exact NamedChanges.namedOf (finalDistinct fit distinct) inside

section Sides
variable (distinct : (columnNames current).Nodup) (distinct' : (columnNames desired).Nodup)
include distinct distinct'

theorem currentOnce {b : ColumnModel} (inside : b ∈ orderedColumns current) :
    ExactlyOne (∃ a, Kept toLowerCase current desired b a)
      (∃ r ∈ detectColumnRenames toLowerCase current desired, r.before = b.name)
      (b ∈ droppedColumns toLowerCase current desired) := by
  have fit := renamesFit toLowerCase distinct distinct'
  have dropped : b ∈ droppedColumns toLowerCase current desired ↔
      finalName (detectColumnRenames toLowerCase current desired) b ∉ columnNames desired := by
    simp [droppedColumns, survives, inside]
  have kept : (∃ a, Kept toLowerCase current desired b a) ↔ b.name ∈ columnNames desired ∧
      finalName (detectColumnRenames toLowerCase current desired) b = b.name := by
    constructor
    · intro ⟨a, listed, found, same⟩
      exact ⟨same ▸ List.mem_map_of_mem listed, ((counterpartIff distinct distinct').mp found).2.trans same.symm⟩
    · intro ⟨listed, own⟩
      obtain ⟨a, inside', same⟩ := List.mem_map.mp listed
      exact ⟨a, inside', (counterpartIff distinct distinct').mpr ⟨inside, own.trans same.symm⟩, same.symm⟩
  rw [ExactlyOne, kept, dropped]
  rcases finalCases fit b with ⟨r, made, before, after⟩ | ⟨apart, own⟩
  · have target : r.after ∈ columnNames desired := by
      obtain ⟨-, -, a, listed, -, same, -⟩ := fit.alike r made
      exact same ▸ List.mem_map_of_mem listed
    refine .inr (.inl ⟨fun both => ?_, ⟨r, made, before⟩, fun lost => lost (after ▸ target)⟩)
    exact fit.gone r made (before ▸ both.1)
  · have none' : ¬ ∃ r ∈ detectColumnRenames toLowerCase current desired, r.before = b.name := fun ⟨r, made, before⟩ =>
      apart r made before
    rw [own]
    by_cases survives : b.name ∈ columnNames desired
    · exact .inl ⟨⟨survives, rfl⟩, none', not_not.mpr survives⟩
    · exact .inr (.inr ⟨fun both => survives both.1, none', survives⟩)

theorem desiredOnce {a : ColumnModel} (inside : a ∈ orderedColumns desired) :
    ExactlyOne (∃ b, Kept toLowerCase current desired b a)
      (∃ r ∈ detectColumnRenames toLowerCase current desired, r.after = a.name)
      (a ∈ addedColumns toLowerCase current desired) := by
  have fit := renamesFit toLowerCase distinct distinct'
  have added : a ∈ addedColumns toLowerCase current desired ↔ counterpart toLowerCase current desired a.name = none := by
    simp [addedColumns, inside]
  rw [ExactlyOne, added]
  cases found : counterpart toLowerCase current desired a.name with
  | none =>
    refine .inr (.inr ⟨fun ⟨b, _, found', _⟩ => absurd (found.symm.trans found') nofun, fun ⟨r, made, own⟩ => ?_, rfl⟩)
    obtain ⟨b, listed, -, -, before, -, -⟩ := fit.alike r made
    have met := (counterpartIff distinct distinct').mpr ⟨listed, (finalRenamed fit.sources made before).trans own⟩
    exact absurd (found.symm.trans met) nofun
  | some b =>
    obtain ⟨listed, own⟩ := (counterpartIff distinct distinct').mp found
    rcases finalCases fit b with ⟨r, made, before, after⟩ | ⟨apart, same⟩
    · refine .inr (.inl ⟨fun ⟨c, _, found', same⟩ => ?_, ⟨r, made, after.symm.trans own⟩, nofun⟩)
      cases Option.some.inj (found.symm.trans found')
      exact fit.gone r made (before ▸ same ▸ List.mem_map_of_mem inside)
    · refine .inl ⟨⟨b, inside, found, same.symm.trans own⟩, fun ⟨r, made, after⟩ => ?_, nofun⟩
      exact fit.free r made (after ▸ own ▸ same ▸ List.mem_map_of_mem listed)

theorem alteredKept {change : ColumnChange} (listed : change ∈ alteredColumns toLowerCase current desired) :
    Kept toLowerCase current desired change.before change.after := by
  have fit := renamesFit toLowerCase distinct distinct'
  obtain ⟨a, inside, made⟩ := List.mem_filterMap.mp listed
  cases found : counterpart toLowerCase current desired a.name with
  | none =>
    rw [found] at made
    contradiction
  | some b =>
    simp only [found, Option.ite_none_left_eq_some, Option.some.injEq] at made
    obtain ⟨differ, rfl⟩ := made
    obtain ⟨own, name⟩ := (counterpartIff distinct distinct').mp found
    rcases finalCases fit b with ⟨r, guessed, before, after⟩ | ⟨-, same⟩
    · obtain ⟨c, own', d, inside', before', after', body⟩ := fit.alike r guessed
      have left : c = b := List.inj_on_of_nodup_map distinct own' own (before'.trans before)
      have right : d = a := List.inj_on_of_nodup_map distinct' inside' inside (after'.trans (after.symm.trans name))
      exact absurd (left ▸ right ▸ body) differ
    · exact ⟨inside, found, same.symm.trans name⟩

end Sides

-- Each column of either side has one place in the diff, and a rename is sure of its two columns.
theorem columnsPartitioned (toLowerCase : Text → Text) (current desired : TableModel)
    (distinct : (columnNames current).Nodup) (distinct' : (columnNames desired).Nodup) :
    let d := diffTables toLowerCase (some current) desired
    (∀ b ∈ orderedColumns current, ExactlyOne (∃ a, Kept toLowerCase current desired b a)
        (∃ r ∈ d.renamedColumns, r.before = b.name) (b ∈ d.droppedColumns)) ∧
      (∀ a ∈ orderedColumns desired, ExactlyOne (∃ b, Kept toLowerCase current desired b a)
        (∃ r ∈ d.renamedColumns, r.after = a.name) (a ∈ d.addedColumns)) ∧
      d.renamedColumns = detectColumnRenames toLowerCase current desired ∧
      RenamesFit toLowerCase current desired d.renamedColumns ∧
      ∀ change ∈ d.alteredColumns, Kept toLowerCase current desired change.before change.after :=
  ⟨fun _ inside => currentOnce distinct distinct' inside, fun _ inside => desiredOnce distinct distinct' inside, rfl,
    renamesFit toLowerCase distinct distinct', fun _ listed => alteredKept distinct distinct' listed⟩

def intColumn (position : Nat) (name : String) : ColumnModel :=
  ⟨units name, position, ⟨units "int", .integer, none, none, none, false, false, []⟩, true, none, false, none, none, none,
    none, none⟩

def tableOf (columns : List String) : TableModel :=
  ⟨units "item", none, .table, columns.zipIdx.map fun c => intColumn c.2 c.1, [], [], [], [], none, none, none, none, none,
    none⟩

theorem shiftedPartitioned :
    let d := diffTables (·.map lowerUnit) (some (tableOf ["a", "b", "c"])) (tableOf ["a", "d", "c"])
    (∀ b ∈ orderedColumns (tableOf ["a", "b", "c"]),
        ExactlyOne (∃ a, Kept (·.map lowerUnit) (tableOf ["a", "b", "c"]) (tableOf ["a", "d", "c"]) b a)
          (∃ r ∈ d.renamedColumns, r.before = b.name) (b ∈ d.droppedColumns)) ∧
      (∀ a ∈ orderedColumns (tableOf ["a", "d", "c"]),
        ExactlyOne (∃ b, Kept (·.map lowerUnit) (tableOf ["a", "b", "c"]) (tableOf ["a", "d", "c"]) b a)
          (∃ r ∈ d.renamedColumns, r.after = a.name) (a ∈ d.addedColumns)) ∧
      d.renamedColumns = detectColumnRenames (·.map lowerUnit) (tableOf ["a", "b", "c"]) (tableOf ["a", "d", "c"]) ∧
      RenamesFit (·.map lowerUnit) (tableOf ["a", "b", "c"]) (tableOf ["a", "d", "c"]) d.renamedColumns ∧
      ∀ change ∈ d.alteredColumns,
        Kept (·.map lowerUnit) (tableOf ["a", "b", "c"]) (tableOf ["a", "d", "c"]) change.before change.after :=
  columnsPartitioned (·.map lowerUnit) (tableOf ["a", "b", "c"]) (tableOf ["a", "d", "c"]) (by decide) (by decide)

end Partition

end DatabaseAdmin.TableDiffs
