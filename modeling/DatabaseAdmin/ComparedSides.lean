import DatabaseAdmin.NamedChanges
import DatabaseAdmin.SchemaDiffer

/-! A comparison of two schemas and the one with the sides exchanged. -/
namespace DatabaseAdmin.ComparedSides
open CodeUnits SchemaModels MigrationScripts DdlCommon SchemaDiffs SchemaDiffer
open KeyPairing (Pair pairs)

def exchanged : DiffStatus → DiffStatus
  | .added => .removed
  | .removed => .added
  | status => status

structure Mirrors {α : Type} (d e : ObjectDiff α) : Prop where
  source : e.source = d.target
  target : e.target = d.source
  status : e.status = exchanged d.status

def Mirrored {α : Type} (xs ys : List (ObjectDiff α)) : Prop :=
  Multiset.Rel Mirrors (xs : Multiset (ObjectDiff α)) (ys : Multiset (ObjectDiff α))

structure TableMirrors (d e : TableDiffEntry) : Prop where
  table : Mirrors d.toObjectDiff e.toObjectDiff
  columns : Mirrored d.columns e.columns
  indexes : Mirrored d.indexes e.indexes
  foreignKeys : Mirrored d.foreignKeys e.foreignKeys
  checks : Mirrored d.checks e.checks

def TablesMirrored (xs ys : List TableDiffEntry) : Prop :=
  Multiset.Rel TableMirrors (xs : Multiset TableDiffEntry) (ys : Multiset TableDiffEntry)

def sideNames (ns : NamespaceDiff) : Option Text × Option Text :=
  (ns.sourceName, if ns.status = .added then none else ns.targetName)

structure NamespaceMirrors (d e : NamespaceDiff) : Prop where
  names : (sideNames e).swap = sideNames d
  status : e.status = exchanged d.status
  tables : TablesMirrored (d.tables ++ d.views) (e.tables ++ e.views)
  routines : Mirrored d.routines e.routines
  sequences : Mirrored d.sequences e.sequences
  enums : Mirrored d.enums e.enums
  triggers : Mirrored d.triggers e.triggers

section Fields

@[simp] theorem pushNil {field : Field} {a b : Option Text} : push field a b = [] ↔ a = b := by
  unfold push
  split <;> simp_all

@[simp] theorem pushTextNil {field : Field} {a b : Text} : pushText field a b = [] ↔ a = b := by
  simp [pushText]

variable {toLowerCase : Text → Text} {o : DiffOptions}

def Symmetrical {α : Type} (compare : α → α → List FieldDiff) : Prop := ∀ s t, compare s t = [] ↔ compare t s = []

theorem pushSym {field : Field} {α : Type} {f : α → Option Text} : Symmetrical fun s t => push field (f s) (f t) := by
  intro s t
  rw [pushNil, pushNil, eq_comm]

theorem pushTextSym {field : Field} {α : Type} {f : α → Text} : Symmetrical fun s t => pushText field (f s) (f t) := by
  intro s t
  rw [pushTextNil, pushTextNil, eq_comm]

theorem appendSym {α : Type} {f g : α → α → List FieldDiff} (left : Symmetrical f) (right : Symmetrical g) :
    Symmetrical fun s t => f s t ++ g s t := by
  intro s t
  rw [List.append_eq_nil_iff, List.append_eq_nil_iff, left s t, right s t]

theorem iteSym {α : Type} {f : α → α → List FieldDiff} (skip : Bool) (sym : Symmetrical f) :
    Symmetrical fun s t => if skip then [] else f s t := by
  intro s t
  cases skip with
  | true => exact Iff.rfl
  | false => exact sym s t

theorem routineSym : Symmetrical (routineFields o) :=
  appendSym (appendSym (appendSym (appendSym (appendSym (appendSym pushTextSym pushSym) pushSym) pushTextSym) pushSym)
    pushTextSym) (iteSym _ pushSym)

theorem sequenceSym : Symmetrical sequenceFields :=
  appendSym (appendSym (appendSym (appendSym (appendSym pushSym pushSym) pushSym) pushSym) pushTextSym) pushSym

theorem enumSym : Symmetrical enumFields := pushTextSym

theorem triggerSym : Symmetrical (triggerFields toLowerCase o) :=
  appendSym (appendSym (appendSym (appendSym (appendSym pushTextSym pushTextSym) pushTextSym) pushTextSym) pushSym) pushSym

theorem namespaceSym : Symmetrical (namespaceFields o) := iteSym _ pushSym

theorem checkSym : Symmetrical checkFields := pushSym

theorem indexSym : Symmetrical (indexFields toLowerCase o) :=
  appendSym (appendSym (appendSym (appendSym pushTextSym pushTextSym) pushTextSym) pushSym) (iteSym _ pushSym)

theorem sameTypeComm (a b : TypeDescriptor) : sameType toLowerCase a b = sameType toLowerCase b a := by
  unfold sameType
  simp only [eq_comm, and_comm]

theorem sameDefaultComm (a b : ColumnModel) : sameDefault toLowerCase a b = sameDefault toLowerCase b a := by
  unfold sameDefault
  cases normalizeExpression a.defaultValue <;> cases normalizeExpression b.defaultValue <;> try rfl
  rename_i x y
  simp only [eq_comm, Bool.and_comm]

theorem aspectsComm (a b : ColumnModel) : columnAspects toLowerCase a b = columnAspects toLowerCase b a := by
  simp only [columnAspects, sameTypeComm a.type b.type, sameDefaultComm a b, eq_comm]

theorem columnSym : Symmetrical (columnFields toLowerCase o) := by
  intro s t
  rw [columnFields, columnFields, aspectsComm]

theorem tableFieldSym : Symmetrical (tableFields o) := by
  have definition : Symmetrical fun s t : TableModel => if isViewKind s.kind || isViewKind t.kind then
      push .definition (normalizeBody s.definition) (normalizeBody t.definition) else [] := by
    intro s t
    have kinds : (isViewKind s.kind || isViewKind t.kind) = (isViewKind t.kind || isViewKind s.kind) := Bool.or_comm _ _
    simp only [kinds]
    split
    · rw [pushNil, pushNil, eq_comm]
    · exact Iff.rfl
  exact appendSym (appendSym (appendSym (appendSym (appendSym pushTextSym (iteSym _ pushSym)) (iteSym _ pushSym)) pushSym)
    pushSym) definition

theorem keySym : Symmetrical (keyFields toLowerCase o) := by
  intro s t
  by_cases same : foldedKey toLowerCase o s = foldedKey toLowerCase o t
  · simp [keyFields, same]
  · simp [keyFields, same, Ne.symm same]

theorem orderSym : Symmetrical (orderFields toLowerCase o) := by
  intro s t
  have same : columnOrderDiffers toLowerCase o s t = columnOrderDiffers toLowerCase o t s := by
    simp only [columnOrderDiffers, ne_comm]
  unfold orderFields
  rw [same]
  split <;> simp

theorem entrySym : Symmetrical (entryFields toLowerCase o) := appendSym (appendSym tableFieldSym keySym) orderSym

end Fields

section Entries
variable {α : Type} {toLowerCase : Text → Text} {o : DiffOptions}

theorem statusSwap (p : Pair α) (changed : Bool) : statusFor p.swap changed = exchanged (statusFor p changed) := by
  cases p with
  | both s t => cases changed <;> rfl
  | source s => rfl
  | target t => rfl

theorem fieldsSwap {compare compare' : α → α → List FieldDiff} {p : Pair α}
    (agree : ∀ s t, p = .both s t → (compare s t = [] ↔ compare' t s = [])) :
    fieldsOf compare' p.swap = [] ↔ fieldsOf compare p = [] := by
  cases p with
  | both s t => exact (agree s t rfl).symm
  | source s => exact Iff.rfl
  | target t => exact Iff.rfl

theorem entryMirrors {nameOf : α → Text} {compare compare' : α → α → List FieldDiff} {p : Pair α}
    (agree : ∀ s t, p = .both s t → (compare s t = [] ↔ compare' t s = [])) :
    Mirrors (entryOf nameOf compare p) (entryOf nameOf compare' p.swap) where
  source := by cases p <;> rfl
  target := by cases p <;> rfl
  status := by
    have same := fieldsSwap agree
    have flags : decide (fieldsOf compare' p.swap ≠ []) = decide (fieldsOf compare p ≠ []) := by
      simp only [ne_eq, same]
    exact (congrArg _ flags).trans (statusSwap p _)

theorem pairsMirrored {key : α → Text} {nameOf : α → Text} {compare compare' : α → α → List FieldDiff}
    {source target : List α}
    (agree : ∀ s t, .both s t ∈ pairs key source target → (compare s t = [] ↔ compare' t s = [])) :
    Mirrored ((pairs key source target).map (entryOf nameOf compare))
      ((pairs key target source).map (entryOf nameOf compare')) :=
  KeyPairing.pairsExchanged fun _ listed => entryMirrors fun s t same => agree s t (same ▸ listed)

theorem simpleMirrored {nameOf : α → Text} {compare : α → α → List FieldDiff} (sym : Symmetrical compare)
    (source target : List α) : Mirrored (diffSimple toLowerCase o nameOf compare source target)
      (diffSimple toLowerCase o nameOf compare target source) :=
  pairsMirrored fun s t _ => sym s t

theorem swapSides (p : Pair α) : p.swap.sides = p.sides.swap := by cases p <;> rfl

theorem relMaps {β γ τ : Type} {R : β → γ → Prop} {f : β → τ} {g : γ → τ} {turn : τ → τ} {xs : List β} {ys : List γ}
    (each : ∀ x y, R x y → g y = turn (f x)) (rel : Multiset.Rel R (xs : Multiset β) (ys : Multiset γ)) :
    (ys.map g).Perm ((xs.map f).map turn) := by
  have same : Multiset.Rel Eq ((xs : Multiset β).map fun x => turn (f x)) ((ys : Multiset γ).map g) :=
    Multiset.rel_map.mpr (rel.mono fun x _ y _ related => (each x y related).symm)
  rw [Multiset.rel_eq, Multiset.map_coe, Multiset.map_coe, Multiset.coe_eq_coe] at same
  rw [List.map_map]
  exact same.symm

theorem statusesDiffer {xs ys : List DiffStatus} (same : ys.Perm (xs.map exchanged)) :
    ys.any (· ≠ .same) = xs.any (· ≠ .same) := by
  rw [same.any_eq, List.any_map]
  congr 1
  funext status
  cases status <;> rfl

theorem differingStatuses (xs : List (ObjectDiff α)) : differing xs = (xs.map (·.status)).any (· ≠ .same) := by
  rw [List.any_map]
  rfl

theorem mirroredDiffering {xs ys : List (ObjectDiff α)} (mirrored : Mirrored xs ys) : differing ys = differing xs := by
  rw [differingStatuses, differingStatuses]
  exact statusesDiffer (relMaps (fun _ _ related => related.status) mirrored)

end Entries

section Tables
variable {toLowerCase : Text → Text} {o : DiffOptions} {map map' : Text → Text}

def KeysAgree (toLowerCase : Text → Text) (o : DiffOptions) (map map' : Text → Text) (s t : TableModel) : Prop :=
  ∀ f g, .both f g ∈ pairs (fun f : ForeignKeyModel => fold toLowerCase o f.name) s.foreignKeys t.foreignKeys →
    (foreignKeyFields toLowerCase o map f g = [] ↔ foreignKeyFields toLowerCase o map' g f = [])

theorem tableMirrors {p : Pair TableModel} (agree : ∀ s t, p = .both s t → KeysAgree toLowerCase o map map' s t) :
    TableMirrors (diffTableEntry toLowerCase o map p) (diffTableEntry toLowerCase o map' p.swap) := by
  have columns : Mirrored (diffColumns toLowerCase o p) (diffColumns toLowerCase o p.swap) := by
    rw [diffColumns, diffColumns, swapSides]
    exact pairsMirrored fun s t _ => columnSym s t
  have indexes : Mirrored (diffIndexes toLowerCase o p) (diffIndexes toLowerCase o p.swap) := by
    rw [diffIndexes, diffIndexes, swapSides]
    exact pairsMirrored fun s t _ => indexSym s t
  have checks : Mirrored (diffChecks toLowerCase o p) (diffChecks toLowerCase o p.swap) := by
    rw [diffChecks, diffChecks, swapSides]
    exact pairsMirrored fun s t _ => checkSym s t
  have foreignKeys : Mirrored (diffForeignKeys toLowerCase o map p) (diffForeignKeys toLowerCase o map' p.swap) := by
    rw [diffForeignKeys, diffForeignKeys, swapSides]
    refine pairsMirrored fun f g listed => ?_
    cases p with
    | both s t => exact agree s t rfl f g listed
    | source s => exact absurd (KeyPairing.pairsBoth listed).2.1 List.not_mem_nil
    | target t => exact absurd (KeyPairing.pairsBoth listed).1 List.not_mem_nil
  have fields : fieldsOf (entryFields toLowerCase o) p.swap = [] ↔ fieldsOf (entryFields toLowerCase o) p = [] :=
    fieldsSwap fun s t _ => entrySym s t
  have changed : tableChanged toLowerCase o map' p.swap = tableChanged toLowerCase o map p := by
    simp only [tableChanged, mirroredDiffering columns, mirroredDiffering indexes, mirroredDiffering foreignKeys,
      mirroredDiffering checks, ne_eq, fields]
  exact {
    table := {
      source := by rw [tableSource, tableTarget, swapSides]; rfl
      target := by rw [tableSource, tableTarget, swapSides]; rfl
      status := by rw [tableStatus, tableStatus, changed, statusSwap] }
    columns := columns
    indexes := indexes
    foreignKeys := foreignKeys
    checks := checks }

end Tables

section Namespaces
variable {toLowerCase : Text → Text} {o : DiffOptions} {map map' : Text → Text}

def TablesAgree (toLowerCase : Text → Text) (o : DiffOptions) (map map' : Text → Text) (a b : SchemaNamespace) : Prop :=
  ∀ s t, .both s t ∈ pairs (fun t : TableModel => fold toLowerCase o t.name) a.tables b.tables →
    KeysAgree toLowerCase o map map' s t

theorem entriesPerm (hint : Option Text) (p : Pair SchemaNamespace) :
    ((diffNamespace toLowerCase o map hint p).tables ++ (diffNamespace toLowerCase o map hint p).views).Perm
      (tableEntries toLowerCase o map p) := by
  have parts := List.filter_append_perm (fun e : TableDiffEntry => !isViewKind e.tableKind) (tableEntries toLowerCase o map p)
  simp only [Bool.not_not] at parts
  exact parts

theorem tablesMirrored {p : Pair SchemaNamespace} (agree : ∀ a b, p = .both a b → TablesAgree toLowerCase o map map' a b) :
    TablesMirrored (tableEntries toLowerCase o map p) (tableEntries toLowerCase o map' p.swap) := by
  rw [tableEntries, tableEntries, swapSides]
  refine KeyPairing.pairsExchanged fun q listed => tableMirrors fun s t same => ?_
  subst same
  cases p with
  | both a b => exact agree a b rfl s t listed
  | source a => exact absurd (KeyPairing.pairsBoth listed).2.1 List.not_mem_nil
  | target b => exact absurd (KeyPairing.pairsBoth listed).1 List.not_mem_nil

theorem namespaceMirrors {p : Pair SchemaNamespace} (hint hint' : Option Text)
    (agree : ∀ a b, p = .both a b → TablesAgree toLowerCase o map map' a b) :
    NamespaceMirrors (diffNamespace toLowerCase o map hint p) (diffNamespace toLowerCase o map' hint' p.swap) := by
  have tables := tablesMirrored agree
  have routines : Mirrored (routineEntries toLowerCase o p) (routineEntries toLowerCase o p.swap) := by
    rw [routineEntries, routineEntries, swapSides]
    exact simpleMirrored routineSym _ _
  have sequences : Mirrored (sequenceEntries toLowerCase o p) (sequenceEntries toLowerCase o p.swap) := by
    rw [sequenceEntries, sequenceEntries, swapSides]
    exact simpleMirrored sequenceSym _ _
  have enums : Mirrored (enumEntries toLowerCase o p) (enumEntries toLowerCase o p.swap) := by
    rw [enumEntries, enumEntries, swapSides]
    exact simpleMirrored enumSym _ _
  have triggers : Mirrored (triggerEntries toLowerCase o p) (triggerEntries toLowerCase o p.swap) := by
    rw [triggerEntries, triggerEntries, swapSides]
    exact simpleMirrored triggerSym _ _
  have fields : fieldsOf (namespaceFields o) p.swap = [] ↔ fieldsOf (namespaceFields o) p = [] :=
    fieldsSwap fun s t _ => namespaceSym s t
  have entries : differing ((tableEntries toLowerCase o map' p.swap).map (·.toObjectDiff)) =
      differing ((tableEntries toLowerCase o map p).map (·.toObjectDiff)) := by
    refine mirroredDiffering ?_
    rw [Mirrored, ← Multiset.map_coe, ← Multiset.map_coe]
    exact Multiset.rel_map.mpr (tables.mono fun _ _ _ _ related => related.table)
  have changed : namespaceChanged toLowerCase o map' p.swap = namespaceChanged toLowerCase o map p := by
    simp only [namespaceChanged, entries, mirroredDiffering routines, mirroredDiffering sequences, mirroredDiffering enums,
      mirroredDiffering triggers, ne_eq, fields]
  have status : (diffNamespace toLowerCase o map' hint' p.swap).status =
      exchanged (diffNamespace toLowerCase o map hint p).status := by
    change statusFor p.swap (namespaceChanged toLowerCase o map' p.swap) = _
    rw [changed, statusSwap]
    rfl
  exact {
    names := by
      rw [sideNames, sideNames, status]
      cases p with
      | both a b =>
        have paired : (diffNamespace toLowerCase o map hint (.both a b)).status =
            if namespaceChanged toLowerCase o map (.both a b) then .changed else .same := rfl
        rw [paired]
        split <;> rfl
      | source a => rfl
      | target b => rfl
    status := status
    tables := by
      rw [TablesMirrored, Multiset.coe_eq_coe.mpr (entriesPerm hint p), Multiset.coe_eq_coe.mpr (entriesPerm hint' p.swap)]
      exact tables
    routines := routines
    sequences := sequences
    enums := enums
    triggers := triggers }

end Namespaces

section Summaries

def swapCounts (c : DiffCounts) : DiffCounts := ⟨c.removed, c.added, c.changed⟩

theorem countsExchanged {xs ys : List DiffStatus} (same : ys.Perm (xs.map exchanged)) :
    countStatuses ys = swapCounts (countStatuses xs) := by
  have back (status : DiffStatus) : (xs.map exchanged).count status = xs.count (exchanged status) := by
    rw [List.count, List.countP_map]
    refine List.countP_congr fun other _ => ?_
    cases other <;> cases status <;> rfl
  simp only [countStatuses, swapCounts, same.count_eq, back, exchanged]

theorem objectsExchanged {d e : NamespaceDiff} (mirrors : NamespaceMirrors d e) :
    countStatuses (objectStatuses e) = swapCounts (countStatuses (objectStatuses d)) := by
  refine countsExchanged ?_
  simp only [objectStatuses, List.map_append]
  have tables := relMaps (fun _ _ related => related.table.status) mirrors.tables
  have routines := relMaps (fun _ _ related => related.status) mirrors.routines
  have sequences := relMaps (fun _ _ related => related.status) mirrors.sequences
  have enums := relMaps (fun _ _ related => related.status) mirrors.enums
  have triggers := relMaps (fun _ _ related => related.status) mirrors.triggers
  rw [List.map_append, List.map_append] at tables
  simpa only [List.map_append, List.append_assoc] using (((tables.append routines).append sequences).append enums).append triggers

theorem countsFold (counts : List DiffCounts) (start : DiffCounts) :
    (counts.map swapCounts).foldl addCounts (swapCounts start) = swapCounts (counts.foldl addCounts start) := by
  rw [List.foldl_map]
  exact List.foldl_hom swapCounts fun _ _ => rfl

theorem summaryExchanged {xs ys : List NamespaceDiff}
    (mirrored : Multiset.Rel NamespaceMirrors (xs : Multiset NamespaceDiff) (ys : Multiset NamespaceDiff)) :
    summaryOf ys = swapCounts (summaryOf xs) := by
  have statuses := countsExchanged (relMaps (fun _ _ related => related.status) mirrored)
  have objects := relMaps (f := fun ns => countStatuses (objectStatuses ns)) (fun _ _ related => objectsExchanged related) mirrored
  have commutes (a b c : DiffCounts) : addCounts (addCounts c a) b = addCounts (addCounts c b) a := by
    simp only [addCounts, Nat.add_right_comm]
  have total := (objects.foldl_eq' (fun a _ b _ c => commutes a b c) (DiffCounts.mk 0 0 0)).trans (countsFold _ ⟨0, 0, 0⟩)
  obtain ⟨added, removed, -⟩ := DiffCounts.mk.inj statuses
  simp only [summaryOf, total, added, removed]
  rfl

end Summaries

section Lines
variable {α κ : Type} [DecidableEq κ] {key : α → κ} {source target : List α}
open NamedChanges (named)

def lineOf (key : α → κ) (target : List α) (s : α) : Pair α :=
  match named key target (key s) with
  | some t => .both s t
  | none => .source s

def common (key : α → κ) (source target : List α) : List α := source.filter (key · ∈ target.map key)

def apart (key : α → κ) (source target : List α) : List α := source.filter (key · ∉ target.map key)

def lines (key : α → κ) (source target : List α) : List (Pair α) :=
  source.map (lineOf key target) ++ (apart key target source).map .target

theorem lineCommon {s : α} (inside : s ∈ common key source target) : ∃ t, named key target (key s) = some t ∧
    t ∈ common key target source := by
  obtain ⟨listed, shared⟩ := List.mem_filter.mp inside
  obtain ⟨t, found⟩ := NamedChanges.namedSome.mp (of_decide_eq_true shared)
  obtain ⟨member, same⟩ := NamedChanges.namedMem found
  exact ⟨t, found, List.mem_filter.mpr ⟨member, by simpa [same] using ⟨s, listed, rfl⟩⟩⟩

theorem namedCommon (once : ((common key source target).map key).Nodup) {s : α} (inside : s ∈ common key source target) :
    named key source (key s) = some s := by
  obtain ⟨listed, shared⟩ := List.mem_filter.mp inside
  obtain ⟨other, found⟩ := NamedChanges.namedSome.mp (List.mem_map_of_mem (f := key) listed)
  obtain ⟨member, same⟩ := NamedChanges.namedMem found
  have inside' : other ∈ common key source target := List.mem_filter.mpr ⟨member, by rwa [same]⟩
  rw [found, List.inj_on_of_nodup_map once inside' inside same]

theorem lineItem (key : α → κ) (target : List α) (s : α) : (lineOf key target s).item = s := by
  unfold lineOf
  split <;> rfl

theorem linesAlone : (source.map (lineOf key target)).countP (·.sides.2.isNone) = (apart key source target).length := by
  rw [List.countP_map, apart, ← List.countP_eq_length_filter]
  refine List.countP_congr fun s _ => ?_
  rw [decide_eq_true_iff, ← NamedChanges.namedNone, Function.comp_apply, lineOf]
  cases named key target (key s) with
  | none => exact iff_of_true rfl rfl
  | some t => exact iff_of_false nofun nofun

theorem lineTurned (once : ((common key source target).map key).Nodup) {s : α} (inside : s ∈ common key source target) :
    ∃ t ∈ common key target source, lineOf key source t = (lineOf key target s).swap := by
  obtain ⟨t, found, inside'⟩ := lineCommon inside
  have back := namedCommon once inside
  rw [← (NamedChanges.namedMem found).2] at back
  refine ⟨t, inside', ?_⟩
  rw [lineOf, lineOf, found, back]
  rfl

theorem linesCommon (left : ((common key source target).map key).Nodup) (right : ((common key target source).map key).Nodup) :
    (((common key source target).map (lineOf key target)).map Pair.swap).Perm
      ((common key target source).map (lineOf key source)) := by
  have distinct {a : List α} (once : (a.map key).Nodup) (other : List α) : (a.map (lineOf key other)).Nodup :=
    (List.Nodup.of_map key once).map fun s t same => by rw [← lineItem key other s, same, lineItem]
  have turned : Function.Injective (Pair.swap (α := α)) := fun p q same => by rw [← Pair.swapSwap p, same, Pair.swapSwap]
  refine (List.perm_ext_iff_of_nodup ((distinct left target).map turned) (distinct right source)).mpr fun p => ?_
  rw [List.mem_map, List.mem_map]
  constructor
  · intro ⟨q, listed, same⟩
    obtain ⟨s, inside, rfl⟩ := List.mem_map.mp listed
    obtain ⟨t, inside', line⟩ := lineTurned left inside
    exact ⟨t, inside', line.trans same⟩
  · intro ⟨t, inside, same⟩
    obtain ⟨s, inside', line⟩ := lineTurned right inside
    refine ⟨_, List.mem_map_of_mem inside', ?_⟩
    rw [line, Pair.swapSwap, same]

theorem linesSplit : (lines key source target).Perm ((common key source target).map (lineOf key target) ++
    (apart key source target).map .source ++ (apart key target source).map .target) := by
  refine List.Perm.append ?_ (.refl _)
  have parts := (List.filter_append_perm (key · ∈ target.map key) source).symm
  have lone : (apart key source target).map (lineOf key target) = (apart key source target).map .source := by
    refine List.map_congr_left fun s inside => ?_
    have gone := (List.mem_filter.mp inside).2
    rw [lineOf, NamedChanges.namedNone.mpr (of_decide_eq_true gone)]
  rw [← lone, ← List.map_append]
  have negated : (fun s => !decide (key s ∈ target.map key)) = fun s => decide (key s ∉ target.map key) := by
    funext s
    exact (decide_not).symm
  rw [negated] at parts
  exact parts.map _

theorem linesSwap (left : ((common key source target).map key).Nodup) (right : ((common key target source).map key).Nodup) :
    ((lines key source target).map Pair.swap).Perm (lines key target source) := by
  refine (linesSplit.map _).trans (.trans ?_ linesSplit.symm)
  rw [List.map_append, List.map_append, List.map_map (f := Pair.source), List.map_map (f := Pair.target), List.append_assoc,
    List.append_assoc]
  exact (linesCommon left right).append List.perm_append_comm

end Lines

section Unmatched
variable {toLowerCase : Text → Text} {o : DiffOptions} {sources targets : List SchemaNamespace}

abbrev nameKey (toLowerCase : Text → Text) (o : DiffOptions) (ns : SchemaNamespace) : Text := fold toLowerCase o ns.name

theorem unmatchedApart (once : ((common (nameKey toLowerCase o) targets sources).map (nameKey toLowerCase o)).Nodup) :
    unmatched toLowerCase o (sources.map (nameKey toLowerCase o)) targets = apart (nameKey toLowerCase o) targets sources := by
  induction targets with
  | nil => rfl
  | cons t rest ih =>
    rw [common, List.filter_cons, ← common] at once
    rw [apart, List.filter_cons, ← apart]
    by_cases wanted : nameKey toLowerCase o t ∈ sources.map (nameKey toLowerCase o)
    · simp only [wanted, decide_true, if_true, List.map_cons, List.nodup_cons] at once
      have last : nameKey toLowerCase o t ∉ rest.map (nameKey toLowerCase o) := fun again => by
        obtain ⟨u, inside, same⟩ := List.mem_map.mp again
        exact once.1 (List.mem_map.mpr ⟨u, List.mem_filter.mpr ⟨inside, by simpa [same] using wanted⟩, same⟩)
      rw [unmatched, if_pos ⟨wanted, last⟩, if_neg (by simpa using wanted), ih once.2]
    · simp only [wanted, decide_false, Bool.false_eq_true, if_false] at once
      rw [unmatched, if_neg fun both => wanted both.1, if_pos (by simpa using wanted), ih once]

theorem unmatchedLength :
    (apart (nameKey toLowerCase o) targets sources).length ≤
        (unmatched toLowerCase o (sources.map (nameKey toLowerCase o)) targets).length ∧
      ((unmatched toLowerCase o (sources.map (nameKey toLowerCase o)) targets).length =
          (apart (nameKey toLowerCase o) targets sources).length →
        ((common (nameKey toLowerCase o) targets sources).map (nameKey toLowerCase o)).Nodup) := by
  induction targets with
  | nil => exact ⟨Nat.le_refl _, fun _ => List.nodup_nil⟩
  | cons t rest ih =>
    rw [apart, common, List.filter_cons, List.filter_cons, ← apart, ← common]
    by_cases wanted : nameKey toLowerCase o t ∈ sources.map (nameKey toLowerCase o)
    · rw [if_neg (by simpa using wanted), if_pos (by simpa using wanted)]
      by_cases last : nameKey toLowerCase o t ∉ rest.map (nameKey toLowerCase o)
      · rw [unmatched, if_pos ⟨wanted, last⟩]
        refine ⟨ih.1, fun same => ?_⟩
        rw [List.map_cons, List.nodup_cons]
        exact ⟨fun again => last (List.filter_sublist.map _ |>.subset again), ih.2 same⟩
      · rw [unmatched, if_neg fun both => last both.2, List.length_cons]
        exact ⟨ih.1.trans (Nat.le_succ _), fun same => absurd (same ▸ ih.1) (Nat.not_succ_le_self _)⟩
    · rw [if_pos (by simpa using wanted), if_neg (by simpa using wanted), unmatched, if_neg fun both => wanted both.1,
        List.length_cons, List.length_cons]
      exact ⟨Nat.succ_le_succ ih.1, fun same => ih.2 (Nat.succ.inj same)⟩

end Unmatched

section Schemas
variable {toLowerCase : Text → Text} {o : DiffOptions} {source target : SchemaModel}

def schemaEntries (d : Pairs) : List (Pair SchemaNamespace × Option Text) :=
  (d.pairs.map fun p => (p.pair, some p.targetName)) ++ d.unmatched.map fun t => (.target t, none)

def sidesOf (d : Pairs) : List (Pair SchemaNamespace) := d.pairs.map (·.pair) ++ d.unmatched.map .target

theorem entrySides (d : Pairs) : (schemaEntries d).map Prod.fst = sidesOf d := by
  rw [schemaEntries, sidesOf, List.map_append, List.map_map, List.map_map]
  rfl

def mappedNames (toLowerCase : Text → Text) (o : DiffOptions) (source target : SchemaModel) : Text → Text :=
  mapNamespace toLowerCase o (pairNamespaces toLowerCase o source target).pairs

theorem schemaNamespaces : (diffSchemas toLowerCase o source target).namespaces =
    (schemaEntries (pairNamespaces toLowerCase o source target)).map fun e =>
      diffNamespace toLowerCase o (mappedNames toLowerCase o source target) e.2 e.1 := by
  rw [schemaEntries, List.map_append, List.map_map, List.map_map]
  rfl

theorem entriesMirrored {d e : Pairs} {map map' : Text → Text} (same : ((sidesOf d).map Pair.swap).Perm (sidesOf e))
    (agree : ∀ a b, .both a b ∈ sidesOf d → TablesAgree toLowerCase o map map' a b) :
    Multiset.Rel NamespaceMirrors
      ((schemaEntries d).map fun x => diffNamespace toLowerCase o map x.2 x.1 : List NamespaceDiff)
      ((schemaEntries e).map fun x => diffNamespace toLowerCase o map' x.2 x.1 : List NamespaceDiff) := by
  rw [← entrySides, ← entrySides, List.map_map, ← Multiset.coe_eq_coe, ← Multiset.map_coe, ← Multiset.map_coe,
    ← Multiset.rel_eq, Multiset.rel_map] at same
  rw [← Multiset.map_coe, ← Multiset.map_coe, Multiset.rel_map]
  refine same.mono fun x listed y _ turned => ?_
  rw [← show x.1.swap = y.1 from turned]
  refine namespaceMirrors x.2 y.2 fun a b both => agree a b ?_
  rw [← entrySides, ← both]
  exact List.mem_map_of_mem listed

theorem askedPlain (plain : o.namespaceMap = []) (ns : SchemaNamespace) : askedName toLowerCase o ns = ns.name := by
  rw [askedName, wantedName, plain]
  rfl

theorem linePair (plain : o.namespaceMap = []) (targets : List SchemaNamespace) (ns : SchemaNamespace) :
    (pairOne toLowerCase o targets ns).pair = lineOf (nameKey toLowerCase o) targets ns := by
  have lookup : targetOf toLowerCase o targets ns.name =
      NamedChanges.named (nameKey toLowerCase o) targets (nameKey toLowerCase o ns) := rfl
  rw [pairOne, askedPlain plain, lookup, lineOf]
  cases NamedChanges.named (nameKey toLowerCase o) targets (nameKey toLowerCase o ns) <;> rfl

def Sole (toLowerCase : Text → Text) (o : DiffOptions) (source target : SchemaModel) (a b : SchemaNamespace) : Prop :=
  source.namespaces = [a] ∧ target.namespaces = [b] ∧ nameKey toLowerCase o a ≠ nameKey toLowerCase o b

theorem namedApart {a b : SchemaNamespace} (apart : nameKey toLowerCase o a ≠ nameKey toLowerCase o b) :
    targetOf toLowerCase o [b] a.name = none := by
  simp [targetOf, Ne.symm apart]

theorem solePairs (plain : o.namespaceMap = []) {a b : SchemaNamespace} (sole : Sole toLowerCase o source target a b) :
    (pairNamespaces toLowerCase o source target).pairs = [⟨a, some b, b.name⟩] ∧
      (pairNamespaces toLowerCase o source target).unmatched = [] := by
  obtain ⟨left, right, apart⟩ := sole
  have alone : pairOne toLowerCase o [b] a = ⟨a, none, a.name⟩ := by
    rw [pairOne, askedPlain plain, namedApart apart]
    rfl
  have kept : unmatched toLowerCase o [nameKey toLowerCase o a] [b] = [b] := by
    rw [unmatched, if_neg fun both => apart (List.mem_singleton.mp both.1).symm]
    rfl
  rw [pairNamespaces, left, right, plain]
  simp only [List.map_cons, List.map_nil, alone, askedPlain plain, kept]
  exact ⟨trivial, trivial⟩

theorem plainPairs (plain : o.namespaceMap = []) (several : ∀ a b, ¬ Sole toLowerCase o source target a b) :
    (pairNamespaces toLowerCase o source target).pairs = source.namespaces.map (pairOne toLowerCase o target.namespaces) ∧
      (pairNamespaces toLowerCase o source target).unmatched =
        unmatched toLowerCase o (source.namespaces.map (nameKey toLowerCase o)) target.namespaces := by
  have asked : (source.namespaces.map fun ns => fold toLowerCase o (askedName toLowerCase o ns)) =
      source.namespaces.map (nameKey toLowerCase o) := by simp only [askedPlain plain]
  rw [pairNamespaces, asked]
  split
  · rename_i _ ps targets _
    obtain ⟨a, one, made⟩ := List.map_eq_singleton_iff.mp ps
    have missed : targetOf toLowerCase o target.namespaces (askedName toLowerCase o a) = none :=
      congrArg NamespacePair.target made
    rw [targets, askedPlain plain] at missed
    refine absurd ⟨one, targets, fun same => ?_⟩ (several a _)
    simp [targetOf, show fold toLowerCase o a.name = _ from same] at missed
  · exact ⟨rfl, rfl⟩

theorem plainSides (plain : o.namespaceMap = []) (several : ∀ a b, ¬ Sole toLowerCase o source target a b) :
    sidesOf (pairNamespaces toLowerCase o source target) =
      source.namespaces.map (lineOf (nameKey toLowerCase o) target.namespaces) ++
        (unmatched toLowerCase o (source.namespaces.map (nameKey toLowerCase o)) target.namespaces).map .target := by
  obtain ⟨ps, left⟩ := plainPairs plain several
  rw [sidesOf, ps, left, List.map_map]
  exact congrArg (· ++ _) (List.map_congr_left fun ns _ => linePair plain _ ns)

def NamesOnce (toLowerCase : Text → Text) (o : DiffOptions) (source target : SchemaModel) : Prop :=
  ((common (nameKey toLowerCase o) source.namespaces target.namespaces).map (nameKey toLowerCase o)).Nodup ∧
    ((common (nameKey toLowerCase o) target.namespaces source.namespaces).map (nameKey toLowerCase o)).Nodup

theorem onceSides (plain : o.namespaceMap = []) (several : ∀ a b, ¬ Sole toLowerCase o source target a b)
    (once : NamesOnce toLowerCase o source target) : sidesOf (pairNamespaces toLowerCase o source target) =
      lines (nameKey toLowerCase o) source.namespaces target.namespaces := by
  rw [plainSides plain several, unmatchedApart once.2]
  rfl

theorem soleSwap {a b : SchemaNamespace} (sole : Sole toLowerCase o source target a b) :
    Sole toLowerCase o target source b a := ⟨sole.2.1, sole.1, Ne.symm sole.2.2⟩

theorem sidesSwap (plain : o.namespaceMap = []) (once : NamesOnce toLowerCase o source target) :
    ((sidesOf (pairNamespaces toLowerCase o source target)).map Pair.swap).Perm
      (sidesOf (pairNamespaces toLowerCase o target source)) := by
  by_cases several : ∀ a b, ¬ Sole toLowerCase o source target a b
  · rw [onceSides plain several once, onceSides plain (fun a b sole => several b a (soleSwap sole)) once.symm]
    exact linesSwap once.1 once.2
  · simp only [not_forall, not_not] at several
    obtain ⟨a, b, sole⟩ := several
    obtain ⟨ps, left⟩ := solePairs plain sole
    obtain ⟨ps', left'⟩ := solePairs plain (soleSwap sole)
    rw [sidesOf, sidesOf, ps, left, ps', left']
    exact .refl _

end Schemas

section ForeignKeys
variable {toLowerCase : Text → Text} {o : DiffOptions} {map : Text → Text}

theorem refPlain (kept : ∀ n, fold toLowerCase o (map n) = fold toLowerCase o n) (named : ∀ n, n ≠ [] → map n ≠ [])
    (fk : ForeignKeyModel) : refTarget toLowerCase o map fk = refTarget toLowerCase o id fk := by
  unfold refTarget
  cases given : fk.refSchema.filter (· ≠ []) with
  | none => rfl
  | some n =>
    have full : n ≠ [] := by simpa using (Option.filter_eq_some_iff.mp given).2
    simp only [full, named n full, if_false, kept, id]

theorem keysPlain {map' : Text → Text} (left : ∀ fk, refTarget toLowerCase o map fk = refTarget toLowerCase o id fk)
    (right : ∀ fk, refTarget toLowerCase o map' fk = refTarget toLowerCase o id fk) (f g : ForeignKeyModel) :
    foreignKeyFields toLowerCase o map f g = [] ↔ foreignKeyFields toLowerCase o map' g f = [] := by
  have sym : Symmetrical (foreignKeyFields toLowerCase o id) :=
    appendSym (appendSym (appendSym (appendSym pushTextSym pushTextSym) pushTextSym) pushTextSym) pushTextSym
  have plainly : foreignKeyFields toLowerCase o map f g = foreignKeyFields toLowerCase o id f g := by
    rw [foreignKeyFields, left, foreignKeyFields]
  have plainly' : foreignKeyFields toLowerCase o map' g f = foreignKeyFields toLowerCase o id g f := by
    rw [foreignKeyFields, right, foreignKeyFields]
  rw [plainly, plainly']
  exact sym f g

variable {source target : SchemaModel}

theorem targetFolded (plain : o.namespaceMap = []) (targets : List SchemaNamespace) (ns : SchemaNamespace) :
    fold toLowerCase o (pairOne toLowerCase o targets ns).targetName = fold toLowerCase o ns.name := by
  rw [pairOne, askedPlain plain]
  cases found : targetOf toLowerCase o targets ns.name with
  | none => rfl
  | some t =>
    have last : NamedChanges.named (nameKey toLowerCase o) targets (nameKey toLowerCase o ns) = some t := found
    exact (NamedChanges.namedMem last).2

theorem mappedFolded (plain : o.namespaceMap = []) (several : ∀ a b, ¬ Sole toLowerCase o source target a b) (n : Text) :
    fold toLowerCase o (mappedNames toLowerCase o source target n) = fold toLowerCase o n := by
  rw [mappedNames, (plainPairs plain several).1, mapNamespace]
  cases found : (source.namespaces.map (pairOne toLowerCase o target.namespaces)).reverse.find? fun p =>
      fold toLowerCase o p.source.name = fold toLowerCase o n with
  | none => rfl
  | some p =>
    obtain ⟨ns, -, rfl⟩ := List.mem_map.mp (List.mem_reverse.mp (List.mem_of_find?_eq_some found))
    have same := List.find?_some found
    rw [Option.map_some, Option.getD_some, targetFolded plain]
    exact of_decide_eq_true same

theorem foldFull (empty : ∀ s, toLowerCase s = [] ↔ s = []) {n : Text} (full : n ≠ []) : fold toLowerCase o n ≠ [] := by
  unfold fold
  split
  · exact fun none => full ((empty n).mp none)
  · exact full

theorem foldEmpty (empty : ∀ s, toLowerCase s = [] ↔ s = []) : fold toLowerCase o [] = [] := by
  unfold fold
  split
  · exact (empty []).mpr rfl
  · rfl

theorem refMapped (empty : ∀ s, toLowerCase s = [] ↔ s = []) (plain : o.namespaceMap = [])
    (several : ∀ a b, ¬ Sole toLowerCase o source target a b) (fk : ForeignKeyModel) :
    refTarget toLowerCase o (mappedNames toLowerCase o source target) fk = refTarget toLowerCase o id fk := by
  have kept := mappedFolded plain several
  refine refPlain kept (fun n full none => ?_) fk
  have same := kept n
  rw [none, foldEmpty empty] at same
  exact foldFull empty full same.symm

def renamed (toLowerCase : Text → Text) (o : DiffOptions) (a b : SchemaNamespace) (n : Text) : Text :=
  if nameKey toLowerCase o a = fold toLowerCase o n then b.name else n

theorem mappedSole (plain : o.namespaceMap = []) {a b : SchemaNamespace} (sole : Sole toLowerCase o source target a b) :
    mappedNames toLowerCase o source target = renamed toLowerCase o a b := by
  funext n
  rw [mappedNames, (solePairs plain sole).1, mapNamespace, renamed, List.reverse_singleton, List.find?_singleton]
  simp only [decide_eq_true_eq]
  split <;> rfl

def KeysRenamed (toLowerCase : Text → Text) (o : DiffOptions) (source target : SchemaModel) : Prop :=
  ∀ a b, Sole toLowerCase o source target a b →
    TablesAgree toLowerCase o (renamed toLowerCase o a b) (renamed toLowerCase o b a) a b

theorem sidesAgree (empty : ∀ s, toLowerCase s = [] ↔ s = []) (plain : o.namespaceMap = [])
    (alike : KeysRenamed toLowerCase o source target) (a b : SchemaNamespace)
    (listed : .both a b ∈ sidesOf (pairNamespaces toLowerCase o source target)) :
    TablesAgree toLowerCase o (mappedNames toLowerCase o source target) (mappedNames toLowerCase o target source) a b := by
  by_cases several : ∀ a b, ¬ Sole toLowerCase o source target a b
  · intro s t _ f g _
    exact keysPlain (refMapped empty plain several) (refMapped empty plain fun a b sole => several b a (soleSwap sole)) f g
  · simp only [not_forall, not_not] at several
    obtain ⟨c, d, sole⟩ := several
    obtain ⟨ps, left⟩ := solePairs plain sole
    rw [sidesOf, ps, left] at listed
    obtain ⟨rfl, rfl⟩ : a = c ∧ b = d := by simpa [NamespacePair.pair] using listed
    rw [mappedSole plain sole, mappedSole plain (soleSwap sole)]
    exact alike a b sole

end ForeignKeys

section Symmetry
variable {toLowerCase : Text → Text} {o : DiffOptions} {source target : SchemaModel}

def Symmetric (toLowerCase : Text → Text) (o : DiffOptions) (source target : SchemaModel) : Prop :=
  Multiset.Rel NamespaceMirrors ((diffSchemas toLowerCase o source target).namespaces : Multiset NamespaceDiff)
      ((diffSchemas toLowerCase o target source).namespaces : Multiset NamespaceDiff) ∧
    (diffSchemas toLowerCase o target source).summary = swapCounts (diffSchemas toLowerCase o source target).summary

theorem symmetricOf (empty : ∀ s, toLowerCase s = [] ↔ s = []) (plain : o.namespaceMap = [])
    (once : NamesOnce toLowerCase o source target) (alike : KeysRenamed toLowerCase o source target) :
    Symmetric toLowerCase o source target := by
  have mirrored := entriesMirrored (sidesSwap plain once) (sidesAgree empty plain alike)
  rw [← schemaNamespaces, ← schemaNamespaces] at mirrored
  exact ⟨mirrored, summaryExchanged mirrored⟩

section Counts

def statuses (toLowerCase : Text → Text) (o : DiffOptions) (source target : SchemaModel) : List DiffStatus :=
  (diffSchemas toLowerCase o source target).namespaces.map (·.status)

theorem statusCount {status : DiffStatus} {test : Pair SchemaNamespace → Bool}
    (each : ∀ p changed, (statusFor p changed == status) = test p) :
    (statuses toLowerCase o source target).count status =
      (sidesOf (pairNamespaces toLowerCase o source target)).countP test := by
  rw [statuses, schemaNamespaces, ← entrySides, List.count, List.map_map, List.countP_map, List.countP_map]
  exact List.countP_congr fun e _ => Bool.eq_iff_iff.mp (each e.1 _)

theorem plainAdded (plain : o.namespaceMap = []) (several : ∀ a b, ¬ Sole toLowerCase o source target a b) :
    (statuses toLowerCase o source target).count .added =
      (apart (nameKey toLowerCase o) source.namespaces target.namespaces).length := by
  have each (p : Pair SchemaNamespace) (changed : Bool) : (statusFor p changed == .added) = p.sides.2.isNone := by
    cases p <;> cases changed <;> rfl
  have none' : ((unmatched toLowerCase o (source.namespaces.map (nameKey toLowerCase o)) target.namespaces).map
      Pair.target).countP (·.sides.2.isNone) = 0 := by
    rw [List.countP_map]
    exact List.countP_eq_zero.mpr nofun
  rw [statusCount each, plainSides plain several, List.countP_append, linesAlone, none', Nat.add_zero]

theorem plainRemoved (plain : o.namespaceMap = []) (several : ∀ a b, ¬ Sole toLowerCase o source target a b) :
    (statuses toLowerCase o source target).count .removed =
      (unmatched toLowerCase o (source.namespaces.map (nameKey toLowerCase o)) target.namespaces).length := by
  have each (p : Pair SchemaNamespace) (changed : Bool) : (statusFor p changed == .removed) = p.sides.1.isNone := by
    cases p <;> cases changed <;> rfl
  rw [statusCount each, plainSides plain several, List.countP_append, List.countP_map, List.countP_map]
  have none' : source.namespaces.countP ((fun p : Pair SchemaNamespace => p.sides.1.isNone) ∘
      lineOf (nameKey toLowerCase o) target.namespaces) = 0 := by
    refine List.countP_eq_zero.mpr fun s _ => ?_
    rw [Function.comp_apply, lineOf]
    split <;> exact Bool.false_ne_true
  rw [none', Nat.zero_add]
  exact List.countP_eq_length.mpr fun _ _ => rfl

end Counts

theorem symmetricOnce (plain : o.namespaceMap = []) (symmetric : Symmetric toLowerCase o source target) :
    NamesOnce toLowerCase o source target := by
  have turned : (statuses toLowerCase o target source).Perm ((statuses toLowerCase o source target).map exchanged) :=
    relMaps (fun _ _ related => related.status) symmetric.1
  obtain ⟨added, removed, -⟩ := DiffCounts.mk.inj (countsExchanged turned)
  by_cases several : ∀ a b, ¬ Sole toLowerCase o source target a b
  · have several' (a b : SchemaNamespace) : ¬ Sole toLowerCase o target source a b := fun sole => several b a (soleSwap sole)
    have left := (plainAdded plain several').symm.trans (added.trans (plainRemoved plain several))
    have right := (plainRemoved plain several').symm.trans (removed.trans (plainAdded plain several))
    exact ⟨unmatchedLength.2 right, unmatchedLength.2 left.symm⟩
  · simp only [not_forall, not_not] at several
    obtain ⟨a, b, left, right, differ⟩ := several
    rw [NamesOnce, left, right]
    simp [common, differ, Ne.symm differ]

theorem sidesBoth {α : Type} {q : Pair α} {a b : α} (left : q.sides.1 = some b) (right : q.sides.2 = some a) :
    q = .both b a := by
  cases q with
  | both c d =>
    cases left
    cases right
    rfl
  | source c => exact absurd right nofun
  | target d => exact absurd left nofun

theorem entryUnturned {α : Type} {nameOf : α → Text} {compare compare' : α → α → List FieldDiff} {a b : α}
    (mirrors : Mirrors (entryOf nameOf compare (.both a b)) (entryOf nameOf compare' (.both b a))) :
    compare a b = [] ↔ compare' b a = [] := by
  have status (compare : α → α → List FieldDiff) (c d : α) : (entryOf nameOf compare (.both c d)).status =
      if compare c d = [] then .same else .changed := by
    by_cases same : compare c d = [] <;> simp [entryOf, fieldsOf, statusFor, same]
  have turned := mirrors.status
  rw [status, status] at turned
  by_cases left : compare a b = [] <;> by_cases right : compare' b a = [] <;> simp [left, right, exchanged] at turned ⊢

theorem symmetricKeys (plain : o.namespaceMap = []) (symmetric : Symmetric toLowerCase o source target) :
    KeysRenamed toLowerCase o source target := by
  intro a b sole s t listed f g listed'
  have spaces (source target : SchemaModel) (a b : SchemaNamespace) (sole : Sole toLowerCase o source target a b) :
      (diffSchemas toLowerCase o source target).namespaces =
        [diffNamespace toLowerCase o (renamed toLowerCase o a b) (some b.name) (.both a b)] := by
    rw [schemaNamespaces, schemaEntries, (solePairs plain sole).1, (solePairs plain sole).2, mappedSole plain sole]
    rfl
  have mirrored := symmetric.1
  rw [spaces source target a b sole, spaces target source b a (soleSwap sole)] at mirrored
  obtain ⟨_, only, mirrors⟩ := Multiset.exists_mem_of_rel_of_mem mirrored (List.mem_singleton_self _)
  rw [List.mem_singleton.mp only] at mirrors
  obtain ⟨_, entry, tableTurned⟩ := Multiset.exists_mem_of_rel_of_mem mirrors.tables
    ((entriesPerm (some b.name) (.both a b)).mem_iff.mpr (List.mem_map_of_mem listed))
  obtain ⟨q, -, rfl⟩ := List.mem_map.mp ((entriesPerm (some a.name) (.both b a)).mem_iff.mp entry)
  cases sidesBoth tableTurned.table.source tableTurned.table.target
  obtain ⟨_, keyEntry, keyTurned⟩ := Multiset.exists_mem_of_rel_of_mem tableTurned.foreignKeys
    (List.mem_map_of_mem listed')
  obtain ⟨r, -, rfl⟩ := List.mem_map.mp keyEntry
  cases sidesBoth keyTurned.source keyTurned.target
  exact entryUnturned keyTurned

end Symmetry

section Self
variable {toLowerCase : Text → Text} {o : DiffOptions} {map : Text → Text}

theorem aspectsSelf (c : ColumnModel) : columnAspects toLowerCase c c = [] := by
  simp [columnAspects, sameTypeSelf, sameDefaultSelf]

theorem columnSelf (c : ColumnModel) : columnFields toLowerCase o c c = [] := by rw [columnFields, aspectsSelf]; rfl

theorem indexSelf (i : IndexModel) : indexFields toLowerCase o i i = [] := by simp [indexFields, pushBool]

theorem checkSelf (c : CheckModel) : checkFields c c = [] := by simp [checkFields]

theorem foreignKeySelf (kept : ∀ fk, refTarget toLowerCase o map fk = refTarget toLowerCase o id fk) (f : ForeignKeyModel) :
    foreignKeyFields toLowerCase o map f f = [] := by simp [foreignKeyFields, kept, pushBool]

theorem routineSelf (r : RoutineModel) : routineFields o r r = [] := by simp [routineFields, pushBool]

theorem sequenceSelf (s : SequenceModel) : sequenceFields s s = [] := by simp [sequenceFields, pushBool]

theorem enumSelf (e : EnumTypeModel) : enumFields e e = [] := by simp [enumFields]

theorem triggerSelf (t : TriggerModel) : triggerFields toLowerCase o t t = [] := by simp [triggerFields]

theorem entrySelf (t : TableModel) : entryFields toLowerCase o t t = [] := by
  simp [entryFields, tableFields, keyFields, orderFields, columnOrderDiffers]

section Entries
variable {α : Type} {key : α → Text} {nameOf : α → Text} {compare : α → α → List FieldDiff} {items : List α}

theorem pairsSame (self : ∀ x, compare x x = []) :
    ∀ e ∈ (pairs key items items).map (entryOf nameOf compare), e.status = .same := by
  intro e listed
  obtain ⟨p, inside, rfl⟩ := List.mem_map.mp listed
  obtain ⟨x, -, rfl⟩ := KeyPairing.pairsSelf inside
  simp [entryOf, fieldsOf, self x, statusFor]

theorem sameDiffering {entries : List (ObjectDiff α)} (same : ∀ e ∈ entries, e.status = .same) :
    differing entries = false := by
  refine List.any_eq_false.mpr fun e listed => ?_
  simp [same e listed]

end Entries

theorem tableSelf (kept : ∀ fk, refTarget toLowerCase o map fk = refTarget toLowerCase o id fk) (t : TableModel) :
    (diffTableEntry toLowerCase o map (.both t t)).status = .same := by
  have columns : differing (diffColumns toLowerCase o (.both t t)) = false := sameDiffering (pairsSame columnSelf)
  have indexes : differing (diffIndexes toLowerCase o (.both t t)) = false := sameDiffering (pairsSame indexSelf)
  have checks : differing (diffChecks toLowerCase o (.both t t)) = false := sameDiffering (pairsSame checkSelf)
  have foreignKeys : differing (diffForeignKeys toLowerCase o map (.both t t)) = false :=
    sameDiffering (pairsSame (foreignKeySelf kept))
  rw [tableStatus, tableChanged, columns, indexes, checks, foreignKeys, fieldsOf, entrySelf]
  rfl

theorem tablesSelf (kept : ∀ fk, refTarget toLowerCase o map fk = refTarget toLowerCase o id fk) (a : SchemaNamespace) :
    ∀ e ∈ tableEntries toLowerCase o map (.both a a), e.status = .same := by
  intro e listed
  obtain ⟨p, inside, rfl⟩ := List.mem_map.mp listed
  obtain ⟨t, -, rfl⟩ := KeyPairing.pairsSelf inside
  exact tableSelf kept t

theorem objectsSelf (kept : ∀ fk, refTarget toLowerCase o map fk = refTarget toLowerCase o id fk) (hint : Option Text)
    (a : SchemaNamespace) : ∀ status ∈ objectStatuses (diffNamespace toLowerCase o map hint (.both a a)), status = .same := by
  intro status listed
  simp only [objectStatuses, List.mem_append, List.mem_map, or_assoc] at listed
  obtain ⟨e, inside, rfl⟩ | ⟨e, inside, rfl⟩ | ⟨e, inside, rfl⟩ | ⟨e, inside, rfl⟩ | ⟨e, inside, rfl⟩ := listed
  · exact tablesSelf kept a e ((entriesPerm hint (.both a a)).mem_iff.mp (List.mem_append.mpr inside))
  · exact pairsSame routineSelf e inside
  · exact pairsSame sequenceSelf e inside
  · exact pairsSame enumSelf e inside
  · exact pairsSame triggerSelf e inside

theorem namespaceSelf (kept : ∀ fk, refTarget toLowerCase o map fk = refTarget toLowerCase o id fk) (hint : Option Text)
    (a : SchemaNamespace) : (diffNamespace toLowerCase o map hint (.both a a)).status = .same := by
  have tables : differing ((tableEntries toLowerCase o map (.both a a)).map (·.toObjectDiff)) = false :=
    sameDiffering fun e listed => by
      obtain ⟨t, inside, rfl⟩ := List.mem_map.mp listed
      exact tablesSelf kept a t inside
  have routines : differing (routineEntries toLowerCase o (.both a a)) = false := sameDiffering (pairsSame routineSelf)
  have sequences : differing (sequenceEntries toLowerCase o (.both a a)) = false := sameDiffering (pairsSame sequenceSelf)
  have enums : differing (enumEntries toLowerCase o (.both a a)) = false := sameDiffering (pairsSame enumSelf)
  have triggers : differing (triggerEntries toLowerCase o (.both a a)) = false := sameDiffering (pairsSame triggerSelf)
  have fields : namespaceFields o a a = [] := by simp [namespaceFields]
  have changed : namespaceChanged toLowerCase o map (.both a a) = false := by
    rw [namespaceChanged, tables, routines, sequences, enums, triggers, fieldsOf, fields]
    rfl
  exact (congrArg (statusFor (.both a a)) changed).trans rfl

end Self

section Reflexive
variable {toLowerCase : Text → Text} {o : DiffOptions} {m : SchemaModel}

def Unchanged (d : SchemaDiff) : Prop :=
  hasChanges d = false ∧ ∀ ns ∈ d.namespaces, ns.status = .same ∧ ∀ status ∈ objectStatuses ns, status = .same

theorem selfSeveral (a b : SchemaNamespace) : ¬ Sole toLowerCase o m m a b := by
  intro sole
  obtain ⟨left, right, differ⟩ := sole
  rw [left] at right
  cases right
  exact differ rfl

theorem summaryNone {namespaces : List NamespaceDiff} (same : ∀ ns ∈ namespaces, ns.status = .same ∧
    ∀ status ∈ objectStatuses ns, status = .same) : summaryOf namespaces = ⟨0, 0, 0⟩ := by
  have zero (ns : NamespaceDiff) (inside : ns ∈ namespaces) : countStatuses (objectStatuses ns) = ⟨0, 0, 0⟩ := by
    have absent (status : DiffStatus) (other : status ≠ .same) : (objectStatuses ns).count status = 0 :=
      List.count_eq_zero.mpr fun listed => other ((same ns inside).2 status listed)
    rw [countStatuses, absent .added nofun, absent .removed nofun, absent .changed nofun]
  have own (status : DiffStatus) (other : status ≠ .same) : (namespaces.map (·.status)).count status = 0 := by
    refine List.count_eq_zero.mpr fun listed => ?_
    obtain ⟨ns, inside, rfl⟩ := List.mem_map.mp listed
    exact other (same ns inside).1
  have total (counts : List DiffCounts) (none' : ∀ c ∈ counts, c = ⟨0, 0, 0⟩) : counts.foldl addCounts ⟨0, 0, 0⟩ = ⟨0, 0, 0⟩ := by
    induction counts with
    | nil => rfl
    | cons c rest ih =>
      obtain ⟨rfl, later⟩ := List.forall_mem_cons.mp none'
      exact ih later
  rw [summaryOf, total, own .added nofun, own .removed nofun]
  · rfl
  · intro c listed
    obtain ⟨ns, inside, rfl⟩ := List.mem_map.mp listed
    exact zero ns inside

theorem commonSelf {α κ : Type} [DecidableEq κ] {key : α → κ} (items : List α) : common key items items = items := by
  refine List.filter_eq_self.mpr fun x inside => ?_
  exact decide_eq_true (List.mem_map_of_mem inside)

theorem apartSelf {α κ : Type} [DecidableEq κ] {key : α → κ} (items : List α) : apart key items items = [] := by
  refine List.filter_eq_nil_iff.mpr fun x inside => ?_
  simpa using ⟨x, inside, rfl⟩

theorem unchangedOf (empty : ∀ s, toLowerCase s = [] ↔ s = []) (plain : o.namespaceMap = [])
    (distinct : (m.namespaces.map (nameKey toLowerCase o)).Nodup) : Unchanged (diffSchemas toLowerCase o m m) := by
  have sides : ∀ p ∈ sidesOf (pairNamespaces toLowerCase o m m), ∃ a, p = .both a a := by
    intro p listed
    rw [plainSides plain selfSeveral, unmatchedApart (by rwa [commonSelf]), apartSelf, List.map_nil, List.append_nil] at listed
    obtain ⟨a, inside, rfl⟩ := List.mem_map.mp listed
    refine ⟨a, ?_⟩
    rw [lineOf, NamedChanges.namedOf distinct inside]
  have kept (fk : ForeignKeyModel) :
      refTarget toLowerCase o (mappedNames toLowerCase o m m) fk = refTarget toLowerCase o id fk :=
    refMapped empty plain selfSeveral fk
  have same : ∀ ns ∈ (diffSchemas toLowerCase o m m).namespaces, ns.status = .same ∧
      ∀ status ∈ objectStatuses ns, status = .same := by
    intro ns listed
    rw [schemaNamespaces] at listed
    obtain ⟨e, inside, rfl⟩ := List.mem_map.mp listed
    obtain ⟨a, own⟩ := sides e.1 (entrySides _ ▸ List.mem_map_of_mem inside)
    rw [own]
    exact ⟨namespaceSelf kept e.2 a, objectsSelf kept e.2 a⟩
  have summary : (diffSchemas toLowerCase o m m).summary = ⟨0, 0, 0⟩ := summaryNone same
  refine ⟨?_, same⟩
  rw [hasChanges, summary]
  rfl

theorem unchangedDistinct (plain : o.namespaceMap = []) (unchanged : Unchanged (diffSchemas toLowerCase o m m)) :
    (m.namespaces.map (nameKey toLowerCase o)).Nodup := by
  have none' : (diffSchemas toLowerCase o m m).summary.removed = 0 := by
    have still := unchanged.1
    simp only [hasChanges, decide_eq_false_iff_not] at still
    omega
  have removed : (statuses toLowerCase o m m).count .removed = 0 := Nat.eq_zero_of_add_eq_zero_left none'
  rw [plainRemoved plain selfSeveral] at removed
  have once := unmatchedLength.2 (removed.trans (congrArg List.length (apartSelf m.namespaces)).symm)
  rwa [commonSelf] at once

end Reflexive

section Results

-- A folded name that two namespaces of a side share is matched twice or left over, and the renaming of one side's
-- references is not the renaming of the other's.
theorem comparedSides (toLowerCase : Text → Text) (empty : ∀ s, toLowerCase s = [] ↔ s = []) (o : DiffOptions)
    (plain : o.namespaceMap = []) (source target : SchemaModel) :
    (Symmetric toLowerCase o source target ↔
        NamesOnce toLowerCase o source target ∧ KeysRenamed toLowerCase o source target) ∧
      ∀ m, Unchanged (diffSchemas toLowerCase o m m) ↔ (m.namespaces.map (nameKey toLowerCase o)).Nodup :=
  ⟨⟨fun symmetric => ⟨symmetricOnce plain symmetric, symmetricKeys plain symmetric⟩,
      fun both => symmetricOf empty plain both.1 both.2⟩,
    fun _ => ⟨unchangedDistinct plain, unchangedOf empty plain⟩⟩

def emptyNamespace (name : String) : SchemaNamespace := ⟨units name, none, [], [], [], [], []⟩

def spaces (names : List String) : SchemaModel := ⟨.postgres, names.map emptyNamespace⟩

def foldingOptions : DiffOptions := ⟨true, false, false, false, []⟩

theorem loweredEmpty (s : Text) : s.map lowerUnit = [] ↔ s = [] := List.map_eq_nil_iff

theorem appCompared : (Symmetric (·.map lowerUnit) foldingOptions (spaces ["App"]) (spaces ["app", "log"]) ↔
      NamesOnce (·.map lowerUnit) foldingOptions (spaces ["App"]) (spaces ["app", "log"]) ∧
        KeysRenamed (·.map lowerUnit) foldingOptions (spaces ["App"]) (spaces ["app", "log"])) ∧
    ∀ m, Unchanged (diffSchemas (·.map lowerUnit) foldingOptions m m) ↔
      (m.namespaces.map (nameKey (·.map lowerUnit) foldingOptions)).Nodup :=
  comparedSides (·.map lowerUnit) loweredEmpty foldingOptions rfl (spaces ["App"]) (spaces ["app", "log"])

theorem casedNamespaceRemoved : ¬ ∀ (toLowerCase : Text → Text), (∀ s, toLowerCase s = [] ↔ s = []) → ∀ o : DiffOptions,
    o.namespaceMap = [] → (∀ source target, Symmetric toLowerCase o source target) ∧
      ∀ m, Unchanged (diffSchemas toLowerCase o m m) := by
  intro all
  have still := ((all (·.map lowerUnit) loweredEmpty foldingOptions rfl).2 (spaces ["App", "app"])).1
  have differs : hasChanges (diffSchemas (·.map lowerUnit) foldingOptions (spaces ["App", "app"]) (spaces ["App", "app"])) = true := by
    decide +kernel
  exact Bool.false_ne_true (still.symm.trans differs)

end Results

end DatabaseAdmin.ComparedSides
