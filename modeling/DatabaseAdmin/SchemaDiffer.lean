import Mathlib.Data.List.Lex
import DatabaseAdmin.KeyPairing
import DatabaseAdmin.SchemaDiffs

/-! Comparing two schema models: items are paired on their folded names, and a pair differs in the fields whose
texts do. -/
namespace DatabaseAdmin.SchemaDiffer
open CodeUnits SchemaModels MigrationScripts DdlCommon SchemaDiffs
open KeyPairing (Pair pairs)

section Texts

def fold (toLowerCase : Text → Text) (o : DiffOptions) (name : Text) : Text :=
  if o.ignoreCase then toLowerCase name else name

def wrappedFrom : Nat → Option CodeUnit → Text → Bool
  | depth, _, [] => depth = 0
  | depth, some quote, c :: rest => wrappedFrom depth (if c = quote then none else some quote) rest
  | depth, none, c :: rest =>
      if isQuote c then wrappedFrom depth (some c) rest
      else if c = 40 then wrappedFrom (depth + 1) none rest
      else if c = 41 then !(depth = 1 && !rest.isEmpty) && wrappedFrom (depth - 1) none rest
      else wrappedFrom depth none rest

def isFullyWrapped (s : Text) : Bool := s.head? = some 40 && s.getLast? = some 41 && wrappedFrom 0 none s

def peel : Nat → Text → Text
  | 0, t => t
  | fuel + 1, t => if isFullyWrapped t then peel fuel (normalizeSpace (t.drop 1).dropLast) else t

def unwrapped (s : Text) : Text := peel s.length (normalizeSpace s)

def normalizeConstraint (s : Option Text) : Option Text := (s.map unwrapped).filter (· ≠ [])

def text (v : Option Text) : Option Text := (v.map trim).filter (· ≠ [])

def push (field : Field) (source target : Option Text) : List FieldDiff :=
  if source = target then [] else [⟨field, source, target⟩]

def pushText (field : Field) (source target : Text) : List FieldDiff := push field (some source) (some target)

def yesNo (b : Bool) : Text := units (if b then "yes" else "no")

def pushBool (field : Field) (source target : Bool) : List FieldDiff := pushText field (yesNo source) (yesNo target)

def join (texts : List Text) : Text := (units ", ").intercalate texts

end Texts

section Names

def kindName : TableKind → String
  | .table => "table"
  | .view => "view"
  | .materializedView => "materialized_view"
  | .foreignTable => "foreign_table"
  | .system => "system"

def routineKindName : RoutineKind → String
  | .function => "function"
  | .procedure => "procedure"

def actionName : ReferentialAction → String
  | .noAction => "no action"
  | .restrict => "restrict"
  | .cascade => "cascade"
  | .setNull => "set null"
  | .setDefault => "set default"

def timingName : TriggerTiming → String
  | .before => "before"
  | .after => "after"
  | .insteadOf => "instead of"

def eventName : TriggerEvent → String
  | .insert => "insert"
  | .update => "update"
  | .delete => "delete"
  | .truncate => "truncate"

def orientationName : TriggerOrientation → String
  | .row => "row"
  | .statement => "statement"

end Names

section Entries
variable {α : Type}

def statusFor (p : Pair α) (changed : Bool) : DiffStatus :=
  match p with
  | .both _ _ => if changed then .changed else .same
  | .source _ => .added
  | .target _ => .removed

theorem statusSided (p : Pair α) (changed : Bool) :
    Sided (statusFor p changed) p.sides.1.isSome p.sides.2.isSome := by
  cases p with
  | both s t => cases changed <;> exact ⟨rfl, rfl⟩
  | source s => exact ⟨rfl, rfl⟩
  | target t => exact ⟨rfl, rfl⟩

def fieldsOf (compare : α → α → List FieldDiff) : Pair α → List FieldDiff
  | .both s t => compare s t
  | _ => []

def entryOf (nameOf : α → Text) (compare : α → α → List FieldDiff) (p : Pair α) : ObjectDiff α where
  name := nameOf p.item
  status := statusFor p (fieldsOf compare p ≠ [])
  source := p.sides.1
  target := p.sides.2
  fields := fieldsOf compare p
  sided := statusSided p _

def itemsOf {β : Type} (items : α → List β) (side : Option α) : List β := (side.map items).getD []

end Entries

section Tables
variable (toLowerCase : Text → Text) (o : DiffOptions)

def columnFields (source target : ColumnModel) : List FieldDiff :=
  (columnAspects toLowerCase target source).filterMap fun aspect =>
    if o.ignoreCollation ∧ (aspect = .collation ∨ aspect = .charset) ∨ o.ignoreComments ∧ aspect = .comment then none
    else some ⟨.aspect aspect, none, none⟩

def diffColumns (p : Pair TableModel) : List (ObjectDiff ColumnModel) :=
  (pairs (fun c : ColumnModel => fold toLowerCase o c.name) (itemsOf orderedColumns p.sides.1)
    (itemsOf orderedColumns p.sides.2)).map (entryOf (·.name) (columnFields toLowerCase o))

def indexMethod (idx : IndexModel) : Text :=
  let m := toLowerCase (idx.method.getD [])
  if m = [] then units "btree" else m

def renderIndexColumn (c : IndexColumn) : Text :=
  (match c.expression.filter (· ≠ []) with
    | some expression => units "(" ++ normalizeSpace expression ++ units ")"
    | none => fold toLowerCase o (c.name.getD [])) ++
  (match c.length.filter (· ≠ 0) with
    | some length => units "(" ++ units (toString length) ++ units ")"
    | none => []) ++
  (if c.order = some .desc then units " DESC" else []) ++
  match c.nulls with
  | some .first => units " NULLS FIRST"
  | some .last => units " NULLS LAST"
  | none => []

def renderIndexColumns (idx : IndexModel) : Text := join (idx.columns.map (renderIndexColumn toLowerCase o))

def indexSignature (idx : IndexModel) : Text :=
  (units "~").intercalate [if idx.primary then units "p" else [], if idx.unique then units "u" else [],
    indexMethod toLowerCase idx, (normalizeConstraint idx.predicate).getD [], renderIndexColumns toLowerCase o idx]

def indexFields (source target : IndexModel) : List FieldDiff :=
  pushText .columns (renderIndexColumns toLowerCase o source) (renderIndexColumns toLowerCase o target) ++
    pushBool .unique source.unique target.unique ++
    pushText .method (indexMethod toLowerCase source) (indexMethod toLowerCase target) ++
    push .predicate (normalizeConstraint source.predicate) (normalizeConstraint target.predicate) ++
    if o.ignoreComments then [] else push .comment (text source.comment) (text target.comment)

def indexKey (i : IndexModel) : Text :=
  if o.ignoreIndexNames then indexSignature toLowerCase o i else fold toLowerCase o i.name

def secondary (t : TableModel) : List IndexModel := t.indexes.filter (!·.primary)

def diffIndexes (p : Pair TableModel) : List (ObjectDiff IndexModel) :=
  (pairs (indexKey toLowerCase o) (itemsOf secondary p.sides.1) (itemsOf secondary p.sides.2)).map
    (entryOf (·.name) (indexFields toLowerCase o))

def refTarget (mapNamespace : Text → Text) (fk : ForeignKeyModel) : Text :=
  let schema := match fk.refSchema.filter (· ≠ []) with
    | some name => mapNamespace name
    | none => []
  (if schema = [] then [] else fold toLowerCase o schema ++ units ".") ++ fold toLowerCase o fk.refTable ++
    units " (" ++ join (fk.refColumns.map (fold toLowerCase o)) ++ units ")"

def action (a : Option ReferentialAction) : Text := units (actionName (a.getD .noAction))

def foreignKeyFields (mapNamespace : Text → Text) (source target : ForeignKeyModel) : List FieldDiff :=
  pushText .columns (join (source.columns.map (fold toLowerCase o))) (join (target.columns.map (fold toLowerCase o))) ++
    pushText .references (refTarget toLowerCase o mapNamespace source) (refTarget toLowerCase o id target) ++
    pushText .onUpdate (action source.onUpdate) (action target.onUpdate) ++
    pushText .onDelete (action source.onDelete) (action target.onDelete) ++
    pushBool .deferrable source.deferrable target.deferrable

def diffForeignKeys (mapNamespace : Text → Text) (p : Pair TableModel) : List (ObjectDiff ForeignKeyModel) :=
  (pairs (fun f : ForeignKeyModel => fold toLowerCase o f.name) (itemsOf (·.foreignKeys) p.sides.1)
    (itemsOf (·.foreignKeys) p.sides.2)).map (entryOf (·.name) (foreignKeyFields toLowerCase o mapNamespace))

def checkFields (source target : CheckModel) : List FieldDiff :=
  push .expression (normalizeConstraint (some source.expression)) (normalizeConstraint (some target.expression))

def diffChecks (p : Pair TableModel) : List (ObjectDiff CheckModel) :=
  (pairs (fun c : CheckModel => fold toLowerCase o c.name) (itemsOf (·.checks) p.sides.1)
    (itemsOf (·.checks) p.sides.2)).map (entryOf (·.name) checkFields)

def tableFields (source target : TableModel) : List FieldDiff :=
  pushText .kind (units (kindName source.kind)) (units (kindName target.kind)) ++
    (if o.ignoreComments then [] else push .comment (text source.comment) (text target.comment)) ++
    (if o.ignoreCollation then [] else push .collation (text source.collation) (text target.collation)) ++
    push .engine (text source.engine) (text target.engine) ++
    push .partitioning (text source.partitioning) (text target.partitioning) ++
    if isViewKind source.kind || isViewKind target.kind then
      push .definition (normalizeBody source.definition) (normalizeBody target.definition)
    else []

def columnNames (t : TableModel) : List Text := (orderedColumns t).map fun c => fold toLowerCase o c.name

def columnOrderDiffers (source target : TableModel) : Bool :=
  let a := (columnNames toLowerCase o source).filter (· ∈ columnNames toLowerCase o target)
  let b := (columnNames toLowerCase o target).filter (· ∈ columnNames toLowerCase o source)
  comma.intercalate a ≠ comma.intercalate b

def foldedKey (t : TableModel) : Text := join (t.primaryKey.map (fold toLowerCase o))

def keyFields (source target : TableModel) : List FieldDiff :=
  let spk := foldedKey toLowerCase o source
  let tpk := foldedKey toLowerCase o target
  if spk = tpk then []
  else [⟨.primaryKey, if spk = [] then none else some spk, if tpk = [] then none else some tpk⟩]

def orderFields (source target : TableModel) : List FieldDiff :=
  if columnOrderDiffers toLowerCase o source target then
    [⟨.columnOrder, some (join ((orderedColumns source).map (·.name))), some (join ((orderedColumns target).map (·.name)))⟩]
  else []

def entryFields (source target : TableModel) : List FieldDiff :=
  tableFields o source target ++ keyFields toLowerCase o source target ++ orderFields toLowerCase o source target

def differing {α : Type} (items : List (ObjectDiff α)) : Bool := items.any (·.status ≠ .same)

def tableChanged (mapNamespace : Text → Text) (p : Pair TableModel) : Bool :=
  fieldsOf (entryFields toLowerCase o) p ≠ [] || differing (diffColumns toLowerCase o p) ||
    differing (diffIndexes toLowerCase o p) || differing (diffForeignKeys toLowerCase o mapNamespace p) ||
    differing (diffChecks toLowerCase o p)

def diffTableEntry (mapNamespace : Text → Text) (p : Pair TableModel) : TableDiffEntry where
  name := p.item.name
  status := statusFor p (tableChanged toLowerCase o mapNamespace p)
  source := p.sides.1
  target := p.sides.2
  fields := fieldsOf (entryFields toLowerCase o) p
  sided := statusSided p _
  tableKind := p.item.kind
  columns := diffColumns toLowerCase o p
  indexes := diffIndexes toLowerCase o p
  foreignKeys := diffForeignKeys toLowerCase o mapNamespace p
  checks := diffChecks toLowerCase o p
  primaryKey := match p with
    | .both s t => if keyFields toLowerCase o s t = [] then none else some ⟨s.primaryKey, t.primaryKey⟩
    | _ => none
  columnOrderChanged := match p with
    | .both s t => columnOrderDiffers toLowerCase o s t
    | _ => false

variable {mapNamespace : Text → Text} {p : Pair TableModel}

@[simp] theorem tableStatus : (diffTableEntry toLowerCase o mapNamespace p).status =
    statusFor p (tableChanged toLowerCase o mapNamespace p) := rfl

@[simp] theorem tableSource : (diffTableEntry toLowerCase o mapNamespace p).source = p.sides.1 := rfl

@[simp] theorem tableTarget : (diffTableEntry toLowerCase o mapNamespace p).target = p.sides.2 := rfl

@[simp] theorem tableColumns : (diffTableEntry toLowerCase o mapNamespace p).columns = diffColumns toLowerCase o p := rfl

end Tables

section Namespaces
variable (toLowerCase : Text → Text) (o : DiffOptions)

def routineFields (source target : RoutineModel) : List FieldDiff :=
  pushText .kind (units (routineKindName source.kind)) (units (routineKindName target.kind)) ++
    push .language (text source.language) (text target.language) ++
    push .returnType (text source.returnType) (text target.returnType) ++
    pushText .arguments (normalizeSpace (source.arguments.getD [])) (normalizeSpace (target.arguments.getD [])) ++
    push .definition (normalizeBody source.definition) (normalizeBody target.definition) ++
    pushBool .deterministic source.deterministic target.deterministic ++
    if o.ignoreComments then [] else push .comment (text source.comment) (text target.comment)

def sequenceFields (source target : SequenceModel) : List FieldDiff :=
  push .start (text source.start) (text target.start) ++
    push .increment (text source.increment) (text target.increment) ++
    push .minValue (text source.minValue) (text target.minValue) ++
    push .maxValue (text source.maxValue) (text target.maxValue) ++
    pushBool .cycle source.cycle target.cycle ++
    push .ownedBy (text source.ownedBy) (text target.ownedBy)

def enumFields (source target : EnumTypeModel) : List FieldDiff :=
  pushText .values (join source.values) (join target.values)

def sortedEvents (t : TriggerModel) : Text :=
  join ((t.events.map fun event => units (eventName event)).insertionSort (· ≤ ·))

def orientation (t : TriggerModel) : Text := units (orientationName (t.orientation.getD .row))

def triggerFields (source target : TriggerModel) : List FieldDiff :=
  pushText .table (fold toLowerCase o source.table) (fold toLowerCase o target.table) ++
    pushText .timing (units (timingName source.timing)) (units (timingName target.timing)) ++
    pushText .events (sortedEvents source) (sortedEvents target) ++
    pushText .orientation (orientation source) (orientation target) ++
    push .condition (normalizeConstraint source.condition) (normalizeConstraint target.condition) ++
    push .statement (normalizeBody source.statement) (normalizeBody target.statement)

def diffSimple {α : Type} (nameOf : α → Text) (compare : α → α → List FieldDiff) (source target : List α) :
    List (ObjectDiff α) :=
  (pairs (fun x => fold toLowerCase o (nameOf x)) source target).map (entryOf nameOf compare)

def namespaceFields (source target : SchemaNamespace) : List FieldDiff :=
  if o.ignoreComments then [] else push .comment (text source.comment) (text target.comment)

def tableEntries (mapNamespace : Text → Text) (p : Pair SchemaNamespace) : List TableDiffEntry :=
  (pairs (fun t : TableModel => fold toLowerCase o t.name) (itemsOf (·.tables) p.sides.1)
    (itemsOf (·.tables) p.sides.2)).map (diffTableEntry toLowerCase o mapNamespace)

section Parts
variable (p : Pair SchemaNamespace)

def routineEntries : List (ObjectDiff RoutineModel) :=
  diffSimple toLowerCase o (·.name) (routineFields o) (itemsOf (·.routines) p.sides.1) (itemsOf (·.routines) p.sides.2)

def sequenceEntries : List (ObjectDiff SequenceModel) :=
  diffSimple toLowerCase o (·.name) sequenceFields (itemsOf (·.sequences) p.sides.1) (itemsOf (·.sequences) p.sides.2)

def enumEntries : List (ObjectDiff EnumTypeModel) :=
  diffSimple toLowerCase o (·.name) enumFields (itemsOf (·.enums) p.sides.1) (itemsOf (·.enums) p.sides.2)

def triggerEntries : List (ObjectDiff TriggerModel) :=
  diffSimple toLowerCase o (·.name) (triggerFields toLowerCase o) (itemsOf (·.triggers) p.sides.1)
    (itemsOf (·.triggers) p.sides.2)

end Parts

def namespaceChanged (mapNamespace : Text → Text) (p : Pair SchemaNamespace) : Bool :=
  fieldsOf (namespaceFields o) p ≠ [] ||
    differing ((tableEntries toLowerCase o mapNamespace p).map (·.toObjectDiff)) ||
    differing (routineEntries toLowerCase o p) || differing (sequenceEntries toLowerCase o p) ||
    differing (enumEntries toLowerCase o p) || differing (triggerEntries toLowerCase o p)

def diffNamespace (mapNamespace : Text → Text) (targetNameHint : Option Text) (p : Pair SchemaNamespace) :
    NamespaceDiff where
  name := p.item.name
  sourceName := p.sides.1.map (·.name)
  targetName := (p.sides.2.map (·.name)).orElse fun _ => targetNameHint
  status := statusFor p (namespaceChanged toLowerCase o mapNamespace p)
  fields := fieldsOf (namespaceFields o) p
  tables := (tableEntries toLowerCase o mapNamespace p).filter fun e => !isViewKind e.tableKind
  views := (tableEntries toLowerCase o mapNamespace p).filter fun e => isViewKind e.tableKind
  routines := routineEntries toLowerCase o p
  sequences := sequenceEntries toLowerCase o p
  enums := enumEntries toLowerCase o p
  triggers := triggerEntries toLowerCase o p

def countStatuses (statuses : List DiffStatus) : DiffCounts :=
  ⟨statuses.count .added, statuses.count .removed, statuses.count .changed⟩

def addCounts (a b : DiffCounts) : DiffCounts := ⟨a.added + b.added, a.removed + b.removed, a.changed + b.changed⟩

def objectStatuses (ns : NamespaceDiff) : List DiffStatus :=
  (ns.tables ++ ns.views).map (·.status) ++ ns.routines.map (·.status) ++ ns.sequences.map (·.status) ++
    ns.enums.map (·.status) ++ ns.triggers.map (·.status)

end Namespaces

section Schemas
variable (toLowerCase : Text → Text) (o : DiffOptions)

structure NamespacePair where
  source : SchemaNamespace
  target : Option SchemaNamespace
  targetName : Text

def NamespacePair.pair (p : NamespacePair) : Pair SchemaNamespace :=
  match p.target with
  | some t => .both p.source t
  | none => .source p.source

def wantedName (ns : SchemaNamespace) : Option Text :=
  (o.namespaceMap.reverse.find? fun e => fold toLowerCase o e.1 = fold toLowerCase o ns.name).map (·.2)

def askedName (ns : SchemaNamespace) : Text := (wantedName toLowerCase o ns).getD ns.name

def targetOf (targets : List SchemaNamespace) (name : Text) : Option SchemaNamespace :=
  targets.reverse.find? fun t => fold toLowerCase o t.name = fold toLowerCase o name

def pairOne (targets : List SchemaNamespace) (ns : SchemaNamespace) : NamespacePair :=
  let t := targetOf toLowerCase o targets (askedName toLowerCase o ns)
  ⟨ns, t, (t.map (·.name)).getD (askedName toLowerCase o ns)⟩

def unmatched (asked : List Text) : List SchemaNamespace → List SchemaNamespace
  | [] => []
  | t :: rest =>
      if fold toLowerCase o t.name ∈ asked ∧ fold toLowerCase o t.name ∉ rest.map fun t => fold toLowerCase o t.name then
        unmatched asked rest
      else t :: unmatched asked rest

structure Pairs where
  pairs : List NamespacePair
  unmatched : List SchemaNamespace
  notes : List Text

def quoted (name : Text) : Text := units "\"" ++ name ++ units "\""

def mapNotes (ps : List NamespacePair) : List Text :=
  ps.filterMap fun p => match wantedName toLowerCase o p.source, p.target with
    | some wanted, none => some (units "namespaceMap sends " ++ quoted p.source.name ++ units " to " ++ quoted wanted ++
        units ", which does not exist in the target — it will be created")
    | _, _ => none

def pairNamespaces (source target : SchemaModel) : Pairs :=
  let ps := source.namespaces.map (pairOne toLowerCase o target.namespaces)
  let left := unmatched toLowerCase o (source.namespaces.map fun ns => fold toLowerCase o (askedName toLowerCase o ns))
    target.namespaces
  let notes := mapNotes toLowerCase o ps
  match o.namespaceMap, ps, target.namespaces, left with
  | [], [⟨ns, none, _⟩], [_], [t] =>
      ⟨[⟨ns, some t, t.name⟩], [], notes ++ [units "paired the only namespace on each side: " ++ quoted ns.name ++
        units " → " ++ quoted t.name]⟩
  | _, _, _, _ => ⟨ps, left, notes⟩

def mapNamespace (ps : List NamespacePair) (n : Text) : Text :=
  ((ps.reverse.find? fun p => fold toLowerCase o p.source.name = fold toLowerCase o n).map (·.targetName)).getD n

def engineNote (source target : SchemaModel) : List Text :=
  if source.engine = target.engine then []
  else [units "cross-engine comparison (" ++ units source.engine.name ++ units " → " ++ units target.engine.name ++
    units "): type names, defaults and routine bodies are not portable and every generated statement needs review"]

def summaryOf (namespaces : List NamespaceDiff) : DiffCounts :=
  let statuses := namespaces.map (·.status)
  addCounts ((namespaces.map fun ns => countStatuses (objectStatuses ns)).foldl addCounts ⟨0, 0, 0⟩)
    ⟨statuses.count .added, statuses.count .removed, 0⟩

def diffSchemas (source target : SchemaModel) : SchemaDiff :=
  let paired := pairNamespaces toLowerCase o source target
  let map := mapNamespace toLowerCase o paired.pairs
  let namespaces := (paired.pairs.map fun p => diffNamespace toLowerCase o map (some p.targetName) p.pair) ++
    paired.unmatched.map fun t => diffNamespace toLowerCase o map none (.target t)
  { sourceEngine := source.engine
    targetEngine := target.engine
    namespaces := namespaces
    summary := summaryOf namespaces
    notes := paired.notes ++ engineNote source target }

def hasChanges (diff : SchemaDiff) : Bool := 0 < diff.summary.added + diff.summary.removed + diff.summary.changed

end Schemas

end DatabaseAdmin.SchemaDiffer
