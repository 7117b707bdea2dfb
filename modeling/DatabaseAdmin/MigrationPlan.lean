import DatabaseAdmin.SchemaDiffs

/-! Generating a migration from a schema diff. A statement is kept as what it says and the diff
entry it is written for; its text is left to the renderers. -/
namespace DatabaseAdmin.MigrationPlan
open CodeUnits SchemaModels MigrationScripts DdlCommon SchemaDiffs

structure TableRef where
  schema : Option Text
  name : Text
  deriving DecidableEq

def refOf (table : TableModel) : TableRef := ⟨table.schema, table.name⟩

inductive ValuePlace where
  | atEnd
  | after (label : Text)
  | before (label : Text)
  deriving DecidableEq

inductive ColumnPlace where
  | atEnd
  | first
  | after (column : Text)
  deriving DecidableEq

inductive Ddl where
  | createSchema (name : Text) (guard : Bool)
  | dropSchema (name : Text) (guard : Bool)
  | createEnum (schema : Option Text) (e : EnumTypeModel)
  | addEnumValue (schema : Option Text) (name value : Text) (place : ValuePlace)
  | dropType (schema : Option Text) (name : Text) (guard : Bool)
  | createSequence (schema : Option Text) (sequence : SequenceModel)
  | alterSequence (schema : Option Text) (sequence : SequenceModel)
  | dropSequence (schema : Option Text) (name : Text) (guard : Bool)
  | createTable (table : TableModel) (guard : Bool)
  | dropTable (ref : TableRef) (kind : TableKind) (guard : Bool)
  | addColumn (ref : TableRef) (column : ColumnModel) (place : ColumnPlace)
  | dropColumn (ref : TableRef) (name : Text)
  | modifyColumn (ref : TableRef) (column : ColumnModel)
  | alterType (ref : TableRef) (name : Text) (type : TypeDescriptor) (collation : Option Text) (cast : Bool)
  | alterNullable (ref : TableRef) (name : Text) (nullable : Bool)
  | alterDefault (ref : TableRef) (name : Text) (value : Option Text)
  | alterIdentity (ref : TableRef) (name : Text) (on : Bool)
  | createIndex (ref : TableRef) (index : IndexModel) (guard : Bool)
  | dropIndex (ref : TableRef) (name : Text) (guard : Bool)
  | addForeignKey (ref : TableRef) (key : ForeignKeyModel)
  | dropForeignKey (ref : TableRef) (name : Text) (guard : Bool)
  | addCheck (ref : TableRef) (check : CheckModel)
  | dropCheck (ref : TableRef) (name : Text) (guard : Bool)
  | addPrimaryKey (ref : TableRef) (name : Option Text) (columns : List Text)
  | dropPrimaryKey (ref : TableRef) (name : Option Text) (guard : Bool)
  | createView (ref : TableRef) (kind : TableKind) (body : Text) (replace : Bool)
  | dropView (ref : TableRef) (kind : TableKind) (guard : Bool)
  | createRoutine (schema : Option Text) (routine : RoutineModel)
  | dropRoutine (schema : Option Text) (routine : RoutineModel)
  | createTrigger (schema : Option Text) (trigger : TriggerModel)
  | dropTrigger (schema : Option Text) (name table : Text) (guard : Bool)
  | commentTable (ref : TableRef) (comment : Option Text)
  | commentColumn (ref : TableRef) (name : Text) (comment : Option Text)
  | setTableComment (ref : TableRef) (comment : Text)
  | setTableEngine (ref : TableRef) (engine : Text)
  | setTableCollation (ref : TableRef) (collation : Text)
  deriving DecidableEq

inductive Subject where
  | schema (ns : NamespaceDiff)
  | enum (ns : NamespaceDiff) (e : ObjectDiff EnumTypeModel)
  | sequence (ns : NamespaceDiff) (s : ObjectDiff SequenceModel)
  | table (ns : NamespaceDiff) (t : TableDiffEntry)
  | column (ns : NamespaceDiff) (t : TableDiffEntry) (c : ObjectDiff ColumnModel)
  | index (ns : NamespaceDiff) (t : TableDiffEntry) (i : ObjectDiff IndexModel)
  | foreignKey (ns : NamespaceDiff) (t : TableDiffEntry) (f : ObjectDiff ForeignKeyModel)
  | check (ns : NamespaceDiff) (t : TableDiffEntry) (c : ObjectDiff CheckModel)
  | primaryKey (ns : NamespaceDiff) (t : TableDiffEntry) (change : KeyChange)
  | view (ns : NamespaceDiff) (v : TableDiffEntry)
  | routine (ns : NamespaceDiff) (r : ObjectDiff RoutineModel)
  | trigger (ns : NamespaceDiff) (t : ObjectDiff TriggerModel)

structure Statement where
  ddl : Ddl
  subject : Subject

structure MigrationOptions where
  guards : Bool
  includeDrops : Bool
  includeComments : Bool
  transactional : Bool
  deriving DecidableEq

structure Created where
  table : TableModel
  subject : Subject

inductive Effect where
  | add (id : SectionId) (statement : Statement)
  | warn (message : Text)
  | create (created : Created)
  | defer (ref : TableRef) (key : ForeignKeyModel) (subject : Subject)
  | drop (dropped : Created)
  | survive (survivor : Created)
  | rebuild (reason : Text)

namespace Effect

def asAdded : Effect → Option (SectionId × Statement)
  | add id statement => some (id, statement)
  | _ => none

def asWarned : Effect → Option Text
  | warn message => some message
  | _ => none

def asCreated : Effect → Option Created
  | create created => some created
  | _ => none

def asDeferred : Effect → Option (TableRef × ForeignKeyModel × Subject)
  | defer ref key subject => some (ref, key, subject)
  | _ => none

def asDropped : Effect → Option Created
  | drop dropped => some dropped
  | _ => none

def asSurvivor : Effect → Option Created
  | survive survivor => some survivor
  | _ => none

def asRebuild : Effect → Option Text
  | rebuild reason => some reason
  | _ => none

end Effect

section Builder

def warnings : List Text → List Text → List Text
  | _, [] => []
  | seen, message :: rest =>
      if message ∈ seen then warnings seen rest else message :: warnings (message :: seen) rest

def statementsOf (effects : List Effect) (id : SectionId) : List Statement :=
  (effects.filterMap Effect.asAdded).filterMap fun e => if e.1 = id then some e.2 else none

def build (effects : List Effect) (engine : EngineKind) (transactional : Bool) : MigrationScript Statement where
  engine := engine
  sections := sectionOrder.filterMap fun id =>
    if (statementsOf effects id).isEmpty then none else some ⟨id, statementsOf effects id⟩
  warnings := warnings [] (effects.filterMap Effect.asWarned)
  transactional := transactional

end Builder

def indexesInlineInCreate (engine : EngineKind) : Bool := isMysqlFamily engine

def supportsAlterConstraints (engine : EngineKind) : Bool := engine ≠ .sqlite

def transactionalDdl (engine : EngineKind) : Bool := engine = .postgres ∨ engine = .sqlite

def commaSpace : Text := units ", "

def listed (names : List Text) : Text := commaSpace.intercalate names

def onlyIf (p : Bool) (effects : List Effect) : List Effect := if p then effects else []

structure Setting where
  engine : EngineKind
  options : MigrationOptions
  remap : Option Text → Option Text
  toLowerCase : Text → Text

section Enums
variable (w : Setting) (ns : NamespaceDiff)

def nsName (ns : NamespaceDiff) : Option Text := ns.targetName.orElse fun _ => ns.sourceName

def addValues (add : Text → ValuePlace → Effect) (firstExisting : Option Text) :
    List Text → Option Text → List Text → List Effect
  | _, _, [] => []
  | existing, previous, v :: rest =>
      if v ∈ existing then addValues add firstExisting existing (some v) rest
      else
        let place := match previous with
          | some label => .after label
          | none => match firstExisting with
            | some label => .before label
            | none => .atEnd
        add v place :: addValues add firstExisting (v :: existing) (some v) rest

def emitEnum (e : ObjectDiff EnumTypeModel) : List Effect :=
  let add ddl := Effect.add .types ⟨ddl, .enum ns e⟩
  if w.engine ≠ .postgres then
    onlyIf (e.status ≠ .same) [.warn (units w.engine.name ++ units " has no standalone enum type: enum \"" ++ e.name ++
      units "\" is part of a column's type and is migrated with that column")]
  else match e.status, e.source, e.target with
    | .added, some source, _ => [add (.createEnum (nsName ns) source)]
    | .removed, _, some target => [add (.dropType ns.targetName target.name w.options.guards)]
    | .changed, some source, some target =>
        let removedValues := target.values.filter fun v => !source.values.contains v
        addValues (fun v place => add (.addEnumValue ns.targetName target.name v place))
            (source.values.find? (target.values.contains ·)) target.values none source.values ++
          onlyIf (!removedValues.isEmpty) [.warn (units "Postgres cannot remove enum values (" ++ target.name ++
            units ": " ++ listed removedValues ++ units "); recreate the type manually if that matters")] ++
          [.warn (units "ALTER TYPE … ADD VALUE cannot run inside a transaction block before PostgreSQL 12")]
    | _, _, _ => []

def emitSequence (s : ObjectDiff SequenceModel) : List Effect :=
  match s.status, s.source, s.target with
  | .added, some source, _ => [.add .sequences ⟨.createSequence (nsName ns) source, .sequence ns s⟩]
  | .changed, some source, _ => [.add .sequences ⟨.alterSequence ns.targetName source, .sequence ns s⟩]
  | .removed, _, some target =>
      onlyIf w.options.includeDrops
        [.add .destructiveObjects ⟨.dropSequence ns.targetName target.name w.options.guards, .sequence ns s⟩,
          .warn (units "dropping sequence \"" ++ target.name ++ units "\" discards its current value permanently")]
  | _, _, _ => []

end Enums

section TableParts
variable (w : Setting) (ns : NamespaceDiff) (entry : TableDiffEntry) (source target : TableModel)

def droppedSide {α : Type} (includeDrops : Bool) (d : ObjectDiff α) : Option α :=
  match d.status with
  | .removed => if includeDrops then d.target else none
  | .changed => d.target
  | _ => none

def emitForeignKey (f : ObjectDiff ForeignKeyModel) : List Effect :=
  if f.status = .same then []
  else if !supportsAlterConstraints w.engine then
    [.rebuild (units "foreign key \"" ++ f.name ++ units "\" changed")]
  else
    ((droppedSide w.options.includeDrops f).toList.map fun t =>
      .add .dropForeignKeys ⟨.dropForeignKey (refOf target) t.name w.options.guards, .foreignKey ns entry f⟩) ++
    f.source.toList.map fun s =>
      .defer (refOf target) { s with refSchema := w.remap s.refSchema } (.foreignKey ns entry f)

def isAutoIndex (i : IndexModel) : Bool := i.unique && isConstraintIndex w.toLowerCase i

def emitIndex (i : ObjectDiff IndexModel) : List Effect :=
  if i.status = .same then []
  else if w.engine = .sqlite ∧ (i.target.any (isAutoIndex w) ∨ i.source.any (isAutoIndex w)) then
    [.rebuild (units "UNIQUE constraint \"" ++ i.name ++ units "\" changed")]
  else
    ((droppedSide w.options.includeDrops i).toList.map fun t =>
      .add .dropIndexes ⟨.dropIndex (refOf target) t.name w.options.guards, .index ns entry i⟩) ++
    i.source.toList.map fun s =>
      .add .createIndexes ⟨.createIndex (refOf target) s w.options.guards, .index ns entry i⟩

def emitCheck (c : ObjectDiff CheckModel) : List Effect :=
  if c.status = .same then []
  else if !supportsAlterConstraints w.engine then
    [.rebuild (units "check constraint \"" ++ c.name ++ units "\" changed")]
  else
    ((droppedSide w.options.includeDrops c).toList.map fun t =>
      .add .dropConstraints ⟨.dropCheck (refOf target) t.name w.options.guards, .check ns entry c⟩) ++
    c.source.toList.flatMap fun s =>
      .add .createConstraints ⟨.addCheck (refOf target) s, .check ns entry c⟩ ::
        onlyIf (isMysqlFamily w.engine) [.warn (units "CHECK constraints need MySQL 8.0.16+ or MariaDB 10.2+")]

def emitPrimaryKey (change : KeyChange) : List Effect :=
  let subject := Subject.primaryKey ns entry change
  if w.engine = .sqlite then [.rebuild (units "the primary key changed")]
  else
    onlyIf (!change.target.isEmpty)
      [.add .dropConstraints ⟨if isMysqlFamily w.engine then .dropPrimaryKey (refOf target) none false
        else .dropPrimaryKey (refOf target) (some (target.primaryKeyName.getD (target.name ++ units "_pkey")))
          w.options.guards, subject⟩] ++
    onlyIf (!change.source.isEmpty)
      [.add .createConstraints ⟨.addPrimaryKey (refOf target)
        (if isMysqlFamily w.engine then none else source.primaryKeyName.filter (· ≠ [])) change.source, subject⟩] ++
    [.warn (units "changing the primary key of \"" ++ target.name ++ units "\" rewrites the table and locks it")]

def mysqlPlace (name : Text) : ColumnPlace :=
  let names := (orderedColumns source).map (·.name)
  match names.findIdx? (· = name) with
  | none => .atEnd
  | some i =>
      if i + 1 = names.length then .atEnd
      else match i with
        | 0 => .first
        | k + 1 => .after (names.getD k [])

def hasField {α : Type} (d : ObjectDiff α) (field : Field) : Bool := d.fields.any (·.field = field)

def alterColumnStatements (c : ObjectDiff ColumnModel) (s t : ColumnModel) : List Effect :=
  let ref := refOf target
  let add id ddl := Effect.add id ⟨ddl, .column ns entry c⟩
  let has aspect := hasField c (.aspect aspect)
  if isMysqlFamily w.engine then [add .alterTables (.modifyColumn ref s)]
  else if w.engine = .sqlite then
    [.warn (units "SQLite: column \"" ++ t.name ++ units "\" on " ++ ref.name ++
      units " needs the 12-step rebuild — run it through planRebuild() in src/server/db/connectors/sqlite/ddl.ts")]
  else if has .generated then
    [add .destructiveColumns (.dropColumn ref t.name), add .destructiveColumns (.addColumn ref s .atEnd),
      .warn (units "Postgres cannot alter a generated expression: \"" ++ t.name ++
        units "\" is dropped and re-added (the values are recomputed, but the column moves to the end of the table)")]
  else
    onlyIf (has .type || has .collation)
      (onlyIf (s.type.base ≠ t.type.base) [.warn (ref.name ++ units "." ++ t.name ++
          units " changes type family (" ++ units t.type.base.name ++ units " → " ++ units s.type.base.name ++
          units "); the generated USING cast may lose data or fail on existing rows")] ++
        [add .alterTables (.alterType ref t.name s.type
          (s.collation.filter fun collation => collation ≠ [] ∧ collation ≠ units "default")
          (s.type.base ≠ t.type.base))]) ++
    onlyIf (has .nullable)
      (add .alterTables (.alterNullable ref t.name s.nullable) ::
        onlyIf (!s.nullable) [.warn (ref.name ++ units "." ++ t.name ++
          units " becomes NOT NULL; the statement fails unless every existing row has a value")]) ++
    onlyIf (has .default) [add .alterTables (.alterDefault ref t.name s.defaultValue)] ++
    onlyIf (has .autoIncrement) [add .alterTables (.alterIdentity ref t.name s.autoIncrement)]

def emitColumn (c : ObjectDiff ColumnModel) : List Effect :=
  let ref := refOf target
  let add id ddl := Effect.add id ⟨ddl, .column ns entry c⟩
  match c.status, c.source, c.target with
  | .added, some s, _ =>
      if w.engine = .sqlite ∧ s.nullable = false ∧ s.defaultValue = none then
        [.rebuild (units "column \"" ++ c.name ++ units "\" is NOT NULL without a default")]
      else
        add .alterTables (.addColumn ref s (if isMysqlFamily w.engine then mysqlPlace source s.name else .atEnd)) ::
          onlyIf (!s.nullable && s.defaultValue.isNone && s.generated.isNone)
            [.warn (target.name ++ units "." ++ c.name ++
              units " is added NOT NULL without a default; the statement fails on a non-empty table")]
  | .removed, _, some t =>
      onlyIf w.options.includeDrops
        (add .destructiveColumns (.dropColumn ref t.name) :: onlyIf (w.engine = .sqlite)
          [.warn (units "SQLite DROP COLUMN needs 3.35+ and refuses indexed or referenced columns; the connector checks that at apply time")])
  | .changed, some s, some t =>
      alterColumnStatements w ns entry target c s t ++
        onlyIf (w.options.includeComments && w.engine = .postgres && hasField c (.aspect .comment))
          [add .comments (.commentColumn ref t.name (s.comment.filter (· ≠ [])))]
  | _, _, _ => []

def renameNote : List Effect :=
  let dropped := entry.columns.filter (·.status = .removed)
  let added := entry.columns.filter (·.status = .added)
  onlyIf (!dropped.isEmpty && !added.isEmpty) [.warn (units "\"" ++ target.name ++ units "\" drops " ++
    listed (dropped.map (·.name)) ++ units " and adds " ++ listed (added.map (·.name)) ++
    units "; if any of those is a rename, replace the pair with a RENAME COLUMN")]

def emitTableField (field : FieldDiff) : List Effect :=
  let ref := refOf target
  let add id ddl := Effect.add id ⟨ddl, .table ns entry⟩
  let manual (word : String) := Effect.warn (units "\"" ++ target.name ++ units "\" differs in " ++ units word ++
    units " (" ++ field.target.getD (units "none") ++ units " → " ++ field.source.getD (units "none") ++
    units "); that cannot be altered in place and needs a manual rebuild")
  let set (value : Option Text) (ddl : Text → Ddl) := match value.filter (· ≠ []) with
    | some value => if isMysqlFamily w.engine then [add .alterTables (ddl value)] else []
    | none => []
  match field.field with
  | .comment =>
      onlyIf w.options.includeComments
        (if isMysqlFamily w.engine then [add .alterTables (.setTableComment ref (source.comment.getD []))]
        else onlyIf (w.engine = .postgres) [add .comments (.commentTable ref (source.comment.filter (· ≠ [])))])
  | .engine =>
      let engine := set source.engine (.setTableEngine ref)
      if engine.isEmpty then [manual "engine"] else engine
  | .collation => set source.collation (.setTableCollation ref)
  | .partitioning => [manual "partitioning"]
  | .kind => [manual "kind"]
  | _ => []

def emitTableAlter : List Effect :=
  let parts := entry.foreignKeys.flatMap (emitForeignKey w ns entry target) ++
    entry.indexes.flatMap (emitIndex w ns entry target) ++
    entry.checks.flatMap (emitCheck w ns entry target) ++
    entry.primaryKey.toList.flatMap (emitPrimaryKey w ns entry source target) ++
    entry.columns.flatMap (emitColumn w ns entry source target) ++
    renameNote entry target ++
    entry.fields.flatMap (emitTableField w ns entry source target) ++
    onlyIf entry.columnOrderChanged [.warn (units "\"" ++ target.name ++
      units "\" has its columns in a different order; no engine reorders columns in place, so the script leaves the target order alone")]
  let reasons := parts.filterMap Effect.asRebuild
  parts ++ onlyIf (!reasons.isEmpty) [.warn (units "SQLite: \"" ++ target.name ++
    units "\" needs the 12-step rebuild (" ++ (units "; ").intercalate reasons ++
    units ") — run it through planRebuild() in src/server/db/connectors/sqlite/ddl.ts, which copies the data, recreates the dependent indexes/triggers/views and checks foreign keys")]

def emitTable : List Effect :=
  entry.target.toList.map (fun t => .survive ⟨t, .table ns entry⟩) ++
  match entry.status, entry.source, entry.target with
  | .added, some source, _ =>
      let foreignKeys := source.foreignKeys.map fun fk => { fk with refSchema := w.remap fk.refSchema }
      [.create ⟨{ source with schema := w.remap source.schema, foreignKeys := foreignKeys }, .table ns entry⟩]
  | .removed, _, some target => onlyIf w.options.includeDrops [.drop ⟨target, .table ns entry⟩]
  | .changed, some source, some target => emitTableAlter w ns entry source target
  | _, _, _ => []

end TableParts

section Objects
variable (w : Setting) (ns : NamespaceDiff)

def emitView (entry : TableDiffEntry) : List Effect :=
  let add id ddl := Effect.add id ⟨ddl, .view ns entry⟩
  match entry.status, entry.source, entry.target with
  | .same, _, _ => []
  | .removed, _, some target =>
      onlyIf w.options.includeDrops
        (if target.kind = .materializedView then
          [add .destructiveTables (.dropView (refOf target) target.kind w.options.guards)]
        else
          [add .dropViews (.dropView (refOf target) target.kind w.options.guards),
            .warn (units "view \"" ++ target.name ++ units "\" is dropped; this script cannot recreate it")])
  | status, some source, target =>
      let ref := match target with
        | some target => refOf target
        | none => ⟨source.schema.map fun schema => (nsName ns).getD schema, source.name⟩
      let columnsChanged := entry.columns.any fun c => c.status = .added ∨ c.status = .removed
      let replaceable := w.engine ≠ .sqlite && source.kind ≠ .materializedView && !columnsChanged
      (match target with
        | some target => onlyIf (status = .changed && !replaceable)
            [add .dropViews (.dropView (refOf target) target.kind w.options.guards)]
        | none => []) ++
      match normalizeBody source.definition with
        | none => [.warn (units "view \"" ++ source.name ++
            units "\" has no definition in the source model and was skipped")]
        | some body => add .createViews (.createView ref source.kind body replaceable) ::
            onlyIf (source.kind = .materializedView && status = .changed)
              [.warn (units "materialized view \"" ++ source.name ++ units "\" is recreated, which recomputes it in full")]
  | _, _, _ => []

def hasBody (text : Option Text) : Bool := trim (text.getD []) ≠ []

def emitRoutine (r : ObjectDiff RoutineModel) : List Effect :=
  let add ddl := Effect.add .routines ⟨ddl, .routine ns r⟩
  match r.status, r.source, r.target with
  | .same, _, _ => []
  | .removed, _, some target =>
      onlyIf w.options.includeDrops [add (.dropRoutine ns.targetName target),
        .warn (units "routine \"" ++ target.name ++ units "\" is dropped; this script cannot recreate it")]
  | status, some source, target =>
      let schema := if status = .added then nsName ns else ns.targetName
      let signatureChanged := hasField r .arguments || hasField r .returnType
      (match target with
        | some target => onlyIf (signatureChanged || w.engine ≠ .postgres) [add (.dropRoutine schema target)]
        | none => []) ++
      if hasBody source.definition then
        add (.createRoutine schema source) :: onlyIf (isMysqlFamily w.engine) [.warn (units
          "MySQL routine bodies contain statement terminators: run them with a client-side DELIMITER or send each CREATE as a single statement")]
      else [.warn (units "routine \"" ++ source.name ++ units "\" has no body in the source model and was skipped")]
  | _, _, _ => []

def emitTrigger (t : ObjectDiff TriggerModel) : List Effect :=
  let add id ddl := Effect.add id ⟨ddl, .trigger ns t⟩
  let schema := if t.status = .added then nsName ns else ns.targetName
  if t.status = .same then []
  else if t.status = .removed ∧ w.options.includeDrops = false then []
  else
    ((droppedSide w.options.includeDrops t).toList.map fun target =>
      add .dropTriggers (.dropTrigger schema target.name target.table w.options.guards)) ++
    t.source.toList.map fun source =>
      if hasBody source.statement then add .createTriggers (.createTrigger schema source)
      else .warn (units "trigger \"" ++ source.name ++ units "\" has no body in the source model and was skipped")

def emitNamespace : List Effect :=
  let add id ddl := Effect.add id ⟨ddl, .schema ns⟩
  (match ns.status, nsName ns with
    | .added, some name =>
        if w.engine = .sqlite then [.warn (units "SQLite attaches databases rather than creating schemas: \"" ++ name ++
          units "\" must be attached before this script runs")]
        else [add .createNamespaces (.createSchema name w.options.guards)]
    | _, _ => []) ++
  ns.enums.flatMap (emitEnum w ns) ++
  ns.sequences.flatMap (emitSequence w ns) ++
  ns.tables.flatMap (emitTable w ns) ++
  ns.views.flatMap (emitView w ns) ++
  ns.routines.flatMap (emitRoutine w ns) ++
  ns.triggers.flatMap (emitTrigger w ns) ++
  match ns.status, ns.targetName with
    | .removed, some name => onlyIf w.options.includeDrops [add .destructiveObjects (.dropSchema name w.options.guards)]
    | _, _ => []

end Objects

section Ordering
variable (toLowerCase : Text → Text)

def tableKey (schema : Option Text) (name : Text) : Text :=
  toLowerCase (schema.getD []) ++ units "." ++ toLowerCase name

def keyOf (c : Created) : Text := tableKey toLowerCase c.table.schema c.table.name

structure Visited where
  seen : List Text
  out : List Created

def visit (tables : List Created) : Nat → Created → Visited → Visited
  | 0, _, v => v
  | fuel + 1, c, v =>
      let key := keyOf toLowerCase c
      if key ∈ v.seen then v
      else
        let parents := c.table.foreignKeys.filterMap fun fk =>
          let key := tableKey toLowerCase (fk.refSchema.orElse fun _ => c.table.schema) fk.refTable
          tables.reverse.find? fun parent => keyOf toLowerCase parent = key
        let v := parents.foldl (fun v parent => visit tables fuel parent v) { v with seen := key :: v.seen }
        { v with out := v.out ++ [c] }

def orderByDependency (tables : List Created) : List Created :=
  (tables.foldl (fun v c => visit toLowerCase tables (tables.length + 1) c v) ⟨[], []⟩).out

end Ordering

section Closing
variable (w : Setting)

def emitCreated (c : Created) : List Effect :=
  let table := c.table
  let ref := refOf table
  let inlineFks := !supportsAlterConstraints w.engine
  let add id ddl := Effect.add id ⟨ddl, c.subject⟩
  add .createTables (.createTable (if inlineFks then table else { table with foreignKeys := [] }) w.options.guards) ::
    onlyIf (!inlineFks) (table.foreignKeys.map fun fk => .defer ref fk c.subject) ++
    onlyIf (!indexesInlineInCreate w.engine)
      ((table.indexes.filter fun i => !(i.primary || w.engine = .sqlite && isAutoIndex w i)).map fun i =>
        add .createIndexes (.createIndex ref i w.options.guards)) ++
    onlyIf (w.options.includeComments && w.engine = .postgres)
      (((table.comment.filter (· ≠ [])).toList.map fun comment => add .comments (.commentTable ref (some comment))) ++
        (orderedColumns table).flatMap fun column => (column.comment.filter (· ≠ [])).toList.map fun comment =>
          add .comments (.commentColumn ref column.name (some comment)))

def emitDeferred (d : TableRef × ForeignKeyModel × Subject) : Effect :=
  .add .createForeignKeys ⟨.addForeignKey d.1 d.2.1, d.2.2⟩

def emitSurvivor (droppedKeys : List Text) (c : Created) : List Effect :=
  if keyOf w.toLowerCase c ∈ droppedKeys then []
  else
    (c.table.foreignKeys.filter fun fk =>
        tableKey w.toLowerCase (fk.refSchema.orElse fun _ => c.table.schema) fk.refTable ∈ droppedKeys).map fun fk =>
      if supportsAlterConstraints w.engine then
        .add .destructiveForeignKeys ⟨.dropForeignKey (refOf c.table) fk.name w.options.guards, c.subject⟩
      else
        .warn (units "SQLite cannot drop foreign key \"" ++ fk.name ++ units "\" on " ++ c.table.name ++
          units ": rebuild that table (planRebuild() in src/server/db/connectors/sqlite/ddl.ts) or run the drops with PRAGMA foreign_keys = OFF")

def emitDropped (dropped survivors : List Created) : List Effect :=
  onlyIf (!dropped.isEmpty)
    (survivors.flatMap (emitSurvivor w (dropped.map (keyOf w.toLowerCase))) ++
      (orderByDependency w.toLowerCase dropped).reverse.map (fun c =>
        .add .destructiveTables ⟨.dropTable (refOf c.table) c.table.kind w.options.guards, c.subject⟩) ++
      [.warn (units (toString dropped.length) ++ units " table(s) are dropped with all their data; review before running")])

end Closing

section Generate
variable (toLowerCase : Text → Text)

def remapOf (diff : SchemaDiff) (schema : Option Text) : Option Text :=
  schema.map fun name =>
    let found := diff.namespaces.reverse.find? fun ns => ns.sourceName = some name
    (found.bind fun ns => ns.targetName.orElse fun _ => ns.sourceName).getD name

def settingOf (diff : SchemaDiff) (engine : EngineKind) (options : MigrationOptions) : Setting :=
  ⟨engine, options, remapOf diff, toLowerCase⟩

def openingNotes (diff : SchemaDiff) (engine : EngineKind) (options : MigrationOptions) : List Effect :=
  diff.notes.map .warn ++
    onlyIf (diff.targetEngine ≠ engine) [.warn (units "the diff's target was introspected from " ++
      units diff.targetEngine.name ++ units " but the script is generated for " ++ units engine.name ++
      units "; type names and expressions are not portable")] ++
    onlyIf (options.transactional && !transactionalDdl engine) [.warn (units engine.name ++
      units " commits implicitly on every DDL statement: this script cannot run in a transaction, and a failure halfway leaves the database half-migrated")]

def walkEffects (diff : SchemaDiff) (engine : EngineKind) (options : MigrationOptions) : List Effect :=
  diff.namespaces.flatMap (emitNamespace (settingOf toLowerCase diff engine options))

def createOrder (engine : EngineKind) (created : List Created) : List Created :=
  if supportsAlterConstraints engine then created else orderByDependency toLowerCase created

def migrationEffects (diff : SchemaDiff) (engine : EngineKind) (options : MigrationOptions) : List Effect :=
  let w := settingOf toLowerCase diff engine options
  let walked := walkEffects toLowerCase diff engine options
  let created := walked.filterMap Effect.asCreated
  let creating := (createOrder toLowerCase engine created).flatMap (emitCreated w)
  openingNotes diff engine options ++ walked ++ creating ++
    ((walked ++ creating).filterMap Effect.asDeferred).map emitDeferred ++
    onlyIf (!supportsAlterConstraints engine && decide (1 < created.length))
      [.warn (units "SQLite: table creates are ordered parents-first because foreign keys must stay inline")] ++
    emitDropped w (walked.filterMap Effect.asDropped) (walked.filterMap Effect.asSurvivor)

def generateMigration (diff : SchemaDiff) (engine : EngineKind) (options : MigrationOptions) :
    Except Text (MigrationScript Statement) :=
  if engine ∈ sqlEngines then
    .ok (build (migrationEffects toLowerCase diff engine options) engine
      (options.transactional && transactionalDdl engine))
  else .error (units "generateMigration: " ++ units engine.name ++ units " has no DDL; schema compare is SQL-only (§12 M8)")

end Generate

end DatabaseAdmin.MigrationPlan
