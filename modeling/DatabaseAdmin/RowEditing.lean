import DatabaseAdmin.EditTargets

/-! When the key that a connector names for row editing really is a key of the table, read from the
right columns of the result. -/
namespace DatabaseAdmin.EditTargets

section Descriptions

structure TableName where
  schema : String
  name : String
  deriving DecidableEq

structure TableDef where
  columns : List String
  notNull : List String
  primaryKey : List String
  indexes : List IndexFacts
  hasRowid : Bool

def IsUniqueKey (d : TableDef) (key : List String) : Prop :=
  ∃ idx ∈ d.indexes, idx.unique = true ∧ idx.predicate = none ∧ idx.columns = key.map some ∧
    ∀ k ∈ key, k ∈ d.notNull

def IsKey (d : TableDef) (key : List String) : Prop :=
  (d.primaryKey ≠ [] ∧ key = d.primaryKey) ∨ IsUniqueKey d key ∨
    (d.hasRowid = true ∧ "rowid" ∉ d.columns ∧ key = ["rowid"])

def Covers (d : TableDef) (names : List String) : Prop := ∃ key, IsKey d key ∧ ∀ k ∈ key, k ∈ names

structure Origin where
  occurrence : Nat
  column : String
  deriving DecidableEq

structure Output where
  name : String
  origin : Option Origin
  deriving DecidableEq

structure ResultDescription where
  tables : Nat → TableName
  outputs : List Output

def ResultDescription.names (r : ResultDescription) : List String := r.outputs.map Output.name

def ResultDescription.originAt (r : ResultDescription) (i : Nat) : Option Origin :=
  r.outputs[i]?.bind Output.origin

def ReadFrom (r : ResultDescription) (occurrence : Nat) (name : String) : Prop :=
  ∃ i, keyIndexOf r.names name = some i ∧ r.originAt i = some ⟨occurrence, name⟩

structure Sound (defs : TableName → TableDef) (r : ResultDescription) (target : EditTarget)
    (occurrence : Nat) : Prop where
  schemaOf : target.schema = some (r.tables occurrence).schema
  tableOf : target.table = (r.tables occurrence).name
  keyRead : ∀ k ∈ target.keyColumns, ReadFrom r occurrence k
  keyWhole : Covers (defs (r.tables occurrence)) target.keyColumns

def Leads (r : ResultDescription) (occurrence : Nat) (name : String) : Prop :=
  (r.outputs.find? (fun o => o.name = name)).bind Output.origin = some ⟨occurrence, name⟩

instance leadsDecidable (r : ResultDescription) (occurrence : Nat) (name : String) :
    Decidable (Leads r occurrence name) :=
  inferInstanceAs (Decidable (_ = _))

theorem readFromIffLeads (r : ResultDescription) (occurrence : Nat) (name : String) :
    ReadFrom r occurrence name ↔ Leads r occurrence name := by
  have same : r.outputs.find? (fun o => o.name = name) =
      (keyIndexOf r.names name).bind (fun i => r.outputs[i]?) := by
    rw [List.find?_eq_bind_findIdx?_getElem?]
    simp [keyIndexOf, ResultDescription.names, List.findIdx?_map, Function.comp_def]
  unfold ReadFrom Leads ResultDescription.originAt
  rw [same]
  cases keyIndexOf r.names name <;> simp

theorem leadsFromOutput {r : ResultDescription} {occurrence : Nat} {name : String}
    (leads : Leads r occurrence name) :
    ∃ o ∈ r.outputs, o.name = name ∧ o.origin = some ⟨occurrence, name⟩ := by
  obtain ⟨o, found, origin⟩ := Option.bind_eq_some_iff.mp leads
  exact ⟨o, List.mem_of_find?_eq_some found, by simpa using List.find?_some found, origin⟩

end Descriptions

section Grants

theorem memDistinct {α : Type} [DecidableEq α] {x : α} {l : List α} : x ∈ distinct l ↔ x ∈ l := by
  induction l with
  | nil => simp [distinct]
  | cons y rest ih =>
      simp only [distinct, List.mem_cons, List.mem_filter, ih, decide_eq_true_eq]
      grind

theorem distinctSingle {α : Type} [DecidableEq α] {x : α} {l : List α} (single : distinct l = [x]) :
    x ∈ l ∧ ∀ y ∈ l, y = x :=
  ⟨memDistinct.mp (by simp [single]), fun y hy => by simpa [single] using memDistinct.mpr hy⟩

theorem describeResultGrants {readOnly : Bool} {relations : Nat → Option RelationInfo}
    {fields : List FieldDef} {target : EditTarget}
    (granted : (describeResult readOnly relations fields).2.editTarget = some target) :
    ∃ id rel, tableIds fields = [id] ∧ relations id = some rel ∧ relationKey rel ≠ [] ∧
      target = ⟨some rel.schema, rel.name, relationKey rel⟩ := by
  unfold describeResult at granted
  dsimp only at granted
  split at granted
  · simp [refuse] at granted
  split at granted
  · simp at granted
  split at granted
  · simp [refuse] at granted
  · rename_i id single
    split at granted
    · simp [refuse] at granted
    · rename_i rel resolved
      split at granted
      · simp [refuse] at granted
      split at granted
      · simp [refuse] at granted
      · rename_i keyed
        split at granted
        · simp [refuse] at granted
        · exact ⟨id, rel, single, resolved, keyed, by simpa [grant] using granted.symm⟩
  · simp [refuse] at granted

theorem editTargetForGrants {fields : List FieldPacket} {target : EditTarget}
    (granted : (editTargetFor fields).editTarget = some target) :
    ∃ first rest table, fields = first :: rest ∧
      distinct (fields.filterMap (fun f => truthy f.orgTable)) = [table] ∧
      (∀ f ∈ fields, f.orgName ≠ "") ∧
      target = ⟨(truthy first.schema).or (truthy first.db), table, keyNames fields⟩ := by
  unfold editTargetFor at granted
  split at granted
  · simp at granted
  · rename_i first rest
    split at granted
    · simp [refuse] at granted
    · rename_i table single
      split at granted
      · simp [refuse] at granted
      · rename_i sourced
        split at granted
        · simp [refuse] at granted
        · exact ⟨first, rest, table, rfl, single, by simpa using sourced,
            by simpa [grant] using granted.symm⟩
    · simp [refuse] at granted

theorem keyHitsNames {real : List RealColumn} {kind : KeyKind} {table : String} {columns names : List String}
    (hits : keyHits real kind table columns = .ok names) (name : String) :
    name ∈ names ↔ ∃ c ∈ columns, ∃ hit, real.find? (fun o => o.column = c) = some hit ∧ hit.name = name := by
  induction columns generalizing names with
  | nil =>
      obtain rfl : [] = names := by simpa [keyHits] using hits
      simp
  | cons c rest ih =>
      simp only [keyHits] at hits
      split at hits
      · simp at hits
      · rename_i hit found
        cases tail : keyHits real kind table rest with
        | error reason => simp [tail, Except.map] at hits
        | ok restNames =>
            obtain rfl : hit.name :: restNames = names := by simpa [tail, Except.map] using hits
            simp [ih tail, found, @eq_comm _ name hit.name]

theorem detectEditabilityGrants {tableFacts : String → String → Option TableFacts}
    {defs : List ColumnDefinition} {target : EditTarget}
    (granted : (detectEditability tableFacts defs).editTarget = some target) :
    ∃ first rest facts columns kind names, defs.filterMap realColumn = first :: rest ∧
      tableFacts first.schema first.table = some facts ∧ facts.kind = some .table ∧
      editKeyFor facts = some (columns, kind) ∧
      keyHits (first :: rest) kind first.table columns = .ok names ∧
      target = ⟨some first.schema, first.table, names⟩ := by
  unfold detectEditability at granted
  split at granted
  · simp [refuse] at granted
  · rename_i first rest real
    dsimp only at granted
    split at granted
    · simp [refuse] at granted
    split at granted
    · simp [refuse] at granted
    · rename_i facts known
      split at granted
      · simp [refuse] at granted
      · rename_i isTable
        split at granted
        · simp [refuse] at granted
        · rename_i columns kind key
          split at granted
          · simp [refuse] at granted
          · rename_i names hits
            exact ⟨first, rest, facts, columns, kind, names, real, known, not_not.mp isTable, key, hits,
              by simpa [grant] using granted.symm⟩

end Grants

section Connectors
variable {defs : TableName → TableDef} {r : ResultDescription} {target : EditTarget}

theorem tableNameExt {T U : TableName} (schema : T.schema = U.schema) (name : T.name = U.name) : T = U := by
  cases T
  cases U
  simp_all

structure PgCatalog (defs : TableName → TableDef) where
  tables : List TableName
  oid : TableName → Nat
  positive : ∀ T ∈ tables, 0 < oid T
  distinctOids : ∀ T ∈ tables, ∀ U ∈ tables, oid T = oid U → T = U
  info : TableName → RelationInfo
  named : ∀ T ∈ tables, (info T).schema = T.schema ∧ (info T).name = T.name
  covering : ∀ T ∈ tables, relationKey (info T) ≠ [] → Covers (defs T) (relationKey (info T))
  relations : Nat → Option RelationInfo
  resolves : ∀ T ∈ tables, relations (oid T) = some (info T)

def pgTableID (catalog : PgCatalog defs) (r : ResultDescription) (o : Output) : Nat :=
  (o.origin.map (fun g => catalog.oid (r.tables g.occurrence))).getD 0

def pgFields (catalog : PgCatalog defs) (r : ResultDescription) : List FieldDef :=
  r.outputs.map (fun o => ⟨o.name, pgTableID catalog r o⟩)

def PgNamesHold (catalog : PgCatalog defs) (r : ResultDescription) : Prop :=
  ∃ occurrence, relationKey (catalog.info (r.tables occurrence)) ≠ [] ∧
    ∀ k ∈ relationKey (catalog.info (r.tables occurrence)), Leads r occurrence k

theorem memTableIds (catalog : PgCatalog defs) (known : ∀ occurrence, r.tables occurrence ∈ catalog.tables)
    {o : Output} {g : Origin} (mem : o ∈ r.outputs) (origin : o.origin = some g) :
    catalog.oid (r.tables g.occurrence) ∈ tableIds (pgFields catalog r) := by
  have positive := catalog.positive _ (known g.occurrence)
  rw [tableIds, memDistinct]
  simp only [pgFields, List.map_map, List.mem_filter, List.mem_map, Function.comp_apply,
    decide_eq_true_eq]
  exact ⟨⟨o, mem, by simp [pgTableID, origin]⟩, positive⟩

theorem pgTarget {catalog : PgCatalog defs} {readOnly : Bool}
    (known : ∀ occurrence, r.tables occurrence ∈ catalog.tables)
    (granted : (describeResult readOnly catalog.relations (pgFields catalog r)).2.editTarget = some target) :
    ∃ T ∈ catalog.tables, (∀ o ∈ r.outputs, ∀ g, o.origin = some g → r.tables g.occurrence = T) ∧
      relationKey (catalog.info T) ≠ [] ∧
      target = ⟨some T.schema, T.name, relationKey (catalog.info T)⟩ := by
  obtain ⟨id, rel, single, resolved, keyed, rfl⟩ := describeResultGrants granted
  have source : id ∈ (pgFields catalog r).map FieldDef.tableID ∧ 0 < id := by
    simpa using (distinctSingle single).1
  obtain ⟨o, mem, isId⟩ : ∃ o ∈ r.outputs, pgTableID catalog r o = id := by
    simpa [pgFields] using source.1
  cases origin : o.origin with
  | none =>
      have : id = 0 := by simpa [pgTableID, origin] using isId.symm
      omega
  | some g =>
      obtain rfl : catalog.oid (r.tables g.occurrence) = id := by simpa [pgTableID, origin] using isId
      obtain rfl : catalog.info (r.tables g.occurrence) = rel := by
        simpa [catalog.resolves _ (known g.occurrence)] using resolved
      obtain ⟨schema, name⟩ := catalog.named _ (known g.occurrence)
      refine ⟨r.tables g.occurrence, known _, fun o' mem' g' origin' => ?_, keyed, by rw [schema, name]⟩
      have present := memTableIds catalog known mem' origin'
      rw [single, List.mem_singleton] at present
      exact catalog.distinctOids _ (known _) _ (known _) present

theorem pgSound {catalog : PgCatalog defs} {readOnly : Bool}
    (known : ∀ occurrence, r.tables occurrence ∈ catalog.tables)
    (granted : (describeResult readOnly catalog.relations (pgFields catalog r)).2.editTarget = some target) :
    (∃ occurrence, Sound defs r target occurrence) ↔ PgNamesHold catalog r := by
  obtain ⟨T, inCatalog, oneTable, keyed, rfl⟩ := pgTarget known granted
  constructor
  · rintro ⟨occurrence, schemaOf, tableOf, keyRead, -⟩
    obtain rfl : T = r.tables occurrence := tableNameExt (by simpa using schemaOf) tableOf
    exact ⟨occurrence, keyed, fun k mem => (readFromIffLeads r occurrence k).mp (keyRead k mem)⟩
  · rintro ⟨occurrence, keyedHere, leads⟩
    obtain ⟨k, mem⟩ := List.exists_mem_of_ne_nil _ keyedHere
    obtain ⟨o, present, -, origin⟩ := leadsFromOutput (leads k mem)
    obtain rfl : r.tables occurrence = T := oneTable o present _ origin
    exact ⟨occurrence, rfl, rfl,
      fun k mem => (readFromIffLeads r occurrence k).mpr (leads k mem), catalog.covering _ inCatalog keyed⟩

def mysqlField (flags : TableName → String → Nat) (r : ResultDescription) (o : Output) : FieldPacket :=
  match o.origin with
  | some ⟨occurrence, column⟩ =>
      let T := r.tables occurrence
      ⟨o.name, column, T.name, T.schema, T.schema, some (flags T column)⟩
  | none => ⟨o.name, "", "", "", "", some 0⟩

def mysqlFields (flags : TableName → String → Nat) (r : ResultDescription) : List FieldPacket :=
  r.outputs.map (mysqlField flags r)

def KeyPart (flags : TableName → String → Nat) (r : ResultDescription) (o : Output) : Prop :=
  flagged priKeyFlag (mysqlField flags r o) = true ∨
    ((∀ p ∈ r.outputs, flagged priKeyFlag (mysqlField flags r p) = false) ∧
      flagged uniqueKeyFlag (mysqlField flags r o) = true ∧
      flagged notNullFlag (mysqlField flags r o) = true)

def MysqlNamesHold (defs : TableName → TableDef) (flags : TableName → String → Nat)
    (r : ResultDescription) : Prop :=
  ∃ occurrence, r.outputs.head?.bind (fun o => o.origin.map (fun g => r.tables g.occurrence)) =
      some (r.tables occurrence) ∧
    (∀ o ∈ r.outputs, KeyPart flags r o → ∀ g, o.origin = some g → Leads r occurrence g.column) ∧
    ∃ key, IsKey (defs (r.tables occurrence)) key ∧
      ∀ k ∈ key, ∃ o ∈ r.outputs, KeyPart flags r o ∧ ∃ g, o.origin = some g ∧ g.column = k

theorem memKeyNames {flags : TableName → String → Nat}
    (sourced : ∀ f ∈ mysqlFields flags r, f.orgName ≠ "") (k : String) :
    k ∈ keyNames (mysqlFields flags r) ↔
      ∃ o ∈ r.outputs, KeyPart flags r o ∧ ∃ g, o.origin = some g ∧ g.column = k := by
  have source : ∀ o ∈ r.outputs, ∃ g, o.origin = some g ∧ sourceName (mysqlField flags r o) = g.column := by
    intro o mem
    have named := sourced _ (List.mem_map_of_mem mem)
    unfold mysqlField at named ⊢
    split at named
    · rename_i occurrence column origin
      exact ⟨_, origin, by simp_all [sourceName, truthy]⟩
    · simp at named
  have reads : ∀ p : FieldPacket → Bool, k ∈ ((mysqlFields flags r).filter p).map sourceName ↔
      ∃ o ∈ r.outputs, p (mysqlField flags r o) = true ∧ ∃ g, o.origin = some g ∧ g.column = k := by
    intro p
    simp only [mysqlFields, List.mem_map, List.mem_filter]
    constructor
    · rintro ⟨_, ⟨⟨o, mem, rfl⟩, keep⟩, rfl⟩
      obtain ⟨g, origin, name⟩ := source o mem
      exact ⟨o, mem, keep, g, origin, name.symm⟩
    · rintro ⟨o, mem, keep, g, origin, rfl⟩
      obtain ⟨g', origin', name⟩ := source o mem
      obtain rfl : g = g' := by simpa [origin] using origin'
      exact ⟨_, ⟨⟨o, mem, rfl⟩, keep⟩, name⟩
  unfold keyNames
  dsimp only
  split
  · rename_i empty
    have noPrimary : ∀ p ∈ r.outputs, flagged priKeyFlag (mysqlField flags r p) = false := by
      simpa [mysqlFields] using empty
    rw [reads]
    simp only [KeyPart, Bool.and_eq_true]
    grind
  · rename_i found
    have primary : ¬ ∀ p ∈ r.outputs, flagged priKeyFlag (mysqlField flags r p) = false := by
      simpa [mysqlFields] using found
    rw [reads]
    simp only [KeyPart]
    grind

theorem mysqlTarget {flags : TableName → String → Nat}
    (named : ∀ occurrence, (r.tables occurrence).schema ≠ "" ∧ (r.tables occurrence).name ≠ "")
    (granted : (editTargetFor (mysqlFields flags r)).editTarget = some target) :
    ∃ o rest g, r.outputs = o :: rest ∧ o.origin = some g ∧
      (∀ f ∈ mysqlFields flags r, f.orgName ≠ "") ∧
      target = ⟨some (r.tables g.occurrence).schema, (r.tables g.occurrence).name,
        keyNames (mysqlFields flags r)⟩ := by
  obtain ⟨first, rest, table, fields, single, sourced, rfl⟩ := editTargetForGrants granted
  obtain ⟨o, outputs, split, rfl, -⟩ := List.map_eq_cons_iff.mp fields
  cases origin : o.origin with
  | none =>
      have noName := sourced (mysqlField flags r o) (by simp [fields])
      simp [mysqlField, origin] at noName
  | some g =>
      obtain ⟨schema, name⟩ := named g.occurrence
      have first : (r.tables g.occurrence).name = table := by
        apply (distinctSingle single).2
        simp [fields, mysqlField, origin, truthy, name]
      exact ⟨o, outputs, g, split, origin, sourced, by
        simp [mysqlField, origin, truthy, schema, first]⟩

theorem mysqlSound {flags : TableName → String → Nat}
    (named : ∀ occurrence, (r.tables occurrence).schema ≠ "" ∧ (r.tables occurrence).name ≠ "")
    (granted : (editTargetFor (mysqlFields flags r)).editTarget = some target) :
    (∃ occurrence, Sound defs r target occurrence) ↔ MysqlNamesHold defs flags r := by
  obtain ⟨o, rest, g, outputs, origin, sourced, rfl⟩ := mysqlTarget named granted
  have source : r.outputs.head?.bind (fun o => o.origin.map (fun g => r.tables g.occurrence)) =
      some (r.tables g.occurrence) := by simp [outputs, origin]
  have keys := memKeyNames sourced
  unfold MysqlNamesHold
  rw [source]
  constructor
  · rintro ⟨occurrence, schemaOf, tableOf, keyRead, key, isKey, within⟩
    have sameTable : r.tables g.occurrence = r.tables occurrence :=
      tableNameExt (by simpa using schemaOf) tableOf
    refine ⟨occurrence, by rw [sameTable], fun p mem part h origin' => ?_, key, isKey,
      fun k mem => (keys k).mp (within k mem)⟩
    exact (readFromIffLeads r occurrence _).mp
      (keyRead _ ((keys _).mpr ⟨p, mem, part, h, origin', rfl⟩))
  · rintro ⟨occurrence, sameTable, leads, key, isKey, within⟩
    obtain sameTable : r.tables g.occurrence = r.tables occurrence := by simpa using sameTable
    refine ⟨occurrence, by simp [sameTable], by simp [sameTable], fun k mem => ?_, key, isKey,
      fun k mem => (keys k).mpr (within k mem)⟩
    obtain ⟨p, present, part, h, origin', rfl⟩ := (keys k).mp mem
    exact (readFromIffLeads r occurrence _).mpr (leads p present part h origin')

def factsOf (d : TableDef) : TableFacts :=
  ⟨some .table, d.columns.map (fun c => (c, decide (c ∉ d.notNull))), d.indexes, d.primaryKey, d.hasRowid⟩

structure SqliteCatalog (defs : TableName → TableDef) where
  facts : String → String → Option TableFacts
  reads : ∀ (T : TableName) (f : TableFacts), facts T.schema T.name = some f → f.kind = some .table →
    f = factsOf (defs T)

def sqliteColumn (r : ResultDescription) (o : Output) : ColumnDefinition :=
  let table := o.origin.map (fun g => r.tables g.occurrence)
  ⟨o.name, o.origin.map Origin.column, table.map TableName.name, table.map TableName.schema⟩

def sqliteColumns (r : ResultDescription) : List ColumnDefinition := r.outputs.map (sqliteColumn r)

def realColumns (r : ResultDescription) : List RealColumn := (sqliteColumns r).filterMap realColumn

def HoldsKey (defs : TableName → TableDef) (r : ResultDescription) (T : TableName) (o : RealColumn) : Prop :=
  ∃ columns kind, editKeyFor (factsOf (defs T)) = some (columns, kind) ∧
    ∃ c ∈ columns, (realColumns r).find? (fun o => o.column = c) = some o

def SqliteNamesHold (defs : TableName → TableDef) (r : ResultDescription) : Prop :=
  ∃ occurrence, (realColumns r).head?.map (fun o => TableName.mk o.schema o.table) =
      some (r.tables occurrence) ∧
    (∀ o, HoldsKey defs r (r.tables occurrence) o → Leads r occurrence o.name) ∧
    ∃ key, IsKey (defs (r.tables occurrence)) key ∧
      ∀ k ∈ key, ∃ o, HoldsKey defs r (r.tables occurrence) o ∧ o.name = k

theorem sqliteTarget {catalog : SqliteCatalog defs}
    (granted : (detectEditability catalog.facts (sqliteColumns r)).editTarget = some target) :
    ∃ T names, (realColumns r).head?.map (fun o => TableName.mk o.schema o.table) = some T ∧
      (∀ name, name ∈ names ↔ ∃ o, HoldsKey defs r T o ∧ o.name = name) ∧
      target = ⟨some T.schema, T.name, names⟩ := by
  obtain ⟨first, rest, facts, columns, kind, names, real, known, isTable, key, hits, rfl⟩ :=
    detectEditabilityGrants granted
  obtain rfl : facts = factsOf (defs ⟨first.schema, first.table⟩) :=
    catalog.reads ⟨first.schema, first.table⟩ facts known isTable
  have same : realColumns r = first :: rest := real
  refine ⟨⟨first.schema, first.table⟩, names, by simp [same], fun name => ?_, rfl⟩
  rw [keyHitsNames hits]
  simp only [HoldsKey, key, same]
  grind

theorem sqliteSound {catalog : SqliteCatalog defs}
    (granted : (detectEditability catalog.facts (sqliteColumns r)).editTarget = some target) :
    (∃ occurrence, Sound defs r target occurrence) ↔ SqliteNamesHold defs r := by
  obtain ⟨T, names, source, keys, rfl⟩ := sqliteTarget granted
  unfold SqliteNamesHold
  rw [source]
  constructor
  · rintro ⟨occurrence, schemaOf, tableOf, keyRead, key, isKey, within⟩
    obtain rfl : T = r.tables occurrence := tableNameExt (by simpa using schemaOf) tableOf
    refine ⟨occurrence, rfl, fun o holds => ?_, key, isKey, fun k mem => (keys k).mp (within k mem)⟩
    exact (readFromIffLeads r occurrence _).mp (keyRead _ ((keys _).mpr ⟨o, holds, rfl⟩))
  · rintro ⟨occurrence, sameTable, leads, key, isKey, within⟩
    obtain rfl : T = r.tables occurrence := by simpa using sameTable
    refine ⟨occurrence, rfl, rfl, fun k mem => ?_, key, isKey, fun k mem => (keys k).mpr (within k mem)⟩
    obtain ⟨o, holds, rfl⟩ := (keys k).mp mem
    exact (readFromIffLeads r occurrence _).mpr (leads o holds)

end Connectors

section Rows
variable {Value : Type} {defs : TableName → TableDef} {r : ResultDescription} {target : EditTarget}

structure Contents (defs : TableName → TableDef) (Value : Type) where
  rows : TableName → List (String → Value)
  keysIdentify : ∀ T key, IsKey (defs T) key → ∀ s ∈ rows T, ∀ t ∈ rows T,
    (∀ k ∈ key, s k = t k) → s = t

def Shows (r : ResultDescription) (base : Nat → String → Value) (cells : Nat → Value) : Prop :=
  ∀ i g, r.originAt i = some g → cells i = base g.occurrence g.column

def gridOf (r : ResultDescription) (target : EditTarget) : Editability :=
  editabilityOf r.names (grant target) none

def WhereHolds (e : Editability) (cells : Nat → Value) (s : String → Value) : Prop :=
  ∀ p ∈ e.keyColumns.zip e.keyIndexes, s p.1 = cells p.2

theorem keyIndexesPair {columns names : List String} {indexes : List Nat}
    (found : keyIndexesOf columns names = .ok indexes) :
    (∀ p ∈ names.zip indexes, p.1 ∈ names ∧ keyIndexOf columns p.1 = some p.2) ∧
      ∀ k ∈ names, ∃ i, (k, i) ∈ names.zip indexes := by
  induction names generalizing indexes with
  | nil => simp
  | cons name rest ih =>
      simp only [keyIndexesOf] at found
      split at found
      · simp at found
      · rename_i i atIndex
        cases tail : keyIndexesOf columns rest with
        | error reason => simp [tail, Except.map] at found
        | ok restIndexes =>
            obtain rfl : i :: restIndexes = indexes := by simpa [tail, Except.map] using found
            obtain ⟨paired, all⟩ := ih tail
            constructor
            · refine List.forall_mem_cons.mpr ⟨⟨List.mem_cons_self, atIndex⟩, fun p mem => ?_⟩
              exact ⟨List.mem_cons_of_mem _ (paired p mem).1, (paired p mem).2⟩
            · refine List.forall_mem_cons.mpr ⟨⟨i, List.mem_cons_self⟩, fun k mem => ?_⟩
              exact (all k mem).imp fun j present => List.mem_cons_of_mem _ present

theorem gridEditable {verdict : Verdict} {columns : List String} {veto : Option (Option String)}
    (editable : (editabilityOf columns verdict veto).editable = true) :
    ∃ t indexes, verdict.editTarget = some t ∧ keyIndexesOf columns t.keyColumns = .ok indexes ∧
      editabilityOf columns verdict veto =
        ⟨true, none, t.schema, some t.table, t.keyColumns, indexes⟩ := by
  unfold editabilityOf at editable ⊢
  split at editable
  · simp [uneditable] at editable
  split at editable
  · simp [uneditable] at editable
  · rename_i t isTarget
    split at editable
    · simp [uneditable] at editable
    · rename_i keyed
      split at editable
      · simp [uneditable] at editable
      · rename_i indexes found
        exact ⟨t, indexes, isTarget, found, by simp [keyed]⟩

theorem soundTargetPicksItsRow {occurrence : Nat} (sound : Sound defs r target occurrence)
    (editable : (gridOf r target).editable = true) (db : Contents defs Value)
    {base : Nat → String → Value} {cells : Nat → Value} (shown : Shows r base cells)
    (present : base occurrence ∈ db.rows (r.tables occurrence))
    {s : String → Value} (row : s ∈ db.rows (r.tables occurrence)) :
    WhereHolds (gridOf r target) cells s ↔ s = base occurrence := by
  obtain ⟨t, indexes, isTarget, found, grid⟩ := gridEditable editable
  obtain rfl : target = t := by simpa [grant] using isTarget
  obtain ⟨paired, all⟩ := keyIndexesPair found
  have cellOf : ∀ p ∈ target.keyColumns.zip indexes, cells p.2 = base occurrence p.1 := by
    intro p mem
    obtain ⟨i, atIndex, origin⟩ := sound.keyRead p.1 (paired p mem).1
    obtain rfl : i = p.2 := Option.some.inj (atIndex.symm.trans (paired p mem).2)
    exact shown _ _ origin
  have reads : WhereHolds (gridOf r target) cells s ↔
      ∀ p ∈ target.keyColumns.zip indexes, s p.1 = cells p.2 := by
    rw [gridOf, grid, WhereHolds]
  rw [reads]
  constructor
  · intro same
    obtain ⟨key, isKey, within⟩ := sound.keyWhole
    apply db.keysIdentify _ key isKey s row _ present
    intro k mem
    obtain ⟨i, pair⟩ := all k (within k mem)
    exact (same _ pair).trans (cellOf _ pair)
  · rintro rfl p mem
    exact (cellOf p mem).symm

end Rows

section Soundness

-- The reported key is read from its own base columns, covers a key of the table, and so a
-- displayed row's WHERE clause holds of no row but the one shown.
def EditsItsRow (defs : TableName → TableDef) (r : ResultDescription) (target : EditTarget) : Prop :=
  ∃ occurrence, Sound defs r target occurrence ∧
    ∀ (Value : Type) (db : Contents defs Value) (base : Nat → String → Value) (cells : Nat → Value),
      (gridOf r target).editable = true → Shows r base cells →
      base occurrence ∈ db.rows (r.tables occurrence) →
      ∀ s ∈ db.rows (r.tables occurrence), WhereHolds (gridOf r target) cells s ↔ s = base occurrence

theorem editsItsRowIff {defs : TableName → TableDef} {r : ResultDescription} {target : EditTarget} :
    EditsItsRow defs r target ↔ ∃ occurrence, Sound defs r target occurrence :=
  exists_congr fun _ => and_iff_left_of_imp fun sound _ db _ _ editable shown present _ row =>
    soundTargetPicksItsRow sound editable db shown present row

def users : TableDef := ⟨["id", "name"], ["id"], ["id"], [], true⟩

theorem usersKey : IsKey users ["id"] := .inl ⟨by simp [users], rfl⟩

def usersTable : TableName := ⟨"public", "users"⟩

def usersCatalog : PgCatalog (fun _ => users) where
  tables := [usersTable]
  oid _ := 16384
  positive _ _ := by decide
  distinctOids T inT U inU _ := (List.mem_singleton.mp inT).trans (List.mem_singleton.mp inU).symm
  info T := ⟨T.schema, T.name, 'r', ["id"], []⟩
  named _ _ := ⟨rfl, rfl⟩
  covering _ _ _ := ⟨["id"], usersKey, fun _ mem => mem⟩
  relations _ := some ⟨"public", "users", 'r', ["id"], []⟩
  resolves T inT := by rw [List.mem_singleton.mp inT]; rfl

def usersFlags (_ : TableName) (column : String) : Nat :=
  if column = "id" then notNullFlag + priKeyFlag else 0

def usersFile : SqliteCatalog (fun _ => users) where
  facts _ _ := some (factsOf users)
  reads _ _ same _ := (Option.some.inj same).symm

def selectUsers (outputs : List (String × String)) : ResultDescription :=
  ⟨fun _ => usersTable, outputs.map (fun p => ⟨p.2, some ⟨0, p.1⟩⟩)⟩

theorem reportedTargetsEditTheirRow (defs : TableName → TableDef) (r : ResultDescription)
    (target : EditTarget) :
    (∀ (catalog : PgCatalog defs) (readOnly : Bool),
      (∀ occurrence, r.tables occurrence ∈ catalog.tables) →
      (describeResult readOnly catalog.relations (pgFields catalog r)).2.editTarget = some target →
      (EditsItsRow defs r target ↔ PgNamesHold catalog r)) ∧
    (∀ flags : TableName → String → Nat,
      (∀ occurrence, (r.tables occurrence).schema ≠ "" ∧ (r.tables occurrence).name ≠ "") →
      (editTargetFor (mysqlFields flags r)).editTarget = some target →
      (EditsItsRow defs r target ↔ MysqlNamesHold defs flags r)) ∧
    (∀ catalog : SqliteCatalog defs,
      (detectEditability catalog.facts (sqliteColumns r)).editTarget = some target →
      (EditsItsRow defs r target ↔ SqliteNamesHold defs r)) :=
  ⟨fun _ _ known granted => editsItsRowIff.trans (pgSound known granted),
    fun _ named granted => editsItsRowIff.trans (mysqlSound named granted),
    fun _ granted => editsItsRowIff.trans (sqliteSound granted)⟩

def swapped : ResultDescription := selectUsers [("name", "id"), ("id", "name")]

theorem swappedAliasesMislead :
    (describeResult false usersCatalog.relations (pgFields usersCatalog swapped)).2.editTarget =
      some ⟨some "public", "users", ["id"]⟩ ∧
    (editTargetFor (mysqlFields usersFlags swapped)).editTarget = some ⟨some "public", "users", ["id"]⟩ ∧
    (detectEditability usersFile.facts (sqliteColumns swapped)).editTarget =
      some ⟨some "public", "users", ["name"]⟩ ∧
    ¬ EditsItsRow (fun _ => users) swapped ⟨some "public", "users", ["id"]⟩ ∧
    ¬ EditsItsRow (fun _ => users) swapped ⟨some "public", "users", ["name"]⟩ := by
  refine ⟨by decide, by decide, by decide, ?_, ?_⟩
  · rw [editsItsRowIff]
    rintro ⟨occurrence, sound⟩
    have leads := (readFromIffLeads swapped occurrence "id").mp (sound.keyRead "id" (by simp))
    simp [Leads, swapped, selectUsers] at leads
  · rw [editsItsRowIff]
    rintro ⟨occurrence, sound⟩
    have leads := (readFromIffLeads swapped occurrence "name").mp (sound.keyRead "name" (by simp))
    simp [Leads, swapped, selectUsers] at leads

def plain : ResultDescription := selectUsers [("id", "id"), ("name", "name")]

theorem plainSelectEditsItsRow :
    PgNamesHold usersCatalog plain ∧ MysqlNamesHold (fun _ => users) usersFlags plain ∧
      SqliteNamesHold (fun _ => users) plain ∧
      EditsItsRow (fun _ => users) plain ⟨some "public", "users", ["id"]⟩ := by
  obtain ⟨pg, mysql, sqlite⟩ :=
    reportedTargetsEditTheirRow (fun _ => users) plain ⟨some "public", "users", ["id"]⟩
  have pg := pg usersCatalog false (fun _ => List.mem_singleton_self _) (by decide)
  have mysql := mysql usersFlags (fun _ => by simp [plain, selectUsers, usersTable]) (by decide)
  have sqlite := sqlite usersFile (by decide)
  have names : PgNamesHold usersCatalog plain := ⟨0, by decide, by decide⟩
  exact ⟨names, mysql.mp (pg.mpr names), sqlite.mp (pg.mpr names), pg.mpr names⟩

end Soundness

end DatabaseAdmin.EditTargets
