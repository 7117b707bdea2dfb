import DatabaseAdmin.MigrationPlan
import DatabaseAdmin.NamedChanges
import DatabaseAdmin.PgTablePlan
import DatabaseAdmin.SchemaDiffer

/-! The statements that alter one PostgreSQL column, run one after another as the server checks them. -/
namespace DatabaseAdmin.ColumnAlters
open CodeUnits SchemaModels MigrationScripts DdlCommon SchemaDiffs SchemaDiffer MigrationPlan NamedChanges
open PgTablePlan (collationOf identity serial)

structure PgColumn where
  name : Text
  type : TypeDescriptor
  collation : Option Text
  nullable : Bool
  defaultValue : Option Text
  identity : Bool
  generated : Bool
  deriving DecidableEq

def held (c : ColumnModel) : PgColumn :=
  ⟨c.name, c.type, collationOf c, c.nullable, c.defaultValue, identity c, c.generated.isSome⟩

section Server
variable (ref : MigrationPlan.TableRef)

def step (c : PgColumn) : Ddl → Option PgColumn
  | .alterType table name type collation cast =>
      if table = ref ∧ name = c.name ∧ (cast = true → c.generated = false) then
        some { c with type := type, collation := collation }
      else none
  | .alterNullable table name nullable =>
      if table = ref ∧ name = c.name ∧ (nullable = true → c.identity = false) then some { c with nullable := nullable }
      else none
  | .alterDefault table name value =>
      if table = ref ∧ name = c.name ∧ c.identity = false ∧ c.generated = false ∧ value.all (trim · ≠ []) = true then
        some { c with defaultValue := value }
      else none
  | .alterIdentity table name true =>
      if table = ref ∧ name = c.name ∧ c.nullable = false ∧ c.defaultValue = none ∧ c.identity = false ∧
          c.generated = false then
        some { c with identity := true }
      else none
  | .alterIdentity table name false =>
      if table = ref ∧ name = c.name then some { c with identity := false } else none
  | _ => none

def ranAs (c : PgColumn) (ddls : List Ddl) : Option PgColumn := follow (step ref) c ddls

end Server

section Planned
variable (w : Setting) (ns : NamespaceDiff) (entry : TableDiffEntry) (target : TableModel) (s t : ColumnModel)

def allAspects : DiffOptions := ⟨false, false, false, false, []⟩

def altered : ObjectDiff ColumnModel := entryOf (·.name) (columnFields w.toLowerCase allAspects) (.both s t)

def alterations : List Ddl :=
  ((alterColumnStatements w ns entry target (altered w s t) s t).filterMap Effect.asAdded).map (·.2.ddl)

structure Matches (c : PgColumn) (s : ColumnModel) : Prop where
  type : sameType w.toLowerCase c.type s.type = true
  collation : c.collation = collationOf s
  nullable : c.nullable = s.nullable
  defaultValue : sameDefault w.toLowerCase { s with defaultValue := c.defaultValue } s = true
  identity : c.identity = PgTablePlan.identity s

def retyped : Bool := !sameType w.toLowerCase t.type s.type || t.collation ≠ s.collation

def redefaulted : Bool := !sameDefault w.toLowerCase t s

def lastDefault : Option Text := if redefaulted w s t then s.defaultValue else t.defaultValue

structure Legal : Prop where
  typed : retyped w s t = true → s.type.base ≠ t.type.base → t.generated = none
  loosened : t.nullable = false → s.nullable = true → identity t = false
  defaulted : redefaulted w s t = true →
    identity t = false ∧ t.generated = none ∧ s.defaultValue.all (trim · ≠ []) = true
  numbered : t.autoIncrement = false → s.autoIncrement = true →
    s.nullable = false ∧ lastDefault w s t = none ∧ t.generated = none

structure Alterable : Prop extends Legal w s t where
  kept : s.autoIncrement = true → (t.autoIncrement && serial t.defaultValue) = serial s.defaultValue

end Planned

section Runs
variable (w : Setting) (ns : NamespaceDiff) (entry : TableDiffEntry) (target : TableModel) (s t : ColumnModel)

theorem aspectListed (a : ColumnAspect) :
    hasField (altered w s t) (.aspect a) = decide (a ∈ columnAspects w.toLowerCase t s) := by
  unfold hasField altered entryOf fieldsOf columnFields
  rw [Bool.eq_iff_iff]
  simp [allAspects]

theorem addedOnlyIf (p : Bool) (effects : List Effect) :
    (onlyIf p effects).filterMap Effect.asAdded = if p then effects.filterMap Effect.asAdded else [] := by
  cases p <;> rfl

def typeChange : Ddl :=
  .alterType (refOf target) t.name s.type (s.collation.filter fun collation => collation ≠ [] ∧ collation ≠ units "default")
    (s.type.base ≠ t.type.base)

variable {w}

theorem alterationsAre (postgres : w.engine = .postgres) (plain : .generated ∉ columnAspects w.toLowerCase t s) :
    alterations w ns entry target s t =
      (if retyped w s t then [typeChange target s t] else []) ++
        (if t.nullable ≠ s.nullable then [.alterNullable (refOf target) t.name s.nullable] else []) ++
        (if redefaulted w s t then [.alterDefault (refOf target) t.name s.defaultValue] else []) ++
        if t.autoIncrement ≠ s.autoIncrement then [.alterIdentity (refOf target) t.name s.autoIncrement] else [] := by
  have own (a : ColumnAspect) := aspectListed w s t a
  have typed : (hasField (altered w s t) (.aspect .type) || hasField (altered w s t) (.aspect .collation)) = retyped w s t := by
    simp [own, columnAspects, retyped]
  have nullable : hasField (altered w s t) (.aspect .nullable) = decide (t.nullable ≠ s.nullable) := by
    simp [own, columnAspects]
  have default : hasField (altered w s t) (.aspect .default) = redefaulted w s t := by
    simp [own, columnAspects, redefaulted]
  have identity : hasField (altered w s t) (.aspect .autoIncrement) = decide (t.autoIncrement ≠ s.autoIncrement) := by
    simp [own, columnAspects]
  have generated : hasField (altered w s t) (.aspect .generated) = false := by
    rw [own]
    exact decide_eq_false plain
  have warned (p : Bool) (message : Text) : (onlyIf p [.warn message]).filterMap Effect.asAdded = [] := by
    cases p <;> rfl
  simp only [alterations, alterColumnStatements, postgres, isMysqlFamily, generated, typed, nullable, default, identity]
  simp only [reduceCtorEq, decide_false, or_self, if_false, Bool.false_eq_true, List.filterMap_append, addedOnlyIf, warned,
    List.filterMap_cons, List.filterMap_nil, Effect.asAdded, List.map_append, typeChange, List.nil_append,
    apply_ite (List.map _), List.map_cons, List.map_nil, decide_eq_true_eq]

theorem collationWritten : (s.collation.filter fun collation => collation ≠ [] ∧ collation ≠ units "default") = collationOf s := by
  simp [collationOf, PgTablePlan.given, Option.filter_filter]

theorem ranOptional {ref : MigrationPlan.TableRef} {c : PgColumn} {ddl : Ddl} (next : PgColumn) (needed allowed : Prop)
    [Decidable needed] [Decidable allowed] (acts : step ref c ddl = if allowed then some next else none) :
    follow (step ref) c (if needed then [ddl] else []) =
      if needed → allowed then some (if needed then next else c) else none := by
  by_cases now : needed
  · by_cases may : allowed <;> simp [now, may, follow, acts]
  · simp [now, follow]

variable (w)

def afterType : PgColumn :=
  if retyped w s t then { held t with type := s.type, collation := collationOf s } else held t

def afterNullable : PgColumn := { afterType w s t with nullable := s.nullable }

def afterDefault : PgColumn := { afterNullable w s t with defaultValue := lastDefault w s t }

def afterIdentity : PgColumn :=
  { afterDefault w s t with identity := if t.autoIncrement ≠ s.autoIncrement then s.autoIncrement else identity t }

theorem afterTypeKept :
    afterType w s t = { held t with type := (afterType w s t).type, collation := (afterType w s t).collation } := by
  unfold afterType
  split <;> rfl

variable {w}

theorem typeRan : follow (step (refOf target)) (held t) (if retyped w s t then [typeChange target s t] else []) =
    if retyped w s t = true → s.type.base ≠ t.type.base → t.generated = none then some (afterType w s t) else none := by
  refine (ranOptional { held t with type := s.type, collation := collationOf s } _
    (s.type.base ≠ t.type.base → t.generated = none) ?_).trans ?_
  · simp only [typeChange, step, held, collationWritten, true_and, decide_eq_true_eq, Option.isSome_eq_false_iff,
      Option.isNone_iff_eq_none]
  · rfl

theorem nullableRan : follow (step (refOf target)) (afterType w s t)
      (if t.nullable ≠ s.nullable then [.alterNullable (refOf target) t.name s.nullable] else []) =
    if t.nullable = false → s.nullable = true → identity t = false then some (afterNullable w s t) else none := by
  refine (ranOptional { afterType w s t with nullable := s.nullable } _ (s.nullable = true → identity t = false) ?_).trans ?_
  · rw [afterTypeKept]
    simp only [step, held, true_and]
  · have kept : t.nullable = s.nullable → afterNullable w s t = afterType w s t := by
      intro same
      rw [afterNullable, afterTypeKept, ← same]
      rfl
    by_cases same : t.nullable = s.nullable
    · cases null : s.nullable <;> simp [kept same, same, null]
    · cases null : s.nullable <;> cases was : t.nullable <;> simp_all [afterNullable]

theorem defaultRan : follow (step (refOf target)) (afterNullable w s t)
      (if redefaulted w s t then [.alterDefault (refOf target) t.name s.defaultValue] else []) =
    if redefaulted w s t = true → identity t = false ∧ t.generated = none ∧ s.defaultValue.all (trim · ≠ []) = true then
      some (afterDefault w s t) else none := by
  refine (ranOptional { afterNullable w s t with defaultValue := s.defaultValue } _ (identity t = false ∧
    t.generated = none ∧ s.defaultValue.all (trim · ≠ []) = true) ?_).trans ?_
  · rw [afterNullable, afterTypeKept]
    simp only [step, held, true_and, Option.isSome_eq_false_iff, Option.isNone_iff_eq_none]
  · have last : (if redefaulted w s t = true then { afterNullable w s t with defaultValue := s.defaultValue }
        else afterNullable w s t) = afterDefault w s t := by
      unfold afterDefault lastDefault
      split
      · rfl
      · rw [afterNullable, afterTypeKept]
        rfl
    rw [last]

theorem identityRan : follow (step (refOf target)) (afterDefault w s t)
      (if t.autoIncrement ≠ s.autoIncrement then [.alterIdentity (refOf target) t.name s.autoIncrement] else []) =
    if t.autoIncrement = false → s.autoIncrement = true →
        s.nullable = false ∧ lastDefault w s t = none ∧ t.generated = none then
      some (afterIdentity w s t) else none := by
  refine (ranOptional { afterDefault w s t with identity := s.autoIncrement } _ (s.autoIncrement = true →
    s.nullable = false ∧ lastDefault w s t = none ∧ identity t = false ∧ t.generated = none) ?_).trans ?_
  · rw [afterDefault, afterNullable, afterTypeKept]
    cases on : s.autoIncrement <;> simp [step, held]
  · have kept : t.autoIncrement = s.autoIncrement → afterIdentity w s t = afterDefault w s t := by
      intro same
      rw [afterIdentity, if_neg (not_not.mpr same), afterDefault, afterNullable, afterTypeKept]
      rfl
    cases was : t.autoIncrement <;> cases on : s.autoIncrement
    · simp [kept (was.trans on.symm)]
    · simp [afterIdentity, was, on, identity]
    · simp [afterIdentity, was, on]
    · simp [kept (was.trans on.symm)]

theorem ranTo (postgres : w.engine = .postgres) (plain : .generated ∉ columnAspects w.toLowerCase t s) (c : PgColumn) :
    ranAs (refOf target) (held t) (alterations w ns entry target s t) = some c ↔
      Legal w s t ∧ c = afterIdentity w s t := by
  rw [alterationsAre ns entry target s t postgres plain, ranAs, followAppend, followAppend, followAppend, typeRan]
  constructor
  · intro ran
    split at ran
    · rename_i typed
      rw [Option.bind_some, nullableRan] at ran
      split at ran
      · rename_i loosened
        rw [Option.bind_some, defaultRan] at ran
        split at ran
        · rename_i defaulted
          rw [Option.bind_some, identityRan] at ran
          split at ran
          · rename_i numbered
            exact ⟨⟨typed, loosened, defaulted, numbered⟩, (Option.some.inj ran).symm⟩
          · contradiction
        · contradiction
      · contradiction
    · contradiction
  · rintro ⟨legal, rfl⟩
    rw [if_pos legal.typed, Option.bind_some, nullableRan, if_pos legal.loosened, Option.bind_some, defaultRan,
      if_pos legal.defaulted, Option.bind_some, identityRan, if_pos legal.numbered]

theorem typeAfter : sameType w.toLowerCase (afterType w s t).type s.type = true ∧
    (afterType w s t).collation = collationOf s := by
  unfold afterType
  split
  · exact ⟨sameTypeSelf w.toLowerCase s.type, rfl⟩
  · rename_i alike
    obtain ⟨type, collation⟩ : sameType w.toLowerCase t.type s.type = true ∧ t.collation = s.collation := by
      simpa [retyped] using alike
    exact ⟨type, by simp [held, collationOf, collation]⟩

theorem defaultAfter : sameDefault w.toLowerCase { s with defaultValue := lastDefault w s t } s = true := by
  unfold lastDefault
  split
  · exact sameDefaultSelf w.toLowerCase s
  · rename_i alike
    have same : sameDefault w.toLowerCase t s = true := by simpa [redefaulted] using alike
    exact same

theorem identityAfter : (afterIdentity w s t).identity = identity s ↔
    (s.autoIncrement = true → (t.autoIncrement && serial t.defaultValue) = serial s.defaultValue) := by
  cases was : t.autoIncrement <;> cases on : s.autoIncrement <;> simp [afterIdentity, identity, was, on]

theorem matchesAfter : Matches w (afterIdentity w s t) s ↔
    (s.autoIncrement = true → (t.autoIncrement && serial t.defaultValue) = serial s.defaultValue) := by
  rw [← identityAfter (w := w)]
  constructor
  · exact fun same => same.identity
  · exact fun same => ⟨(typeAfter s t).1, (typeAfter s t).2, rfl, defaultAfter s t, same⟩

theorem alteredExactly (postgres : w.engine = .postgres) (plain : .generated ∉ columnAspects w.toLowerCase t s) :
    (∃ c, ranAs (refOf target) (held t) (alterations w ns entry target s t) = some c ∧ Matches w c s) ↔
      Alterable w s t := by
  simp only [ranTo ns entry target s t postgres plain]
  constructor
  · rintro ⟨c, ⟨legal, rfl⟩, same⟩
    exact ⟨legal, (matchesAfter s t).mp same⟩
  · rintro ⟨legal, kept⟩
    exact ⟨_, ⟨legal, rfl⟩, (matchesAfter s t).mpr kept⟩

end Runs

section Samples

def pgSetting : Setting := ⟨.postgres, ⟨true, true, true, true⟩, id, (·.map lowerUnit)⟩

def numberColumn (raw : String) (base : BaseType) (nullable autoIncrement : Bool) (defaultValue : Option String) : ColumnModel :=
  ⟨units "id", 1, ⟨units raw, base, none, none, none, false, false, []⟩, nullable, defaultValue.map units, autoIncrement, none,
    none, none, none, none⟩

def itemsTable : TableModel :=
  ⟨units "items", some (units "public"), .table, [], [], [], [], [], none, none, none, none, none, none⟩

def itemsEntry : TableDiffEntry :=
  ⟨⟨units "items", .changed, some itemsTable, some itemsTable, [], rfl, rfl⟩, .table, [], [], [], [], none, false⟩

def publicDiff : NamespaceDiff :=
  ⟨units "public", some (units "public"), some (units "public"), .changed, [], [itemsEntry], [], [], [], [], []⟩

def alteredTo (s t : ColumnModel) : Option PgColumn :=
  ranAs (refOf itemsTable) (held t) (alterations pgSetting publicDiff itemsEntry itemsTable s t)

def identityColumn : ColumnModel := numberColumn "integer" .integer false true none

def looseColumn : ColumnModel := numberColumn "integer" .integer true false none

def wideColumn : ColumnModel := numberColumn "bigint" .bigint false false (some "0")

theorem looseWidened : ∃ c, alteredTo wideColumn looseColumn = some c ∧ Matches pgSetting c wideColumn :=
  (alteredExactly publicDiff itemsEntry itemsTable wideColumn looseColumn rfl (by decide)).mpr
    ⟨⟨by decide, by decide, by decide, by decide⟩, by decide⟩

-- The NOT NULL of an identity column is dropped before the identity is.
theorem identityHeld : columnAspects pgSetting.toLowerCase identityColumn looseColumn ≠ [] ∧
    .generated ∉ columnAspects pgSetting.toLowerCase identityColumn looseColumn ∧
    ¬∃ c, alteredTo looseColumn identityColumn = some c ∧ Matches pgSetting c looseColumn := by
  refine ⟨by decide, by decide, ?_⟩
  rintro ⟨c, ran, -⟩
  have stuck : alteredTo looseColumn identityColumn = none := by decide
  rw [stuck] at ran
  contradiction

end Samples

end DatabaseAdmin.ColumnAlters
