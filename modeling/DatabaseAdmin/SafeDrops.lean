import DatabaseAdmin.TableOrders

/-! What the safe section of a migration drops, and what of it is created again. -/
namespace DatabaseAdmin.SafeDrops
open CodeUnits SchemaModels MigrationScripts SchemaDiffs MigrationPlan

def drops : Ddl → Bool
  | .dropSchema .. | .dropType .. | .dropSequence .. | .dropTable .. | .dropColumn .. | .dropIndex ..
  | .dropForeignKey .. | .dropCheck .. | .dropPrimaryKey .. | .dropView .. | .dropRoutine .. | .dropTrigger .. => true
  | _ => false

def creates : Ddl → Bool
  | .createSchema .. | .createEnum .. | .createSequence .. | .createTable .. | .addColumn .. | .createIndex ..
  | .addForeignKey .. | .addCheck .. | .addPrimaryKey .. | .createView .. | .createRoutine .. | .createTrigger .. => true
  | _ => false

def inSource : Subject → Bool
  | .schema ns => ns.sourceName.isSome
  | .enum _ e => e.source.isSome
  | .sequence _ s => s.source.isSome
  | .table _ t | .view _ t => t.source.isSome
  | .column _ _ c => c.source.isSome
  | .index _ _ i => i.source.isSome
  | .foreignKey _ _ f => f.source.isSome
  | .check _ _ c => c.source.isSome
  | .primaryKey _ _ change => !change.source.isEmpty
  | .routine _ r => r.source.isSome
  | .trigger _ t => t.source.isSome

def PutsBack (includeDrops : Bool) (statements : List Statement) : Prop :=
  ∀ before drop after, statements = before ++ drop :: after → drops drop.ddl = true →
    (∃ create ∈ after, creates create.ddl = true ∧ create.subject = drop.subject) ∨
      (includeDrops = true ∧ inSource drop.subject = false)

structure DestroysNothing (options : MigrationOptions) (script : MigrationScript Statement) : Prop where
  putsBack : PutsBack options.includeDrops script.statements
  keeps : options.includeDrops = false → ∀ statement ∈ script.statements ++ script.destructive,
    drops statement.ddl = true → inSource statement.subject = true

section Sections

theorem statementsAdded {effects : List Effect} {id : SectionId} {statement : Statement} :
    statement ∈ statementsOf effects id ↔ .add id statement ∈ effects := by
  simp only [statementsOf, List.mem_filterMap]
  constructor
  · rintro ⟨⟨id', statement'⟩, ⟨effect, listed, added⟩, kept⟩
    cases effect <;> simp_all [Effect.asAdded]
  · exact fun listed => ⟨⟨id, statement⟩, ⟨_, listed, rfl⟩, by simp⟩

theorem scriptSections {effects : List Effect} {engine : EngineKind} {transactional : Bool}
    (keep : SectionId → Bool) :
    ((build effects engine transactional).sections.filter (keep ·.id)).flatMap (·.statements) =
      (sectionOrder.filter keep).flatMap (statementsOf effects) := by
  simp only [build]
  induction sectionOrder with
  | nil => rfl
  | cons id ids ih =>
    simp only [List.filterMap_cons, List.filter_cons]
    split
    · rename_i none
      split at none
      · rename_i empty
        rw [ih]
        split <;> simp [List.isEmpty_iff.mp empty]
      · contradiction
    · rename_i s some
      split at some
      · contradiction
      · cases some
        simp only [List.filter_cons]
        split
        · rw [List.flatMap_cons, List.flatMap_cons, ih]
        · exact ih

theorem safeStatements (effects : List Effect) (engine : EngineKind) (transactional : Bool) :
    (build effects engine transactional).statements =
      (sectionOrder.filter (!·.destructive)).flatMap (statementsOf effects) :=
  scriptSections fun id => !id.destructive

theorem destructiveStatements (effects : List Effect) (engine : EngineKind) (transactional : Bool) :
    (build effects engine transactional).destructive =
      (sectionOrder.filter (·.destructive)).flatMap (statementsOf effects) :=
  scriptSections fun id => id.destructive

theorem inOrder (id : SectionId) : id ∈ sectionOrder := by cases id <;> decide

theorem safeAdded {effects : List Effect} {engine : EngineKind} {transactional : Bool} {statement : Statement} :
    statement ∈ (build effects engine transactional).statements ↔
      ∃ id, id.destructive = false ∧ .add id statement ∈ effects := by
  simp only [safeStatements, List.mem_flatMap, List.mem_filter, statementsAdded, inOrder, true_and,
    Bool.not_eq_true']

theorem anyAdded {effects : List Effect} {engine : EngineKind} {transactional : Bool} {statement : Statement} :
    statement ∈ (build effects engine transactional).statements ++ (build effects engine transactional).destructive ↔
      ∃ id, .add id statement ∈ effects := by
  simp only [List.mem_append, safeAdded, destructiveStatements, List.mem_flatMap, List.mem_filter, statementsAdded,
    inOrder, true_and]
  constructor
  · rintro (⟨id, -, added⟩ | ⟨id, -, added⟩) <;> exact ⟨id, added⟩
  · rintro ⟨id, added⟩
    cases kind : id.destructive with
    | false => exact Or.inl ⟨id, kind, added⟩
    | true => exact Or.inr ⟨id, kind, added⟩

end Sections

section Subjects
variable {w : Setting} {ns : NamespaceDiff} {effect : Effect}

def ofTable : Subject → Bool
  | .table .. | .foreignKey .. => true
  | _ => false

def Writes (subject : Subject) : Effect → Prop
  | .add _ statement => statement.subject = subject
  | .defer _ _ own => own = subject ∧ ofTable subject = true
  | .create _ | .drop _ | .survive _ => False
  | .warn _ | .rebuild _ => True

@[simp] theorem memOnlyIf {p : Bool} {effects : List Effect} : effect ∈ onlyIf p effects ↔ p = true ∧ effect ∈ effects := by
  cases p <;> simp [onlyIf]

theorem valueEach {P : Effect → Prop} {add : Text → ValuePlace → Effect} (adds : ∀ v place, P (add v place))
    {first previous : Option Text} {wanted existing : List Text}
    (listed : effect ∈ addValues add first existing previous wanted) : P effect := by
  induction wanted generalizing existing previous with
  | nil => simp [addValues] at listed
  | cons v rest ih =>
    simp only [addValues] at listed
    split at listed
    · exact ih listed
    · rcases List.mem_cons.mp listed with rfl | later
      · exact adds _ _
      · exact ih later

theorem enumWrites {e : ObjectDiff EnumTypeModel} (listed : effect ∈ emitEnum w ns e) : Writes (.enum ns e) effect := by
  unfold emitEnum at listed
  split at listed
  · obtain ⟨-, rfl⟩ : _ ∧ effect = _ := by simpa using listed
    trivial
  · split at listed
    · obtain rfl := List.mem_singleton.mp listed
      rfl
    · obtain rfl := List.mem_singleton.mp listed
      rfl
    · simp only [List.mem_append, memOnlyIf, List.mem_singleton] at listed
      rcases listed with (added | ⟨-, rfl⟩) | rfl
      · refine valueEach (fun v place => ?_) added
        rfl
      · trivial
      · trivial
    · contradiction

theorem sequenceWrites {s : ObjectDiff SequenceModel} (listed : effect ∈ emitSequence w ns s) :
    Writes (.sequence ns s) effect := by
  unfold emitSequence at listed
  grind [Writes, onlyIf]

section Parts
variable {entry : TableDiffEntry} {source target : TableModel}

theorem foreignKeyWrites {f : ObjectDiff ForeignKeyModel} (listed : effect ∈ emitForeignKey w ns entry target f) :
    Writes (.foreignKey ns entry f) effect := by
  unfold emitForeignKey at listed
  grind [Writes, ofTable]

theorem indexWrites {i : ObjectDiff IndexModel} (listed : effect ∈ emitIndex w ns entry target i) :
    Writes (.index ns entry i) effect := by
  unfold emitIndex at listed
  grind [Writes]

theorem checkWrites {c : ObjectDiff CheckModel} (listed : effect ∈ emitCheck w ns entry target c) :
    Writes (.check ns entry c) effect := by
  unfold emitCheck at listed
  grind [Writes, onlyIf]

theorem primaryKeyWrites {change : KeyChange} (listed : effect ∈ emitPrimaryKey w ns entry source target change) :
    Writes (.primaryKey ns entry change) effect := by
  unfold emitPrimaryKey at listed
  grind [Writes, onlyIf]

theorem alterColumnMade {c : ObjectDiff ColumnModel} {s t : ColumnModel}
    (listed : effect ∈ alterColumnStatements w ns entry target c s t) :
    (∃ warning, effect = .warn warning) ∨
      ∃ id ddl, effect = .add id ⟨ddl, .column ns entry c⟩ ∧ (drops ddl = true → id.destructive = true) := by
  simp only [alterColumnStatements] at listed
  split at listed
  · obtain rfl := List.mem_singleton.mp listed
    exact .inr ⟨_, _, rfl, fun gone => absurd gone Bool.false_ne_true⟩
  split at listed
  · obtain rfl := List.mem_singleton.mp listed
    exact .inl ⟨_, rfl⟩
  split at listed
  · simp only [List.mem_cons, List.not_mem_nil, or_false] at listed
    rcases listed with rfl | rfl | rfl
    · exact .inr ⟨_, _, rfl, fun _ => rfl⟩
    · exact .inr ⟨_, _, rfl, fun _ => rfl⟩
    · exact .inl ⟨_, rfl⟩
  simp only [List.mem_append, memOnlyIf, List.mem_cons, List.not_mem_nil, or_false] at listed
  rcases listed with ((⟨-, ⟨-, rfl⟩ | rfl⟩ | ⟨-, rfl | ⟨-, rfl⟩⟩) | ⟨-, rfl⟩) | ⟨-, rfl⟩
  · exact .inl ⟨_, rfl⟩
  · exact .inr ⟨_, _, rfl, fun gone => absurd gone Bool.false_ne_true⟩
  · exact .inr ⟨_, _, rfl, fun gone => absurd gone Bool.false_ne_true⟩
  · exact .inl ⟨_, rfl⟩
  · exact .inr ⟨_, _, rfl, fun gone => absurd gone Bool.false_ne_true⟩
  · exact .inr ⟨_, _, rfl, fun gone => absurd gone Bool.false_ne_true⟩

theorem alterColumnWrites {c : ObjectDiff ColumnModel} {s t : ColumnModel}
    (listed : effect ∈ alterColumnStatements w ns entry target c s t) : Writes (.column ns entry c) effect := by
  obtain ⟨warning, rfl⟩ | ⟨id, ddl, rfl, -⟩ := alterColumnMade listed
  · trivial
  · rfl

theorem columnWrites {c : ObjectDiff ColumnModel} (listed : effect ∈ emitColumn w ns entry source target c) :
    Writes (.column ns entry c) effect := by
  unfold emitColumn at listed
  grind [Writes, onlyIf, alterColumnWrites]

theorem tableFieldWrites {field : FieldDiff} (listed : effect ∈ emitTableField w ns entry source target field) :
    Writes (.table ns entry) effect := by
  unfold emitTableField at listed
  grind [Writes, onlyIf]

end Parts

theorem viewWrites {v : TableDiffEntry} (listed : effect ∈ emitView w ns v) : Writes (.view ns v) effect := by
  unfold emitView at listed
  grind [Writes, onlyIf]

theorem routineWrites {r : ObjectDiff RoutineModel} (listed : effect ∈ emitRoutine w ns r) : Writes (.routine ns r) effect := by
  unfold emitRoutine at listed
  grind [Writes, onlyIf]

theorem triggerWrites {t : ObjectDiff TriggerModel} (listed : effect ∈ emitTrigger w ns t) : Writes (.trigger ns t) effect := by
  unfold emitTrigger at listed
  grind [Writes, onlyIf]

end Subjects

section Drops
variable {w : Setting} {ns : NamespaceDiff} {id : SectionId} {statement : Statement}

def Recreated (w : Setting) (subject : Subject) (later : SectionId) (effects : List Effect) : Prop :=
  (w.options.includeDrops = true ∧ inSource subject = false) ∨
    inSource subject = true ∧ ∃ again, .add later again ∈ effects ∧ creates again.ddl = true ∧ again.subject = subject

theorem enumDrops {e : ObjectDiff EnumTypeModel} (added : .add id statement ∈ emitEnum w ns e)
    (gone : drops statement.ddl = true) : id = .types ∧ w.engine = .postgres ∧ e.status = .removed := by
  have quiet {first previous : Option Text} {wanted existing : List Text} {name : Text} :
      .add id statement ∉ addValues (fun v place => .add .types ⟨.addEnumValue ns.targetName name v place, .enum ns e⟩)
        first existing previous wanted := fun member => by
    have stays := valueEach (P := fun effect => ∀ other known, effect = .add other known → drops known.ddl = false)
      (fun v place other known same => by cases same; rfl) member id statement rfl
    rw [gone] at stays
    contradiction
  unfold emitEnum at added
  split at added
  · simp at added
  · rename_i postgres
    split at added
    · cases List.mem_singleton.mp added
      contradiction
    · rename_i removed _
      cases List.mem_singleton.mp added
      exact ⟨rfl, not_not.mp postgres, removed⟩
    · simp only [List.mem_append, memOnlyIf, List.mem_singleton, reduceCtorEq, and_false, or_false] at added
      exact absurd added quiet
    · contradiction

theorem sequenceDrops {s : ObjectDiff SequenceModel} (added : .add id statement ∈ emitSequence w ns s)
    (gone : drops statement.ddl = true) : id.destructive = true ∧ w.options.includeDrops = true := by
  unfold emitSequence at added
  grind [onlyIf, drops, SectionId.destructive]

section Parts
variable {entry : TableDiffEntry} {source target : TableModel}

theorem sideDropped {α : Type} {includeDrops : Bool} {d : ObjectDiff α} {t : α}
    (dropped : t ∈ (droppedSide includeDrops d).toList) :
    (includeDrops = true ∧ d.source.isSome = false) ∨ ∃ s, d.source = some s := by
  have sided := d.sided
  rw [Option.mem_toList] at dropped
  unfold droppedSide at dropped
  split at dropped
  · rename_i removed
    rw [removed] at sided
    split at dropped
    · rename_i drops
      exact Or.inl ⟨drops, sided.1⟩
    · contradiction
  · rename_i changed
    rw [changed] at sided
    exact Or.inr (Option.isSome_iff_exists.mp sided.1)
  · contradiction

theorem foreignKeyDrops {f : ObjectDiff ForeignKeyModel} (added : .add id statement ∈ emitForeignKey w ns entry target f) :
    id = .dropForeignKeys ∧
      ((w.options.includeDrops = true ∧ inSource (.foreignKey ns entry f) = false) ∨
        inSource (.foreignKey ns entry f) = true ∧
          ∃ ref key, .defer ref key (.foreignKey ns entry f) ∈ emitForeignKey w ns entry target f) := by
  unfold emitForeignKey at added ⊢
  split at added
  · contradiction
  · rename_i different
    split at added
    · simp at added
    · rename_i alters
      rw [if_neg different, if_neg alters]
      rcases List.mem_append.mp added with here | deferred
      · obtain ⟨t, dropped, same⟩ := List.mem_map.mp here
        cases same
        refine ⟨rfl, (sideDropped dropped).imp id fun ⟨s, source⟩ => ⟨by simp [inSource, source], ?_⟩⟩
        exact ⟨_, _, List.mem_append_right _ (List.mem_map.mpr ⟨s, by simp [source], rfl⟩)⟩
      · obtain ⟨s, -, same⟩ := List.mem_map.mp deferred
        cases same

theorem indexDrops {i : ObjectDiff IndexModel} (added : .add id statement ∈ emitIndex w ns entry target i)
    (gone : drops statement.ddl = true) :
    id = .dropIndexes ∧ Recreated w (.index ns entry i) .createIndexes (emitIndex w ns entry target i) := by
  unfold emitIndex at added ⊢
  split at added
  · contradiction
  · rename_i different
    split at added
    · simp at added
    · rename_i alters
      rw [if_neg different, if_neg alters]
      rcases List.mem_append.mp added with here | again
      · obtain ⟨t, dropped, same⟩ := List.mem_map.mp here
        cases same
        refine ⟨rfl, (sideDropped dropped).imp id fun ⟨s, source⟩ => ⟨by simp [inSource, source], ?_⟩⟩
        exact ⟨_, List.mem_append_right _ (List.mem_map.mpr ⟨s, by simp [source], rfl⟩), rfl, rfl⟩
      · obtain ⟨s, -, same⟩ := List.mem_map.mp again
        cases same
        contradiction

theorem checkDrops {c : ObjectDiff CheckModel} (added : .add id statement ∈ emitCheck w ns entry target c)
    (gone : drops statement.ddl = true) :
    id = .dropConstraints ∧ Recreated w (.check ns entry c) .createConstraints (emitCheck w ns entry target c) := by
  unfold emitCheck at added ⊢
  split at added
  · contradiction
  · rename_i different
    split at added
    · simp at added
    · rename_i alters
      rw [if_neg different, if_neg alters]
      rcases List.mem_append.mp added with here | again
      · obtain ⟨t, dropped, same⟩ := List.mem_map.mp here
        cases same
        refine ⟨rfl, (sideDropped dropped).imp id fun ⟨s, source⟩ => ⟨by simp [inSource, source], ?_⟩⟩
        exact ⟨_, List.mem_append_right _ (List.mem_flatMap.mpr ⟨s, by simp [source], List.mem_cons_self⟩), rfl, rfl⟩
      · obtain ⟨s, -, inside⟩ := List.mem_flatMap.mp again
        rcases List.mem_cons.mp inside with same | warned
        · cases same
          contradiction
        · simp at warned

theorem primaryKeyDrops {change : KeyChange} (added : .add id statement ∈ emitPrimaryKey w ns entry source target change)
    (gone : drops statement.ddl = true) :
    id = .dropConstraints ∧ w.engine ≠ .sqlite ∧ change.target ≠ [] ∧ (change.source = [] ∨
      Recreated w (.primaryKey ns entry change) .createConstraints (emitPrimaryKey w ns entry source target change)) := by
  unfold emitPrimaryKey at added ⊢
  split at added
  · simp at added
  · rename_i alters
    rw [if_neg alters]
    simp only [List.mem_append, memOnlyIf, List.mem_singleton] at added
    rcases added with (⟨some, same⟩ | ⟨-, same⟩) | warned
    · cases same
      refine ⟨rfl, alters, by simpa using some, or_iff_not_imp_left.mpr fun kept => Or.inr ⟨by simpa [inSource] using kept, ?_⟩⟩
      exact ⟨⟨.addPrimaryKey (refOf target) (if isMysqlFamily w.engine then none else
        source.primaryKeyName.filter (· ≠ [])) change.source, .primaryKey ns entry change⟩, by simp [kept], rfl, rfl⟩
    · cases same
      contradiction
    · cases warned

theorem alterColumnDrops {c : ObjectDiff ColumnModel} {before after : ColumnModel}
    (added : .add id statement ∈ alterColumnStatements w ns entry target c before after)
    (gone : drops statement.ddl = true) : id.destructive = true := by
  obtain ⟨warning, other⟩ | ⟨id', ddl, same, aside⟩ := alterColumnMade added
  · contradiction
  · cases same
    exact aside gone

theorem columnDrops {c : ObjectDiff ColumnModel} (added : .add id statement ∈ emitColumn w ns entry source target c)
    (gone : drops statement.ddl = true) :
    id.destructive = true ∧ (w.options.includeDrops = true ∨ inSource (.column ns entry c) = true) := by
  unfold emitColumn at added
  split at added
  · split at added
    · simp at added
    · rcases List.mem_cons.mp added with same | warned
      · cases same
        contradiction
      · simp at warned
  · rw [memOnlyIf] at added
    obtain ⟨included, inside⟩ := added
    rcases List.mem_cons.mp inside with same | warned
    · cases same
      exact ⟨rfl, Or.inl included⟩
    · simp at warned
  · rename_i hasSource _
    rcases List.mem_append.mp added with here | noted
    · exact ⟨alterColumnDrops here gone, Or.inr (by simp [inSource, hasSource])⟩
    · rw [memOnlyIf, List.mem_singleton] at noted
      cases noted.2
      contradiction
  · contradiction

theorem tableFieldDrops {field : FieldDiff} (added : .add id statement ∈ emitTableField w ns entry source target field) :
    drops statement.ddl = false := by
  unfold emitTableField at added
  grind [drops, onlyIf]

end Parts

def replaceable (engine : EngineKind) (v : TableDiffEntry) (source : TableModel) : Bool :=
  engine ≠ .sqlite && source.kind ≠ .materializedView && !v.columns.any fun c => c.status = .added ∨ c.status = .removed

theorem bothSides {α : Type} {d : ObjectDiff α} (changed : d.status = .changed) :
    ∃ source target, d.source = some source ∧ d.target = some target := by
  have sided := d.sided
  rw [changed] at sided
  obtain ⟨source, hasSource⟩ := Option.isSome_iff_exists.mp sided.1
  obtain ⟨target, hasTarget⟩ := Option.isSome_iff_exists.mp sided.2
  exact ⟨source, target, hasSource, hasTarget⟩

theorem addedSides {α : Type} {d : ObjectDiff α} (added : d.status = .added) :
    ∃ source, d.source = some source ∧ d.target = none := by
  have sided := d.sided
  rw [added] at sided
  obtain ⟨source, hasSource⟩ := Option.isSome_iff_exists.mp sided.1
  exact ⟨source, hasSource, by simpa using sided.2⟩

theorem removedSides {α : Type} {d : ObjectDiff α} (removed : d.status = .removed) :
    ∃ target, d.source = none ∧ d.target = some target := by
  have sided := d.sided
  rw [removed] at sided
  obtain ⟨target, hasTarget⟩ := Option.isSome_iff_exists.mp sided.2
  exact ⟨target, by simpa using sided.1, hasTarget⟩

theorem viewDrops {v : TableDiffEntry} (added : .add id statement ∈ emitView w ns v) (gone : drops statement.ddl = true) :
    (id ≠ .routines ∧ w.options.includeDrops = true ∧ inSource (.view ns v) = false) ∨
      id = .dropViews ∧ v.status = .changed ∧ ∃ source, v.source = some source ∧ replaceable w.engine v source = false ∧
        (normalizeBody source.definition ≠ none → Recreated w (.view ns v) .createViews (emitView w ns v)) := by
  cases status : v.status with
  | same => simp [emitView, status] at added
  | removed =>
    obtain ⟨target, hasSource, hasTarget⟩ := removedSides status
    simp only [emitView, status, hasSource, hasTarget, memOnlyIf] at added
    exact Or.inl ⟨by grind, added.1, by simp [inSource, hasSource]⟩
  | added =>
    obtain ⟨source, hasSource, hasTarget⟩ := addedSides status
    simp only [emitView, status, hasSource, hasTarget, List.nil_append] at added
    grind [onlyIf, drops]
  | changed =>
    obtain ⟨source, target, hasSource, hasTarget⟩ := bothSides status
    refine Or.inr ?_
    unfold Recreated
    simp only [emitView, status, hasSource, hasTarget] at added ⊢
    rcases List.mem_append.mp added with here | again
    · rw [memOnlyIf, List.mem_singleton] at here
      obtain ⟨recreated, same⟩ := here
      cases same
      have kept : replaceable w.engine v source = false := by
        rw [← Bool.not_eq_true']
        exact (Bool.and_eq_true_iff.mp recreated).2
      refine ⟨rfl, trivial, source, rfl, kept, fun some => Or.inr ⟨by simp [inSource, hasSource], ?_⟩⟩
      obtain ⟨body, definition⟩ := Option.ne_none_iff_exists'.mp some
      rw [definition]
      exact ⟨_, List.mem_append_right _ List.mem_cons_self, rfl, rfl⟩
    · grind [onlyIf, drops]

theorem routineDrops {r : ObjectDiff RoutineModel} (added : .add id statement ∈ emitRoutine w ns r)
    (gone : drops statement.ddl = true) : id = .routines ∧
    ((w.options.includeDrops = true ∧ inSource (.routine ns r) = false) ∨
      r.status = .changed ∧ (hasField r .arguments || hasField r .returnType || w.engine ≠ .postgres) = true) := by
  cases status : r.status with
  | same => simp [emitRoutine, status] at added
  | removed =>
    obtain ⟨target, hasSource, hasTarget⟩ := removedSides status
    simp only [emitRoutine, status, hasSource, hasTarget, memOnlyIf] at added
    exact ⟨by grind, Or.inl ⟨added.1, by simp [inSource, hasSource]⟩⟩
  | added =>
    obtain ⟨source, hasSource, hasTarget⟩ := addedSides status
    simp only [emitRoutine, status, hasSource, hasTarget, List.nil_append] at added
    grind [onlyIf, drops]
  | changed =>
    obtain ⟨source, target, hasSource, hasTarget⟩ := bothSides status
    simp only [emitRoutine, status, hasSource, hasTarget] at added
    rcases List.mem_append.mp added with here | again
    · rw [memOnlyIf, List.mem_singleton] at here
      obtain ⟨dropped, same⟩ := here
      cases same
      exact ⟨rfl, Or.inr ⟨rfl, dropped⟩⟩
    · grind [onlyIf, drops]

theorem triggerDrops {t : ObjectDiff TriggerModel} (added : .add id statement ∈ emitTrigger w ns t)
    (gone : drops statement.ddl = true) : id = .dropTriggers ∧
    ((w.options.includeDrops = true ∧ inSource (.trigger ns t) = false) ∨
      t.status = .changed ∧ ∃ source, t.source = some source ∧
        (hasBody source.statement = true → Recreated w (.trigger ns t) .createTriggers (emitTrigger w ns t))) := by
  by_cases different : t.status = .same
  · simp [emitTrigger, different] at added
  · by_cases kept : t.status = .removed ∧ w.options.includeDrops = false
    · simp [emitTrigger, kept] at added
    · simp only [emitTrigger, if_neg different, if_neg kept] at added
      rcases List.mem_append.mp added with here | again
      · obtain ⟨target, dropped, same⟩ := List.mem_map.mp here
        cases same
        refine ⟨rfl, ?_⟩
        rcases sideDropped dropped with ⟨included, gone⟩ | ⟨source, hasSource⟩
        · exact Or.inl ⟨included, gone⟩
        · have changed : t.status = .changed := by
            have sided := t.sided
            rw [Option.mem_toList] at dropped
            grind [Sided, droppedSide]
          refine Or.inr ⟨changed, source, hasSource, fun body => Or.inr ⟨by simp [inSource, hasSource], ?_⟩⟩
          simp only [emitTrigger, if_neg different, if_neg kept, hasSource, Option.toList_some, List.map_cons, body,
            if_true]
          exact ⟨_, List.mem_append_right _ List.mem_cons_self, rfl, rfl⟩
      · obtain ⟨source, -, same⟩ := List.mem_map.mp again
        grind [drops]

theorem viewCreates {v : TableDiffEntry} (added : .add id statement ∈ emitView w ns v) (made : creates statement.ddl = true)
    {source : TableModel} (hasSource : v.source = some source) : normalizeBody source.definition ≠ none := by
  unfold emitView at added
  grind [onlyIf, creates]

theorem routineCreates {r : ObjectDiff RoutineModel} (added : .add id statement ∈ emitRoutine w ns r)
    (made : creates statement.ddl = true) {source : RoutineModel} (hasSource : r.source = some source) :
    hasBody source.definition = true := by
  unfold emitRoutine at added
  grind [onlyIf, creates]

theorem triggerCreates {t : ObjectDiff TriggerModel} (added : .add id statement ∈ emitTrigger w ns t)
    (made : creates statement.ddl = true) {source : TriggerModel} (hasSource : t.source = some source) :
    hasBody source.statement = true := by
  unfold emitTrigger at added
  grind [creates]

end Drops

section Origins
variable (w : Setting) (ns : NamespaceDiff)

inductive FromTable : Effect → Prop where
  | message (text : Text) : FromTable (.warn text)
  | survivor {t : TableDiffEntry} (target : TableModel) : FromTable (.survive ⟨target, .table ns t⟩)
  | created {t : TableDiffEntry} (table : TableModel) : FromTable (.create ⟨table, .table ns t⟩)
  | dropped {t : TableDiffEntry} (target : TableModel) (drops : w.options.includeDrops = true) :
      FromTable (.drop ⟨target, .table ns t⟩)
  | foreignKey {effect : Effect} {t : TableDiffEntry} {target : TableModel} {f : ObjectDiff ForeignKeyModel}
      (emitted : effect ∈ emitForeignKey w ns t target f)
      (kept : ∀ e ∈ emitForeignKey w ns t target f, e ∈ emitNamespace w ns) : FromTable effect
  | index {effect : Effect} {t : TableDiffEntry} {target : TableModel} {i : ObjectDiff IndexModel}
      (emitted : effect ∈ emitIndex w ns t target i)
      (kept : ∀ e ∈ emitIndex w ns t target i, e ∈ emitNamespace w ns) : FromTable effect
  | check {effect : Effect} {t : TableDiffEntry} {target : TableModel} {c : ObjectDiff CheckModel}
      (emitted : effect ∈ emitCheck w ns t target c)
      (kept : ∀ e ∈ emitCheck w ns t target c, e ∈ emitNamespace w ns) : FromTable effect
  | primaryKey {effect : Effect} {t : TableDiffEntry} {source target : TableModel} {change : KeyChange}
      (table : t ∈ ns.tables) (changed : t.status = .changed) (key : t.primaryKey = some change)
      (emitted : effect ∈ emitPrimaryKey w ns t source target change)
      (kept : ∀ e ∈ emitPrimaryKey w ns t source target change, e ∈ emitNamespace w ns) : FromTable effect
  | column {effect : Effect} {t : TableDiffEntry} {source target : TableModel} {c : ObjectDiff ColumnModel}
      (emitted : effect ∈ emitColumn w ns t source target c) : FromTable effect
  | tableField {effect : Effect} {t : TableDiffEntry} {source target : TableModel} {field : FieldDiff}
      (emitted : effect ∈ emitTableField w ns t source target field) : FromTable effect

inductive From : Effect → Prop where
  | message (text : Text) : From (.warn text)
  | schema (name : Text) : From (.add .createNamespaces ⟨.createSchema name w.options.guards, .schema ns⟩)
  | schemaDropped (name : Text) (drops : w.options.includeDrops = true) :
      From (.add .destructiveObjects ⟨.dropSchema name w.options.guards, .schema ns⟩)
  | enum {effect : Effect} {e : ObjectDiff EnumTypeModel} (listed : e ∈ ns.enums)
      (emitted : effect ∈ emitEnum w ns e) : From effect
  | sequence {effect : Effect} {s : ObjectDiff SequenceModel} (emitted : effect ∈ emitSequence w ns s) : From effect
  | table {effect : Effect} (origin : FromTable w ns effect) : From effect
  | view {effect : Effect} {v : TableDiffEntry} (listed : v ∈ ns.views) (emitted : effect ∈ emitView w ns v) : From effect
  | routine {effect : Effect} {r : ObjectDiff RoutineModel} (listed : r ∈ ns.routines)
      (emitted : effect ∈ emitRoutine w ns r) : From effect
  | trigger {effect : Effect} {t : ObjectDiff TriggerModel} (listed : t ∈ ns.triggers)
      (emitted : effect ∈ emitTrigger w ns t) : From effect

variable {w ns} {effect : Effect}

theorem enumListed {e : ObjectDiff EnumTypeModel} (listed : e ∈ ns.enums) (emitted : effect ∈ emitEnum w ns e) :
    effect ∈ emitNamespace w ns := by
  have member : effect ∈ ns.enums.flatMap (emitEnum w ns) := List.mem_flatMap.mpr ⟨e, listed, emitted⟩
  simp [emitNamespace, member]

theorem viewListed {v : TableDiffEntry} (listed : v ∈ ns.views) (emitted : effect ∈ emitView w ns v) :
    effect ∈ emitNamespace w ns := by
  have member : effect ∈ ns.views.flatMap (emitView w ns) := List.mem_flatMap.mpr ⟨v, listed, emitted⟩
  simp [emitNamespace, member]

theorem routineListed {r : ObjectDiff RoutineModel} (listed : r ∈ ns.routines) (emitted : effect ∈ emitRoutine w ns r) :
    effect ∈ emitNamespace w ns := by
  have member : effect ∈ ns.routines.flatMap (emitRoutine w ns) := List.mem_flatMap.mpr ⟨r, listed, emitted⟩
  simp [emitNamespace, member]

theorem triggerListed {t : ObjectDiff TriggerModel} (listed : t ∈ ns.triggers) (emitted : effect ∈ emitTrigger w ns t) :
    effect ∈ emitNamespace w ns := by
  have member : effect ∈ ns.triggers.flatMap (emitTrigger w ns) := List.mem_flatMap.mpr ⟨t, listed, emitted⟩
  simp [emitNamespace, member]

theorem tableListed {t : TableDiffEntry} (listed : t ∈ ns.tables) (emitted : effect ∈ emitTable w ns t) :
    effect ∈ emitNamespace w ns := by
  have member : effect ∈ ns.tables.flatMap (emitTable w ns) := List.mem_flatMap.mpr ⟨t, listed, emitted⟩
  simp [emitNamespace, member]

theorem alterListed {t : TableDiffEntry} {source target : TableModel} (changed : t.status = .changed)
    (hasSource : t.source = some source) (hasTarget : t.target = some target)
    (emitted : effect ∈ emitTableAlter w ns t source target) : effect ∈ emitTable w ns t := by
  simp only [emitTable, changed, hasSource, hasTarget]
  exact List.mem_append_right _ emitted

theorem alterKeys {t : TableDiffEntry} {source target : TableModel} {e : Effect}
    (part : e ∈ t.foreignKeys.flatMap (emitForeignKey w ns t target) ++ t.indexes.flatMap (emitIndex w ns t target) ++
      t.checks.flatMap (emitCheck w ns t target) ++ t.primaryKey.toList.flatMap (emitPrimaryKey w ns t source target)) :
    e ∈ emitTableAlter w ns t source target :=
  List.mem_append_left _ (List.mem_append_left _ (List.mem_append_left _ (List.mem_append_left _ (List.mem_append_left _ part))))

theorem fromTable {t : TableDiffEntry} (listed : t ∈ ns.tables) (emitted : effect ∈ emitTable w ns t) :
    FromTable w ns effect := by
  have whole {e : Effect} := @tableListed w ns e t listed
  rcases List.mem_append.mp emitted with survivor | branch
  · obtain ⟨target, -, rfl⟩ := List.mem_map.mp survivor
    exact .survivor target
  · split at branch
    · obtain rfl := List.mem_singleton.mp branch
      exact .created _
    · obtain ⟨drops, rfl⟩ : w.options.includeDrops = true ∧ effect = _ := by simpa using branch
      exact .dropped _ drops
    · rename_i source target changed hasSource hasTarget
      have kept {e : Effect} (part : e ∈ emitTableAlter w ns t source target) : e ∈ emitNamespace w ns :=
        whole (alterListed changed hasSource hasTarget part)
      simp only [emitTableAlter, List.mem_append, List.mem_flatMap, memOnlyIf, Option.mem_toList,
        List.mem_singleton] at branch
      rcases branch with (((((((⟨f, inside, here⟩ | ⟨i, inside, here⟩) | ⟨c, inside, here⟩) | ⟨k, inside, here⟩) |
        ⟨c, inside, here⟩) | here) | ⟨field, inside, here⟩) | ⟨-, rfl⟩) | ⟨-, rfl⟩
      · refine .foreignKey here fun e member => kept ?_
        have part : e ∈ t.foreignKeys.flatMap (emitForeignKey w ns t target) := List.mem_flatMap.mpr ⟨f, inside, member⟩
        exact alterKeys (by simp only [List.mem_append, part, true_or])
      · refine .index here fun e member => kept ?_
        have part : e ∈ t.indexes.flatMap (emitIndex w ns t target) := List.mem_flatMap.mpr ⟨i, inside, member⟩
        exact alterKeys (by simp only [List.mem_append, part, true_or, or_true])
      · refine .check here fun e member => kept ?_
        have part : e ∈ t.checks.flatMap (emitCheck w ns t target) := List.mem_flatMap.mpr ⟨c, inside, member⟩
        exact alterKeys (by simp only [List.mem_append, part, true_or, or_true])
      · refine .primaryKey listed changed inside here fun e member => kept ?_
        have part : e ∈ t.primaryKey.toList.flatMap (emitPrimaryKey w ns t source target) :=
          List.mem_flatMap.mpr ⟨k, by simp [inside], member⟩
        exact alterKeys (by simp only [List.mem_append, part, or_true])
      · exact .column here
      · obtain ⟨-, rfl⟩ : _ ∧ effect = _ := by simpa [renameNote] using here
        exact .message _
      · exact .tableField here
      · exact .message _
      · exact .message _
    · contradiction

theorem fromNamespace (emitted : effect ∈ emitNamespace w ns) : From w ns effect := by
  simp only [emitNamespace, List.mem_append, List.mem_flatMap] at emitted
  rcases emitted with ((((((here | ⟨e, listed, here⟩) | ⟨s, listed, here⟩) | ⟨t, listed, here⟩) | ⟨v, listed, here⟩) |
    ⟨r, listed, here⟩) | ⟨t, listed, here⟩) | here
  · split at here
    · split at here
      · obtain rfl := List.mem_singleton.mp here
        exact .message _
      · obtain rfl := List.mem_singleton.mp here
        exact .schema _
    · contradiction
  · exact .enum listed here
  · exact .sequence here
  · exact .table (fromTable listed here)
  · exact .view listed here
  · exact .routine listed here
  · exact .trigger listed here
  · split at here
    · obtain ⟨drops, rfl⟩ : w.options.includeDrops = true ∧ effect = _ := by simpa using here
      exact .schemaDropped _ drops
    · contradiction

end Origins

theorem orderedOut {toLowerCase : Text → Text} {tables : List Created} {c : Created}
    (member : c ∈ orderByDependency toLowerCase tables) : c ∈ tables := by
  rw [TableOrders.orderSearch] at member
  obtain ⟨w, explored⟩ := DepthFirst.searchRun (keyOf toLowerCase) (@TableOrders.parentsClosed toLowerCase tables)
  exact explored.run.within c member

section Added
variable {toLowerCase : Text → Text} {diff : SchemaDiff} {engine : EngineKind} {options : MigrationOptions}

theorem walkedFrom {effect : Effect} (walked : effect ∈ walkEffects toLowerCase diff engine options) :
    ∃ ns ∈ diff.namespaces, From (settingOf toLowerCase diff engine options) ns effect := by
  obtain ⟨ns, listed, emitted⟩ := List.mem_flatMap.mp walked
  exact ⟨ns, listed, fromNamespace emitted⟩

def TableOnly (w : Setting) : Effect → Prop
  | .create c | .survive c => ofTable c.subject = true
  | .drop c => ofTable c.subject = true ∧ w.options.includeDrops = true
  | .defer _ _ subject => ofTable subject = true
  | _ => True

theorem writesTableOnly {w : Setting} {subject : Subject} {effect : Effect} (written : Writes subject effect) :
    TableOnly w effect := by
  cases effect with
  | defer ref key own =>
    obtain ⟨rfl, table⟩ := written
    exact table
  | create | drop | survive => exact written.elim
  | add | warn | rebuild => trivial

theorem fromTableOnly {effect : Effect} {ns : NamespaceDiff} {w : Setting} (origin : FromTable w ns effect) :
    TableOnly w effect := by
  cases origin with
  | survivor | created => rfl
  | dropped _ drops => exact ⟨rfl, drops⟩
  | message => trivial
  | foreignKey emitted => exact writesTableOnly (foreignKeyWrites emitted)
  | index emitted => exact writesTableOnly (indexWrites emitted)
  | check emitted => exact writesTableOnly (checkWrites emitted)
  | primaryKey _ _ _ emitted => exact writesTableOnly (primaryKeyWrites emitted)
  | column emitted => exact writesTableOnly (columnWrites emitted)
  | tableField emitted => exact writesTableOnly (tableFieldWrites emitted)

theorem fromOnly {effect : Effect} {ns : NamespaceDiff} {w : Setting} (origin : From w ns effect) : TableOnly w effect := by
  cases origin with
  | schema | schemaDropped | message => trivial
  | enum _ emitted => exact writesTableOnly (enumWrites emitted)
  | sequence emitted => exact writesTableOnly (sequenceWrites emitted)
  | table origin => exact fromTableOnly origin
  | view _ emitted => exact writesTableOnly (viewWrites emitted)
  | routine _ emitted => exact writesTableOnly (routineWrites emitted)
  | trigger _ emitted => exact writesTableOnly (triggerWrites emitted)

theorem createdWrites {w : Setting} {c : Created} {effect : Effect} (table : ofTable c.subject = true)
    (emitted : effect ∈ emitCreated w c) : Writes c.subject effect ∧
      ∀ id statement, effect = .add id statement → drops statement.ddl = false := by
  simp only [emitCreated, List.mem_append, List.mem_cons, memOnlyIf, List.mem_map, List.mem_flatMap] at emitted
  rcases emitted with (((rfl | ⟨-, fk, -, rfl⟩) | ⟨-, i, -, rfl⟩) | ⟨-, ⟨text, -, rfl⟩ | ⟨column, -, text, -, rfl⟩⟩)
  · exact ⟨rfl, fun _ _ same => by cases same; rfl⟩
  · exact ⟨⟨rfl, table⟩, fun _ _ same => by cases same⟩
  · exact ⟨rfl, fun _ _ same => by cases same; rfl⟩
  · exact ⟨rfl, fun _ _ same => by cases same; rfl⟩
  · exact ⟨rfl, fun _ _ same => by cases same; rfl⟩

theorem deferredTable {w : Setting} {d : TableRef × ForeignKeyModel × Subject} {effects : List Effect}
    (tables : ∀ effect ∈ effects, TableOnly w effect) (listed : d ∈ effects.filterMap Effect.asDeferred) :
    ofTable d.2.2 = true := by
  obtain ⟨effect, member, found⟩ := List.mem_filterMap.mp listed
  have only := tables effect member
  cases effect with
  | defer ref key subject =>
    cases Option.some.inj found
    exact only
  | _ => contradiction

theorem droppedDestructive {w : Setting} {dropped survivors : List Created} {id : SectionId} {statement : Statement}
    (emitted : .add id statement ∈ emitDropped w dropped survivors) : id.destructive = true ∧ dropped ≠ [] := by
  unfold emitDropped at emitted
  grind [onlyIf, emitSurvivor, SectionId.destructive]

theorem addedFrom {id : SectionId} {statement : Statement}
    (added : .add id statement ∈ migrationEffects toLowerCase diff engine options) :
    (∃ ns ∈ diff.namespaces, From (settingOf toLowerCase diff engine options) ns (.add id statement)) ∨
      (ofTable statement.subject = true ∧ drops statement.ddl = false) ∨
      (id.destructive = true ∧ options.includeDrops = true) := by
  have walked : ∀ effect ∈ walkEffects toLowerCase diff engine options,
      TableOnly (settingOf toLowerCase diff engine options) effect := by
    intro effect member
    obtain ⟨ns, -, origin⟩ := walkedFrom member
    exact fromOnly origin
  have creating : ∀ effect ∈ (createOrder toLowerCase engine
        ((walkEffects toLowerCase diff engine options).filterMap Effect.asCreated)).flatMap
          (emitCreated (settingOf toLowerCase diff engine options)),
      TableOnly (settingOf toLowerCase diff engine options) effect ∧
        ∀ id statement, effect = .add id statement → ofTable statement.subject = true ∧ drops statement.ddl = false := by
    intro effect member
    obtain ⟨c, ordered, emitted⟩ := List.mem_flatMap.mp member
    have created : c ∈ (walkEffects toLowerCase diff engine options).filterMap Effect.asCreated := by
      unfold createOrder at ordered
      split at ordered
      · exact ordered
      · exact orderedOut ordered
    obtain ⟨origin, inside, found⟩ := List.mem_filterMap.mp created
    have table : ofTable c.subject = true := by
      have only := walked origin inside
      cases origin with
      | create created => cases Option.some.inj found; exact only
      | _ => contradiction
    have written := createdWrites table emitted
    refine ⟨writesTableOnly written.1, fun id statement same => ?_⟩
    subst same
    exact ⟨written.1 ▸ table, written.2 id statement rfl⟩
  simp only [migrationEffects, List.mem_append] at added
  rcases added with ((((notes | here) | here) | here) | here) | here
  · unfold openingNotes at notes
    grind [onlyIf]
  · exact Or.inl (walkedFrom here)
  · exact Or.inr (Or.inl ((creating _ here).2 id statement rfl))
  · obtain ⟨d, listed, same⟩ := List.mem_map.mp here
    have table := deferredTable (w := settingOf toLowerCase diff engine options) (fun effect member =>
      (List.mem_append.mp member).elim (walked effect) fun member => (creating effect member).1) listed
    cases same
    exact Or.inr (Or.inl ⟨table, rfl⟩)
  · simp at here
  · obtain ⟨destructive, some⟩ := droppedDestructive here
    obtain ⟨c, listed⟩ := List.exists_mem_of_ne_nil _ some
    obtain ⟨origin, inside, found⟩ := List.mem_filterMap.mp listed
    have only := walked origin inside
    cases origin with
    | drop dropped => exact Or.inr (Or.inr ⟨destructive, only.2⟩)
    | _ => contradiction

end Added

end DatabaseAdmin.SafeDrops
