import DatabaseAdmin.SafeDrops

/-! What the safe statements of a whole migration drop, section by section. -/
namespace DatabaseAdmin.SafeDrops
open CodeUnits SchemaModels MigrationScripts SchemaDiffs MigrationPlan

structure NamespaceSafe (engine : EngineKind) (options : MigrationOptions) (ns : NamespaceDiff) : Prop where
  enums : options.includeDrops = false → engine = .postgres → ∀ e ∈ ns.enums, e.status ≠ .removed
  keys : options.includeDrops = false → engine ≠ .sqlite → ∀ t ∈ ns.tables, t.status = .changed →
    ∀ change ∈ t.primaryKey, change.target ≠ [] → change.source ≠ []
  views : ∀ v ∈ ns.views, v.status = .changed → ∀ source ∈ v.source, replaceable engine v source = false →
    normalizeBody source.definition ≠ none
  routines : ∀ r ∈ ns.routines, r.status = .changed →
    (hasField r .arguments || hasField r .returnType || engine ≠ .postgres) = true →
    ∀ source ∈ r.source, hasBody source.definition = true
  triggers : ∀ t ∈ ns.triggers, t.status = .changed → ∀ source ∈ t.source, hasBody source.statement = true

section Order

def safeOrder : List SectionId := sectionOrder.filter (!·.destructive)

theorem behindIn {ids before after : List SectionId} {id later : SectionId} (once : ids.Nodup)
    (split : ids = before ++ id :: after) (member : later ∈ ids) (behind : ids.idxOf id < ids.idxOf later) :
    later ∈ after := by
  subst split
  obtain ⟨-, tail, apart⟩ := List.nodup_append.mp once
  have here : id ∉ before := fun inside => apart id inside id List.mem_cons_self rfl
  rcases List.mem_append.mp member with inside | inside
  · have place := List.idxOf_lt_length_of_mem inside
    rw [List.idxOf_append_of_notMem here, List.idxOf_append_of_mem inside] at behind
    omega
  · rcases List.mem_cons.mp inside with rfl | later
    · omega
    · exact later

variable {includeDrops : Bool}

def PutsBackBefore (includeDrops : Bool) (later part : List Statement) : Prop :=
  ∀ before drop after, part = before ++ drop :: after → drops drop.ddl = true →
    (∃ create ∈ after ++ later, creates create.ddl = true ∧ create.subject = drop.subject) ∨
      (includeDrops = true ∧ inSource drop.subject = false)

theorem putsBackAppend {first second later : List Statement} (one : PutsBackBefore includeDrops (second ++ later) first)
    (two : PutsBackBefore includeDrops later second) : PutsBackBefore includeDrops later (first ++ second) := by
  intro before drop after split gone
  rcases List.append_eq_append_iff.mp split with ⟨middle, head, tail⟩ | ⟨middle, head, tail⟩
  · exact two middle drop after tail gone
  · cases middle with
    | nil => exact two [] drop after (by simpa using tail.symm) gone
    | cons d middle =>
      obtain ⟨rfl, rfl⟩ := List.cons.inj tail
      have here := one before drop middle head gone
      rwa [← List.append_assoc] at here

theorem putsBackEach {later part : List Statement}
    (each : ∀ drop ∈ part, drops drop.ddl = true →
      (∃ create ∈ later, creates create.ddl = true ∧ create.subject = drop.subject) ∨
        (includeDrops = true ∧ inSource drop.subject = false)) : PutsBackBefore includeDrops later part := by
  intro before drop after split gone
  refine (each drop (by rw [split]; simp) gone).imp (fun ⟨create, member, made⟩ => ?_) id
  exact ⟨create, List.mem_append_right _ member, made⟩

theorem putsBackFlatMap {α : Type} {items : List α} {part : α → List Statement}
    (each : ∀ x ∈ items, ∀ later, PutsBackBefore includeDrops later (part x)) (later : List Statement) :
    PutsBackBefore includeDrops later (items.flatMap part) := by
  induction items with
  | nil =>
    intro before drop after split _
    simp at split
  | cons x items ih =>
    obtain ⟨here, rest⟩ := List.forall_mem_cons.mp each
    exact putsBackAppend (here _) (ih rest)

theorem sectionsPutBack {part : SectionId → List Statement} : ∀ {ids : List SectionId},
    (∀ before id after, ids = before ++ id :: after → PutsBackBefore includeDrops (after.flatMap part) (part id)) →
    PutsBack includeDrops (ids.flatMap part) := by
  have run (ids : List SectionId)
      (each : ∀ before id after, ids = before ++ id :: after → PutsBackBefore includeDrops (after.flatMap part) (part id)) :
      PutsBackBefore includeDrops [] (ids.flatMap part) := by
    induction ids with
    | nil =>
      intro before drop after split _
      simp at split
    | cons id ids ih =>
      have first := each [] id ids rfl
      rw [← List.append_nil (ids.flatMap part)] at first
      refine putsBackAppend first (ih fun before id' after split => ?_)
      exact each (id :: before) id' after (by rw [split]; rfl)
  intro ids each before drop after split gone
  have found := run ids each before drop after split gone
  rwa [List.append_nil] at found

theorem statementsAppend (first second : List Effect) (id : SectionId) :
    statementsOf (first ++ second) id = statementsOf first id ++ statementsOf second id := by
  simp [statementsOf]

theorem statementsFlatMap {α : Type} (items : List α) (effects : α → List Effect) (id : SectionId) :
    statementsOf (items.flatMap effects) id = items.flatMap fun x => statementsOf (effects x) id := by
  induction items with
  | nil => rfl
  | cons x items ih => rw [List.flatMap_cons, statementsAppend, ih, List.flatMap_cons]

end Order

section Safe
variable {toLowerCase : Text → Text} {diff : SchemaDiff} {engine : EngineKind} {options : MigrationOptions}

theorem walkedEffects {ns : NamespaceDiff} {effect : Effect} (listed : ns ∈ diff.namespaces)
    (emitted : effect ∈ emitNamespace (settingOf toLowerCase diff engine options) ns) :
    effect ∈ walkEffects toLowerCase diff engine options := List.mem_flatMap.mpr ⟨ns, listed, emitted⟩

theorem walkedAdded {effect : Effect} (walked : effect ∈ walkEffects toLowerCase diff engine options) :
    effect ∈ migrationEffects toLowerCase diff engine options := by
  simp only [migrationEffects, List.mem_append]
  exact Or.inl (Or.inl (Or.inl (Or.inl (Or.inr walked))))

theorem deferredAdded {ref : TableRef} {key : ForeignKeyModel} {subject : Subject}
    (walked : .defer ref key subject ∈ walkEffects toLowerCase diff engine options) :
    .add .createForeignKeys ⟨.addForeignKey ref key, subject⟩ ∈ migrationEffects toLowerCase diff engine options := by
  simp only [migrationEffects, List.mem_append, List.mem_map]
  refine Or.inl (Or.inl (Or.inr ⟨(ref, key, subject), List.mem_filterMap.mpr ⟨.defer ref key subject, ?_, rfl⟩, rfl⟩))
  exact List.mem_append_left _ walked

def CreatedLater (toLowerCase : Text → Text) (diff : SchemaDiff) (engine : EngineKind) (options : MigrationOptions)
    (id : SectionId) (subject : Subject) : Prop :=
  (options.includeDrops = true ∧ inSource subject = false) ∨
    inSource subject = true ∧ ∃ later create, safeOrder.idxOf id < safeOrder.idxOf later ∧ later ∈ safeOrder ∧
      .add later create ∈ migrationEffects toLowerCase diff engine options ∧ creates create.ddl = true ∧
        create.subject = subject

theorem recreatedLater {id later : SectionId} {subject : Subject} {effects : List Effect}
    (recreated : Recreated (settingOf toLowerCase diff engine options) subject later effects)
    (kept : ∀ e ∈ effects, e ∈ walkEffects toLowerCase diff engine options)
    (behind : safeOrder.idxOf id < safeOrder.idxOf later) (safe : later ∈ safeOrder) :
    CreatedLater toLowerCase diff engine options id subject := by
  refine recreated.imp (fun excused => excused) fun ⟨source, again, added, made⟩ => ⟨source, later, again, behind, safe, ?_, made⟩
  exact walkedAdded (kept _ added)

theorem tableDrop {ns : NamespaceDiff} (listed : ns ∈ diff.namespaces) (safe : NamespaceSafe engine options ns)
    {id : SectionId} {statement : Statement} (origin : FromTable (settingOf toLowerCase diff engine options) ns (.add id statement))
    (gone : drops statement.ddl = true) :
    id.destructive = true ∧ (options.includeDrops = true ∨ inSource statement.subject = true) ∨
      id ≠ .routines ∧ CreatedLater toLowerCase diff engine options id statement.subject := by
  cases origin with
  | foreignKey emitted kept =>
    have own : statement.subject = _ := foreignKeyWrites emitted
    obtain ⟨rfl, excused | ⟨source, ref, key, deferred⟩⟩ := foreignKeyDrops emitted
    · exact Or.inr ⟨by decide, Or.inl (own ▸ excused)⟩
    · refine Or.inr ⟨by decide, Or.inr ⟨own ▸ source, .createForeignKeys, _, by decide, by decide,
        deferredAdded (walkedEffects listed (kept _ deferred)), rfl, own.symm⟩⟩
  | index emitted kept =>
    have own : statement.subject = _ := indexWrites emitted
    obtain ⟨rfl, recreated⟩ := indexDrops emitted gone
    exact Or.inr ⟨by decide, own ▸ recreatedLater recreated (fun e inside => walkedEffects listed (kept e inside))
      (by decide) (by decide)⟩
  | check emitted kept =>
    have own : statement.subject = _ := checkWrites emitted
    obtain ⟨rfl, recreated⟩ := checkDrops emitted gone
    exact Or.inr ⟨by decide, own ▸ recreatedLater recreated (fun e inside => walkedEffects listed (kept e inside))
      (by decide) (by decide)⟩
  | primaryKey table changed key emitted kept =>
    have own : statement.subject = _ := primaryKeyWrites emitted
    obtain ⟨rfl, alters, some, none | recreated⟩ := primaryKeyDrops emitted gone
    · refine Or.inr ⟨by decide, Or.inl ⟨?_, by simp [own, inSource, none]⟩⟩
      by_contra excluded
      exact safe.keys (by simpa using excluded) alters _ table changed _ key some none
    · exact Or.inr ⟨by decide, own ▸ recreatedLater recreated (fun e inside => walkedEffects listed (kept e inside))
        (by decide) (by decide)⟩
  | column emitted =>
    have own : statement.subject = _ := columnWrites emitted
    exact Or.inl (own ▸ columnDrops emitted gone)
  | tableField emitted => rw [tableFieldDrops emitted] at gone; contradiction

theorem walkedDrop {ns : NamespaceDiff} (listed : ns ∈ diff.namespaces) (safe : NamespaceSafe engine options ns)
    {id : SectionId} {statement : Statement} (origin : From (settingOf toLowerCase diff engine options) ns (.add id statement))
    (gone : drops statement.ddl = true) :
    id.destructive = true ∧ (options.includeDrops = true ∨ inSource statement.subject = true) ∨
      id ≠ .routines ∧ CreatedLater toLowerCase diff engine options id statement.subject ∨
      id = .routines ∧ ∃ r ∈ ns.routines, .add id statement ∈ emitRoutine (settingOf toLowerCase diff engine options) ns r := by
  cases origin with
  | schema => contradiction
  | schemaDropped _ included => exact Or.inl ⟨rfl, Or.inl included⟩
  | @enum _ e inside emitted =>
    have own : statement.subject = _ := enumWrites emitted
    obtain ⟨rfl, postgres, removed⟩ := enumDrops emitted gone
    obtain ⟨target, hasSource, -⟩ := removedSides removed
    refine Or.inr (Or.inl ⟨by decide, Or.inl ⟨?_, by simp [own, inSource, hasSource]⟩⟩)
    by_contra excluded
    exact safe.enums (by simpa using excluded) postgres e inside removed
  | sequence emitted =>
    obtain ⟨destructive, included⟩ := sequenceDrops emitted gone
    exact Or.inl ⟨destructive, Or.inl included⟩
  | table origin => exact (tableDrop listed safe origin gone).imp (fun outside => outside) Or.inl
  | @view _ v inside emitted =>
    have own : statement.subject = _ := viewWrites emitted
    rcases viewDrops emitted gone with ⟨apart, excused⟩ | ⟨rfl, changed, source, hasSource, fixed, recreated⟩
    · exact Or.inr (Or.inl ⟨apart, Or.inl (own ▸ excused)⟩)
    · have body := safe.views v inside changed source hasSource fixed
      refine Or.inr (Or.inl ⟨by decide, own ▸ recreatedLater (recreated body) (fun e member =>
        walkedEffects listed (viewListed inside member)) (by decide) (by decide)⟩)
  | @routine _ r inside emitted =>
    obtain ⟨rfl, -⟩ := routineDrops emitted gone
    exact Or.inr (Or.inr ⟨rfl, r, inside, emitted⟩)
  | @trigger _ t inside emitted =>
    have own : statement.subject = _ := triggerWrites emitted
    obtain ⟨rfl, excused | ⟨changed, source, hasSource, recreated⟩⟩ := triggerDrops emitted gone
    · exact Or.inr (Or.inl ⟨by decide, Or.inl (own ▸ excused)⟩)
    · have body := safe.triggers t inside changed source hasSource
      refine Or.inr (Or.inl ⟨by decide, own ▸ recreatedLater (recreated body) (fun e member =>
        walkedEffects listed (triggerListed inside member)) (by decide) (by decide)⟩)

theorem routinePutsBack {w : Setting} {ns : NamespaceDiff} {r : ObjectDiff RoutineModel}
    (safe : r.status = .changed → (hasField r .arguments || hasField r .returnType || w.engine ≠ .postgres) = true →
      ∀ source ∈ r.source, hasBody source.definition = true) (later : List Statement) :
    PutsBackBefore w.options.includeDrops later (statementsOf (emitRoutine w ns r) .routines) := by
  by_cases changed : r.status = .changed
  · obtain ⟨source, target, hasSource, hasTarget⟩ := bothSides changed
    by_cases dropped : (hasField r .arguments || hasField r .returnType || w.engine ≠ .postgres) = true
    · have body := safe changed dropped source hasSource
      have created : ∃ create, creates create.ddl = true ∧ create.subject = .routine ns r ∧
          statementsOf (emitRoutine w ns r) .routines = [⟨.dropRoutine ns.targetName target, .routine ns r⟩] ++ [create] := by
        refine ⟨⟨.createRoutine ns.targetName source, .routine ns r⟩, rfl, rfl, ?_⟩
        simp only [emitRoutine, changed, hasSource, hasTarget, dropped, body, if_true, onlyIf]
        cases isMysqlFamily w.engine <;> rfl
      obtain ⟨create, made, same, statements⟩ := created
      rw [statements]
      refine putsBackAppend (putsBackEach fun drop member _ => Or.inl ⟨create, by simp, made, ?_⟩)
        (putsBackEach fun drop member gone => ?_)
      · rw [List.mem_singleton.mp member, same]
      · cases List.mem_singleton.mp member
        cases ddl : create.ddl <;> simp [ddl, creates, drops] at made gone
    · refine putsBackEach fun drop member gone => ?_
      obtain ⟨-, excused | ⟨-, other⟩⟩ := routineDrops (statementsAdded.mp member) gone
      · have own : drop.subject = _ := routineWrites (statementsAdded.mp member)
        exact Or.inr (own ▸ excused)
      · exact absurd other dropped
  · refine putsBackEach fun drop member gone => ?_
    obtain ⟨-, excused | ⟨other, -⟩⟩ := routineDrops (statementsAdded.mp member) gone
    · have own : drop.subject = _ := routineWrites (statementsAdded.mp member)
      exact Or.inr (own ▸ excused)
    · exact absurd other changed

theorem quietPutsBack {part : List Effect} (quiet : ∀ statement, .add .routines statement ∈ part → drops statement.ddl = false)
    (later : List Statement) : PutsBackBefore options.includeDrops later (statementsOf part .routines) := by
  refine putsBackEach fun drop member gone => ?_
  rw [quiet drop (statementsAdded.mp member)] at gone
  contradiction

theorem namespacePutsBack {ns : NamespaceDiff} (listed : ns ∈ diff.namespaces) (safe : NamespaceSafe engine options ns)
    (later : List Statement) : PutsBackBefore options.includeDrops later
      (statementsOf (emitNamespace (settingOf toLowerCase diff engine options) ns) .routines) := by
  have apart {part : List Effect} (others : ∀ statement, .add .routines statement ∈ part → drops statement.ddl = true → False)
      (later : List Statement) : PutsBackBefore options.includeDrops later (statementsOf part .routines) :=
    quietPutsBack (fun statement member => Bool.not_eq_true _ ▸ others statement member) later
  have flat {α : Type} {items : List α} {effects : α → List Effect}
      (others : ∀ x ∈ items, ∀ statement, .add .routines statement ∈ effects x → drops statement.ddl = true → False)
      (later : List Statement) : PutsBackBefore options.includeDrops later (statementsOf (items.flatMap effects) .routines) := by
    refine apart (fun statement member => ?_) later
    obtain ⟨x, inside, emitted⟩ := List.mem_flatMap.mp member
    exact others x inside statement emitted
  have routines (later : List Statement) : PutsBackBefore options.includeDrops later
      (statementsOf (ns.routines.flatMap (emitRoutine (settingOf toLowerCase diff engine options) ns)) .routines) := by
    rw [statementsFlatMap]
    exact putsBackFlatMap (fun r inside later => routinePutsBack
      (w := settingOf toLowerCase diff engine options) (safe.routines r inside) later) _
  simp only [emitNamespace, statementsAppend]
  refine putsBackAppend (putsBackAppend (putsBackAppend (putsBackAppend (putsBackAppend (putsBackAppend
    (putsBackAppend (apart ?_ _) (flat ?_ _)) (flat ?_ _)) (flat ?_ _)) (flat ?_ _)) (routines _)) (flat ?_ _)) (apart ?_ _)
  · intro statement member _
    grind
  · exact fun e _ statement member gone => by cases (enumDrops member gone).1
  · exact fun s _ statement member gone => by cases (sequenceDrops member gone).1
  · intro t inside statement member gone
    rcases tableDrop listed safe (fromTable inside member) gone with ⟨destructive, -⟩ | ⟨other, -⟩
    · cases destructive
    · exact other rfl
  · intro v _ statement member gone
    rcases viewDrops member gone with ⟨other, -⟩ | ⟨other, -⟩
    · exact other rfl
    · cases other
  · exact fun t _ statement member gone => by cases (triggerDrops member gone).1
  · intro statement member _
    grind [onlyIf]

theorem routinesPutBack (safe : ∀ ns ∈ diff.namespaces, NamespaceSafe engine options ns) (later : List Statement) :
    PutsBackBefore options.includeDrops later
      (statementsOf (migrationEffects toLowerCase diff engine options) .routines) := by
  have walked (later : List Statement) : PutsBackBefore options.includeDrops later
      (statementsOf (walkEffects toLowerCase diff engine options) .routines) := by
    rw [walkEffects, statementsFlatMap]
    exact putsBackFlatMap (fun ns listed later => namespacePutsBack listed (safe ns listed) later) _
  simp only [migrationEffects, statementsAppend]
  refine putsBackAppend (putsBackAppend (putsBackAppend (putsBackAppend (putsBackAppend
    (quietPutsBack ?_ _) (walked _)) (quietPutsBack ?_ _)) (quietPutsBack ?_ _)) (quietPutsBack ?_ _)) (quietPutsBack ?_ _)
  · intro statement member
    unfold openingNotes at member
    grind [onlyIf]
  · intro statement member
    obtain ⟨c, -, emitted⟩ := List.mem_flatMap.mp member
    unfold emitCreated at emitted
    grind [onlyIf]
  · intro statement member
    obtain ⟨d, -, same⟩ := List.mem_map.mp member
    cases same
  · simp
  · intro statement member
    cases (droppedDestructive member).1

theorem safeStatementsPutBack (safe : ∀ ns ∈ diff.namespaces, NamespaceSafe engine options ns) :
    PutsBack options.includeDrops (safeOrder.flatMap (statementsOf (migrationEffects toLowerCase diff engine options))) := by
  refine sectionsPutBack fun before id after split => ?_
  by_cases routine : id = .routines
  · subst routine
    exact routinesPutBack safe _
  · refine putsBackEach fun drop member gone => ?_
    have secure : id.destructive = false := by
      have inside : id ∈ safeOrder := split ▸ List.mem_append_right before List.mem_cons_self
      simpa using (List.mem_filter.mp inside).2
    rcases addedFrom (statementsAdded.mp member) with ⟨ns, listed, origin⟩ | ⟨-, quiet⟩ | ⟨destructive, -⟩
    · rcases walkedDrop listed (safe ns listed) origin gone with ⟨destructive, -⟩ | ⟨-, excused | ⟨-, found⟩⟩ | ⟨other, -⟩
      · rw [secure] at destructive
        contradiction
      · exact Or.inr excused
      · obtain ⟨later, create, behind, ordered, added, made⟩ := found
        refine Or.inl ⟨create, List.mem_flatMap.mpr ⟨later, ?_, statementsAdded.mpr added⟩, made⟩
        exact behindIn (by decide) split ordered behind
      · exact absurd other routine
    · rw [quiet] at gone
      contradiction
    · rw [secure] at destructive
      contradiction

theorem safeKeeps (safe : ∀ ns ∈ diff.namespaces, NamespaceSafe engine options ns) (additive : options.includeDrops = false)
    {id : SectionId} {statement : Statement} (added : .add id statement ∈ migrationEffects toLowerCase diff engine options)
    (gone : drops statement.ddl = true) : inSource statement.subject = true := by
  have unasked {p : Prop} : options.includeDrops = true ∧ p → False := fun ⟨asked, _⟩ => by simp [additive] at asked
  rcases addedFrom added with ⟨ns, listed, origin⟩ | ⟨-, quiet⟩ | ⟨-, asked⟩
  · rcases walkedDrop listed (safe ns listed) origin gone with ⟨-, asked | kept⟩ | ⟨-, asked | kept⟩ | ⟨rfl, r, -, emitted⟩
    · exact (unasked ⟨asked, trivial⟩).elim
    · exact kept
    · exact (unasked asked).elim
    · exact kept.1
    · have own : statement.subject = _ := routineWrites emitted
      obtain ⟨-, asked | ⟨changed, -⟩⟩ := routineDrops emitted gone
      · exact (unasked asked).elim
      · obtain ⟨source, -, hasSource, -⟩ := bothSides changed
        simp [own, inSource, hasSource]
  · rw [quiet] at gone
    contradiction
  · exact (unasked ⟨asked, trivial⟩).elim

def ownEffects (w : Setting) : Subject → List Effect
  | .view ns v => emitView w ns v
  | .routine ns r => emitRoutine w ns r
  | .trigger ns t => emitTrigger w ns t
  | _ => []

def hasOwn : Subject → Bool
  | .view .. | .routine .. | .trigger .. => true
  | _ => false

theorem fromOwn {w : Setting} {ns : NamespaceDiff} {id : SectionId} {statement : Statement}
    (origin : From w ns (.add id statement)) (own : hasOwn statement.subject = true) :
    .add id statement ∈ ownEffects w statement.subject := by
  cases origin with
  | schema | schemaDropped => contradiction
  | enum _ emitted =>
    rw [show statement.subject = _ from enumWrites emitted] at own
    contradiction
  | sequence emitted =>
    rw [show statement.subject = _ from sequenceWrites emitted] at own
    contradiction
  | table origin =>
    cases origin with
    | foreignKey emitted => rw [show statement.subject = _ from foreignKeyWrites emitted] at own; contradiction
    | index emitted => rw [show statement.subject = _ from indexWrites emitted] at own; contradiction
    | check emitted => rw [show statement.subject = _ from checkWrites emitted] at own; contradiction
    | primaryKey _ _ _ emitted => rw [show statement.subject = _ from primaryKeyWrites emitted] at own; contradiction
    | column emitted => rw [show statement.subject = _ from columnWrites emitted] at own; contradiction
    | tableField emitted => rw [show statement.subject = _ from tableFieldWrites emitted] at own; contradiction
  | view _ emitted => rwa [show statement.subject = _ from viewWrites emitted]
  | routine _ emitted => rwa [show statement.subject = _ from routineWrites emitted]
  | trigger _ emitted => rwa [show statement.subject = _ from triggerWrites emitted]

theorem ownAdded {id : SectionId} {statement : Statement} (secure : id.destructive = false)
    (added : .add id statement ∈ migrationEffects toLowerCase diff engine options) (own : hasOwn statement.subject = true) :
    .add id statement ∈ ownEffects (settingOf toLowerCase diff engine options) statement.subject := by
  rcases addedFrom added with ⟨ns, -, origin⟩ | ⟨table, -⟩ | ⟨destructive, -⟩
  · exact fromOwn origin own
  · cases subject : statement.subject <;> simp [subject, ofTable, hasOwn] at table own
  · rw [secure] at destructive
    contradiction

variable {transactional : Bool}

theorem ownCreated (kept : DestroysNothing options (build (migrationEffects toLowerCase diff engine options) engine transactional))
    {id : SectionId} {drop : Statement} (secure : id.destructive = false)
    (added : .add id drop ∈ migrationEffects toLowerCase diff engine options) (gone : drops drop.ddl = true)
    (source : inSource drop.subject = true) (own : hasOwn drop.subject = true) :
    ∃ later create, .add later create ∈ ownEffects (settingOf toLowerCase diff engine options) drop.subject ∧
      creates create.ddl = true := by
  obtain ⟨before, after, split⟩ := List.append_of_mem (safeAdded.mpr ⟨id, secure, added⟩)
  rcases kept.putsBack before drop after split gone with ⟨create, member, made, same⟩ | ⟨-, absent⟩
  · have listed : create ∈ (build (migrationEffects toLowerCase diff engine options) engine transactional).statements := by
      rw [split]
      simp [member]
    obtain ⟨later, apart, again⟩ := safeAdded.mp listed
    exact ⟨later, create, same ▸ ownAdded apart again (same ▸ own), made⟩
  · rw [source] at absent
    contradiction

theorem destroysNothingSafe (kept : DestroysNothing options (build (migrationEffects toLowerCase diff engine options) engine transactional))
    {ns : NamespaceDiff} (listed : ns ∈ diff.namespaces) : NamespaceSafe engine options ns := by
  have walked {effect : Effect} (emitted : effect ∈ emitNamespace (settingOf toLowerCase diff engine options) ns) :
      effect ∈ migrationEffects toLowerCase diff engine options := walkedAdded (walkedEffects listed emitted)
  constructor
  · intro additive postgres e inside removed
    obtain ⟨target, hasSource, hasTarget⟩ := removedSides removed
    have emitted : .add .types ⟨.dropType ns.targetName target.name options.guards, .enum ns e⟩ ∈
        emitEnum (settingOf toLowerCase diff engine options) ns e := by
      simp [emitEnum, settingOf, postgres, removed, hasSource, hasTarget]
    have source := kept.keeps additive _ (anyAdded.mpr ⟨.types, walked (enumListed inside emitted)⟩) rfl
    simp [inSource, hasSource] at source
  · intro additive alters t inside changed change key some none
    obtain ⟨source, target, hasSource, hasTarget⟩ := bothSides changed
    have emitted : ∃ ddl, drops ddl = true ∧ .add .dropConstraints ⟨ddl, .primaryKey ns t change⟩ ∈
        emitPrimaryKey (settingOf toLowerCase diff engine options) ns t source target change := by
      simp only [emitPrimaryKey]
      rw [if_neg (show ¬ (settingOf toLowerCase diff engine options).engine = .sqlite from alters)]
      refine ⟨_, ?_, List.mem_append_left _ (List.mem_append_left _ (memOnlyIf.mpr ⟨by simpa using some, List.mem_singleton_self _⟩))⟩
      split <;> rfl
    obtain ⟨ddl, gone, emitted⟩ := emitted
    have part : .add .dropConstraints ⟨ddl, .primaryKey ns t change⟩ ∈
        emitTableAlter (settingOf toLowerCase diff engine options) ns t source target := by
      have part := List.mem_flatMap.mpr ⟨change, Option.mem_toList.mpr key, emitted⟩
      simp [emitTableAlter, part]
    have whole := tableListed inside (alterListed changed hasSource hasTarget part)
    have source := kept.keeps additive _ (anyAdded.mpr ⟨_, walked whole⟩) gone
    simp [inSource, none] at source
  · intro v inside changed source hasSource fixed
    obtain ⟨_, target, same, hasTarget⟩ := bothSides changed
    cases same.symm.trans hasSource
    have emitted : .add .dropViews ⟨.dropView (refOf target) target.kind options.guards, .view ns v⟩ ∈
        emitView (settingOf toLowerCase diff engine options) ns v := by
      simp only [emitView, changed, same, hasTarget]
      refine List.mem_append_left _ (memOnlyIf.mpr ⟨?_, List.mem_singleton_self _⟩)
      rw [Bool.and_eq_true_iff]
      exact ⟨rfl, Bool.not_eq_true' _ ▸ fixed⟩
    obtain ⟨later, create, own, made⟩ := ownCreated kept rfl (walked (viewListed inside emitted)) rfl
      (by simp [inSource, same]) rfl
    exact viewCreates own made same
  · intro r inside changed dropped source hasSource
    obtain ⟨_, target, same, hasTarget⟩ := bothSides changed
    cases same.symm.trans hasSource
    have emitted : .add .routines ⟨.dropRoutine ns.targetName target, .routine ns r⟩ ∈
        emitRoutine (settingOf toLowerCase diff engine options) ns r := by
      simp only [emitRoutine, changed, same, hasTarget]
      exact List.mem_append_left _ (memOnlyIf.mpr ⟨dropped, List.mem_singleton_self _⟩)
    obtain ⟨later, create, own, made⟩ := ownCreated kept rfl (walked (routineListed inside emitted)) rfl
      (by simp [inSource, same]) rfl
    exact routineCreates own made same
  · intro t inside changed source hasSource
    obtain ⟨_, target, same, hasTarget⟩ := bothSides changed
    cases same.symm.trans hasSource
    have emitted : .add .dropTriggers ⟨.dropTrigger ns.targetName target.name target.table options.guards, .trigger ns t⟩ ∈
        emitTrigger (settingOf toLowerCase diff engine options) ns t := by
      simp [emitTrigger, changed, droppedSide, hasTarget, settingOf]
    obtain ⟨later, create, own, made⟩ := ownCreated kept rfl (walked (triggerListed inside emitted)) rfl
      (by simp [inSource, same]) rfl
    exact triggerCreates own made same

theorem safeSectionPutsBack {script : MigrationScript Statement}
    (generated : generateMigration toLowerCase diff engine options = .ok script) :
    DestroysNothing options script ↔ ∀ ns ∈ diff.namespaces, NamespaceSafe engine options ns := by
  unfold generateMigration at generated
  split at generated
  · cases generated
    refine ⟨fun kept ns listed => destroysNothingSafe kept listed, fun safe => ⟨?_, ?_⟩⟩
    · rw [safeStatements]
      exact safeStatementsPutBack safe
    · intro additive statement listed gone
      obtain ⟨id, added⟩ := anyAdded.mp listed
      exact safeKeeps safe additive added gone
  · contradiction

end Safe

section Instances

def asciiLower (text : Text) : Text := text.map lowerUnit

def appNamespace : NamespaceDiff :=
  ⟨units "app", some (units "app"), some (units "app"), .changed, [], [], [], [], [], [], []⟩

def auditTrigger (statement : String) : TriggerModel :=
  ⟨units "audit", none, units "orders", .after, [.insert], some .row, none, some (units statement)⟩

def auditDiff : SchemaDiff :=
  ⟨.postgres, .postgres, [{ appNamespace with triggers := [⟨units "audit", .changed,
    some (auditTrigger "EXECUTE FUNCTION log_order()"), some (auditTrigger "EXECUTE FUNCTION log_row()"), [],
    ⟨rfl, rfl⟩⟩] }], ⟨0, 0, 1⟩, []⟩

def plainOptions : MigrationOptions := ⟨false, true, true, false⟩

theorem auditTriggerPutBack : ∃ script, generateMigration asciiLower auditDiff .postgres plainOptions = .ok script ∧
    DestroysNothing plainOptions script := by
  refine ⟨_, rfl, (@safeSectionPutsBack asciiLower auditDiff .postgres plainOptions _ rfl).mpr ?_⟩
  refine List.forall_mem_singleton.mpr ⟨?_, ?_, ?_, ?_, ?_⟩
  · exact fun _ _ _ listed => by cases listed
  · exact fun _ _ _ listed => by cases listed
  · exact fun _ listed => by cases listed
  · exact fun _ listed => by cases listed
  · intro t listed _ source hasSource
    cases List.mem_singleton.mp listed
    cases hasSource
    decide

def moodNamespace : NamespaceDiff :=
  { appNamespace with enums := [⟨units "mood", .removed, none, some ⟨units "mood", none, [units "ok"]⟩, [], ⟨rfl, rfl⟩⟩] }

def moodDiff : SchemaDiff := ⟨.postgres, .postgres, [moodNamespace], ⟨0, 1, 0⟩, []⟩

def additiveOptions : MigrationOptions := ⟨false, false, true, false⟩

theorem additiveScriptDropsType : ∃ script, generateMigration asciiLower moodDiff .postgres additiveOptions = .ok script ∧
    ¬ DestroysNothing additiveOptions script := by
  refine ⟨_, rfl, fun kept => ?_⟩
  have safe : NamespaceSafe .postgres additiveOptions moodNamespace :=
    destroysNothingSafe kept (List.mem_singleton_self _)
  exact safe.enums rfl rfl _ (List.mem_singleton_self _) rfl

end Instances

end DatabaseAdmin.SafeDrops
