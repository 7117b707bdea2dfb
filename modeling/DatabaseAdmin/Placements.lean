import DatabaseAdmin.AnchoredLists
import DatabaseAdmin.SafeDrops
import DatabaseAdmin.SchemaDiffer

/-! Where a migration puts what it adds to something that has an order: the labels of an enum type and the columns of
a table. -/
namespace DatabaseAdmin.Placements
open CodeUnits SchemaModels MigrationScripts SchemaDiffs SchemaDiffer MigrationPlan
open NamedChanges (follow)
open KeyPairing (Pair pairs first firsts)
open AnchoredLists

def SameOrder (source target : List Text) : Prop := source.filter (· ∈ target) = target.filter (· ∈ source)

section Adding
variable (asAdd : Ddl → Option (Text × Anchor Text))

def grow (items : List Text) (ddl : Ddl) : Option (List Text) :=
  match asAdd ddl with
  | some add => put items add
  | none => some items

def ddlsOf (effects : List Effect) (id : SectionId) : List Ddl := (statementsOf effects id).map (·.ddl)

def asAdding (id : SectionId) : Effect → Option (Text × Anchor Text)
  | .add section' statement => if section' = id then asAdd statement.ddl else none
  | _ => none

variable {asAdd}

theorem followGrow (items : List Text) (ddls : List Ddl) :
    follow (grow asAdd) items ddls = follow put items (ddls.filterMap asAdd) := by
  induction ddls generalizing items with
  | nil => rfl
  | cons ddl rest ih =>
    rw [follow, grow]
    cases added : asAdd ddl with
    | none => rw [List.filterMap_cons_none added, ← ih, Option.bind_some]
    | some add =>
      rw [List.filterMap_cons_some added, follow]
      simp only [ih]

theorem ddlsAdding (effects : List Effect) (id : SectionId) :
    (ddlsOf effects id).filterMap asAdd = effects.filterMap (asAdding asAdd id) := by
  simp only [ddlsOf, statementsOf, List.filterMap_map, List.filterMap_filterMap]
  refine List.filterMap_congr fun effect _ => ?_
  cases effect with
  | add section' statement =>
    by_cases same : section' = id <;> simp [Effect.asAdded, asAdding, same]
  | _ => rfl

end Adding

section Enums

def valueAnchor : ValuePlace → Anchor Text
  | .atEnd => .atEnd
  | .after label => .after label
  | .before label => .before label

def asValue : Ddl → Option (Text × Anchor Text)
  | .addEnumValue _ _ value place => some (value, valueAnchor place)
  | _ => none

theorem valuesAdds {add : Text → ValuePlace → Effect} {id : SectionId} {firstExisting : Option Text} {there : List Text}
    (written : ∀ v place, asAdding asValue id (add v place) = some (v, valueAnchor place)) (wanted : List Text)
    {existing done : List Text} (known : ∀ x, x ∈ existing ↔ x ∈ done ∨ x ∈ there)
    (start : done = [] → firstExisting = wanted.find? (· ∈ there)) :
    Adds there done wanted ((addValues add firstExisting existing done.getLast? wanted).filterMap (asAdding asValue id)) := by
  induction wanted generalizing existing done with
  | nil => exact .none done
  | cons v rest ih =>
    have last : (done ++ [v]).getLast? = some v := List.getLast?_concat
    unfold addValues
    by_cases held : v ∈ existing
    · rw [if_pos held, ← last]
      refine .kept ((known v).mp held) (ih (fun x => ?_) (by simp))
      rw [known, List.mem_append, List.mem_singleton]
      have inside := (known v).mp held
      constructor
      · tauto
      · rintro ((old | rfl) | old)
        · exact .inl old
        · exact inside
        · exact .inr old
    · rw [if_neg held, List.filterMap_cons_some (written v _), ← last]
      have new := not_or.mp fun either => held ((known v).mpr either)
      refine .added new.1 new.2 ?_ (ih (fun x => ?_) (by simp))
      · cases previous : done.getLast? with
        | some label => exact previous
        | none =>
          have empty := List.getLast?_eq_none_iff.mp previous
          rw [start empty, List.find?_cons_of_neg (by simpa using new.2), ← List.head?_filter]
          cases next : (rest.filter (· ∈ there)).head? with
          | some label => exact ⟨empty, next⟩
          | none => exact List.head?_eq_none_iff.mp next
      · rw [List.mem_cons, known, List.mem_append, List.mem_singleton]
        tauto

variable (w : Setting) (ns : NamespaceDiff)

def typeDdls (s t : EnumTypeModel) : List Ddl := ddlsOf (emitEnum w ns (entryOf (·.name) enumFields (.both s t))) .types

variable {w} {ns}

theorem enumStatus (s t : EnumTypeModel) : (entryOf (·.name) enumFields (.both s t)).status =
    if join s.values = join t.values then .same else .changed := by
  by_cases same : join s.values = join t.values <;>
    simp [entryOf, fieldsOf, enumFields, pushText, push, statusFor, same]

theorem typeAdds (postgres : w.engine = .postgres) {s t : EnumTypeModel} (differ : join s.values ≠ join t.values) :
    Adds t.values [] s.values ((typeDdls w ns s t).filterMap asValue) := by
  have changed := enumStatus s t
  rw [if_neg differ] at changed
  rw [typeDdls, ddlsAdding, emitEnum, if_neg (not_not.mpr postgres), changed]
  simp only [entryOf, Pair.sides]
  rw [List.filterMap_append, List.filterMap_append]
  have quiet (p : Bool) (message : Text) : (onlyIf p [.warn message]).filterMap (asAdding asValue .types) = [] := by
    cases p <;> rfl
  have warned (message : Text) : [Effect.warn message].filterMap (asAdding asValue .types) = [] := rfl
  rw [quiet, List.append_nil, warned, List.append_nil]
  have written (v : Text) (place : ValuePlace) : asAdding asValue .types (.add .types ⟨.addEnumValue ns.targetName t.name v place,
      .enum ns (entryOf (·.name) enumFields (.both s t))⟩) = some (v, valueAnchor place) := rfl
  exact valuesAdds written s.values (fun x => by simp) fun _ => by simp

theorem typeUntouched {s t : EnumTypeModel} (alike : join s.values = join t.values) : typeDdls w ns s t = [] := by
  have same := enumStatus s t
  rw [if_pos alike] at same
  rw [typeDdls, emitEnum, same]
  by_cases postgres : w.engine = .postgres <;> simp [postgres, onlyIf, ddlsOf, statementsOf]

-- An addition is never refused. The order comes out unless the two lists are taken for one list that they are not.
theorem enumGrown (w : Setting) (postgres : w.engine = .postgres) (ns : NamespaceDiff) (s t : EnumTypeModel)
    (distinct : s.values.Nodup) : ∃ final, follow (grow asValue) t.values (typeDdls w ns s t) = some final ∧
      ((SameOrder s.values t.values → final.filter (· ∈ s.values) = s.values) ↔
        (join s.values = join t.values → SameOrder s.values t.values → ∀ v ∈ s.values, v ∈ t.values)) := by
  by_cases alike : join s.values = join t.values
  · refine ⟨t.values, by rw [typeUntouched alike]; rfl, fun ordered _ same v listed => ?_, fun inside same => ?_⟩
    · rw [← ordered same] at listed
      exact (List.mem_filter.mp listed).1
    · rw [← same, List.filter_eq_self]
      simpa using inside alike same
  · obtain ⟨final, ran, -, ordered⟩ := grown (typeAdds postgres alike) t.values (by simp)
    refine ⟨final, by rw [followGrow, ran], fun _ same => absurd same alike, fun _ same => ordered distinct ?_⟩
    exact same.symm

def settingFor (engine : EngineKind) : Setting := ⟨engine, ⟨true, true, true, true⟩, id, (·.map lowerUnit)⟩

def publicNamespace : NamespaceDiff :=
  ⟨units "public", some (units "public"), some (units "public"), .changed, [], [], [], [], [], [], []⟩

def mood (labels : List String) : EnumTypeModel := ⟨units "mood", none, labels.map units⟩

theorem moodGrown : ∃ final, follow (grow asValue) (mood ["ok", "other"]).values
      (typeDdls (settingFor .postgres) publicNamespace (mood ["sad", "ok", "happy"]) (mood ["ok", "other"])) = some final ∧
    ((SameOrder (mood ["sad", "ok", "happy"]).values (mood ["ok", "other"]).values →
        final.filter (· ∈ (mood ["sad", "ok", "happy"]).values) = (mood ["sad", "ok", "happy"]).values) ↔
      (join (mood ["sad", "ok", "happy"]).values = join (mood ["ok", "other"]).values →
        SameOrder (mood ["sad", "ok", "happy"]).values (mood ["ok", "other"]).values →
          ∀ v ∈ (mood ["sad", "ok", "happy"]).values, v ∈ (mood ["ok", "other"]).values)) :=
  enumGrown (settingFor .postgres) rfl publicNamespace (mood ["sad", "ok", "happy"]) (mood ["ok", "other"]) (by decide)

theorem commaLabelKept : ¬ ∀ (w : Setting), w.engine = .postgres → ∀ (ns : NamespaceDiff) (s t : EnumTypeModel),
    s.values.Nodup → t.values.Nodup → ∃ final, follow (grow asValue) t.values (typeDdls w ns s t) = some final ∧
      (SameOrder s.values t.values → final.filter (· ∈ s.values) = s.values) := by
  intro all
  obtain ⟨final, ran, ordered⟩ := all (settingFor .postgres) rfl publicNamespace (mood ["a", "b"]) (mood ["a, b"])
    (by decide) (by decide)
  rw [typeUntouched (by decide)] at ran
  cases Option.some.inj ran
  exact absurd (ordered (by unfold SameOrder; decide)) (by decide)

end Enums

section Columns
variable (w : Setting) (ns : NamespaceDiff)

def columnAnchor : ColumnPlace → Anchor Text
  | .atEnd => .atEnd
  | .first => .atStart
  | .after column => .after column

def asColumn : Ddl → Option (Text × Anchor Text)
  | .addColumn _ column place => some (column.name, columnAnchor place)
  | _ => none

def asAltering (effect : Effect) : Option (Text × Anchor Text) := asAdding asColumn .alterTables effect

variable {w} {ns} {entry : TableDiffEntry} {source target : TableModel}

section Quiet
variable {effect : Effect}

theorem foreignKeyQuiet {f : ObjectDiff ForeignKeyModel} (listed : effect ∈ emitForeignKey w ns entry target f) :
    asAltering effect = none := by
  unfold emitForeignKey at listed
  grind [asAltering, asAdding, asColumn]

theorem indexQuiet {i : ObjectDiff IndexModel} (listed : effect ∈ emitIndex w ns entry target i) :
    asAltering effect = none := by
  unfold emitIndex at listed
  grind [asAltering, asAdding, asColumn]

theorem checkQuiet {c : ObjectDiff CheckModel} (listed : effect ∈ emitCheck w ns entry target c) :
    asAltering effect = none := by
  unfold emitCheck at listed
  grind [asAltering, asAdding, asColumn, onlyIf]

theorem primaryKeyQuiet {change : KeyChange} (listed : effect ∈ emitPrimaryKey w ns entry source target change) :
    asAltering effect = none := by
  unfold emitPrimaryKey at listed
  grind [asAltering, asAdding, asColumn, onlyIf]

theorem tableFieldQuiet {field : FieldDiff} (listed : effect ∈ emitTableField w ns entry source target field) :
    asAltering effect = none := by
  unfold emitTableField at listed
  grind [asAltering, asAdding, asColumn, onlyIf]

theorem renameQuiet (listed : effect ∈ renameNote entry target) : asAltering effect = none := by
  unfold renameNote at listed
  grind [asAltering, asAdding, onlyIf]

end Quiet

theorem alterAdds : (emitTableAlter w ns entry source target).filterMap asAltering =
    entry.columns.flatMap fun c => (emitColumn w ns entry source target c).filterMap asAltering := by
  have quiet {α : Type} {items : List α} {emit : α → List Effect}
      (each : ∀ x, ∀ effect ∈ emit x, asAltering effect = none) : (items.flatMap emit).filterMap asAltering = [] := by
    refine List.filterMap_eq_nil_iff.mpr fun effect listed => ?_
    obtain ⟨x, -, inside⟩ := List.mem_flatMap.mp listed
    exact each x effect inside
  have warned (p : Bool) (message : Text) : (onlyIf p [.warn message]).filterMap asAltering = [] := by
    cases p <;> rfl
  have renamed := List.filterMap_eq_nil_iff.mpr fun effect (listed : effect ∈ renameNote entry target) => renameQuiet listed
  simp only [emitTableAlter, List.filterMap_append, warned, renamed, quiet fun _ _ => foreignKeyQuiet,
    quiet fun _ _ => indexQuiet, quiet fun _ _ => checkQuiet, quiet fun _ _ => primaryKeyQuiet,
    quiet fun _ _ => tableFieldQuiet, List.nil_append, List.append_nil, List.filterMap_flatMap]

section Loop

def nameList (t : TableModel) : List Text := (orderedColumns t).map (·.name)

def columnAdds (source : TableModel) (there : List Text) (columns : List ColumnModel) : List (Text × Anchor Text) :=
  (columns.filter (·.name ∉ there)).map fun c => (c.name, columnAnchor (mysqlPlace source c.name))

theorem placeSuits {there done rest : List Text} {v : Text} (names : nameList source = done ++ v :: rest) (new : v ∉ done) :
    Suits done (rest.filter (· ∈ there)) (columnAnchor (mysqlPlace source v)) := by
  have found : (nameList source).findIdx? (· = v) = some done.length := by
    rw [names, List.findIdx?_append, List.findIdx?_eq_none_iff.mpr, Option.none_or, List.findIdx?_cons,
      if_pos (by simp), Option.map_some, Nat.zero_add]
    intro x early
    simpa using fun same : x = v => new (same ▸ early)
  have size : (nameList source).length = done.length + rest.length + 1 := by
    rw [names, List.length_append, List.length_cons, Nat.add_assoc]
  unfold mysqlPlace
  simp only [show (orderedColumns source).map (·.name) = nameList source from rfl, found]
  split
  · rename_i last
    have empty : rest = [] := List.length_eq_zero_iff.mp (by omega)
    rw [empty]
    rfl
  · cases done using List.reverseRecOn with
    | nil => rfl
    | append_singleton early x =>
      rw [List.length_append, List.length_singleton]
      simp only [columnAnchor, Suits, names, List.getLast?_concat]
      simp

theorem columnsAdd {there : List Text} {done rest : List ColumnModel} (used : List Text)
    (parts : orderedColumns source = done ++ rest) (known : ∀ x, x ∈ used ↔ x ∈ done.map (·.name)) :
    Adds there (done.map (·.name)) (rest.map (·.name)) (columnAdds source there (firsts (·.name) used rest)) := by
  induction rest generalizing done used with
  | nil => exact .none _
  | cons c rest ih =>
    have next : orderedColumns source = (done ++ [c]) ++ rest := by rw [parts, List.append_assoc, List.singleton_append]
    rw [firsts, List.map_cons]
    split
    · rename_i held
      have more := ih used next fun x => by
        rw [known, List.map_append, List.mem_append, List.map_singleton, List.mem_singleton]
        exact ⟨.inl, fun either => either.elim id fun same => same ▸ (known _).mp held⟩
      rw [List.map_append] at more
      exact .kept (.inl ((known _).mp held)) more
    · rename_i new
      have more := ih (c.name :: used) next fun x => by
        rw [List.mem_cons, known, List.map_append, List.mem_append, List.map_singleton, List.mem_singleton, or_comm]
      rw [List.map_append] at more
      by_cases old : c.name ∈ there
      · rw [columnAdds, List.filter_cons_of_neg (by simpa using old)]
        exact .kept (.inr old) more
      · rw [columnAdds, List.filter_cons_of_pos (by simpa using old), List.map_cons]
        refine .added (fun early => new ((known _).mpr early)) old (placeSuits ?_ fun early => new ((known _).mpr early)) more
        rw [nameList, parts, List.map_append, List.map_cons]

end Loop

theorem mysqlOther (mysql : isMysqlFamily w.engine = true) : w.engine ≠ .sqlite := fun same => by
  rw [same] at mysql
  contradiction

theorem addedEmits (mysql : isMysqlFamily w.engine = true) {c : ObjectDiff ColumnModel} {s : ColumnModel}
    (added : c.status = .added) (here : c.source = some s) : (emitColumn w ns entry source target c).filterMap asAltering =
      [(s.name, columnAnchor (mysqlPlace source s.name))] := by
  simp only [emitColumn, added, here, mysqlOther mysql, false_and, if_false, mysql, if_true]
  cases !s.nullable && s.defaultValue.isNone && s.generated.isNone <;> rfl

theorem otherEmits (mysql : isMysqlFamily w.engine = true) {c : ObjectDiff ColumnModel} (kept : c.status ≠ .added) :
    (emitColumn w ns entry source target c).filterMap asAltering = [] := by
  refine List.filterMap_eq_nil_iff.mpr fun effect listed => ?_
  unfold emitColumn at listed
  split at listed
  · contradiction
  · rw [decide_eq_false (mysqlOther mysql)] at listed
    grind [asAltering, asAdding, onlyIf]
  · simp only [alterColumnStatements, mysql, if_true] at listed
    grind [asAltering, asAdding, asColumn, onlyIf]
  · contradiction

theorem pairsEmit (mysql : isMysqlFamily w.engine = true) {compare : ColumnModel → ColumnModel → List FieldDiff}
    (p : Pair ColumnModel) : (emitColumn w ns entry source target (entryOf (·.name) compare p)).filterMap asAltering =
      match p with
      | .source c => [(c.name, columnAnchor (mysqlPlace source c.name))]
      | _ => [] := by
  cases p with
  | source c => exact addedEmits mysql rfl rfl
  | target c => exact otherEmits mysql nofun
  | both c d =>
    refine otherEmits mysql fun added => ?_
    simp only [entryOf, statusFor] at added
    split at added <;> contradiction

variable {toLowerCase : Text → Text} {o : DiffOptions} {mapNamespace : Text → Text} {s t : TableModel}

theorem sameColumns (same : tableChanged toLowerCase o mapNamespace (.both s t) = false) :
    ∀ c ∈ diffColumns toLowerCase o (.both s t), c.status = .same := by
  intro c listed
  simp only [tableChanged, Bool.or_eq_false_iff] at same
  simpa using List.any_eq_false.mp same.1.1.1.2 c listed

theorem changedEmits (changed : entry.status = .changed) (left : entry.source = some source)
    (right : entry.target = some target) :
    (emitTable w ns entry).filterMap asAltering = (emitTableAlter w ns entry source target).filterMap asAltering := by
  simp only [emitTable, changed, left, right, Option.toList_some, List.map_cons, List.map_nil, List.singleton_append]
  rw [List.filterMap_cons_none]
  rfl

theorem sameEmits (same : entry.status = .same) (right : entry.target = some target) :
    (emitTable w ns entry).filterMap asAltering = [] := by
  simp only [emitTable, same, right, Option.toList_some, List.map_cons, List.map_nil, List.append_nil]
  rfl

theorem tableEmits (mysql : isMysqlFamily w.engine = true) :
    (emitTable w ns (diffTableEntry toLowerCase o mapNamespace (.both s t))).filterMap asAltering =
      (diffColumns toLowerCase o (.both s t)).flatMap fun c =>
        (emitColumn w ns (diffTableEntry toLowerCase o mapNamespace (.both s t)) s t c).filterMap asAltering := by
  cases changed : tableChanged toLowerCase o mapNamespace (.both s t) with
  | false =>
    rw [sameEmits (by rw [tableStatus, changed]; rfl) (tableTarget _ _), eq_comm, List.flatMap_eq_nil_iff]
    intro c listed
    refine otherEmits mysql fun added => ?_
    rw [sameColumns changed c listed] at added
    contradiction
  | true =>
    rw [changedEmits (by rw [tableStatus, changed]; rfl) (tableSource _ _) (tableTarget _ _), alterAdds, tableColumns]

theorem pairedAdds (mysql : isMysqlFamily w.engine = true) (exact : o.ignoreCase = false) :
    ((diffColumns toLowerCase o (.both s t)).flatMap fun c => (emitColumn w ns entry s t c).filterMap asAltering) =
      columnAdds s (nameList t) (firsts (·.name) [] (orderedColumns s)) := by
  have plain : (fun c : ColumnModel => fold toLowerCase o c.name) = (·.name) := by
    funext c
    rw [fold, exact]
    rfl
  rw [diffColumns, plain, List.flatMap_map]
  simp only [pairsEmit mysql]
  rw [pairs, List.flatMap_append, List.flatMap_map, List.flatMap_map]
  have gone : ((firsts (·.name) ((itemsOf orderedColumns (Pair.both s t).sides.1).map (·.name))
      (itemsOf orderedColumns (Pair.both s t).sides.2)).flatMap fun _ => ([] : List (Text × Anchor Text))) = [] := by
    simp
  rw [gone, List.append_nil]
  have one (columns : List ColumnModel) : columnAdds s (nameList t) columns = columns.flatMap fun c =>
      if c.name ∈ nameList t then [] else [(c.name, columnAnchor (mysqlPlace s c.name))] := by
    induction columns with
    | nil => rfl
    | cons c rest ih =>
      rw [List.flatMap_cons, ← ih, columnAdds, columnAdds, List.filter_cons]
      by_cases inside : c.name ∈ nameList t <;> simp [inside]
  rw [one]
  refine List.flatMap_congr fun c _ => ?_
  rw [show itemsOf orderedColumns (Pair.both s t).sides.2 = orderedColumns t from rfl]
  cases found : first (·.name) (orderedColumns t) c.name with
  | none => rw [if_neg (show c.name ∉ nameList t from KeyPairing.firstNone.mp found)]
  | some d =>
    obtain ⟨inside, same⟩ := KeyPairing.firstMem found
    rw [if_pos (show c.name ∈ nameList t from same ▸ List.mem_map_of_mem inside)]

variable (w) (ns) in
def tableDdls (toLowerCase : Text → Text) (o : DiffOptions) (mapNamespace : Text → Text) (s t : TableModel) : List Ddl :=
  ddlsOf (emitTable w ns (diffTableEntry toLowerCase o mapNamespace (.both s t))) .alterTables

-- An addition is never refused, so its anchor is there when it runs.
theorem columnsPlaced (w : Setting) (mysql : isMysqlFamily w.engine = true) (ns : NamespaceDiff)
    (toLowerCase : Text → Text) (o : DiffOptions) (exact : o.ignoreCase = false) (mapNamespace : Text → Text)
    (s t : TableModel) : ∃ final,
      follow (grow asColumn) (nameList t) (tableDdls w ns toLowerCase o mapNamespace s t) = some final ∧
      ((nameList s).Nodup → (∀ x ∈ nameList t, x ∈ nameList s) → SameOrder (nameList s) (nameList t) →
        final = nameList s) := by
  have adds : Adds (nameList t) [] (nameList s)
      ((tableDdls w ns toLowerCase o mapNamespace s t).filterMap asColumn) := by
    rw [tableDdls, ddlsAdding]
    exact (tableEmits mysql).trans (pairedAdds mysql exact) ▸ columnsAdd [] (List.nil_append _).symm (by simp)
  obtain ⟨final, ran, members, ordered⟩ := grown adds (nameList t) (by simp)
  rw [List.nil_append] at members ordered
  refine ⟨final, by rw [followGrow, ran], fun distinct inside same => ?_⟩
  rw [← ordered distinct same.symm]
  refine (List.filter_eq_self.mpr fun x listed => ?_).symm
  have either := (members x).mp listed
  simpa using either.elim id (inside x)

def plainColumn (position : Nat) (name : String) : ColumnModel :=
  ⟨units name, position, ⟨units "int", .integer, none, none, none, false, false, []⟩, true, none, false, none, none, none,
    none, none⟩

def itemTable (columns : List String) : TableModel :=
  ⟨units "item", none, .table, columns.zipIdx.map fun c => plainColumn c.2 c.1, [], [], [], [], none, none, none, none, none,
    none⟩

def exactOptions : DiffOptions := ⟨false, false, false, false, []⟩

theorem itemColumnsPlaced : ∃ final, follow (grow asColumn) (nameList (itemTable ["b", "d"]))
      (tableDdls (settingFor .mysql) publicNamespace (·.map lowerUnit) exactOptions id (itemTable ["a", "b", "c", "d", "e"])
        (itemTable ["b", "d"])) = some final ∧
    ((nameList (itemTable ["a", "b", "c", "d", "e"])).Nodup →
      (∀ x ∈ nameList (itemTable ["b", "d"]), x ∈ nameList (itemTable ["a", "b", "c", "d", "e"])) →
      SameOrder (nameList (itemTable ["a", "b", "c", "d", "e"])) (nameList (itemTable ["b", "d"])) →
        final = nameList (itemTable ["a", "b", "c", "d", "e"])) :=
  columnsPlaced (settingFor .mysql) rfl publicNamespace (·.map lowerUnit) exactOptions rfl id
    (itemTable ["a", "b", "c", "d", "e"]) (itemTable ["b", "d"])

end Columns

end DatabaseAdmin.Placements
