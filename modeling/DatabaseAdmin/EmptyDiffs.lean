import Std.Data.String.ToNat
import DatabaseAdmin.SqlTokens
import DatabaseAdmin.TableDiffs
import DatabaseAdmin.Templates

/-! What an empty diff of two tables promises. The lists of names are compared as joined texts and the type texts with
their case folded, so the diff is empty for some tables that differ; told are the pairs it can tell apart. -/
namespace DatabaseAdmin.EmptyDiffs
open CodeUnits SchemaModels MigrationScripts DdlCommon TableDiffs

section Joins
variable {α : Type} {sep : α} {a b c d : List α}

theorem cutAt (same : a ++ sep :: b = c ++ sep :: d) (bare : sep ∉ a) (bare' : sep ∉ c) : a = c ∧ b = d := by
  induction a generalizing c with
  | nil =>
    cases c with
    | nil => exact ⟨rfl, (List.cons.inj same).2⟩
    | cons x c => exact absurd ((List.cons.inj same).1 ▸ List.mem_cons_self) bare'
  | cons x a ih =>
    cases c with
    | nil => exact absurd ((List.cons.inj same).1 ▸ List.mem_cons_self) bare
    | cons y c =>
      obtain ⟨first, rest⟩ := List.cons.inj same
      obtain ⟨left, right⟩ := ih rest (fun inside => bare (List.mem_cons_of_mem x inside))
        (fun inside => bare' (List.mem_cons_of_mem y inside))
      exact ⟨by rw [first, left], right⟩

theorem joinedParts {glue : List α} {xs ys : List (List α)} (same : glue.intercalate xs = glue.intercalate ys)
    (lengths : xs.map List.length = ys.map List.length) : xs = ys := by
  induction xs generalizing ys with
  | nil => exact (List.map_eq_nil_iff.mp lengths.symm).symm
  | cons x xs ih =>
    cases ys with
    | nil => contradiction
    | cons y ys =>
      obtain ⟨first, rest⟩ := List.cons.inj lengths
      cases xs with
      | nil =>
        cases List.map_eq_nil_iff.mp rest.symm
        rw [List.intercalate_singleton, List.intercalate_singleton] at same
        rw [same]
      | cons x' xs =>
        cases ys with
        | nil => contradiction
        | cons y' ys =>
          rw [List.intercalate_cons_cons, List.intercalate_cons_cons, List.append_assoc, List.append_assoc] at same
          obtain ⟨head, tail⟩ := List.append_inj same first
          rw [head, ih (List.append_cancel_left tail) rest]

theorem joinedLength {glue : List α} {xs ys : List (List α)} (lengths : xs.map List.length = ys.map List.length) :
    (glue.intercalate xs).length = (glue.intercalate ys).length := by
  have size (zs : List (List α)) :
      (glue.intercalate zs).length = (zs.map List.length).sum + glue.length * (zs.length - 1) := by
    induction zs with
    | nil => rfl
    | cons z zs ih =>
      cases zs with
      | nil => simp
      | cons z' zs =>
        rw [List.intercalate_cons_cons, List.length_append, List.length_append, ih]
        simp only [List.map_cons, List.sum_cons, List.length_cons, Nat.add_sub_cancel, Nat.mul_succ]
        omega
  have many : xs.length = ys.length := by simpa using congrArg List.length lengths
  rw [size, size, lengths, many]

end Joins

section Agreement
variable (toLowerCase : Text → Text) (rules : DialectRules)

def literals (text : Text) : List Text :=
  ((tokenize text rules).filter fun t =>
    t.kind = .string ∨ (rules.doubleQuoteIsString ∧ t.kind = .quoted ∧ t.text.head? = some doubleQuote)).map (·.text)

def labels (text : Text) : List Text :=
  ((tokenize text rules).filter fun t => t.kind = .string ∨ t.kind = .quoted).map (·.text)

def SameNumbers (a b : TypeDescriptor) : Prop :=
  a.base = b.base ∧ a.length = b.length ∧ a.precision = b.precision ∧ a.scale = b.scale ∧
    a.unsigned = b.unsigned ∧ a.withTimezone = b.withTimezone

def BothRaw (a b : TypeDescriptor) : Prop := toLowerCase (trim a.raw) ≠ [] ∧ toLowerCase (trim b.raw) ≠ []

structure TypesAgree (a b : TypeDescriptor) : Prop where
  numbers : SameNumbers a b
  values : a.values = b.values
  folded : BothRaw toLowerCase a b → toLowerCase (trim a.raw) = toLowerCase (trim b.raw)
  labels : BothRaw toLowerCase a b → labels rules a.raw = labels rules b.raw

structure TextsAgree (a b : Option Text) : Prop where
  given : a.isSome = b.isSome
  spaced : normalizeSpace (a.getD []) = normalizeSpace (b.getD [])
  literal : literals rules (a.getD []) = literals rules (b.getD [])

structure DefaultsAgree (a b : Option Text) : Prop where
  given : a.isSome = b.isSome
  spaced : normalizeSpace (a.getD []) = normalizeSpace (b.getD []) ∨
    isKeywordDefault (normalizeSpace (a.getD [])) = true ∧ isKeywordDefault (normalizeSpace (b.getD [])) = true ∧
      toLowerCase (normalizeSpace (a.getD [])) = toLowerCase (normalizeSpace (b.getD []))
  literal : literals rules (a.getD []) = literals rules (b.getD [])

structure ColumnsAgree (b a : ColumnModel) : Prop where
  type : TypesAgree toLowerCase rules b.type a.type
  nullable : b.nullable = a.nullable
  default : DefaultsAgree toLowerCase rules b.defaultValue a.defaultValue
  autoIncrement : b.autoIncrement = a.autoIncrement
  generated : b.generated = a.generated
  expression : TextsAgree rules b.generatedExpression a.generatedExpression
  collation : b.collation = a.collation
  charset : b.charset = a.charset
  comment : b.comment.getD [] = a.comment.getD []

structure PartShape where
  column : Bool
  subject : Text
  order : SortOrder
  length : Option Nat
  nulls : Option NullsOrder
  deriving DecidableEq

def partShape (c : IndexColumn) : PartShape := ⟨c.name.isSome, partSubject c, c.order.getD .asc, c.length, c.nulls⟩

structure IndexesAgree (i j : IndexModel) : Prop where
  unique : i.unique = j.unique
  method : i.method.getD [] = j.method.getD []
  predicate : i.predicate.getD [] = j.predicate.getD []
  parts : i.columns.map partShape = j.columns.map partShape

structure KeysAgree (f g : ForeignKeyModel) : Prop where
  columns : f.columns = g.columns
  refSchema : f.refSchema.getD [] = g.refSchema.getD []
  refTable : f.refTable = g.refTable
  refColumns : f.refColumns = g.refColumns
  onUpdate : f.onUpdate.getD .noAction = g.onUpdate.getD .noAction
  onDelete : f.onDelete.getD .noAction = g.onDelete.getD .noAction
  deferrable : f.deferrable = g.deferrable

def ChecksAgree (c d : CheckModel) : Prop := TextsAgree rules (some c.expression) (some d.expression)

def SameName {α : Type} (nameOf : α → Text) (alike : α → α → Prop) (items items' : List α) : Prop :=
  ∀ x ∈ items, ∀ y ∈ items', nameOf x = nameOf y → alike x y

structure Matched {α : Type} (nameOf : α → Text) (alike : α → α → Prop) (items items' : List α) : Prop where
  names : ∀ n, n ∈ items.map nameOf ↔ n ∈ items'.map nameOf
  alike : SameName nameOf alike items items'

structure Agree (current desired : TableModel) : Prop where
  name : current.name = desired.name
  schema : current.schema.getD [] = desired.schema.getD []
  order : columnNames current = columnNames desired
  columns : SameName (·.name) (ColumnsAgree toLowerCase rules) (orderedColumns current) (orderedColumns desired)
  primaryKey : current.primaryKey = desired.primaryKey
  indexes : Matched (·.name) IndexesAgree (secondary current) (secondary desired)
  foreignKeys : Matched (·.name) KeysAgree current.foreignKeys desired.foreignKeys
  checks : Matched (·.name) (ChecksAgree rules) current.checks desired.checks
  engine : current.engine.getD [] = desired.engine.getD []
  collation : current.collation.getD [] = desired.collation.getD []
  comment : current.comment.getD [] = desired.comment.getD []
  partitioning : current.partitioning.getD [] = desired.partitioning.getD []

end Agreement

section Collisions
variable (toLowerCase : Text → Text) (rules : DialectRules)

def SameLengths (names names' : List Text) : Prop := names.map List.length = names'.map List.length

structure TypesTold (a b : TypeDescriptor) : Prop where
  numbers : BothRaw toLowerCase a b → SameNumbers a b ∧ a.values = b.values
  labels : BothRaw toLowerCase a b → labels rules a.raw = labels rules b.raw
  values : ¬ BothRaw toLowerCase a b → SameLengths a.values b.values

structure TextsTold (a b : Option Text) : Prop where
  given : a.isSome = b.isSome
  literal : literals rules (a.getD []) = literals rules (b.getD [])

structure ColumnsTold (b a : ColumnModel) : Prop where
  type : TypesTold toLowerCase rules b.type a.type
  default : TextsTold rules b.defaultValue a.defaultValue
  expression : TextsTold rules b.generatedExpression a.generatedExpression

structure IndexesTold (i j : IndexModel) : Prop where
  method : i.method.getD [] = j.method.getD []
  predicate : (i.predicate.getD []).length = (j.predicate.getD []).length
  subjects : SameLengths (i.columns.map partSubject) (j.columns.map partSubject)
  kinds : i.columns.map (·.name.isSome) = j.columns.map (·.name.isSome)

structure KeysTold (f g : ForeignKeyModel) : Prop where
  columns : SameLengths f.columns g.columns
  refSchema : (f.refSchema.getD []).length = (g.refSchema.getD []).length
  refTable : f.refTable.length = g.refTable.length
  refColumns : SameLengths f.refColumns g.refColumns

def ChecksTold (c d : CheckModel) : Prop := literals rules c.expression = literals rules d.expression

structure Told (current desired : TableModel) : Prop where
  order : SameLengths (columnNames current) (columnNames desired)
  columns : SameName (·.name) (ColumnsTold toLowerCase rules) (orderedColumns current) (orderedColumns desired)
  primaryKey : SameLengths current.primaryKey desired.primaryKey
  indexes : SameName (·.name) IndexesTold (secondary current) (secondary desired)
  foreignKeys : SameName (·.name) KeysTold current.foreignKeys desired.foreignKeys
  checks : SameName (·.name) (ChecksTold rules) current.checks desired.checks

end Collisions

section Columns
variable {toLowerCase : Text → Text} {rules : DialectRules}

theorem spacedExpression (v : Option Text) : (normalizeExpression v).getD [] = normalizeSpace (v.getD []) := by
  cases v with
  | none => rfl
  | some text =>
    by_cases blank : normalizeSpace text = [] <;> simp [normalizeExpression, Option.filter, blank]

theorem textsAgree {a b : Option Text} (same : normalizeExpression a = normalizeExpression b) :
    TextsAgree rules a b ↔ TextsTold rules a b :=
  ⟨fun agree => ⟨agree.given, agree.literal⟩, fun told =>
    ⟨told.given, by rw [← spacedExpression, same, spacedExpression], told.literal⟩⟩

theorem defaultsAgree {b a : ColumnModel} (same : sameDefault toLowerCase b a = true) :
    DefaultsAgree toLowerCase rules b.defaultValue a.defaultValue ↔ TextsTold rules b.defaultValue a.defaultValue := by
  refine ⟨fun agree => ⟨agree.given, agree.literal⟩, fun told => ⟨told.given, ?_, told.literal⟩⟩
  rw [← spacedExpression, ← spacedExpression]
  unfold sameDefault at same
  split at same
  · rename_i none' none''
    exact .inl (by rw [none', none''])
  · rename_i x y before after
    rw [before, after]
    simp only [Option.getD_some]
    rw [Bool.or_eq_true, Bool.and_eq_true, Bool.and_eq_true, decide_eq_true_eq, decide_eq_true_eq, and_assoc] at same
    exact same
  · contradiction

theorem typesAgree {a b : TypeDescriptor} (same : sameType toLowerCase a b = true) :
    TypesAgree toLowerCase rules a b ↔ TypesTold toLowerCase rules a b := by
  simp only [sameType] at same
  by_cases both : BothRaw toLowerCase a b
  · rw [if_pos (show _ ∧ _ from both), decide_eq_true_eq] at same
    exact ⟨fun agree => ⟨fun _ => ⟨agree.numbers, agree.values⟩, agree.labels, fun blank => absurd both blank⟩,
      fun told => ⟨(told.numbers both).1, (told.numbers both).2, fun _ => same, told.labels⟩⟩
  · rw [if_neg (show ¬ (_ ∧ _) from both), decide_eq_true_eq] at same
    obtain ⟨base, length, precision, scale, unsigned, zone, joined⟩ := same
    exact ⟨fun agree => ⟨fun given => absurd given both, agree.labels, fun _ => congrArg _ agree.values⟩,
      fun told => ⟨⟨base, length, precision, scale, unsigned, zone⟩, joinedParts joined (told.values both),
        fun given => absurd given both, told.labels⟩⟩

structure BodyKept (toLowerCase : Text → Text) (b a : ColumnModel) : Prop where
  type : sameType toLowerCase b.type a.type = true
  nullable : b.nullable = a.nullable
  default : sameDefault toLowerCase b a = true
  autoIncrement : b.autoIncrement = a.autoIncrement
  generated : b.generated = a.generated
  expression : normalizeExpression b.generatedExpression = normalizeExpression a.generatedExpression
  collation : b.collation = a.collation
  charset : b.charset = a.charset
  comment : b.comment.getD [] = a.comment.getD []

theorem aspectsNone {b a : ColumnModel} (none' : columnAspects toLowerCase b a = []) : BodyKept toLowerCase b a := by
  simp only [columnAspects, List.append_eq_nil_iff, ite_eq_left_iff, List.cons_ne_nil, imp_false, not_not] at none'
  obtain ⟨⟨⟨⟨⟨⟨⟨type, nullable⟩, default⟩, autoIncrement⟩, generated, expression⟩, collation⟩, charset⟩, comment⟩ := none'
  exact ⟨type, nullable, default, autoIncrement, generated, expression, collation, charset, comment⟩

theorem columnsAgree {b a : ColumnModel} (kept : BodyKept toLowerCase b a) :
    ColumnsAgree toLowerCase rules b a ↔ ColumnsTold toLowerCase rules b a := by
  constructor
  · intro agree
    exact ⟨(typesAgree kept.type).mp agree.type, (defaultsAgree kept.default).mp agree.default,
      (textsAgree kept.expression).mp agree.expression⟩
  · intro told
    exact {
      type := (typesAgree kept.type).mpr told.type
      nullable := kept.nullable
      default := (defaultsAgree kept.default).mpr told.default
      autoIncrement := kept.autoIncrement
      generated := kept.generated
      expression := (textsAgree kept.expression).mpr told.expression
      collation := kept.collation
      charset := kept.charset
      comment := kept.comment }

end Columns

section Signatures
variable {toLowerCase : Text → Text} {a b a' b' : Text}

theorem fieldCut (same : a ++ bar ++ b = a' ++ bar ++ b') (bare : 124 ∉ a) (bare' : 124 ∉ a') : a = a' ∧ b = b' := by
  rw [List.append_assoc, List.append_assoc] at same
  exact cutAt same bare bare'

theorem fieldLength (same : a ++ bar ++ b = a' ++ bar ++ b') (length : a.length = a'.length) : a = a' ∧ b = b' := by
  rw [List.append_assoc, List.append_assoc] at same
  obtain ⟨head, tail⟩ := List.append_inj same length
  exact ⟨head, List.append_cancel_left tail⟩

theorem mark {p q : Bool} {s : String} (some' : units s ≠ [])
    (same : (if p then units s else []) = if q then units s else []) : p = q := by
  cases p <;> cases q
  · rfl
  · exact absurd same.symm some'
  · exact absurd same some'
  · rfl

theorem markBare (p : Bool) {s : String} (bare : 124 ∉ units s) : 124 ∉ (if p then units s else []) := by
  cases p
  · exact List.not_mem_nil
  · exact bare

theorem actionBare (x : ReferentialAction) : 124 ∉ units (actionWord x) := by cases x <;> decide

theorem actionSame {x y : ReferentialAction} (same : units (actionWord x) = units (actionWord y)) : x = y := by
  revert same
  cases x <;> cases y <;> decide

theorem keysAgree {f g : ForeignKeyModel} (same : fkSignature f = fkSignature g) : KeysAgree f g ↔ KeysTold f g := by
  refine ⟨fun agree => ⟨congrArg _ agree.columns, congrArg _ agree.refSchema, congrArg _ agree.refTable,
    congrArg _ agree.refColumns⟩, fun told => ?_⟩
  simp only [fkSignature, List.intercalate_cons_cons, List.intercalate_singleton] at same
  obtain ⟨columns, same⟩ := fieldLength same (joinedLength told.columns)
  obtain ⟨refSchema, same⟩ := fieldLength same told.refSchema
  obtain ⟨refTable, same⟩ := fieldLength same told.refTable
  obtain ⟨refColumns, same⟩ := fieldLength same (joinedLength told.refColumns)
  obtain ⟨onUpdate, same⟩ := fieldCut same (actionBare _) (actionBare _)
  obtain ⟨onDelete, deferrable⟩ := fieldCut same (actionBare _) (actionBare _)
  exact {
    columns := joinedParts columns told.columns
    refSchema := refSchema
    refTable := refTable
    refColumns := joinedParts refColumns told.refColumns
    onUpdate := actionSame onUpdate
    onDelete := actionSame onDelete
    deferrable := mark (by decide) deferrable }

end Signatures

section Parts
variable {c d : IndexColumn} {s s' : Text}

def Ends (s : Text) : Prop := s = [] ∨ ∃ t, s = 44 :: t

theorem wordCut {a b : Text} (same : a ++ s = b ++ s') (bare : 44 ∉ a) (bare' : 44 ∉ b) (ends : Ends s) (ends' : Ends s') :
    a = b ∧ s = s' := by
  rcases ends with rfl | ⟨t, rfl⟩ <;> rcases ends' with rfl | ⟨t', rfl⟩
  · rw [List.append_nil, List.append_nil] at same
    exact ⟨same, rfl⟩
  · rw [List.append_nil] at same
    exact absurd (same ▸ List.mem_append_right b List.mem_cons_self) bare
  · rw [List.append_nil] at same
    exact absurd (same ▸ List.mem_append_right a List.mem_cons_self) bare'
  · obtain ⟨head, tail⟩ := cutAt same bare bare'
    exact ⟨head, by rw [tail]⟩

def lengthWord (length : Option Nat) : Text := (length.map fun n => units (toString n)).getD []

def nullsText (nulls : Option NullsOrder) : Text := (nulls.map fun n => units (nullsWord n)).getD []

theorem lengthBare (length : Option Nat) : 58 ∉ lengthWord length := by
  cases length with
  | none => exact List.not_mem_nil
  | some n =>
    intro inside
    have digit := (Templates.shownDigits n).2 58 inside
    contradiction

theorem lengthSame {m n : Option Nat} (same : lengthWord m = lengthWord n) : m = n := by
  cases m with
  | none =>
    cases n with
    | none => rfl
    | some n => exact absurd same.symm (Templates.shownDigits n).1
  | some m =>
    cases n with
    | none => exact absurd same (Templates.shownDigits m).1
    | some n => exact congrArg some (Nat.repr_injective (unitsInjective same))

theorem nullsBare (nulls : Option NullsOrder) : 44 ∉ nullsText nulls := by
  cases nulls with
  | none => exact List.not_mem_nil
  | some n => cases n <;> decide

theorem nullsSame {m n : Option NullsOrder} (same : nullsText m = nullsText n) : m = n := by
  revert same
  rcases m with _ | m <;> rcases n with _ | n
  · exact fun _ => rfl
  · cases n <;> decide
  · cases m <;> decide
  · cases m <;> cases n <;> decide

theorem orderSame {x y : SortOrder} (same : units (orderWord x) = units (orderWord y)) : x = y := by
  revert same
  cases x <;> cases y <;> decide

theorem orderBare (x : SortOrder) : 58 ∉ units (orderWord x) := by cases x <;> decide

theorem partCut (same : partText c ++ s = partText d ++ s') (subjects : (partSubject c).length = (partSubject d).length)
    (kinds : c.name.isSome = d.name.isSome) (ends : Ends s) (ends' : Ends s') : partShape c = partShape d ∧ s = s' := by
  have whole (c : IndexColumn) (s : Text) : partText c ++ s =
      partSubject c ++ (colon ++ (units (orderWord (c.order.getD .asc)) ++ 58 :: (lengthWord c.length ++ 58 ::
        (nullsText c.nulls ++ s)))) := by
    simp only [partText, List.append_assoc]
    rfl
  rw [whole, whole] at same
  obtain ⟨subject, same⟩ := List.append_inj same subjects
  obtain ⟨order, same⟩ := cutAt (List.append_cancel_left same) (orderBare _) (orderBare _)
  obtain ⟨length, same⟩ := cutAt same (lengthBare _) (lengthBare _)
  obtain ⟨nulls, same⟩ := wordCut same (nullsBare _) (nullsBare _) ends ends'
  exact ⟨by rw [partShape, kinds, subject, orderSame order, lengthSame length, nullsSame nulls]; rfl, same⟩

theorem partsCut {cs ds : List IndexColumn} (same : comma.intercalate (cs.map partText) = comma.intercalate (ds.map partText))
    (subjects : SameLengths (cs.map partSubject) (ds.map partSubject))
    (kinds : cs.map (·.name.isSome) = ds.map (·.name.isSome)) : cs.map partShape = ds.map partShape := by
  rw [SameLengths] at subjects
  induction cs generalizing ds with
  | nil =>
    rw [List.map_eq_nil_iff.mp kinds.symm]
  | cons c cs ih =>
    cases ds with
    | nil => contradiction
    | cons d ds =>
      obtain ⟨subject, subjects⟩ := List.cons.inj subjects
      obtain ⟨kind, kinds⟩ := List.cons.inj kinds
      cases cs with
      | nil =>
        cases List.map_eq_nil_iff.mp kinds.symm
        simp only [List.map_cons, List.map_nil, List.intercalate_singleton] at same
        obtain ⟨shape, -⟩ := partCut (by rw [same]) subject kind (.inl rfl) (.inl rfl)
        rw [List.map_cons, List.map_cons, shape]
      | cons c' cs =>
        cases ds with
        | nil => contradiction
        | cons d' ds =>
          simp only [List.map_cons, List.intercalate_cons_cons, List.append_assoc] at same
          obtain ⟨shape, rest⟩ := partCut same subject kind (.inr ⟨_, rfl⟩) (.inr ⟨_, rfl⟩)
          rw [List.map_cons, shape, ih (List.append_cancel_left rest) subjects kinds, ← List.map_cons]

theorem indexesAgree {toLowerCase : Text → Text} {i j : IndexModel} (apart : i.primary = false) (apart' : j.primary = false)
    (same : indexSignature toLowerCase i = indexSignature toLowerCase j) : IndexesAgree i j ↔ IndexesTold i j := by
  constructor
  · intro agree
    have subjects := congrArg (List.map fun p => p.subject.length) agree.parts
    have kinds := congrArg (List.map PartShape.column) agree.parts
    rw [List.map_map, List.map_map] at subjects kinds
    exact ⟨agree.method, congrArg _ agree.predicate, by rw [SameLengths, List.map_map, List.map_map]; exact subjects, kinds⟩
  · intro told
    simp only [indexSignature, List.intercalate_cons_cons, List.intercalate_singleton, apart, apart', told.method] at same
    obtain ⟨unique, same⟩ := fieldCut same (markBare _ (by decide)) (markBare _ (by decide))
    obtain ⟨-, same⟩ := fieldLength same rfl
    obtain ⟨-, same⟩ := fieldLength same rfl
    obtain ⟨predicate, parts⟩ := fieldLength same told.predicate
    exact ⟨mark (by decide) unique, told.method, predicate, partsCut parts told.subjects told.kinds⟩

end Parts

theorem checksAgree {rules : DialectRules} {c d : CheckModel} (same : checkSignature c = checkSignature d) :
    ChecksAgree rules c d ↔ ChecksTold rules c d := by
  refine ⟨fun agree => agree.literal, fun told => ⟨rfl, ?_, told⟩⟩
  rwa [checkSignature, checkSignature, spacedExpression, spacedExpression] at same

section Named
variable {α κ : Type} {nameOf : α → Text} {signature : α → Text} {items items' : List α} {alike told : α → α → Prop}

theorem byNameMatched (once : (items.map nameOf).Nodup) (once' : (items'.map nameOf).Nodup)
    (none' : (diffByName nameOf signature items items').isEmpty = true) :
    Matched nameOf (fun x y => signature x = signature y) items items' := by
  simp only [diffByName, ByName.isEmpty, NamedChanges.latestOnce once, NamedChanges.latestOnce once', Bool.and_eq_true,
    List.isEmpty_iff, List.filter_eq_nil_iff, List.filterMap_eq_nil_iff, decide_eq_true_eq, not_not] at none'
  obtain ⟨⟨added, dropped⟩, changed⟩ := none'
  refine ⟨fun n => ⟨fun inside => ?_, fun inside => ?_⟩, fun x inside y inside' same => ?_⟩
  · obtain ⟨x, own, rfl⟩ := List.mem_map.mp inside
    exact dropped x own
  · obtain ⟨y, own, rfl⟩ := List.mem_map.mp inside
    exact added y own
  · have found : NamedChanges.named nameOf items (nameOf y) = some x := by
      rw [← same]
      exact NamedChanges.namedOf once inside
    have kept := changed y inside'
    rw [found] at kept
    by_contra differ
    simp [differ] at kept

theorem SameName.swap (each : ∀ x ∈ items, ∀ y ∈ items', nameOf x = nameOf y → (alike x y ↔ told x y)) :
    SameName nameOf alike items items' ↔ SameName nameOf told items items' :=
  forall₂_congr fun x inside => forall₂_congr fun y inside' => forall_congr' fun same => each x inside y inside' same

theorem Matched.iff (names : ∀ n, n ∈ items.map nameOf ↔ n ∈ items'.map nameOf)
    (each : ∀ x ∈ items, ∀ y ∈ items', nameOf x = nameOf y → (alike x y ↔ told x y)) :
    Matched nameOf alike items items' ↔ SameName nameOf told items items' :=
  ⟨fun both => (SameName.swap each).mp both.alike, fun apart => ⟨names, (SameName.swap each).mpr apart⟩⟩

end Named

section Tables
variable {toLowerCase : Text → Text} {rules : DialectRules} {current desired : TableModel}

structure DistinctNames (t : TableModel) : Prop where
  columns : (t.columns.map (·.name)).Nodup
  indexes : (t.indexes.map (·.name)).Nodup
  foreignKeys : (t.foreignKeys.map (·.name)).Nodup
  checks : (t.checks.map (·.name)).Nodup

theorem DistinctNames.ordered (distinct : DistinctNames current) : (columnNames current).Nodup :=
  ((List.perm_insertionSort _ current.columns).map _).nodup_iff.mpr distinct.columns

theorem DistinctNames.secondary (distinct : DistinctNames current) : ((secondary current).map (·.name)).Nodup :=
  distinct.indexes.sublist (List.filter_sublist.map _)

theorem secondaryApart {i : IndexModel} (inside : i ∈ secondary current) : i.primary = false := by
  simpa using (List.mem_filter.mp inside).2

theorem unrenamed (none' : detectColumnRenames toLowerCase current desired = []) (c : ColumnModel) :
    finalName (detectColumnRenames toLowerCase current desired) c = c.name := by
  rw [none']
  exact finalKept nofun

theorem ordersJoined (none' : detectColumnRenames toLowerCase current desired = [])
    (added : addedColumns toLowerCase current desired = []) (dropped : droppedColumns toLowerCase current desired = [])
    (still : reordered toLowerCase current desired = false) :
    comma.intercalate (columnNames current) = comma.intercalate (columnNames desired) := by
  have survivors : (orderedColumns current).filter (survives toLowerCase current desired) = orderedColumns current := by
    rw [List.filter_eq_self]
    simpa [droppedColumns] using dropped
  have before : (orderedColumns current).map (finalName (detectColumnRenames toLowerCase current desired)) =
      columnNames current := List.map_congr_left fun c _ => unrenamed none' c
  simp only [reordered, survivors, before, added, List.map_nil, List.not_mem_nil, not_false_eq_true, decide_true,
    List.filter_true, ne_eq, decide_eq_false_iff_not, not_not] at still
  exact still

theorem bodiesKept (distinct : (columnNames current).Nodup) (distinct' : (columnNames desired).Nodup)
    (none' : detectColumnRenames toLowerCase current desired = []) (altered : alteredColumns toLowerCase current desired = [])
    {b a : ColumnModel} (inside : b ∈ orderedColumns current) (inside' : a ∈ orderedColumns desired)
    (same : b.name = a.name) : BodyKept toLowerCase b a := by
  have found : counterpart toLowerCase current desired a.name = some b :=
    (counterpartIff distinct distinct').mpr ⟨inside, (unrenamed none' b).trans same⟩
  have kept := List.filterMap_eq_nil_iff.mp altered a inside'
  rw [found] at kept
  by_contra differ
  have changed : columnAspects toLowerCase b a ≠ [] := fun alike => differ (aspectsNone alike)
  simp [changed] at kept

theorem optionKept {aspect : TableOptionAspect} {a b : Option Text} (none' : diffOption aspect a b = []) :
    a.getD [] = b.getD [] := by
  by_contra differ
  rw [diffOption, if_neg differ] at none'
  contradiction

-- Two tables without a difference agree where the joined and folded texts tell them apart, and nowhere else.
theorem emptyDiff (toLowerCase : Text → Text) (rules : DialectRules) (current desired : TableModel)
    (distinct : DistinctNames current) (distinct' : DistinctNames desired)
    (none' : (diffTables toLowerCase (some current) desired).isEmpty = true) :
    Agree toLowerCase rules current desired ↔ Told toLowerCase rules current desired := by
  simp only [diffTables, alterDiff, diffEmpty, Bool.and_eq_true, List.isEmpty_iff, Bool.not_eq_true', keyChanged,
    decide_eq_true_eq, decide_eq_false_iff_not, ne_eq, not_not] at none'
  obtain ⟨⟨⟨⟨⟨⟨⟨⟨⟨⟨⟨added, dropped⟩, altered⟩, renames⟩, still⟩, key⟩, indexes⟩, keys⟩, checks⟩, options⟩, name⟩, schema⟩ :=
    none'
  simp only [changedOptions, List.append_eq_nil_iff] at options
  obtain ⟨⟨⟨engine, collation⟩, comment⟩, partitioning⟩ := options
  have indexesSame := byNameMatched distinct.secondary distinct'.secondary indexes
  have keysSame := byNameMatched distinct.foreignKeys distinct'.foreignKeys keys
  have checksSame := byNameMatched distinct.checks distinct'.checks checks
  have columns : SameName (·.name) (ColumnsAgree toLowerCase rules) (orderedColumns current) (orderedColumns desired) ↔
      SameName (·.name) (ColumnsTold toLowerCase rules) (orderedColumns current) (orderedColumns desired) :=
    SameName.swap fun b inside a inside' same =>
      columnsAgree (bodiesKept distinct.ordered distinct'.ordered renames altered inside inside' same)
  have indexes' := Matched.iff indexesSame.names fun i inside j inside' same =>
    indexesAgree (secondaryApart inside) (secondaryApart inside') (indexesSame.alike i inside j inside' same)
  have keys' := Matched.iff keysSame.names fun f inside g inside' same => keysAgree (keysSame.alike f inside g inside' same)
  have checks' := Matched.iff checksSame.names fun c inside d inside' same =>
    show ChecksAgree rules c d ↔ ChecksTold rules c d from checksAgree (checksSame.alike c inside d inside' same)
  constructor
  · intro agree
    exact ⟨congrArg _ agree.order, columns.mp agree.columns, congrArg _ agree.primaryKey, indexes'.mp agree.indexes,
      keys'.mp agree.foreignKeys, checks'.mp agree.checks⟩
  · intro told
    exact {
      name := name
      schema := schema
      order := joinedParts (ordersJoined renames added dropped still) told.order
      columns := columns.mpr told.columns
      primaryKey := joinedParts key told.primaryKey
      indexes := indexes'.mpr told.indexes
      foreignKeys := keys'.mpr told.foreignKeys
      checks := checks'.mpr told.checks
      engine := optionKept engine
      collation := optionKept collation
      comment := optionKept comment
      partitioning := optionKept partitioning }

def sizeTable (raw : String) (labels : List String) : TableModel :=
  ⟨units "shirt", none, .table,
    [⟨units "size", 1, ⟨units raw, .enum, none, none, none, false, false, labels.map units⟩, true, none, false, none, none,
      none, none, none⟩],
    [], [], [], [units "size"], none, none, none, none, none, none⟩

theorem respelledTold :
    Agree (·.map lowerUnit) (rulesOf .mysql) (sizeTable "ENUM('S')" ["S"]) (sizeTable "enum('S')" ["S"]) ↔
      Told (·.map lowerUnit) (rulesOf .mysql) (sizeTable "ENUM('S')" ["S"]) (sizeTable "enum('S')" ["S"]) :=
  emptyDiff (·.map lowerUnit) (rulesOf .mysql) (sizeTable "ENUM('S')" ["S"]) (sizeTable "enum('S')" ["S"])
    ⟨by decide, by decide, by decide, by decide⟩ ⟨by decide, by decide, by decide, by decide⟩ (by decide +kernel)

-- The labels of an enum are folded with its keyword.
theorem labelsFolded :
    DistinctNames (sizeTable "enum('S')" ["S"]) ∧ DistinctNames (sizeTable "enum('s')" ["s"]) ∧
      (diffTables (·.map lowerUnit) (some (sizeTable "enum('S')" ["S"]))
        (sizeTable "enum('s')" ["s"])).isEmpty = true ∧
      ¬ Agree (·.map lowerUnit) (rulesOf .mysql) (sizeTable "enum('S')" ["S"]) (sizeTable "enum('s')" ["s"]) := by
  refine ⟨⟨by decide, by decide, by decide, by decide⟩, ⟨by decide, by decide, by decide, by decide⟩, by decide +kernel, ?_⟩
  intro agree
  have alike := agree.columns _ List.mem_cons_self _ List.mem_cons_self rfl
  exact absurd alike.type.values (by decide)

end Tables

end DatabaseAdmin.EmptyDiffs
