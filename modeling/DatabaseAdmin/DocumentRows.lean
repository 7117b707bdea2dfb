import DatabaseAdmin.BsonRoundTrip
import DatabaseAdmin.DocumentExport
import DatabaseAdmin.SchemaModels
import DatabaseAdmin.Templates
import Mathlib.Data.List.ReduceOption

/-! Pages of documents as grids, and the documents that rows of a grid are taken back to. -/
namespace DatabaseAdmin.DocumentRows
open CodeUnits BsonValues BsonCells BsonRoundTrip
open DocumentExport (addName addNames idField)
open SchemaModels (BaseType)
open Templates (mapMForall₂)

inductive BsonTypeAlias where
  | double | string | object | array | binData | uuid | undefined | objectId | bool | date | null | regex | dbPointer | javascript
  | javascriptWithScope | symbol | int | timestamp | long | decimal | minKey | maxKey | dbRef | missing
  deriving DecidableEq

def BsonTypeAlias.name : BsonTypeAlias → String
  | double => "double"
  | string => "string"
  | object => "object"
  | array => "array"
  | binData => "binData"
  | uuid => "uuid"
  | undefined => "undefined"
  | objectId => "objectId"
  | bool => "bool"
  | date => "date"
  | null => "null"
  | regex => "regex"
  | dbPointer => "dbPointer"
  | javascript => "javascript"
  | javascriptWithScope => "javascriptWithScope"
  | symbol => "symbol"
  | int => "int"
  | timestamp => "timestamp"
  | long => "long"
  | decimal => "decimal"
  | minKey => "minKey"
  | maxKey => "maxKey"
  | dbRef => "dbRef"
  | missing => "missing"

def baseTypeForBson : BsonTypeAlias → BaseType
  | .objectId => .objectid
  | .decimal => .decimal
  | .long => .bigint
  | .int => .integer
  | .double => .float
  | .bool => .boolean
  | .date | .timestamp => .timestamp
  | .binData => .binary
  | .uuid => .uuid
  | .object | .dbRef => .document
  | .array => .array
  | .string | .symbol | .regex => .string
  | .javascript | .javascriptWithScope => .text
  | _ => .unknown

section Types
variable {D : Type}

def scalarType : Scalar D → BsonTypeAlias
  | .null => .null
  | .undefined => .undefined
  | .boolean _ => .bool
  | .string _ => .string
  | .date _ => .date
  | .objectId _ => .objectId
  | .decimal128 _ => .decimal
  | .long _ => .long
  | .int32 _ => .int
  | .double _ => .double
  | .timestamp _ _ => .timestamp
  | .binary subtype _ => if subtype = subtypeUuid then .uuid else .binData
  | .regExp _ => .regex
  | .code _ => .javascript
  | .symbol _ => .symbol
  | .minKey => .minKey
  | .maxKey => .maxKey

def castType (name : Text) (fields : Fields D) : BsonTypeAlias :=
  if name = units "ObjectId" then .objectId
  else if name = units "Decimal128" then .decimal
  else if name = units "Long" then .long
  else if name = units "Int32" then .int
  else if name = units "Double" then .double
  else if name = units "Timestamp" then .timestamp
  else if name = units "Binary" then .binData
  else if name = units "BSONRegExp" then .regex
  else if name = units "Code" then if truthy (fieldOf fields (units "scope")) then .javascriptWithScope else .javascript
  else if name = units "BSONSymbol" then .symbol
  else if name = units "DBRef" then .dbRef
  else if name = units "MinKey" then .minKey
  else if name = units "MaxKey" then .maxKey
  else .object

def bsonTypeName : JsValue D → BsonTypeAlias
  | .bigint _ => .long
  | .number x => if reEncodesAsInt32 x then .int else .double
  | .bson (.scalar s) => scalarType s
  | .bson (.array _) => .array
  | .bson (.scopedCode _ _) => .javascriptWithScope
  | .bson (.dbRef _) => .dbRef
  | .bson (.object fields) =>
      match bsonTypeOf fields with
      | some name => castType name fields
      | none => .object

end Types

structure ColumnMeta where
  name : Text
  typeName : Text
  base : BaseType
  nullable : Bool
  dynamicType : Bool
  table : Option Text
  schema : Option Text
  isKey : Bool

structure FlattenTarget where
  database : Option Text
  collection : Option Text

structure BsonDocument (D : Type) where
  fields : List (Text × JsValue D)
  once : (fields.map Prod.fst).Nodup

abbrev Row := List Cell

section Grids
variable {D : Type} (lib : Library D)

def BsonDocument.names (d : BsonDocument D) : List Text := d.fields.map Prod.fst

def valueOf (fields : List (Text × JsValue D)) (name : Text) : Option (JsValue D) := (fields.find? (·.1 = name)).map Prod.snd

def columnNames (docs : List (BsonDocument D)) : List Text :=
  (docs.flatMap BsonDocument.names).foldl addName (if docs.any (idField ∈ ·.names) then [idField] else [])

def cellIn (d : BsonDocument D) (name : Text) : Except BsonFailure Cell :=
  match valueOf d.fields name with
  | none => .ok missingCell
  | some v => cellFromBson lib v

def isNullish (alias' : BsonTypeAlias) : Bool := alias' = .null || alias' = .undefined

def columnMeta (docs : List (BsonDocument D)) (target : FlattenTarget) (name : Text) : ColumnMeta :=
  let aliases := docs.map fun d => (valueOf d.fields name).map bsonTypeName
  let observed := (aliases.reduceOption.filter fun a => !isNullish a).eraseDups
  { name
    typeName := if observed = [] then units "null" else (units " | ").intercalate (observed.map (units ·.name))
    base := match observed with
      | [only] => baseTypeForBson only
      | _ => .unknown
    nullable := aliases.any fun a => a.all isNullish
    dynamicType := 1 < observed.length
    table := target.collection.filter (· ≠ [])
    schema := target.database.filter (· ≠ [])
    isKey := name = idField }

def flattenDocuments (docs : List (BsonDocument D)) (target : FlattenTarget) :
    Except BsonFailure (List ColumnMeta × List Row) := do
  let names := columnNames docs
  let rows ← docs.mapM fun d => names.mapM (cellIn lib d)
  return (names.map (columnMeta docs target), rows)

def protoField : Text := units "__proto__"

def assign (doc : List (Text × JsValue D)) (name : Text) (value : JsValue D) : List (Text × JsValue D) :=
  if name = protoField then doc
  else if doc.any (·.1 = name) then doc.map fun f => if f.1 = name then (name, value) else f
  else doc ++ [(name, value)]

def addCell (doc : List (Text × JsValue D)) (entry : Text × Cell) : Except BsonFailure (List (Text × JsValue D)) :=
  if isMissingCell entry.2 then .ok doc
  else (bsonFromCell lib entry.2).map fun value =>
    match value with
    | .bson (.scalar .undefined) => doc
    | value => assign doc entry.1 value

def documentFromRow (columns : List Text) (row : Row) : Except BsonFailure (List (Text × JsValue D)) :=
  (columns.zip row).foldlM (addCell lib) []

def SameFields (rebuilt : List (Text × JsValue D)) (d : BsonDocument D) : Prop :=
  ∀ name, (valueOf rebuilt name).map JsValue.encoded = (valueOf d.fields name).map JsValue.encoded

def Survives (docs : List (BsonDocument D)) (target : FlattenTarget) : Prop :=
  ∃ columns rows, flattenDocuments lib docs target = .ok (columns, rows) ∧
    List.Forall₂ (fun d row => ∃ rebuilt, documentFromRow lib (columns.map ColumnMeta.name) row = .ok rebuilt ∧ SameFields rebuilt d)
      docs rows

end Grids

section Columns
variable {D : Type}

theorem namesOnce (docs : List (BsonDocument D)) : (columnNames docs).Nodup := by
  refine (addNames _ _ ?_).1
  split <;> simp

theorem namesMem {docs : List (BsonDocument D)} {d : BsonDocument D} (member : d ∈ docs) {name : Text} (named : name ∈ d.names) :
    name ∈ columnNames docs := by
  refine ((addNames _ _ ?_).2 name).mpr (.inr (List.mem_flatMap.mpr ⟨d, member, named⟩))
  split <;> simp

theorem valueNone {fields : List (Text × JsValue D)} {name : Text} : valueOf fields name = none ↔ name ∉ fields.map Prod.fst := by
  simp only [valueOf, Option.map_eq_none_iff, List.find?_eq_none, decide_eq_true_eq, List.mem_map, not_exists, not_and]

theorem valueMem (d : BsonDocument D) {f : Text × JsValue D} : f ∈ d.fields ↔ valueOf d.fields f.1 = some f.2 := by
  constructor
  · intro member
    cases found : valueOf d.fields f.1 with
    | none => exact absurd (List.mem_map_of_mem member) (valueNone.mp found)
    | some v =>
      obtain ⟨g, first, rfl⟩ := Option.map_eq_some_iff.mp found
      have same : g.1 = f.1 := by simpa using List.find?_some first
      rw [List.inj_on_of_nodup_map d.once (List.mem_of_find?_eq_some first) member same]
  · intro found
    obtain ⟨g, first, value⟩ := Option.map_eq_some_iff.mp found
    have same : g.1 = f.1 := by simpa using List.find?_some first
    rw [← show g = f from Prod.ext same value]
    exact List.mem_of_find?_eq_some first

end Columns

section Rebuilding
variable {D : Type} (lib : Library D)

def assigned (name : Text) (value : JsValue D) : Option (Text × JsValue D) :=
  match value with
  | .bson (.scalar .undefined) => none
  | value => if name = protoField then none else some (name, value)

def entered (entry : Text × Cell) : Except BsonFailure (Option (Text × JsValue D)) :=
  if isMissingCell entry.2 then .ok none else (bsonFromCell lib entry.2).map (assigned entry.1)

theorem assignedOther (name : Text) {value : JsValue D} (given : value ≠ .bson .undefined) :
    assigned name value = if name = protoField then none else some (name, value) := by
  unfold assigned
  split
  · contradiction
  · rfl

theorem addEntered {doc : List (Text × JsValue D)} {entry : Text × Cell} (fresh : entry.1 ∉ doc.map Prod.fst) :
    addCell lib doc entry = (entered lib entry).map fun e => doc ++ e.toList := by
  have new : doc.any (·.1 = entry.1) = false := by
    rw [List.any_eq_false]
    intro f member same
    exact fresh (List.mem_map.mpr ⟨f, member, by simpa using same⟩)
  unfold addCell entered
  split
  · simp [Except.map]
  · cases bsonFromCell lib entry.2 with
    | error failure => rfl
    | ok value =>
      simp only [Except.map, Except.ok.injEq]
      unfold assigned assign
      split
      · simp
      · split
        · simp
        · simp [new]

theorem enteredName {entry : Text × Cell} {f : Text × JsValue D} (made : entered lib entry = .ok (some f)) : f.1 = entry.1 := by
  unfold entered at made
  split at made
  · simp at made
  · cases decoded : bsonFromCell lib entry.2 with
    | error failure => simp [decoded, Except.map] at made
    | ok value =>
      simp only [decoded, Except.map, Except.ok.injEq, assigned] at made
      split at made
      · contradiction
      · split at made
        · contradiction
        · cases made
          rfl

theorem foldEntered (entries : List (Text × Cell)) (distinct : (entries.map Prod.fst).Nodup) (doc : List (Text × JsValue D))
    (fresh : ∀ entry ∈ entries, entry.1 ∉ doc.map Prod.fst) :
    entries.foldlM (addCell lib) doc = (entries.mapM (entered lib)).map fun es => doc ++ es.reduceOption := by
  induction entries generalizing doc with
  | nil => simp [Except.map, pure, Except.pure, List.reduceOption_nil]
  | cons entry entries ih =>
    obtain ⟨other, distinct⟩ := List.nodup_cons.mp distinct
    rw [List.foldlM_cons, List.mapM_cons, addEntered lib (fresh entry List.mem_cons_self)]
    cases made : entered lib entry with
    | error failure => rfl
    | ok e =>
      have still : ∀ next ∈ entries, next.1 ∉ (doc ++ e.toList).map Prod.fst := by
        intro next member
        rw [List.map_append, List.mem_append, not_or]
        refine ⟨fresh next (List.mem_cons_of_mem _ member), fun listed => ?_⟩
        obtain ⟨f, inside, same⟩ := List.mem_map.mp listed
        rw [Option.mem_toList.mp inside] at made
        exact other (List.mem_map.mpr ⟨next, member, same ▸ enteredName lib made⟩)
      have rest := ih distinct (doc ++ e.toList) still
      simp only [Except.map, bind, Except.bind, rest]
      cases entries.mapM (entered lib) with
      | error failure => rfl
      | ok es => cases e <;> simp [pure, Except.pure, List.reduceOption_cons_of_none, List.reduceOption_cons_of_some]

theorem rowEntered {names : List Text} (once : names.Nodup) {row : Row} (full : row.length = names.length) :
    documentFromRow lib names row = ((names.zip row).mapM (entered lib)).map List.reduceOption := by
  have distinct : ((names.zip row).map Prod.fst).Nodup := by rwa [List.map_fst_zip full.ge]
  rw [documentFromRow, foldEntered lib _ distinct [] (by simp)]
  rfl

def returned (d : BsonDocument D) (name : Text) : Except BsonFailure (Option (Text × JsValue D)) :=
  (cellIn lib d name).bind fun cell => entered lib (name, cell)

theorem returnedName {d : BsonDocument D} {name : Text} {f : Text × JsValue D}
    (made : returned lib d name = .ok (some f)) : f.1 = name := by
  unfold returned at made
  cases shown : cellIn lib d name with
  | error failure => simp [shown, Except.bind] at made
  | ok cell =>
    rw [shown] at made
    exact enteredName lib made

theorem returnedEach {d : BsonDocument D} {names : List Text} {es : List (Option (Text × JsValue D))} :
    (∃ row, names.mapM (cellIn lib d) = .ok row ∧ (names.zip row).mapM (entered lib) = .ok es) ↔
      List.Forall₂ (fun name e => returned lib d name = .ok e) names es := by
  simp only [mapMForall₂]
  constructor
  · rintro ⟨row, shown, made⟩
    induction shown generalizing es with
    | nil => simpa using made
    | cons first rest ih =>
      rw [List.zip_cons_cons, List.forall₂_cons_left_iff] at made
      obtain ⟨e, es', head, tail, rfl⟩ := made
      refine .cons ?_ (ih tail)
      rw [returned, first]
      exact head
  · intro each
    induction each with
    | nil => exact ⟨[], .nil, .nil⟩
    | @cons name e names es head rest ih =>
      obtain ⟨row, shown, made⟩ := ih
      cases first : cellIn lib d name with
      | error failure => simp [returned, first, Except.bind] at head
      | ok cell =>
        rw [returned, first] at head
        exact ⟨cell :: row, .cons first shown, .cons head made⟩

variable {lib}

theorem returnedValue {d : BsonDocument D} {names : List Text} (once : names.Nodup) {es : List (Option (Text × JsValue D))}
    (each : List.Forall₂ (fun name e => returned lib d name = .ok e) names es) (name : Text) :
    (name ∉ names → valueOf es.reduceOption name = none) ∧
      (name ∈ names → ∃ e, returned lib d name = .ok e ∧ valueOf es.reduceOption name = e.map Prod.snd) := by
  induction each with
  | nil => exact ⟨fun _ => rfl, nofun⟩
  | @cons first e names es head rest ih =>
    obtain ⟨other, once⟩ := List.nodup_cons.mp once
    obtain ⟨outside, inside⟩ := ih once
    have value : valueOf (e :: es).reduceOption name =
        if first = name then (e.map Prod.snd).or (valueOf es.reduceOption name) else valueOf es.reduceOption name := by
      cases e with
      | none => simp [List.reduceOption_cons_of_none]
      | some f =>
        have named := returnedName lib head
        rw [List.reduceOption_cons_of_some]
        by_cases same : first = name
        · simp [valueOf, named, same]
        · simp [valueOf, named, same]
    rw [value]
    by_cases same : first = name
    · subst same
      refine ⟨fun missing => absurd List.mem_cons_self missing, fun _ => ⟨e, head, ?_⟩⟩
      rw [if_pos rfl, outside other, Option.or_none]
    · rw [if_neg same]
      exact ⟨fun missing => outside fun listed => missing (List.mem_cons_of_mem _ listed),
        fun listed => inside ((List.mem_cons.mp listed).resolve_left (Ne.symm same))⟩

theorem rowBack {d : BsonDocument D} {names : List Text} (once : names.Nodup) (covers : ∀ name ∈ d.names, name ∈ names) :
    (∃ row, names.mapM (cellIn lib d) = .ok row ∧ ∃ rebuilt, documentFromRow lib names row = .ok rebuilt ∧ SameFields rebuilt d) ↔
      ∀ name ∈ names, ∃ e, returned lib d name = .ok e ∧
        (e.map Prod.snd).map JsValue.encoded = (valueOf d.fields name).map JsValue.encoded := by
  constructor
  · rintro ⟨row, shown, rebuilt, done, same⟩ name listed
    rw [rowEntered lib once (mapMForall₂.mp shown).length_eq.symm] at done
    cases made : (names.zip row).mapM (entered lib) with
    | error failure => simp [made, Except.map] at done
    | ok es =>
      rw [made] at done
      cases done
      obtain ⟨e, back, value⟩ := (returnedValue once ((returnedEach lib).mp ⟨row, shown, made⟩) name).2 listed
      exact ⟨e, back, by rw [← value, same name]⟩
  · intro all
    have given : ∃ es, List.Forall₂ (fun name e => returned lib d name = .ok e) names es := by
      refine ⟨names.map fun name => ((returned lib d name).toOption).join, List.forall₂_map_right_iff.mpr (List.forall₂_same.mpr ?_)⟩
      intro name listed
      obtain ⟨e, back, -⟩ := all name listed
      rw [back]
      rfl
    obtain ⟨es, each⟩ := given
    obtain ⟨row, shown, made⟩ := (returnedEach lib).mpr each
    refine ⟨row, shown, es.reduceOption, ?_, fun name => ?_⟩
    · rw [rowEntered lib once (mapMForall₂.mp shown).length_eq.symm, made]
      rfl
    · obtain ⟨outside, inside⟩ := returnedValue once each name
      by_cases listed : name ∈ names
      · obtain ⟨e, back, value⟩ := inside listed
        obtain ⟨e', back', same⟩ := all name listed
        rw [back] at back'
        cases back'
        rw [value, same]
      · rw [outside listed, valueNone.mpr fun named => listed (covers name named)]

end Rebuilding

section Survival
variable {D : Type} {lib : Library D} {wraps : Fields D → Bool} {unwrap : Fields D → Except Text (Bson D)}

theorem missingRead {cell : Cell} (missing : isMissingCell cell = true) : bsonFromCell lib cell = .ok (.bson .undefined) := by
  unfold isMissingCell at missing
  split at missing
  · rename_i of
    have same : of = ofAlias "missing" := by simpa using missing
    rw [same, bsonFromCell, bsonOfCell, if_pos rfl]
    rfl
  · contradiction

theorem encodedUndefined {v : JsValue D} : v.encoded = .undefined ↔ v = .bson .undefined := by
  constructor
  · intro same
    cases v with
    | number x =>
      rw [JsValue.encoded] at same
      split at same
      · cases same
      · cases same
    | bigint n => cases same
    | bson v => rw [← show v = .undefined from same]
  · rintro rfl
    rfl

theorem fieldBack (known : Documented lib wraps unwrap) {d : BsonDocument D} {name : Text} {v : JsValue D}
    (held : valueOf d.fields name = some v) :
    (∃ e, returned lib d name = .ok e ∧ (e.map Prod.snd).map JsValue.encoded = (valueOf d.fields name).map JsValue.encoded) ↔
      name ≠ protoField ∧ v ≠ .bson .undefined ∧ Keeps wraps v := by
  have shown : cellIn lib d name = cellFromBson lib v := by rw [cellIn, held]
  rw [← valueKept known, Kept, rebuilt, returned, shown, held]
  cases made : cellFromBson lib v with
  | error failure => simp [Except.bind]
  | ok cell =>
    simp only [Except.bind, entered]
    by_cases missing : isMissingCell cell = true
    · have gone : ¬∃ w, bsonFromCell lib cell = .ok w ∧ w.encoded = v.encoded ∧ v ≠ .bson .undefined := by
        rintro ⟨w, read, same, given⟩
        rw [missingRead missing] at read
        cases read
        exact given (encodedUndefined.mp same.symm)
      constructor
      · rintro ⟨e, none', same⟩
        rw [if_pos missing] at none'
        cases none'
        cases same
      · rintro ⟨_, given, w, read, same⟩
        exact absurd ⟨w, read, same, given⟩ gone
    · rw [if_neg missing]
      cases read : bsonFromCell lib cell with
      | error failure => simp [Except.map]
      | ok w =>
        simp only [Except.map, Except.ok.injEq, exists_eq_left']
        by_cases undefined : w = .bson .undefined
        · subst undefined
          constructor
          · rintro ⟨e, ⟨⟩, same⟩
          · rintro ⟨_, given, same⟩
            exact absurd (encodedUndefined.mp same.symm) given
        · rw [assignedOther name undefined]
          by_cases proto : name = protoField
          · simp [proto]
          · have given (same : w.encoded = v.encoded) : v ≠ .bson .undefined := by
              rintro rfl
              exact undefined (encodedUndefined.mp same)
            simp only [proto, if_false, Option.map_some, Option.some.injEq, ne_eq, not_false_eq_true, true_and]
            exact ⟨fun same => ⟨given same, same⟩, And.right⟩

theorem pairedMember {α β : Type} {R S : α → β → Prop} {xs : List α} {ys : List β} (first : List.Forall₂ R xs ys)
    (last : List.Forall₂ S xs ys) : ∀ x ∈ xs, ∃ y, R x y ∧ S x y := by
  induction first with
  | nil => nofun
  | cons head rest ih =>
    obtain ⟨second, tail⟩ := List.forall₂_cons.mp last
    exact List.forall_mem_cons.mpr ⟨⟨_, head, second⟩, ih tail⟩

theorem survivesEach (docs : List (BsonDocument D)) (target : FlattenTarget) : Survives lib docs target ↔
    ∀ d ∈ docs, ∃ row, (columnNames docs).mapM (cellIn lib d) = .ok row ∧
      ∃ rebuilt, documentFromRow lib (columnNames docs) row = .ok rebuilt ∧ SameFields rebuilt d := by
  have header : ((columnNames docs).map (columnMeta docs target)).map ColumnMeta.name = columnNames docs := by
    rw [List.map_map]
    exact List.map_id _
  have flat (columns : List ColumnMeta) (rows : List Row) : flattenDocuments lib docs target = .ok (columns, rows) ↔
      (columnNames docs).map (columnMeta docs target) = columns ∧
        List.Forall₂ (fun d row => (columnNames docs).mapM (cellIn lib d) = .ok row) docs rows := by
    rw [← mapMForall₂, flattenDocuments]
    cases docs.mapM fun d => (columnNames docs).mapM (cellIn lib d) with
    | error failure => simp [bind, Except.bind]
    | ok rows' => simp [bind, Except.bind, pure, Except.pure]
  simp only [Survives, flat]
  constructor
  · rintro ⟨columns, rows, ⟨rfl, shown⟩, each⟩
    rw [header] at each
    exact pairedMember shown each
  · intro all
    refine ⟨_, docs.map fun d => ((columnNames docs).mapM (cellIn lib d)).toOption.getD [], ⟨rfl, ?_⟩, ?_⟩
    · refine List.forall₂_map_right_iff.mpr (List.forall₂_same.mpr fun d member => ?_)
      obtain ⟨row, shown, -⟩ := all d member
      rw [shown]
      rfl
    · rw [header]
      refine List.forall₂_map_right_iff.mpr (List.forall₂_same.mpr fun d member => ?_)
      obtain ⟨row, shown, back⟩ := all d member
      rw [shown]
      exact back

theorem documentsSurvive (known : Documented lib wraps unwrap) (docs : List (BsonDocument D)) (target : FlattenTarget) :
    (Survives lib docs target ↔ ∀ d ∈ docs, ∀ f ∈ d.fields, f.1 ≠ protoField ∧ f.2 ≠ .bson .undefined ∧ Keeps wraps f.2) ∧
      ∀ v, Kept lib v ↔ Keeps wraps v := by
  refine ⟨?_, valueKept known⟩
  rw [survivesEach]
  refine forall₂_congr fun d member => ?_
  rw [rowBack (namesOnce docs) fun name named => namesMem member named]
  constructor
  · intro all f listed
    have held := (valueMem d).mp listed
    exact (fieldBack known held).mp (all f.1 (namesMem member (List.mem_map_of_mem listed)))
  · intro all name listed
    cases held : valueOf d.fields name with
    | none =>
      refine ⟨none, ?_, rfl⟩
      rw [returned, cellIn, held]
      rfl
    | some v =>
      have condition := all (name, v) ((valueMem d).mpr held)
      rw [← held]
      exact (fieldBack known held).mpr condition

end Survival

def sampleTarget : FlattenTarget := ⟨some (units "shop"), some (units "items")⟩

def samplePage : List (BsonDocument Unit) :=
  [⟨[(idField, .bson (.scalar (.int32 1))), (units "note", .bson (.scalar .null))], by decide +kernel⟩,
    ⟨[(units "size", .bson (.scalar (.string (units "XL")))), (idField, .bson (.scalar (.int32 2)))], by decide +kernel⟩]

theorem twoSurvive : Survives sampleLibrary samplePage sampleTarget := by
  refine (documentsSurvive sampleKnown samplePage sampleTarget).1.mpr fun d member f listed => ?_
  simp only [samplePage, List.mem_cons, List.not_mem_nil, or_false] at member
  rcases member with rfl | rfl
  · simp only [List.mem_cons, List.not_mem_nil, or_false] at listed
    rcases listed with rfl | rfl
    · exact ⟨by decide +kernel, nofun, nofun⟩
    · exact ⟨by decide +kernel, nofun, nofun⟩
  · simp only [List.mem_cons, List.not_mem_nil, or_false] at listed
    rcases listed with rfl | rfl
    · exact ⟨by decide +kernel, nofun, nofun⟩
    · exact ⟨by decide +kernel, nofun, nofun⟩

def protoDocument : BsonDocument Unit :=
  ⟨[(idField, .bson (.scalar (.int32 1))), (protoField, .bson (.scalar (.int32 2)))], by decide +kernel⟩

theorem protoLost : ¬∀ (D : Type) (lib : Library D) (wraps : Fields D → Bool) (unwrap : Fields D → Except Text (Bson D)),
    Documented lib wraps unwrap → ∀ (docs : List (BsonDocument D)) (target : FlattenTarget), Survives lib docs target := by
  intro survive
  have page := survive Unit sampleLibrary _ _ sampleKnown [protoDocument] sampleTarget
  have member : protoDocument ∈ [protoDocument] := List.mem_singleton_self _
  have row := (survivesEach _ _).mp page protoDocument member
  have listed : (protoField, JsValue.bson (.scalar (.int32 2))) ∈ protoDocument.fields := by simp [protoDocument]
  have each := (rowBack (namesOnce _) fun name named => namesMem member named).mp row protoField
    (namesMem member (List.mem_map_of_mem listed))
  exact ((fieldBack sampleKnown ((valueMem protoDocument).mp listed)).mp each).1 rfl

end DatabaseAdmin.DocumentRows
