import DatabaseAdmin.ArrayText

/-! A wire cell as the PostgreSQL preview writes it and as the apply binds it, and what a column's type
reads from either. A tagged item carries what its own text parses to. -/
namespace DatabaseAdmin.PgLiterals
open CodeUnits BinaryText WireCells ArrayText

section Encoders

inductive PgParam where
  | null
  | text (t : Text)
  | number (n : JsNumber)
  | boolean (value : Bool)
  | buffer (bytes : List UInt8)
  | list (items : List PgParam)

mutual
def cellToPgParam : ArrayItem → Option PgParam
  | .null => some .null
  | .list items => (cellsToPgParams items).map .list
  | .string text => some (.text text)
  | .number n => some (.number n)
  | .boolean value => some (.boolean value)
  | .tagged .bytes v _ => some (.buffer (base64ToBytes v))
  | .tagged .array _ (some items) => (cellsToPgParams items).map .list
  | .tagged .array _ none => none
  | .tagged _ v _ => some (.text v)

def cellsToPgParams : List ArrayItem → Option (List PgParam)
  | [] => some []
  | item :: items => do
      let param ← cellToPgParam item
      let rest ← cellsToPgParams items
      some (param :: rest)
end

def quoteLiteral (value : Text) : Text :=
  (if backslash ∈ value then units " E" else []) ++ apostrophe :: (encode apostrophe true value ++ [apostrophe])

def bytesText (bytes : List UInt8) : Text := units "\\x" ++ hexText bytes

def cast : Text := units "::bytea"

def cellToSqlLiteral : ArrayItem → Option Text
  | .null => some (units "NULL")
  | .boolean value => some (units (if value then "TRUE" else "FALSE"))
  | .number n => some (if n.finite then n.text else quoteLiteral n.text)
  | .string text => some (quoteLiteral text)
  | .tagged .bytes v _ => some (apostrophe :: (bytesText (base64ToBytes v) ++ [apostrophe]) ++ cast)
  | .tagged .array _ parsed => parsed.map fun items => quoteLiteral (arrayLiteralText items)
  | .tagged _ v _ => some (quoteLiteral v)
  | .list _ => some (quoteLiteral [])

end Encoders

section Driver

mutual
def paramText : PgParam → Text
  | .null => units "NULL"
  | .list items => braced (paramTexts items)
  | .buffer bytes => units "\\\\x" ++ hexText bytes
  | .text t => quotedElement t
  | .number n => quotedElement n.text
  | .boolean value => quotedElement (units (if value then "true" else "false"))

def paramTexts : List PgParam → List Text
  | [] => []
  | item :: items => paramText item :: paramTexts items
end

def arrayString (items : List PgParam) : Text := braced (paramTexts items)

end Driver

section Reading
variable {V : Type}

inductive Datum (V : Type) where
  | null
  | value (v : V)
  | list (items : List (Datum V))

inductive ColumnType (V : Type) where
  | scalar (input : Text → V)
  | array (element : Text → V)

structure Column (V : Type) where
  type : ColumnType V
  constant : Text → Datum V
  bytea : List UInt8 → Datum V

mutual
def elementDatum (element : Text → V) : PgArrayElement → Datum V
  | .null => .null
  | .text t => .value (element t)
  | .list items => .list (elementData element items)

def elementData (element : Text → V) : List PgArrayElement → List (Datum V)
  | [] => []
  | item :: items => elementDatum element item :: elementData element items
end

def Column.input (column : Column V) (text : Text) : Datum V :=
  match column.type with
  | .scalar input => .value (input text)
  | .array element => .list (elementData element (parsePgArray text comma))

def readParam (column : Column V) : PgParam → Datum V
  | .null => .null
  | .text t => column.input t
  | .number n => column.input n.text
  | .boolean value => column.input (units (if value then "true" else "false"))
  | .buffer bytes => column.bytea bytes
  | .list items => column.input (arrayString items)

def quotedText (literal : Text) : Option Text := undoLiteral .postgres (literal.dropWhile (· == 32))

def readLiteral (column : Column V) (literal : Text) : Datum V :=
  if literal = units "NULL" then .null
  else match quotedText literal with
  | some text => column.input text
  | none =>
      match quotedText (literal.take (literal.length - cast.length)) with
      | some text => if cast <:+ literal then column.bytea (hexBytes (text.drop 2)) else column.constant literal
      | none => column.constant literal

end Reading

section Arrays
variable {V : Type}

mutual
def paramElement : PgParam → PgArrayElement
  | .null => .null
  | .list items => .list (paramElements items)
  | .buffer bytes => .text (bytesText bytes)
  | .text t => .text t
  | .number n => .text n.text
  | .boolean value => .text (units (if value then "true" else "false"))

def paramElements : List PgParam → List PgArrayElement
  | [] => []
  | item :: items => paramElement item :: paramElements items
end

theorem bytesParses (bytes : List UInt8) : Parses (units "\\\\x" ++ hexText bytes) (.text (bytesText bytes)) where
  opened c head := by
    cases head
    decide
  some := List.cons_ne_nil _ _
  read more ends := by
    have hex : ∀ c ∈ hexText bytes, isBare c = true := hexEach (by decide) bytes
    have plain : (units "x" ++ hexText bytes).all isBare = true :=
      List.all_eq_true.mpr (List.forall_mem_append.mpr ⟨by decide, hex⟩)
    have body : bareBody comma (backslash :: backslash :: (units "x" ++ hexText bytes ++ more)) =
        ⟨backslash :: (units "x" ++ hexText bytes), true, (units "x" ++ hexText bytes).length + 2⟩ := by
      rw [bareBody, if_neg (by decide), if_pos rfl, bareRun plain ends]
    have bare : parseElement comma (backslash :: backslash :: (units "x" ++ hexText bytes ++ more)) =
        bareElement comma (backslash :: backslash :: (units "x" ++ hexText bytes ++ more)) := by
      rw [parseElement, if_neg (by decide), if_neg (by decide)]
    exact bare.trans (by rw [bareElement, body]; rfl)

mutual
theorem paramParses (param : PgParam) : Parses (paramText param) (paramElement param) := by
  match param with
  | .null =>
    rw [paramText, paramElement]
    exact nullParses
  | .list items =>
    rw [paramText, paramElement]
    exact bracedParses (paramsParses items)
  | .buffer bytes =>
    rw [paramText, paramElement]
    exact bytesParses bytes
  | .text t =>
    rw [paramText, paramElement]
    exact quotedParses t
  | .number n =>
    rw [paramText, paramElement]
    exact quotedParses n.text
  | .boolean value =>
    rw [paramText, paramElement]
    exact quotedParses _

theorem paramsParses (params : List PgParam) : List.Forall₂ Parses (paramTexts params) (paramElements params) := by
  match params with
  | [] =>
    rw [paramTexts, paramElements]
    exact .nil
  | param :: params =>
    rw [paramTexts, paramElements]
    exact .cons (paramParses param) (paramsParses params)
end

mutual
def ItemAgrees (element : Text → V) : ArrayItem → Prop
  | .tagged .bytes v _ => element v = element (bytesText (base64ToBytes v))
  | .tagged .array _ _ => False
  | .list items => ItemsAgree element items
  | _ => True

def ItemsAgree (element : Text → V) : List ArrayItem → Prop
  | [] => True
  | item :: items => ItemAgrees element item ∧ ItemsAgree element items
end

mutual
theorem itemData (element : Text → V) {item : ArrayItem} {param : PgParam} (bound : cellToPgParam item = some param) :
    elementDatum element (itemElement item) = elementDatum element (paramElement param) ↔ ItemAgrees element item := by
  match item with
  | .null | .string text | .number n | .boolean value =>
    simp only [cellToPgParam, Option.some.injEq] at bound
    subst bound
    simp only [itemElement, paramElement, ItemAgrees]
  | .list items =>
    simp only [cellToPgParam, Option.map_eq_some_iff] at bound
    obtain ⟨params, each, rfl⟩ := bound
    simp only [itemElement, paramElement, elementDatum, Datum.list.injEq, ItemAgrees]
    exact itemsData element each
  | .tagged tag v parsed =>
    cases tag with
    | bytes =>
      cases bound
      simp only [itemElement, paramElement, elementDatum, Datum.value.injEq, ItemAgrees]
    | array =>
      cases parsed with
      | none => cases bound
      | some items =>
        simp only [cellToPgParam, Option.map_eq_some_iff] at bound
        obtain ⟨params, -, rfl⟩ := bound
        simp only [itemElement, paramElement, elementDatum, reduceCtorEq, ItemAgrees]
    | _ =>
      cases bound
      simp only [itemElement, paramElement, ItemAgrees]

theorem itemsData (element : Text → V) {items : List ArrayItem} {params : List PgParam} (bound : cellsToPgParams items = some params) :
    elementData element (itemElements items) = elementData element (paramElements params) ↔ ItemsAgree element items := by
  match items with
  | [] =>
    cases bound
    simp only [itemElements, paramElements, ItemsAgree]
  | item :: items =>
    simp only [cellsToPgParams, Option.bind_eq_some_iff, bind] at bound
    obtain ⟨param, first, rest, each, made⟩ := bound
    cases made
    simp only [itemElements, paramElements, elementData, List.cons.injEq, ItemsAgree]
    exact and_congr (itemData element first) (itemsData element each)
end

end Arrays

section Cells
variable {V : Type}

theorem quotedRead (value : Text) : quotedText (quoteLiteral value) = some value := by
  by_cases slash : backslash ∈ value
  · have escaped : quotedText (quoteLiteral value) = undoBody (some postgresEscape) (encode apostrophe true value ++ [apostrophe]) := by
      rw [quoteLiteral, if_pos slash]
      rfl
    rw [escaped]
    exact undoBodyEncoded (some postgresEscape) (by rintro _ ⟨⟩; decide) value
  · have same : encode apostrophe true value = encode apostrophe false value :=
      List.flatMap_congr fun c member => by
        have other : c ≠ backslash := fun same => slash (same ▸ member)
        simp [encodeUnit, other]
    have plain : quotedText (quoteLiteral value) = undoBody none (encode apostrophe false value ++ [apostrophe]) := by
      rw [quoteLiteral, if_neg slash, same]
      rfl
    rw [plain]
    exact undoBodyEncoded none (by rintro _ ⟨⟩) value

theorem quotedLiteral (column : Column V) (value : Text) : readLiteral column (quoteLiteral value) = column.input value := by
  have other : quoteLiteral value ≠ units "NULL" := by
    intro same
    rw [quoteLiteral] at same
    split at same
    · exact absurd (show (32 : Nat) = 78 from Option.some.inj (congrArg List.head? same)) (by decide)
    · exact absurd (show (39 : Nat) = 78 from Option.some.inj (congrArg List.head? same)) (by decide)
  rw [readLiteral, if_neg other, quotedRead]

theorem quoteContinued {body more : Text} {d : CodeUnit} (plain : apostrophe ∉ body) (other : d ≠ apostrophe) :
    undoBody none (body ++ apostrophe :: d :: more) = none := by
  induction body with
  | nil =>
    have slash : apostrophe ≠ backslash := by decide
    simp only [List.nil_append, undoBody, if_neg slash, if_true, if_neg other]
  | cons c body ih =>
    obtain ⟨head, tail⟩ := not_or.mp (mt List.mem_cons.mpr plain)
    rw [List.cons_append, undoBodyPlain (by simp) (Ne.symm head) (.inl rfl), ih tail]
    rfl

theorem bytesClean (bytes : List UInt8) : apostrophe ∉ bytesText bytes := by
  have hex : ∀ c ∈ hexText bytes, c ≠ apostrophe := hexEach (by decide) bytes
  intro member
  rcases List.mem_append.mp member with lead | digit
  · exact absurd lead (by decide)
  · exact hex apostrophe digit rfl

theorem bytesLiteral (column : Column V) (bytes : List UInt8) :
    readLiteral column (apostrophe :: (bytesText bytes ++ [apostrophe]) ++ cast) = column.bytea bytes := by
  have other : apostrophe :: (bytesText bytes ++ [apostrophe]) ++ cast ≠ units "NULL" := fun same =>
    absurd (show (39 : Nat) = 78 from Option.some.inj (congrArg List.head? same)) (by decide)
  have whole : quotedText (apostrophe :: (bytesText bytes ++ [apostrophe]) ++ cast) = none := by
    have body : quotedText (apostrophe :: (bytesText bytes ++ [apostrophe]) ++ cast) =
        undoBody none (bytesText bytes ++ apostrophe :: (':' : CodeUnit) :: units ":bytea") := by
      rw [List.cons_append, List.append_assoc]
      rfl
    exact body.trans (quoteContinued (bytesClean bytes) (by decide))
  have front : quotedText (apostrophe :: (bytesText bytes ++ [apostrophe])) = some (bytesText bytes) := by
    have same : encode apostrophe false (bytesText bytes) = bytesText bytes := by
      have each (c : CodeUnit) (member : c ∈ bytesText bytes) : encodeUnit apostrophe false c = [c] := by
        have apart : c ≠ apostrophe := fun same => bytesClean bytes (same ▸ member)
        simp [encodeUnit, apart]
      rw [encode, List.flatMap_congr each, List.flatMap_singleton']
    have body : quotedText (apostrophe :: (bytesText bytes ++ [apostrophe])) =
        undoBody none (encode apostrophe false (bytesText bytes) ++ [apostrophe]) := by
      rw [same]
      rfl
    exact body.trans (undoBodyEncoded none (by rintro _ ⟨⟩) (bytesText bytes))
  have taken : (apostrophe :: (bytesText bytes ++ [apostrophe]) ++ cast).take
      ((apostrophe :: (bytesText bytes ++ [apostrophe]) ++ cast).length - cast.length) =
      apostrophe :: (bytesText bytes ++ [apostrophe]) := by
    rw [List.length_append, Nat.add_sub_cancel, List.take_left]
  have suffix : cast <:+ apostrophe :: (bytesText bytes ++ [apostrophe]) ++ cast := List.suffix_append _ _
  have back : hexBytes ((bytesText bytes).drop 2) = bytes := hexBytesText bytes
  rw [readLiteral, if_neg other, whole, taken, front]
  simp only [if_pos suffix, back]

def Agrees (column : Column V) : ArrayItem → Prop
  | .boolean value => column.constant (units (if value then "TRUE" else "FALSE")) = column.input (units (if value then "true" else "false"))
  | .number n => n.finite = true → readLiteral column n.text = column.input n.text
  | .tagged .array _ (some items) =>
      match column.type with
      | .scalar input => ∀ params, cellsToPgParams items = some params → input (arrayLiteralText items) = input (arrayString params)
      | .array element => ItemsAgree element items
  | .list items => ∀ params, cellsToPgParams items = some params → column.input [] = column.input (arrayString params)
  | _ => True

theorem arrayReads (column : Column V) {items : List ArrayItem} {params : List PgParam}
    (bound : cellsToPgParams items = some params) :
    column.input (arrayLiteralText items) = column.input (arrayString params) ↔
      match column.type with
      | .scalar input => input (arrayLiteralText items) = input (arrayString params)
      | .array element => ItemsAgree element items := by
  cases kind : column.type with
  | scalar input => simp only [Column.input, kind, Datum.value.injEq]
  | array element =>
    have shown : parsePgArray (arrayLiteralText items) comma = itemElements items := bracedBack (itemsParses items)
    have sent : parsePgArray (arrayString params) comma = paramElements params := bracedBack (paramsParses params)
    simp only [Column.input, kind, shown, sent, Datum.list.injEq]
    exact itemsData element bound

theorem literalMeansParam (column : Column V) (cell : ArrayItem) (literal : Text) (param : PgParam)
    (shown : cellToSqlLiteral cell = some literal) (bound : cellToPgParam cell = some param) :
    readLiteral column literal = readParam column param ↔ Agrees column cell := by
  match cell with
  | .null =>
    cases shown
    cases bound
    exact iff_of_true rfl trivial
  | .string text =>
    cases shown
    cases bound
    exact iff_of_true (quotedLiteral column text) trivial
  | .boolean value =>
    cases shown
    cases bound
    have constant : readLiteral column (units (if value then "TRUE" else "FALSE")) =
        column.constant (units (if value then "TRUE" else "FALSE")) := by
      cases value <;> rfl
    rw [constant]
    rfl
  | .number n =>
    cases shown
    cases bound
    rw [Agrees]
    cases finite : n.finite with
    | true =>
      rw [if_pos rfl]
      exact ⟨fun same _ => same, fun all => all rfl⟩
    | false =>
      rw [if_neg (by decide)]
      exact iff_of_true (quotedLiteral column n.text) nofun
  | .list items =>
    cases shown
    obtain ⟨params, each, rfl⟩ := Option.map_eq_some_iff.mp bound
    rw [quotedLiteral]
    exact ⟨fun same params' each' => Option.some.inj (each.symm.trans each') ▸ same, fun all => all params each⟩
  | .tagged tag v parsed =>
    cases tag with
    | bytes =>
      cases shown
      cases bound
      exact iff_of_true (bytesLiteral column _) trivial
    | array =>
      obtain ⟨items, rfl, rfl⟩ := Option.map_eq_some_iff.mp shown
      obtain ⟨params, each, rfl⟩ := Option.map_eq_some_iff.mp bound
      rw [quotedLiteral]
      refine (arrayReads column each).trans ?_
      rw [Agrees]
      cases column.type with
      | scalar input =>
        exact ⟨fun same params' each' => Option.some.inj (each.symm.trans each') ▸ same, fun all => all params each⟩
      | array element => exact Iff.rfl
    | _ =>
      cases shown
      cases bound
      exact iff_of_true (quotedLiteral column v) trivial

def byteaInput (text : Text) : List UInt8 :=
  if units "\\x" <+: text then hexBytes (text.drop 2) else text.map UInt8.ofNat

def byteaArray : Column (List UInt8) := ⟨.array byteaInput, fun _ => .null, fun _ => .null⟩

def nestedCell : ArrayItem := .tagged .array (units "[[null,\"\\\\x\\\"\"],[]]") (some [.list [.null, .string (units "\\x\"")], .list []])

theorem nestedCellAlike : ∃ literal param, cellToSqlLiteral nestedCell = some literal ∧ cellToPgParam nestedCell = some param ∧
    readLiteral byteaArray literal = readParam byteaArray param := by
  have bound : cellToPgParam nestedCell = some (.list [.list [.null, .text (units "\\x\"")], .list []]) := rfl
  exact ⟨_, _, rfl, bound, (literalMeansParam byteaArray nestedCell _ _ rfl bound).mpr ⟨⟨trivial, trivial, trivial⟩, trivial, trivial⟩⟩

def bytesInArray : ArrayItem :=
  .tagged .array (units "[\x7b\"$t\":\"bytes\",\"v\":\"qg==\"\x7d]") (some [.tagged .bytes (units "qg==") none])

theorem bytesInArrayShownOtherwise : ¬ ∀ (column : Column (List UInt8)) (cell : ArrayItem) (literal : Text) (param : PgParam),
    cellToSqlLiteral cell = some literal → cellToPgParam cell = some param → readLiteral column literal = readParam column param := by
  intro all
  have bound : cellsToPgParams [.tagged .bytes (units "qg==") none] = some [.buffer (base64ToBytes (units "qg=="))] := rfl
  have same := all byteaArray bytesInArray _ _ rfl (congrArg (Option.map PgParam.list) bound)
  have read := (arrayReads byteaArray bound).mp ((quotedLiteral byteaArray _).symm.trans same)
  have alike : byteaInput (units "qg==") = byteaInput (bytesText (base64ToBytes (units "qg=="))) := read.1
  exact absurd alike (by decide +kernel)

end Cells

end DatabaseAdmin.PgLiterals
