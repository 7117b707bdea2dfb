import DatabaseAdmin.ChangeTemplates
import DatabaseAdmin.WireCells
import Mathlib.Algebra.Group.Int.Defs
import Mathlib.Algebra.GroupWithZero.Nat
import Mathlib.Data.List.Forall2

/-! The statements of a changeset in SQLite, the values that the worker binds to them, and the text that
the preview shows. -/
namespace DatabaseAdmin.SqliteChanges
open CodeUnits BinaryText Templates WireCells
open ChangeStatements (Filled template termTemplate assignTemplate whereTemplate join escapeIdentifier entryValues assignHoles assignValues)

abbrev Record := List (Text × Cell)

def present (key : Record) (col : Text) : Option Cell :=
  match key.lookup col with
  | none | some .null => none
  | some cell => some cell

inductive ChangeOp where
  | insert (values : Record)
  | update (key values : Record)
  | delete (key : Record)

structure Changeset where
  schema : Option Text
  table : Text
  keyColumns : List Text
  changes : List ChangeOp

structure BuiltStatement where
  sql : Text
  params : List Cell
  expected : Nat
  display : Text

section Building

def quoteLiteral (value : Text) : Text := apostrophe :: replaceUnit apostrophe [apostrophe, apostrophe] value ++ [apostrophe]

def quoteBlob (bytes : List UInt8) : Text := units "X'" ++ hexText bytes ++ units "'"

def renderLiteral : Cell → Text
  | .null => units "NULL"
  | .boolean value => units (if value then "1" else "0")
  | .number n => if n.finite then n.text else quoteLiteral n.text
  | .string text => quoteLiteral text
  | .tagged .bytes v _ => quoteBlob (base64ToBytes v)
  | .tagged .bigint v _ | .tagged .decimal v _ => v
  | .tagged _ v _ => quoteLiteral v

def mark : CodeUnit := '?'

def inline : Text → List Cell → Text
  | [], _ => []
  | c :: rest, params =>
      if c = mark then renderLiteral (params.headD .null) ++ inline rest params.tail else c :: inline rest params

def whereClause (key : Record) : List Text → List Text × List Cell
  | [] => ([], [])
  | col :: rest =>
      let (parts, params) := whereClause key rest
      match present key col with
      | none => ((escapeIdentifier col ++ units " IS NULL") :: parts, params)
      | some v => ((escapeIdentifier col ++ units " = ?") :: parts, v :: params)

def push (sql : Text) (params : List Cell) : BuiltStatement := ⟨sql, params, 1, inline sql params⟩

def nullWarning : Text := units
  "A NULL key value is matched with IS NULL; if several rows share it the affected-row check will abort the apply."

def changeStatements (target : Text) (keyColumns : List Text) : ChangeOp → List BuiltStatement × List Text
  | .insert values =>
      if values = [] then ([push (units "INSERT INTO " ++ target ++ units " DEFAULT VALUES") []], [])
      else ([push (units "INSERT INTO " ++ target ++ units " (" ++ join ", " (values.map fun e => escapeIdentifier e.1) ++
        units ") VALUES (" ++ join ", " (values.map fun _ => units "?") ++ units ")") (values.map Prod.snd)], [])
  | .update key values =>
      let (parts, params) := whereClause key keyColumns
      let warned := if keyColumns.any fun c => (present key c).isNone then [nullWarning] else []
      if values = [] then ([], warned ++ [units "An update with no changed columns was skipped."])
      else ([push (units "UPDATE " ++ target ++ units " SET " ++
        join ", " (values.map fun e => escapeIdentifier e.1 ++ units " = ?") ++ units " WHERE " ++ join " AND " parts)
        (values.map Prod.snd ++ params)], warned)
  | .delete key =>
      let (parts, params) := whereClause key keyColumns
      let warned := if keyColumns.any fun c => (present key c).isNone then [nullWarning] else []
      ([push (units "DELETE FROM " ++ target ++ units " WHERE " ++ join " AND " parts) params], warned)

def isInsert : ChangeOp → Bool
  | .insert _ => true
  | _ => false

def qualify (schema : Option Text) (table : Text) : Text :=
  match schema with
  | none | some [] => escapeIdentifier table
  | some schema => escapeIdentifier schema ++ units "." ++ escapeIdentifier table

def noRowKey (table : Text) : Text := units "Cannot update or delete rows in " ++ table ++
  units ": no primary key or unique index identifies a row (PLAN §6 \"Grid editing\")."

def buildChangeStatements (cs : Changeset) : Except Text (List BuiltStatement × List Text) :=
  if cs.keyColumns = [] ∧ cs.changes.any (fun c => !isInsert c) then .error (noRowKey cs.table)
  else
    let built := cs.changes.map (changeStatements (qualify cs.schema cs.table) cs.keyColumns)
    .ok (built.flatMap Prod.fst, built.flatMap Prod.snd)

end Building

section Templates

def wanted (keyColumns : List Text) : ChangeOp → List (Filled Cell)
  | .insert values => [.insert values]
  | .update key values => if values = [] then [] else [.update values (keyColumns.map fun col => (col, present key col))]
  | .delete key => [.delete (keyColumns.map fun col => (col, present key col))]

def quoted {α : Type} : Filled α → Filled α
  | .insert entries => .insert (entries.map fun e => (escapeIdentifier e.1, e.2))
  | .update entries keys => .update (entries.map fun e => (escapeIdentifier e.1, e.2)) (keys.map fun k => (escapeIdentifier k.1, k.2))
  | .delete keys => .delete (keys.map fun k => (escapeIdentifier k.1, k.2))

def statement (cs : Changeset) (f : Filled Cell) : Template Cell :=
  template (units " DEFAULT VALUES") (qualify cs.schema cs.table) (quoted f)

theorem whereClauseOf (key : Record) (cols : List Text) :
    let keys := cols.map fun col => (escapeIdentifier col, present key col)
    whereClause key cols = ((keys.map termTemplate).map holes, (keys.map termTemplate).flatMap values) := by
  induction cols with
  | nil => rfl
  | cons col rest ih =>
    simp only [whereClause, ih]
    cases here : present key col <;> simp [here, termTemplate, units]

theorem changeStatementsOf (target : Text) (keyColumns : List Text) (change : ChangeOp) :
    (changeStatements target keyColumns change).1 =
      (wanted keyColumns change).map fun f =>
        push (holes (template (units " DEFAULT VALUES") target (quoted f))) (values (template (units " DEFAULT VALUES") target (quoted f))) := by
  cases change with
  | insert record =>
    cases record with
    | nil => simp [changeStatements, wanted, quoted, template]
    | cons e rest =>
      simp [changeStatements, wanted, quoted, template, holesJoined, valuesJoined, join, entryValues, Function.comp_def]
  | update key record =>
    by_cases empty : record = []
    · simp [changeStatements, wanted, empty]
    · have names (e : Text × Cell) : holes (assignTemplate (escapeIdentifier e.1, e.2)) = escapeIdentifier e.1 ++ units " = ?" :=
        assignHoles _
      have cells : record.flatMap (fun e => values (assignTemplate (escapeIdentifier e.1, e.2))) = record.map Prod.snd := by
        rw [← List.flatMap_map]
        simpa [Function.comp_def, List.flatMap_map] using assignValues (record.map fun e => (escapeIdentifier e.1, e.2))
      simp [changeStatements, wanted, quoted, template, empty, whereTemplate, holesJoined, valuesJoined, join, whereClauseOf,
        names, cells, List.flatMap_map, Function.comp_def]
  | delete key =>
    simp [changeStatements, wanted, quoted, template, whereTemplate, holesJoined, valuesJoined, join, whereClauseOf, Function.comp_def]

end Templates

section Binding

inductive Binding where
  | null
  | number (n : JsNumber)
  | integer (value : Int)
  | text (t : Text)
  | blob (bytes : List UInt8)

def digitValue (c : CodeUnit) : Option Nat :=
  if isDigit c then some (c - 48)
  else if 97 ≤ c ∧ c ≤ 102 then some (c - 87)
  else if 65 ≤ c ∧ c ≤ 70 then some (c - 55)
  else none

def digitsFrom (radix : Nat) : Nat → Text → Option Nat
  | n, [] => some n
  | n, c :: rest => do
      let d ← digitValue c
      if d < radix then digitsFrom radix (radix * n + d) rest else none

def digitsIn (radix : Nat) (t : Text) : Option Int := if t = [] then none else (digitsFrom radix 0 t).map Int.ofNat

-- `BigInt(v)`, or none where it throws.
def bigInt (v : Text) : Option Int :=
  match trim v with
  | [] => some 0
  | 43 :: t => digitsIn 10 t
  | 45 :: t => (digitsIn 10 t).map (- ·)
  | 48 :: x :: t =>
      if x = 'x' ∨ x = 'X' then digitsIn 16 t
      else if x = 'o' ∨ x = 'O' then digitsIn 8 t
      else if x = 'b' ∨ x = 'B' then digitsIn 2 t
      else digitsIn 10 (48 :: x :: t)
  | t => digitsIn 10 t

def toBinding : Cell → Option Binding
  | .null => some .null
  | .boolean value => some (.number ⟨units (if value then "1" else "0"), true⟩)
  | .number n => some (.number n)
  | .string text => some (.text text)
  | .tagged .bytes v _ => some (.blob (base64ToBytes v))
  | .tagged .bigint v _ => (bigInt v).map .integer
  | .tagged _ v _ => some (.text v)

end Binding

section Reading

def sqlSpace (c : CodeUnit) : Bool := c == 32 || c == 9 || c == 10 || c == 12 || c == 13

def inRange (i : Int) : Bool := -2 ^ 63 ≤ i && i < 2 ^ 63

def sqlInteger (literal : Text) : Option Int :=
  (match trimBy sqlSpace literal with
  | 43 :: t => digitsIn 10 t
  | 45 :: t => (digitsIn 10 t).map (- ·)
  | 48 :: x :: t => if x = 'x' ∨ x = 'X' then digitsIn 16 t else digitsIn 10 (48 :: x :: t)
  | t => digitsIn 10 t).filter inRange

def Denotes (literal : Text) : Binding → Prop
  | .null => literal = units "NULL"
  | .number n => n.finite = true ∧ literal = n.text
  | .integer value => sqlInteger literal = some value
  | .text t => 0 ∉ literal ∧ undoLiteral .sqlite literal = some t
  | .blob bytes => ∃ body, literal = units "X'" ++ body ++ units "'" ∧ (body = [] ∨ hexPairs body = true) ∧ hexBytes body = bytes

def Shows (t : Template Cell) (display : Text) : Prop := display = shown renderLiteral t ∧
  ∀ cell ∈ values t, ∃ binding, toBinding cell = some binding ∧ Denotes (renderLiteral cell) binding

def Alike : Cell → Prop
  | .null | .boolean _ => True
  | .number n => n.finite = true
  | .string text => 0 ∉ text
  | .tagged .bytes _ _ => True
  | .tagged .bigint v _ => (sqlInteger v).isSome
  | .tagged .decimal _ _ => False
  | .tagged _ v _ => 0 ∉ v

def names (cs : Changeset) : Filled Cell → List Text
  | .insert entries => cs.schema.toList ++ cs.table :: entries.map Prod.fst
  | .update entries keys => cs.schema.toList ++ cs.table :: (entries.map Prod.fst ++ keys.map Prod.fst)
  | .delete keys => cs.schema.toList ++ cs.table :: keys.map Prod.fst

theorem undoShorter : ∀ {body t : Text}, undoBody none body = some t → t.length < body.length
  | [], _, read => by contradiction
  | [c], t, read => by
    simp only [undoBody] at read
    split at read
    · cases read
      exact Nat.one_pos
    · contradiction
  | c :: d :: rest, t, read => by
    have kept {text : Text} (shorter : ∀ {s : Text}, undoBody none text = some s → s.length < text.length)
        (here : (do let tail ← undoBody none text; some (c :: tail)) = some t) : t.length < text.length + 1 := by
      obtain ⟨tail, inner, made⟩ := Option.bind_eq_some_iff.mp here
      cases made
      exact Nat.succ_lt_succ (shorter inner)
    simp only [undoBody] at read
    split at read
    · exact kept undoShorter read
    · split at read
      · split at read
        · exact Nat.lt_succ_of_lt (kept undoShorter read)
        · contradiction
      · exact kept undoShorter read

theorem undoneShorter {literal t : Text} (read : undoLiteral .sqlite literal = some t) : t.length < literal.length := by
  cases literal with
  | nil => contradiction
  | cons c rest =>
    simp only [undoLiteral] at read
    split at read
    · exact Nat.lt_succ_of_lt (undoShorter read)
    · contradiction

theorem literalRead {text : Text} : 0 ∉ quoteLiteral text ∧ undoLiteral .sqlite (quoteLiteral text) = some text ↔ 0 ∉ text := by
  have body : replaceUnit apostrophe [apostrophe, apostrophe] text = encode apostrophe false text := encodeDoubled apostrophe text
  have read : undoLiteral .sqlite (quoteLiteral text) = some text := by
    rw [quoteLiteral, body]
    exact undoBodyEncoded none (by rintro _ ⟨⟩) text
  have same : 0 ∈ quoteLiteral text ↔ 0 ∈ text := by
    simp only [quoteLiteral, List.cons_append, List.mem_cons, List.mem_append, List.not_mem_nil, or_false]
    have quote : (0 : CodeUnit) ≠ apostrophe := by decide
    simp only [quote, false_or, or_false, replaceUnit, List.mem_flatMap]
    constructor
    · rintro ⟨c, member, inside⟩
      split at inside
      · simp [quote] at inside
      · rwa [List.mem_singleton.mp inside]
    · intro member
      exact ⟨0, member, by rw [if_neg quote]; exact List.mem_singleton.mpr rfl⟩
  rw [same, and_iff_left read]

theorem digitSolid {c : Nat} (digit : (digitValue c).isSome) : isWhite c = false := by
  have range : 48 ≤ c ∧ c ≤ 102 := by
    unfold digitValue at digit
    split at digit
    · rename_i here
      have here : 48 ≤ c ∧ c ≤ 57 := by simpa [isDigit] using here
      omega
    · split at digit
      · rename_i here
        have here : 97 ≤ c ∧ c ≤ 102 := here
        omega
      · split at digit
        · rename_i here
          have here : 65 ≤ c ∧ c ≤ 70 := here
          omega
        · contradiction
  exact Bool.eq_false_iff.mpr fun white => by
    have blank := whiteRange white
    omega

theorem digitsSolid {radix n m : Nat} {t : Text} (read : digitsFrom radix n t = some m) : ∀ c ∈ t, isWhite c = false := by
  induction t generalizing n with
  | nil => exact nofun
  | cons c t ih =>
    simp only [digitsFrom, bind, Option.bind_eq_some_iff] at read
    obtain ⟨d, value, later⟩ := read
    split at later
    · exact List.forall_mem_cons.mpr ⟨digitSolid (by rw [value]; rfl), ih later⟩
    · contradiction

theorem trimWider {p q : CodeUnit → Bool} (wider : ∀ c, p c = true → q c = true) (text : Text) :
    trimBy q (trimBy p text) = trimBy q text := by
  obtain ⟨trail, cut, all⟩ := trimBySplit p text
  have lead : ∀ c ∈ text.takeWhile p, q c = true := fun c member => wider c (List.mem_takeWhile_imp member)
  conv_rhs => rw [cut, trimByLead lead, trimTrail fun c member => wider c (all c member)]

theorem trimSolid {q : CodeUnit → Bool} {t : Text} (solid : ∀ c ∈ t, q c = false) : trimBy q t = t := by
  have head : t.dropWhile q = t := List.dropWhile_eq_self_iff.mpr fun long => Bool.eq_false_iff.mp (solid _ (List.getElem_mem long))
  have last : t.rdropWhile q = t := List.rdropWhile_eq_self_iff.mpr fun some => Bool.eq_false_iff.mp (solid _ (List.getLast_mem some))
  rw [trimBy, head, last]

theorem digitsInSolid {radix : Nat} {t : Text} {i : Int} (read : digitsIn radix t = some i) : ∀ c ∈ t, isWhite c = false := by
  rw [digitsIn] at read
  split at read
  · contradiction
  · obtain ⟨n, inner, -⟩ := Option.map_eq_some_iff.mp read
    exact digitsSolid inner

theorem spaceWhite (c : CodeUnit) (space : sqlSpace c = true) : isWhite c = true := by
  simp only [sqlSpace, Bool.or_eq_true, beq_iff_eq] at space
  rcases space with (((rfl | rfl) | rfl) | rfl) | rfl <;> rfl

theorem secondDigit {x : CodeUnit} {t : Text} {i : Int} (read : digitsIn 10 (48 :: x :: t) = some i) :
    ∃ d, digitValue x = some d ∧ d < 10 := by
  rw [digitsIn, if_neg (List.cons_ne_nil _ _)] at read
  obtain ⟨m, inner, -⟩ := Option.map_eq_some_iff.mp read
  simp only [digitsFrom, bind, Option.bind_eq_some_iff] at inner
  obtain ⟨_, _, later⟩ := inner
  split at later
  · obtain ⟨d, value, last⟩ := Option.bind_eq_some_iff.mp later
    split at last
    · exact ⟨d, value, by assumption⟩
    · contradiction
  · contradiction

theorem integerAlike {v : Text} {i : Int} (read : sqlInteger v = some i) : bigInt v = some i := by
  have trimmed : trim v = trimBy isWhite (trimBy sqlSpace v) := (trimWider spaceWhite v).symm
  obtain ⟨number, -⟩ := Option.filter_eq_some_iff.mp read
  rw [bigInt, trimmed]
  generalize trimBy sqlSpace v = t at number
  split at number
  · rename_i t
    have solid : trimBy isWhite (43 :: t) = 43 :: t := trimSolid (List.forall_mem_cons.mpr ⟨rfl, digitsInSolid number⟩)
    rw [solid]
    exact number
  · rename_i t
    obtain ⟨n, digits, -⟩ := Option.map_eq_some_iff.mp number
    have solid : trimBy isWhite (45 :: t) = 45 :: t := trimSolid (List.forall_mem_cons.mpr ⟨rfl, digitsInSolid digits⟩)
    rw [solid]
    exact number
  · rename_i x t
    split at number
    · rename_i hex
      have letter : isWhite x = false := by rcases hex with rfl | rfl <;> rfl
      have solid : trimBy isWhite (48 :: x :: t) = 48 :: x :: t :=
        trimSolid (List.forall_mem_cons.mpr ⟨rfl, List.forall_mem_cons.mpr ⟨letter, digitsInSolid number⟩⟩)
      rw [solid]
      exact (if_pos hex).trans number
    · rename_i plain
      have apart (letter : CodeUnit) (other : digitValue letter = none ∨ digitValue letter = some 11) : x ≠ letter := by
        rintro rfl
        obtain ⟨d, value, small⟩ := secondDigit number
        rcases other with none | large
        · exact absurd (none.symm.trans value) nofun
        · obtain rfl : 11 = d := Option.some.inj (large.symm.trans value)
          contradiction
      rw [trimSolid (digitsInSolid number)]
      exact ((if_neg plain).trans ((if_neg (by rintro (same | same) <;> exact apart _ (by decide) same)).trans
        (if_neg (by rintro (same | same) <;> exact apart _ (by decide) same)))).trans number
  · rename_i plus minus radix
    rw [trimSolid (digitsInSolid number)]
    split
    · simp [digitsIn] at number
    · exact absurd rfl (plus _)
    · exact absurd rfl (minus _)
    · exact absurd rfl (radix _ _)
    · exact number

theorem quotedShow {v : Text} : (∃ binding, some (Binding.text v) = some binding ∧ Denotes (quoteLiteral v) binding) ↔ 0 ∉ v := by
  simp only [Option.some.injEq, exists_eq_left', Denotes]
  exact literalRead

theorem cellAlike (cell : Cell) : (∃ binding, toBinding cell = some binding ∧ Denotes (renderLiteral cell) binding) ↔ Alike cell := by
  cases cell with
  | null => exact iff_of_true ⟨_, rfl, rfl⟩ trivial
  | boolean value => exact iff_of_true ⟨_, rfl, rfl, rfl⟩ trivial
  | number n =>
    simp only [toBinding, renderLiteral, Alike, Option.some.injEq, exists_eq_left', Denotes]
    exact ⟨And.left, fun finite => ⟨finite, if_pos finite⟩⟩
  | string text => exact quotedShow
  | tagged tag v of =>
    cases tag with
    | bytes =>
      refine iff_of_true ⟨_, rfl, hexText (base64ToBytes v), rfl, ?_, hexBytesText _⟩ trivial
      by_cases empty : base64ToBytes v = []
      · exact .inl (by rw [empty]; rfl)
      · exact .inr (hexPairsText _ empty)
    | bigint =>
      simp only [toBinding, renderLiteral, Alike, Option.map_eq_some_iff]
      constructor
      · rintro ⟨binding, ⟨i, _, made⟩, read⟩
        subst made
        rw [show sqlInteger v = some i from read]
        rfl
      · intro whole
        obtain ⟨i, read⟩ := Option.isSome_iff_exists.mp whole
        exact ⟨.integer i, ⟨i, integerAlike read, rfl⟩, read⟩
    | decimal =>
      refine iff_of_false ?_ id
      rintro ⟨binding, made, read⟩
      cases made
      exact absurd (undoneShorter read.2) (Nat.lt_irrefl _)
    | _ => exact quotedShow

theorem inlineLength (text : Text) : ∀ params : List Cell, params.length ≤ text.count mark →
    (inline text params).length + text.count mark =
      text.length + (params.map fun cell => (renderLiteral cell).length).sum + 4 * (text.count mark - params.length) := by
  induction text with
  | nil =>
    intro params fits
    cases params with
    | nil => rfl
    | cons cell params => simp at fits
  | cons c text ih =>
    intro params fits
    rw [inline]
    by_cases here : c = mark
    · rw [here, List.count_cons_self] at fits
      rw [if_pos here, here, List.count_cons_self, List.length_append, List.length_cons]
      cases params with
      | nil =>
        have rest := ih [] (Nat.zero_le _)
        simp only [List.map_nil, List.sum_nil, List.length_nil, List.tail_nil, List.headD_nil] at rest ⊢
        have four : (renderLiteral .null).length = 4 := rfl
        omega
      | cons cell params =>
        have rest := ih params (by simpa using fits)
        simp only [List.map_cons, List.sum_cons, List.length_cons, List.tail_cons, List.headD_cons] at rest fits ⊢
        omega
    · rw [List.count_cons_of_ne here] at fits
      rw [if_neg here, List.count_cons_of_ne here, List.length_cons, List.length_cons]
      have rest := ih params fits
      omega

def letters (t : Template Cell) : Text := t.filterMap fun
  | .unit c => some c
  | .hole _ => none

theorem holesCount (t : Template Cell) : (holes t).count mark = (letters t).count mark + (values t).length := by
  induction t with
  | nil => rfl
  | cons p t ih =>
    cases p with
    | unit c => 
      have rest : (c :: holes t).count mark = (c :: letters t).count mark + (values t).length := by
        rw [List.count_cons, List.count_cons, ih, Nat.add_right_comm]
      exact rest
    | hole v =>
      have rest : (mark :: holes t).count mark = (letters t).count mark + (v :: values t).length := by
        rw [List.count_cons_self, ih, List.length_cons, Nat.add_assoc]
      exact rest

theorem holesLength (t : Template Cell) : (holes t).length = (letters t).length + (values t).length := by
  induction t with
  | nil => rfl
  | cons p t ih =>
    cases p with
    | unit c => exact (congrArg Nat.succ ih).trans (Nat.succ_add _ _).symm
    | hole v => exact congrArg Nat.succ ih

theorem shownLength (t : Template Cell) : (shown renderLiteral t).length =
    (letters t).length + ((values t).map fun cell => (renderLiteral cell).length).sum := by
  induction t with
  | nil => rfl
  | cons p t ih =>
    cases p with
    | unit c => exact (congrArg Nat.succ ih).trans (Nat.succ_add _ _).symm
    | hole v =>
      have rest : (renderLiteral v ++ shown renderLiteral t).length =
          (letters t).length + ((renderLiteral v).length + ((values t).map fun cell => (renderLiteral cell).length).sum) := by
        rw [List.length_append, ih, Nat.add_left_comm]
      exact rest

theorem inlineShown {t : Template Cell} (plain : mark ∉ letters t) : inline (holes t) (values t) = shown renderLiteral t := by
  induction t with
  | nil => rfl
  | cons p t ih =>
    cases p with
    | unit c =>
      rw [show letters (.unit c :: t) = c :: letters t from rfl, List.mem_cons, not_or] at plain
      have rest : inline (c :: holes t) (values t) = c :: shown renderLiteral t := by
        rw [inline, if_neg (Ne.symm plain.1), ih plain.2]
      exact rest
    | hole v =>
      have rest : inline (mark :: holes t) (v :: values t) = renderLiteral v ++ shown renderLiteral t := by
        rw [inline, if_pos rfl, List.tail_cons, ih plain]
        rfl
      exact rest

theorem inlineIff (t : Template Cell) : inline (holes t) (values t) = shown renderLiteral t ↔ mark ∉ letters t := by
  refine ⟨fun same listed => ?_, inlineShown⟩
  have some := List.count_pos_iff.mpr listed
  have count := holesCount t
  have long := inlineLength (holes t) (values t) (by omega)
  have lengths := congrArg List.length same
  rw [shownLength] at lengths
  have size := holesLength t
  omega

@[simp] theorem lettersAppend (s t : Template Cell) : letters (s ++ t) = letters s ++ letters t := List.filterMap_append

@[simp] theorem lettersRaw (text : Text) : letters (raw text) = text := by
  induction text with
  | nil => rfl
  | cons c text ih => exact congrArg (c :: ·) ih

@[simp] theorem lettersHole (cell : Cell) : letters (hole cell) = [] := rfl

theorem plainJoined {sep : Text} (plain : mark ∉ sep) (parts : List Text) :
    mark ∉ List.intercalate sep parts ↔ ∀ p ∈ parts, mark ∉ p := by
  match parts with
  | [] => simp [List.intercalate]
  | [p] => simp [List.intercalate]
  | p :: q :: rest =>
    have later := plainJoined plain (q :: rest)
    have cut : List.intercalate sep (p :: q :: rest) = p ++ (sep ++ List.intercalate sep (q :: rest)) := by
      simp [List.intercalate]
    rw [cut, List.mem_append, not_or, List.mem_append, not_or, later, and_iff_right plain]
    exact (List.forall_mem_cons (p := (mark ∉ ·))).symm

theorem plainTemplates {sep : Text} (plain : mark ∉ sep) (parts : List (Template Cell)) :
    mark ∉ letters (joined sep parts) ↔ ∀ p ∈ parts, mark ∉ letters p := by
  rw [joinedRead letters lettersAppend rfl, lettersRaw, plainJoined plain, List.forall_mem_map]

theorem plainQuoted (name : Text) : mark ∉ escapeIdentifier name ↔ mark ∉ name := by
  have quote : mark ≠ doubleQuote := by decide
  have same : mark ∈ replaceUnit doubleQuote [doubleQuote, doubleQuote] name ↔ mark ∈ name := by
    rw [replaceUnit, List.mem_flatMap]
    constructor
    · rintro ⟨c, member, inside⟩
      split at inside
      · simp [quote] at inside
      · rwa [List.mem_singleton.mp inside]
    · intro member
      exact ⟨mark, member, by rw [if_neg quote]; exact List.mem_singleton.mpr rfl⟩
  simp [escapeIdentifier, quote, same]

theorem plainTarget (schema : Option Text) (table : Text) :
    mark ∉ qualify schema table ↔ (∀ name ∈ schema.toList, mark ∉ name) ∧ mark ∉ table := by
  have dot : mark ∉ units "." := by decide
  match schema with
  | none => simp [qualify, plainQuoted]
  | some [] => simp [qualify, plainQuoted]
  | some (c :: rest) =>
    rw [qualify, List.mem_append, List.mem_append, not_or, not_or, plainQuoted, plainQuoted, and_iff_left dot]
    · simp only [Option.toList_some, List.forall_mem_singleton]
    · exact nofun

theorem plainWhere (keys : List (Text × Option Cell)) :
    mark ∉ letters (whereTemplate (keys.map fun k => (escapeIdentifier k.1, k.2))) ↔ ∀ name ∈ keys.map Prod.fst, mark ∉ name := by
  have term (k : Text × Option Cell) : mark ∉ letters (termTemplate (escapeIdentifier k.1, k.2)) ↔ mark ∉ k.1 := by
    obtain ⟨name, value⟩ := k
    have none : mark ∉ units " IS NULL" := by decide
    have equals : mark ∉ units " = " := by decide
    cases value <;> simp [termTemplate, plainQuoted, none, equals]
  rw [whereTemplate, plainTemplates (by decide), List.map_map, List.forall_mem_map, List.forall_mem_map]
  exact forall₂_congr fun k _ => term k

theorem plainAssigned (entries : List (Text × Cell)) :
    mark ∉ letters (joined (units ", ") ((entries.map fun e => (escapeIdentifier e.1, e.2)).map assignTemplate)) ↔
      ∀ name ∈ entries.map Prod.fst, mark ∉ name := by
  have equals : mark ∉ units " = " := by decide
  rw [plainTemplates (by decide), List.map_map, List.forall_mem_map, List.forall_mem_map]
  exact forall₂_congr fun e _ => by simp [assignTemplate, plainQuoted, equals]

theorem plainListed (entries : List (Text × Cell)) :
    mark ∉ join ", " ((entries.map fun e => (escapeIdentifier e.1, e.2)).map Prod.fst) ↔ ∀ name ∈ entries.map Prod.fst, mark ∉ name := by
  rw [join, plainJoined (by decide), List.map_map, List.forall_mem_map, List.forall_mem_map]
  exact forall₂_congr fun e _ => plainQuoted e.1

theorem plainNames (cs : Changeset) (f : Filled Cell) : mark ∉ letters (statement cs f) ↔ ∀ name ∈ names cs f, mark ∉ name := by
  have spelled (text : Text) (plain : text.all (· != mark) = true) : mark ∉ text := fun member =>
    absurd rfl (bne_iff_ne.mp (List.all_eq_true.mp plain mark member))
  have front (more : List Text) : (∀ name ∈ cs.schema.toList ++ cs.table :: more, mark ∉ name) ↔
      mark ∉ qualify cs.schema cs.table ∧ ∀ name ∈ more, mark ∉ name := by
    rw [plainTarget, List.forall_mem_append, List.forall_mem_cons, and_assoc]
  cases f with
  | insert entries =>
    rw [names, front]
    cases entries with
    | nil =>
      have into : mark ∉ units "INSERT INTO " := spelled _ rfl
      have defaults : mark ∉ units " DEFAULT VALUES" := spelled _ rfl
      simp [statement, quoted, template, into, defaults]
    | cons e rest =>
      have into : mark ∉ units "INSERT INTO " := spelled _ rfl
      have opened : mark ∉ units " (" := spelled _ rfl
      have values : mark ∉ units ") VALUES (" := spelled _ rfl
      have closed : mark ∉ units ")" := spelled _ rfl
      have holed : mark ∉ letters (joined (units ", ") ((e :: rest).map fun e => (hole e.2 : Template Cell))) :=
        (plainTemplates (spelled _ rfl) _).mpr fun p member => by
          obtain ⟨e, -, rfl⟩ := List.mem_map.mp member
          exact List.not_mem_nil
      have again : ((e :: rest).map fun e => (escapeIdentifier e.1, e.2)).map (fun e => (hole e.2 : Template Cell)) =
          (e :: rest).map fun e => hole e.2 := List.map_map
      have some : ((e :: rest).map fun e => (escapeIdentifier e.1, e.2)).isEmpty = false := rfl
      rw [← plainListed]
      simp only [statement, quoted, template, some, Bool.false_eq_true, if_false, again, lettersAppend, lettersRaw, List.mem_append,
        not_or, into, opened, values, closed, holed, not_false_eq_true, true_and, and_true]
  | update entries keys =>
    have start : mark ∉ units "UPDATE " := spelled _ rfl
    have sets : mark ∉ units " SET " := spelled _ rfl
    have wheres : mark ∉ units " WHERE " := spelled _ rfl
    rw [names, front, List.forall_mem_append, ← plainAssigned, ← plainWhere]
    simp only [statement, quoted, template, lettersAppend, lettersRaw, List.mem_append, not_or, start, sets, wheres, not_false_eq_true,
      true_and, and_true, and_assoc]
  | delete keys =>
    have start : mark ∉ units "DELETE FROM " := spelled _ rfl
    have wheres : mark ∉ units " WHERE " := spelled _ rfl
    rw [names, front, ← plainWhere]
    simp only [statement, quoted, template, lettersAppend, lettersRaw, List.mem_append, not_or, start, wheres, not_false_eq_true,
      true_and, and_true]

theorem shownIff (cs : Changeset) (f : Filled Cell) (display : Text)
    (made : display = inline (holes (statement cs f)) (values (statement cs f))) :
    Shows (statement cs f) display ↔ (∀ name ∈ names cs f, mark ∉ name) ∧ ∀ cell ∈ values (statement cs f), Alike cell := by
  rw [Shows, made, inlineIff, plainNames]
  exact and_congr_right fun _ => forall₂_congr fun cell _ => cellAlike cell

theorem builtStatements {cs : Changeset} {statements : List BuiltStatement} {warnings : List Text}
    (ok : buildChangeStatements cs = .ok (statements, warnings)) :
    statements = (cs.changes.flatMap (wanted cs.keyColumns)).map fun f =>
      push (holes (statement cs f)) (values (statement cs f)) := by
  rw [buildChangeStatements] at ok
  split at ok
  · contradiction
  · obtain rfl := congrArg Prod.fst (Except.ok.inj ok)
    have each : (fun change => (changeStatements (qualify cs.schema cs.table) cs.keyColumns change).1) = fun change =>
        (wanted cs.keyColumns change).map fun f => push (holes (statement cs f)) (values (statement cs f)) :=
      funext (changeStatementsOf (qualify cs.schema cs.table) cs.keyColumns)
    rw [List.flatMap_map, each, List.map_flatMap]

theorem displaysFilled (cs : Changeset) (statements : List BuiltStatement) (warnings : List Text)
    (ok : buildChangeStatements cs = .ok (statements, warnings)) :
    List.Forall₂ (fun f s => s.sql = holes (statement cs f) ∧ s.params = values (statement cs f) ∧
        (Shows (statement cs f) s.display ↔
          (∀ name ∈ names cs f, mark ∉ name) ∧ ∀ cell ∈ values (statement cs f), Alike cell))
      (cs.changes.flatMap (wanted cs.keyColumns)) statements := by
  rw [builtStatements ok, List.forall₂_map_right_iff]
  exact List.forall₂_same.mpr fun f _ => ⟨rfl, rfl, shownIff cs f _ rfl⟩

def askedChange : Changeset := ⟨none, units "t", [units "id"],
  [.update [(units "id", .tagged .bigint (units "9007199254740993") none)] [(units "name", .string (units "why?"))]]⟩

theorem askedChangeDisplayed : ∃ s, buildChangeStatements askedChange = .ok ([s], []) ∧
    s.display = units "UPDATE \"t\" SET \"name\" = 'why?' WHERE \"id\" = 9007199254740993" ∧
    ∃ f ∈ askedChange.changes.flatMap (wanted askedChange.keyColumns), Shows (statement askedChange f) s.display := by
  have ok : buildChangeStatements askedChange = .ok ([push (units "UPDATE \"t\" SET \"name\" = ? WHERE \"id\" = ?")
    [.string (units "why?"), .tagged .bigint (units "9007199254740993") none]], []) := rfl
  have all := displaysFilled askedChange _ _ ok
  have text : 0 ∉ units "why?" := by decide
  have number : (sqlInteger (units "9007199254740993")).isSome := by decide +kernel
  refine ⟨_, ok, by decide +kernel, _, List.mem_cons_self, ?_⟩
  exact (List.forall₂_cons.mp all).1.2.2.mpr ⟨by decide +kernel, List.forall_mem_cons.mpr ⟨text, List.forall_mem_singleton.mpr number⟩⟩

def markedTable : Changeset := ⟨none, units "a?", [], [.insert [(units "id", .number ⟨units "1", true⟩)]]⟩

theorem markedTableMisread : ¬ ∀ (cs : Changeset) (statements : List BuiltStatement) (warnings : List Text),
    buildChangeStatements cs = .ok (statements, warnings) →
      List.Forall₂ (fun f s => Shows (statement cs f) s.display) (cs.changes.flatMap (wanted cs.keyColumns)) statements := by
  intro all
  have shows := (List.forall₂_cons.mp (all markedTable _ _ rfl)).1.1
  exact absurd shows (by decide +kernel)

end Reading

end DatabaseAdmin.SqliteChanges
