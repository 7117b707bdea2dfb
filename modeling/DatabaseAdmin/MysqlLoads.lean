import DatabaseAdmin.EscapedLines
import DatabaseAdmin.LoadTables

/-! The two ways rows reach a MySQL table: one LOAD DATA LOCAL stream, or batched INSERT statements
with bound values. -/
namespace DatabaseAdmin.MysqlLoads
open CodeUnits BinaryText WireCells EscapedLines LoadTables

section Octets

def surrogate (low high : CodeUnit) (c : CodeUnit) : Bool := low ≤ c && c < high

def scalar (c : CodeUnit) : Char := if surrogate 0xD800 0xE000 c then Char.ofNat 0xFFFD else Char.ofNat c

def scalars : Text → List Char
  | [] => []
  | c :: rest =>
    match rest with
    | [] => [scalar c]
    | d :: later =>
      if surrogate 0xD800 0xDC00 c && surrogate 0xDC00 0xE000 d then
        Char.ofNat (0x10000 + (c - 0xD800) * 0x400 + (d - 0xDC00)) :: scalars later
      else scalar c :: scalars (d :: later)

def octets (t : Text) : List UInt8 := (scalars t).flatMap String.utf8EncodeChar

def unhexPairs : Text → Option (List UInt8)
  | [] => some []
  | [_] => none
  | a :: b :: rest => do
    let x ← hexValue a
    let y ← hexValue b
    let bytes ← unhexPairs rest
    some (UInt8.ofNat (16 * x + y) :: bytes)

def unhex (t : Text) : Option (List UInt8) := if t.length % 2 = 1 then unhexPairs (48 :: t) else unhexPairs t

end Octets

abbrev Value := Option (List UInt8)

section Load
variable (table : LoadTable)

def loadLetter (ch : CodeUnit) : Option CodeUnit :=
  if ch = 92 then some 92
  else if ch = 9 then some 116
  else if ch = 10 then some 110
  else if ch = 13 then some 114
  else if ch = 0 then some 48
  else none

def escapeLoadText (s : Text) : Text :=
  s.flatMap fun ch => match loadLetter ch with
    | some l => [92, l]
    | none => [ch]

def myLoadField (cell : Cell) (binary : Bool) : Text :=
  match cell with
  | .null => units "\\N"
  | .boolean value => units (if value then "1" else "0")
  | .number n => n.text
  | .tagged .bytes v _ => hexText (base64ToBytes v)
  | .tagged _ v _ => if binary then hexText (octets v) else escapeLoadText v
  | .string text => if binary then hexText (octets text) else escapeLoadText text

def isBinary (column : Text) : Bool := table.binaryColumns.contains column

def varName (column : Text) : Text :=
  column.map fun c => if 65 ≤ c ∧ c ≤ 90 ∨ 97 ≤ c ∧ c ≤ 122 ∨ 48 ≤ c ∧ c ≤ 57 ∨ c = 95 then c else 95

def variable' (column : Text) : Text := (varName column).map fun c => if 65 ≤ c ∧ c ≤ 90 then c + 32 else c

def loadLine (row : WireRow) : Text :=
  [(9 : CodeUnit)].intercalate ((table.columns.zip row).map fun (column, cell) => myLoadField cell (isBinary table column)) ++ [10]

def loadStream (rows : List WireRow) : Option Text :=
  if checkWidth table rows then some (rows.flatMap (loadLine table)) else none

def loadUnit (l : CodeUnit) : CodeUnit :=
  if l = 48 then 0
  else if l = 98 then 8
  else if l = 110 then 10
  else if l = 114 then 13
  else if l = 116 then 9
  else if l = 90 then 26
  else l

def loadSpelling : Spelling where
  letter := loadLetter
  unit := loadUnit
  marked c special := by rcases special with rfl | rfl | rfl <;> rfl
  back {c l} spelled := by
    unfold loadLetter at spelled
    split_ifs at spelled with slash tab line feed nul <;> cases spelled
    · exact slash.symm
    · exact tab.symm
    · exact line.symm
    · exact feed.symm
    · exact nul.symm
  bare {c l} spelled := by
    unfold loadLetter at spelled
    split_ifs at spelled <;> cases spelled <;> decide

def lastShared {α : Type} (xs : List α) (column : Text) : Option α :=
  ((table.columns.zip xs).filter fun p => isBinary table p.1 && variable' p.1 = variable' column).getLast?.map (·.2)

def loadRow (fields : List (Option Text)) : List Value :=
  (table.columns.zip fields).map fun (column, field) =>
    if isBinary table column then ((lastShared table fields column).join).bind unhex else field.map octets

def loadValues (rows : List WireRow) : Option (List (List Value)) :=
  (loadStream table rows).map fun stream => (loadSpelling.readLines stream).map (loadRow table)

end Load

section Insert
variable (table : LoadTable)

inductive Param where
  | null
  | boolean (value : Bool)
  | number (n : JsNumber)
  | text (t : Text)
  | buffer (bytes : List UInt8)

def myParam : Cell → Param
  | .null => .null
  | .tagged .bytes v _ => .buffer (base64ToBytes v)
  | .tagged _ v _ => .text v
  | .string text => .text text
  | .number n => .number n
  | .boolean value => .boolean value

def bound : Param → Option Value
  | .null => some none
  | .boolean value => some (some (octets (units (if value then "1" else "0"))))
  | .number n => if n.finite then some (some (octets n.text)) else none
  | .text t => some (some (octets t))
  | .buffer bytes => some (some bytes)

def boundCell (cell : { cell : Cell // Spelled cell }) : Option Value := bound (myParam cell)

def unmarked : Bool := (table.schema.toList ++ table.table :: table.columns).all fun name => !name.contains 63

def boundRows (rows : List WireRow) : Option (List (List Value)) := rows.mapM fun row => row.mapM boundCell

def insertValues (rows : List WireRow) : Option (List (List Value)) :=
  if checkWidth table rows && (rows.isEmpty || unmarked table) then boundRows rows else none

end Insert

section Conflicts
variable {σ : Type} (clash : σ → σ → Bool)

inductive ServedMode where
  | insert | ignore | replace
  deriving DecidableEq

inductive Duplicates where
  | fail | skip | replace
  deriving DecidableEq

def insertVerb : ServedMode → Duplicates
  | .insert => .fail
  | .ignore => .skip
  | .replace => .replace

def loadVerb : ServedMode → Duplicates
  | .insert => .skip
  | .ignore => .skip
  | .replace => .replace

def takeRow (verb : Duplicates) (stored : List σ) (row : σ) : Option (List σ) :=
  if stored.any (clash row) then
    match verb with
    | .fail => none
    | .skip => some stored
    | .replace => some (stored.filter (fun other => !clash row other) ++ [row])
  else some (stored ++ [row])

def takeRows (verb : Duplicates) (stored : List σ) (rows : List σ) : Option (List σ) := rows.foldlM (takeRow clash verb) stored

def Apart : List σ → List σ → Prop
  | _, [] => True
  | stored, row :: rest => stored.any (clash row) = false ∧ Apart (stored ++ [row]) rest

theorem skipTakes (stored rows : List σ) : ∃ after, takeRows clash .skip stored rows = some after := by
  induction rows generalizing stored with
  | nil => exact ⟨stored, rfl⟩
  | cons row rest ih =>
    simp only [takeRows, List.foldlM_cons, takeRow]
    split
    · exact ih stored
    · exact ih (stored ++ [row])

theorem failSkips (stored rows : List σ) :
    takeRows clash .skip stored rows = takeRows clash .fail stored rows ↔ Apart clash stored rows := by
  induction rows generalizing stored with
  | nil => simp [takeRows, Apart]
  | cons row rest ih =>
    cases clashes : stored.any (clash row) with
    | true =>
      obtain ⟨after, taken⟩ := skipTakes clash stored (row :: rest)
      have refused : takeRows clash .fail stored (row :: rest) = none := by
        simp [takeRows, takeRow, clashes]
      simp [taken, refused, Apart, clashes]
    | false =>
      have next := ih (stored ++ [row])
      simpa [takeRows, takeRow, clashes, Apart] using next

end Conflicts

section Cells

def fieldOf (cell : Cell) (binary : Bool) : Option Text :=
  match cell with
  | .null => none
  | .boolean value => some (units (if value then "1" else "0"))
  | .number n => some n.text
  | .tagged .bytes v _ => some (hexText (base64ToBytes v))
  | .tagged _ v _ => some (if binary then hexText (octets v) else v)
  | .string text => some (if binary then hexText (octets text) else text)

theorem hexPlain (bytes : List UInt8) : ∀ c ∈ hexText bytes, loadLetter c = none := by
  refine hexEach (fun n small => ?_) bytes
  unfold loadLetter hexUnit
  grind

theorem numberPlain {c : CodeUnit} (spelled : c ∈ numberUnits) : loadLetter c = none ∧ 43 ≤ c ∧ c < 128 := by
  revert c
  decide

theorem fieldWritten (cell : { cell : Cell // Spelled cell }) (binary : Bool) :
    myLoadField cell.1 binary = loadSpelling.writeField (fieldOf cell.1 binary) := by
  have hex (bytes : List UInt8) : hexText bytes = loadSpelling.escape (hexText bytes) :=
    (loadSpelling.escapePlain (hexPlain bytes)).symm
  have text (t : Text) : (if binary then hexText (octets t) else escapeLoadText t) =
      loadSpelling.escape (if binary then hexText (octets t) else t) := by
    cases binary with
    | true => exact hex (octets t)
    | false => rfl
  obtain ⟨cell, spelled⟩ := cell
  cases cell with
  | null => rfl
  | boolean value => cases value <;> rfl
  | number n => exact (loadSpelling.escapePlain fun c member => (numberPlain (spelled.2 c member)).1).symm
  | string t => exact text t
  | tagged tag v of =>
    cases tag with
    | bytes => exact hex (base64ToBytes v)
    | _ => exact text v

theorem hexTextLength (bytes : List UInt8) : (hexText bytes).length = 2 * bytes.length := by
  induction bytes with
  | nil => rfl
  | cons b bytes ih =>
    simp only [hexText, List.flatMap_cons, List.length_append, List.length_cons, List.length_nil] at ih ⊢
    omega

theorem unhexText (bytes : List UInt8) : unhex (hexText bytes) = some bytes := by
  have even : ¬(hexText bytes).length % 2 = 1 := by
    rw [hexTextLength]
    omega
  rw [unhex, if_neg even]
  induction bytes with
  | nil => rfl
  | cons b bytes ih =>
    have small := b.toNat_lt
    have whole : 16 * (b.toNat / 16) + b.toNat % 16 = b.toNat := Nat.div_add_mod _ _
    have rest : unhexPairs (hexText bytes) = some bytes := ih (by rw [hexTextLength]; omega)
    show unhexPairs (hexUnit (b.toNat / 16) :: hexUnit (b.toNat % 16) :: hexText bytes) = _
    rw [unhexPairs, hexUnitValue (by omega), hexUnitValue (by omega), rest]
    show some (UInt8.ofNat (16 * (b.toNat / 16) + b.toNat % 16) :: bytes) = _
    rw [whole, UInt8.ofNat_toNat]

theorem unhexPairsLength {t : Text} {bytes : List UInt8} (read : unhexPairs t = some bytes) : t.length = 2 * bytes.length := by
  fun_induction unhexPairs t generalizing bytes with
  | case1 =>
    cases read
    rfl
  | case2 => contradiction
  | case3 a b rest ih =>
    simp only [bind, Option.bind_eq_some_iff] at read
    obtain ⟨x, -, y, -, later, rest, same⟩ := read
    cases same
    have length := ih rest
    simp only [List.length_cons]
    omega

theorem asciiOctets {t : Text} (ascii : ∀ c ∈ t, c < 128) : octets t = t.map UInt8.ofNat := by
  have one {c : CodeUnit} (small : c < 128) : String.utf8EncodeChar (scalar c) = [UInt8.ofNat c] := by
    revert c
    decide
  have own (c : Nat) (small : c < 128) : surrogate 0xD800 0xDC00 c = false := by
    have low : ¬0xD800 ≤ c := by omega
    simp [surrogate, low]
  unfold octets
  fun_induction scalars t with
  | case1 => rfl
  | case2 c => simp [one (ascii c (by simp))]
  | case3 c d later pair =>
    rw [own c (ascii c (by simp))] at pair
    contradiction
  | case4 c d later pair ih =>
    rw [List.flatMap_cons, ih fun e member => ascii e (List.mem_cons_of_mem _ member), one (ascii c (by simp))]
    rfl

theorem digitBelow (y c : Nat) (digit : y < 16) (low : 43 ≤ c) (small : c < 128) : (16 * 0 + y) % 256 ≠ c % 256 := by
  omega

theorem unhexDiffers {t : Text} (some' : t ≠ []) (plain : ∀ c ∈ t, 43 ≤ c ∧ c < 128) : unhex t ≠ some (octets t) := by
  intro read
  rw [asciiOctets fun c member => (plain c member).2, unhex] at read
  have long := List.length_pos_iff.mpr some'
  split at read
  · have length := unhexPairsLength read
    rw [List.length_map, List.length_cons] at length
    match t, plain with
    | [c], plain =>
      have first : unhexPairs [48, c] = (hexValue c).bind fun y => some [UInt8.ofNat (16 * 0 + y)] := rfl
      rw [first, Option.bind_eq_some_iff] at read
      obtain ⟨y, digit, same⟩ := read
      have low : y < 16 := by
        unfold hexValue at digit
        grind
      have here := plain c (by simp)
      simp only [List.map_cons, List.map_nil, Option.some.injEq, List.cons.injEq, and_true] at same
      have numbers := congrArg UInt8.toNat same
      simp only [UInt8.toNat_ofNat'] at numbers
      exact digitBelow y c low here.1 here.2 numbers
    | _ :: _ :: _, _ => simp at length; omega
  · have length := unhexPairsLength read
    rw [List.length_map] at length
    omega

def HexCell : Cell → Prop
  | .number _ | .boolean _ => False
  | _ => True

def PlainCell : Cell → Prop
  | .number n => n.finite = true
  | .tagged .bytes v _ => base64ToBytes v = []
  | _ => True

def hexValueOf (cell : Cell) : Value := (fieldOf cell true).bind unhex

theorem hexCell {cell : Cell} (hex : HexCell cell) : bound (myParam cell) = some (hexValueOf cell) := by
  cases cell with
  | null => rfl
  | boolean value => contradiction
  | number n => contradiction
  | string t => simp [hexValueOf, fieldOf, unhexText, myParam, bound]
  | tagged tag v of => cases tag <;> simp [hexValueOf, fieldOf, unhexText, myParam, bound]

theorem wordCell (cell : { cell : Cell // Spelled cell }) (same : boundCell cell = some (hexValueOf cell.1)) : HexCell cell.1 := by
  obtain ⟨cell, spelled⟩ := cell
  cases cell with
  | boolean value =>
    have plain : ∀ c ∈ units (if value then "1" else "0"), 43 ≤ c ∧ c < 128 := by cases value <;> decide
    exact absurd (Option.some.inj same).symm (unhexDiffers (by cases value <;> decide) plain)
  | number n =>
    by_cases finite : n.finite = true
    · simp only [boundCell, myParam, bound, finite, if_true, Option.some.injEq] at same
      exact absurd same.symm (unhexDiffers spelled.1 fun c member => (numberPlain (spelled.2 c member)).2)
    · simp [boundCell, myParam, bound, finite] at same
  | _ => trivial

theorem plainCell (cell : { cell : Cell // Spelled cell }) :
    boundCell cell = some ((fieldOf cell.1 false).map octets) ↔ PlainCell cell.1 := by
  obtain ⟨cell, spelled⟩ := cell
  have bytes (v : Text) : base64ToBytes v = octets (hexText (base64ToBytes v)) ↔ base64ToBytes v = [] := by
    constructor
    · intro same
      have ascii : ∀ c ∈ hexText (base64ToBytes v), c < 128 := fun c member => by
        have here : 43 ≤ (c : Nat) ∧ (c : Nat) ≤ 122 := hexUnits _ c member
        exact Nat.lt_of_le_of_lt here.2 (by decide)
      have lengths := congrArg List.length same
      rw [asciiOctets ascii, List.length_map, hexTextLength] at lengths
      exact List.eq_nil_of_length_eq_zero (by omega)
    · intro empty
      rw [empty]
      rfl
  cases cell with
  | null => exact ⟨fun _ => trivial, fun _ => rfl⟩
  | boolean value => exact ⟨fun _ => trivial, fun _ => rfl⟩
  | string t => exact ⟨fun _ => trivial, fun _ => rfl⟩
  | number n =>
    cases finite : n.finite <;> simp [boundCell, myParam, bound, fieldOf, PlainCell, finite]
  | tagged tag v of =>
    cases tag with
    | bytes => simpa [boundCell, myParam, bound, fieldOf, PlainCell] using bytes v
    | _ => exact ⟨fun _ => trivial, fun _ => rfl⟩

end Cells

section Rows
variable (table : LoadTable)

def RowAgrees (row : WireRow) : Prop :=
  ∀ p ∈ table.columns.zip row,
    if isBinary table p.1 then ∃ last ∈ lastShared table row p.1, HexCell last.1 ∧ boundCell p.2 = boundCell last
    else PlainCell p.2.1

def fields (row : WireRow) : List (Option Text) :=
  (table.columns.zip row).map fun p => fieldOf p.2.1 (isBinary table p.1)

theorem zipBack {α β γ : Type} (xs : List α) (ys : List β) (f : α × β → γ) :
    xs.zip ((xs.zip ys).map f) = (xs.zip ys).map fun p => (p.1, f p) := by
  induction xs generalizing ys with
  | nil => rfl
  | cons x xs ih =>
    cases ys with
    | nil => rfl
    | cons y ys => simp [ih]

theorem zipRight {α β : Type} {xs : List α} {ys : List β} (width : ys.length = xs.length) : (xs.zip ys).map Prod.snd = ys :=
  List.map_snd_zip (by omega)

theorem sharedField (row : WireRow) (column : Text) :
    lastShared table (fields table row) column = (lastShared table row column).map fun cell => fieldOf cell.1 true := by
  have flagged (pairs : List (Text × { cell : Cell // Spelled cell })) :
      ((pairs.filter fun p => isBinary table p.1 && variable' p.1 = variable' column).map fun p =>
        (p.1, fieldOf p.2.1 (isBinary table p.1))) =
      (pairs.filter fun p => isBinary table p.1 && variable' p.1 = variable' column).map fun p => (p.1, fieldOf p.2.1 true) := by
    refine List.map_congr_left fun p member => ?_
    have binary := (List.mem_filter.mp member).2
    rw [Bool.and_eq_true] at binary
    rw [binary.1]
  rw [lastShared, fields, zipBack, List.filter_map]
  show (List.map _ ((table.columns.zip row).filter fun p => isBinary table p.1 && variable' p.1 = variable' column)).getLast?.map _ = _
  rw [flagged, List.getLast?_map, lastShared, Option.map_map, Option.map_map]
  rfl

theorem sharedSame (row : WireRow) {a b : Text} (same : variable' a = variable' b) :
    lastShared table row a = lastShared table row b := by
  rw [lastShared, lastShared, same]

theorem sharedMember {row : WireRow} {column : Text} {last : { cell : Cell // Spelled cell }}
    (shared : lastShared table row column = some last) :
    ∃ own, (own, last) ∈ table.columns.zip row ∧ isBinary table own = true ∧ variable' own = variable' column := by
  obtain ⟨p, found, rfl⟩ := Option.map_eq_some_iff.mp shared
  have member := List.mem_of_getLast? found
  rw [List.mem_filter, Bool.and_eq_true, decide_eq_true_eq] at member
  exact ⟨p.1, member.1, member.2.1, member.2.2⟩

theorem sharedSome {row : WireRow} {p : Text × { cell : Cell // Spelled cell }} (member : p ∈ table.columns.zip row)
    (binary : isBinary table p.1 = true) : ∃ last, lastShared table row p.1 = some last := by
  have inside : p ∈ (table.columns.zip row).filter fun q => isBinary table q.1 && variable' q.1 = variable' p.1 :=
    List.mem_filter.mpr ⟨member, by simp [binary]⟩
  have some' := List.ne_nil_of_mem inside
  exact ⟨_, by rw [lastShared, List.getLast?_eq_some_getLast some', Option.map_some]⟩

theorem mapMSomeIff {α β : Type} (f : α → Option β) (g : α → β) (xs : List α) :
    xs.mapM f = some (xs.map g) ↔ ∀ x ∈ xs, f x = some (g x) := by
  induction xs with
  | nil => simp
  | cons x xs ih =>
    rw [List.mapM_cons]
    cases first : f x with
    | none => simp [first]
    | some y =>
      cases rest : xs.mapM f with
      | none =>
        rw [rest] at ih
        simp only [reduceCtorEq, false_iff] at ih
        simp [first, ih]
      | some ys =>
        rw [rest] at ih
        simp [first, ← ih]

theorem rowRead (row : WireRow) : loadRow table (fields table row) = (table.columns.zip row).map fun p =>
    if isBinary table p.1 then (lastShared table row p.1).bind fun last => hexValueOf last.1
    else (fieldOf p.2.1 false).map octets := by
  rw [loadRow, fields, zipBack, List.map_map]
  refine List.map_congr_left fun p _ => ?_
  show (if isBinary table p.1 then _ else _) = _
  by_cases binary : isBinary table p.1 = true
  · rw [if_pos binary, if_pos binary, ← fields, sharedField]
    cases lastShared table row p.1 <;> rfl
  · rw [if_neg binary, if_neg binary, Bool.eq_false_iff.mpr binary]

theorem rowIff {row : WireRow} (width : row.length = table.columns.length) :
    row.mapM boundCell = some (loadRow table (fields table row)) ↔ RowAgrees table row := by
  have columns : row.mapM boundCell = (table.columns.zip row).mapM fun p => boundCell p.2 := by
    conv_lhs => rw [← zipRight width, List.mapM_map]
    rfl
  rw [columns, rowRead, mapMSomeIff]
  constructor
  · intro each p member
    have here := each p member
    by_cases binary : isBinary table p.1 = true
    · rw [if_pos binary] at here ⊢
      obtain ⟨last, shared⟩ := sharedSome table member binary
      obtain ⟨own, inside, flagged, same⟩ := sharedMember table shared
      have itself := each (own, last) inside
      rw [if_pos flagged, sharedSame table row same, shared, Option.bind_some] at itself
      rw [shared, Option.bind_some] at here
      exact ⟨last, shared, wordCell last itself, here.trans itself.symm⟩
    · rw [if_neg binary] at here ⊢
      exact (plainCell p.2).mp here
  · intro agrees p member
    have here := agrees p member
    by_cases binary : isBinary table p.1 = true
    · rw [if_pos binary] at here ⊢
      obtain ⟨last, shared, hex, same⟩ := here
      rw [Option.mem_def.mp shared, Option.bind_some, same, boundCell, hexCell hex]
    · rw [if_neg binary] at here ⊢
      exact (plainCell p.2).mpr here

end Rows

section Run
variable (table : LoadTable)

theorem streamRead {rows : List WireRow} (wide : Wide table rows) :
    loadValues table rows = some (rows.map fun row => loadRow table (fields table row)) := by
  have checked := wideChecked table wide
  have lines : rows.flatMap (loadLine table) = loadSpelling.writeLines (rows.map (fields table)) := by
    rw [Spelling.writeLines, List.flatMap_map]
    refine congrArg (rows.flatMap ·) (funext fun row => ?_)
    rw [loadLine, Spelling.writeLineJoin, fields, List.map_map]
    refine congrArg (fun fields => [(9 : CodeUnit)].intercalate fields ++ [10]) (List.map_congr_left fun p _ => ?_)
    exact fieldWritten p.2 (isBinary table p.1)
  have some' : ∀ line ∈ rows.map (fields table), line ≠ [] := by
    intro line member
    obtain ⟨row, inside, rfl⟩ := List.mem_map.mp member
    have long := List.length_pos_iff.mpr table.mapped
    refine List.length_pos_iff.mp ?_
    rw [fields, List.length_map, List.length_zip, wide row inside]
    omega
  rw [loadValues, loadStream, if_pos checked, Option.map_some, lines, Spelling.readWritten _ _ some', List.map_map]
  rfl

section Stored
variable {σ : Type} (clash : σ → σ → Bool) (store : List Value → σ)

def Agrees (mode : ServedMode) (stored : List σ) (rows : List WireRow) : Prop :=
  loadValues table rows = insertValues table rows ∧
    ∀ values, insertValues table rows = some values →
      takeRows clash (loadVerb mode) stored (values.map store) = takeRows clash (insertVerb mode) stored (values.map store)

def Loads (mode : ServedMode) (stored : List σ) (rows : List WireRow) : Prop :=
  Wide table rows → (rows = [] ∨ unmarked table = true) ∧ (∀ row ∈ rows, RowAgrees table row) ∧
    (mode = .insert → Apart clash stored (((boundRows rows).getD []).map store))

theorem loadAgrees (mode : ServedMode) (stored : List σ) (rows : List WireRow) :
    Agrees table clash store mode stored rows ↔ Loads table clash store mode stored rows := by
  by_cases wide : Wide table rows
  · have checked := wideChecked table wide
    have values : loadValues table rows = boundRows rows ↔ ∀ row ∈ rows, RowAgrees table row := by
      rw [streamRead table wide, boundRows, eq_comm, mapMSomeIff]
      exact forall₂_congr fun row member => rowIff table (wide row member)
    by_cases plain : rows = [] ∨ unmarked table = true
    · have inserted : insertValues table rows = boundRows rows := by
        have sent : (rows.isEmpty || unmarked table) = true := by simpa using plain
        rw [insertValues, checked, sent]
        rfl
      simp only [Agrees, Loads, wide, plain, inserted, values, forall_const, true_and]
      refine and_congr_right fun each => ?_
      have both := values.mpr each
      rw [streamRead table wide] at both
      rw [← both]
      simp only [Option.some.injEq, Option.getD_some, forall_eq']
      cases mode with
      | insert => simpa [loadVerb, insertVerb] using failSkips clash stored _
      | ignore => simp [loadVerb, insertVerb]
      | replace => simp [loadVerb, insertVerb]
    · have sent : (rows.isEmpty || unmarked table) = false := by simpa using plain
      have refused : insertValues table rows = none := by
        rw [insertValues, checked, sent]
        rfl
      simp [Agrees, Loads, wide, plain, refused, streamRead table wide]
  · have unchecked := unwide table wide
    simp [Agrees, Loads, wide, loadValues, loadStream, insertValues, unchecked]

end Stored

end Run

section Examples

def blobs : LoadTable := ⟨none, units "t", [units "a-b", units "a_b"], [], [units "a-b", units "a_b"], by decide⟩

def twoBlobs : List WireRow := [[⟨bytesCell [1], trivial⟩, ⟨bytesCell [2], trivial⟩]]

theorem blobMixed : ¬∀ (table : LoadTable) (σ : Type) (clash : σ → σ → Bool) (store : List Value → σ) (mode : ServedMode)
    (stored : List σ) (rows : List WireRow), Agrees table clash store mode stored rows := by
  intro agrees
  have values := (agrees blobs (List Value) (fun _ _ => false) id .ignore [] twoBlobs).1
  have loaded : loadValues blobs twoBlobs = some [[some [2], some [2]]] := by decide +kernel
  have inserted : insertValues blobs twoBlobs = some [[some [1], some [2]]] := by decide +kernel
  rw [loaded, inserted] at values
  exact absurd values (by decide)

example : takeRows (fun a b : Nat => a = b) (loadVerb .insert) [] [1, 1] = some [1] ∧
    takeRows (fun a b : Nat => a = b) (insertVerb .insert) [] [1, 1] = none := by decide

end Examples

end DatabaseAdmin.MysqlLoads
