import DatabaseAdmin.LoadAccounts
import Mathlib.Algebra.GroupWithZero.Nat

/-! The INSERT statements of the MySQL loader against the size a packet may have: the rows gather by
an estimate, and the statements are as long as their values are written. -/
namespace DatabaseAdmin.MysqlPackets
open CodeUnits BinaryText WireCells LoadTables MysqlLoads PacketBudgets LoadAccounts
open ImportRuns (OnConflict)

section Widths

def width (t : Text) : Nat := (octets t).length

def High (c : CodeUnit) : Prop := surrogate 0xD800 0xDC00 c = true
def Low (c : CodeUnit) : Prop := surrogate 0xDC00 0xE000 c = true

theorem scalarsCons {c : CodeUnit} {rest : Text} (apart : High c → ∀ d ∈ rest.head?, ¬Low d) :
    scalars (c :: rest) = scalar c :: scalars rest := by
  cases rest with
  | nil => simp [scalars]
  | cons d later =>
    have alone : ¬(surrogate 0xD800 0xDC00 c && surrogate 0xDC00 0xE000 d) = true := fun pair => by
      rw [Bool.and_eq_true] at pair
      exact apart pair.1 d rfl pair.2
    conv_lhs => unfold scalars
    simp only [if_neg alone]

def Apart (a b : Text) : Prop := (∀ c ∈ a.getLast?, ¬High c) ∨ ∀ d ∈ b.head?, ¬Low d

theorem scalarsAppend {a b : Text} (apart : Apart a b) : scalars (a ++ b) = scalars a ++ scalars b := by
  fun_induction scalars a with
  | case1 => rfl
  | case2 c =>
    refine scalarsCons fun high d member => ?_
    rcases apart with last | first
    · exact absurd high (last c rfl)
    · exact first d member
  | case3 c d later pair ih =>
    have rest : Apart later b := by
      refine apart.imp_left fun last e member => last e ?_
      cases later with
      | nil => contradiction
      | cons f later => simpa using member
    have step : scalars (c :: d :: (later ++ b)) =
        Char.ofNat (0x10000 + (c - 0xD800) * 0x400 + (d - 0xDC00)) :: scalars (later ++ b) := by
      conv_lhs => unfold scalars
      simp only [pair, if_true]
    rw [List.cons_append, List.cons_append, step, ih rest, List.cons_append]
  | case4 c d later pair ih =>
    have rest : Apart (d :: later) b := apart.imp_left fun last e member => last e (by simpa using member)
    rw [List.cons_append, scalarsCons, ih rest, List.cons_append]
    intro high e member low
    cases member
    exact pair (by simpa using ⟨high, low⟩)

theorem widthAppend {a b : Text} (apart : Apart a b) : width (a ++ b) = width a + width b := by
  rw [width, octets, scalarsAppend apart, List.flatMap_append, List.length_append]
  rfl

theorem widthPlain {t : Text} (ascii : ∀ c ∈ t, c < 128) : width t = t.length := by
  rw [width, asciiOctets ascii, List.length_map]

theorem plainHigh {c : Nat} (ascii : c < 128) : ¬High c := by
  have low : ¬0xD800 ≤ c := by omega
  simp [High, surrogate, low]

theorem plainLow {c : Nat} (ascii : c < 128) : ¬Low c := by
  have low : ¬0xDC00 ≤ c := by omega
  simp [Low, surrogate, low]

end Widths

section Literals

def sqlLetter (c : CodeUnit) : Option CodeUnit :=
  if c = 0 then some 48
  else if c = 8 then some 98
  else if c = 9 then some 116
  else if c = 10 then some 110
  else if c = 13 then some 114
  else if c = 26 then some 90
  else if c = 34 ∨ c = 39 ∨ c = 92 then some c
  else none

def escapeSql (t : Text) : Text :=
  t.flatMap fun c => match sqlLetter c with
    | some l => [92, l]
    | none => [c]

def literal : Param → Text
  | .null => units "NULL"
  | .boolean value => units (if value then "true" else "false")
  | .number n => n.text
  | .text t => apostrophe :: (escapeSql t ++ [apostrophe])
  | .buffer bytes => units "X'" ++ (hexText bytes ++ [apostrophe])

def escapedCount (t : Text) : Nat := t.countP fun c => (sqlLetter c).isSome

def literalBytes : Param → Nat
  | .null => 4
  | .boolean value => if value then 4 else 5
  | .number n => width n.text
  | .text t => width t + escapedCount t + 2
  | .buffer bytes => 2 * bytes.length + 3

theorem letterPlain {c l : CodeUnit} (spelled : sqlLetter c = some l) : c < 128 ∧ l < 128 := by
  unfold sqlLetter at spelled
  split_ifs at spelled with _ _ _ _ _ _ same <;> cases spelled
  iterate 6
    subst c
    decide
  rcases same with rfl | rfl | rfl <;> decide

theorem escapedHead (t : Text) : ∀ d ∈ (escapeSql t).head?, d = 92 ∨ d ∈ t.head? := by
  cases t with
  | nil => simp [escapeSql]
  | cons c t =>
    intro d member
    rw [escapeSql, List.flatMap_cons] at member
    cases spelled : sqlLetter c with
    | some l =>
      simp only [spelled, List.cons_append, List.head?_cons, Option.mem_def, Option.some.injEq] at member
      exact Or.inl member.symm
    | none =>
      simp only [spelled, List.cons_append, List.head?_cons, Option.mem_def, Option.some.injEq] at member
      exact Or.inr (by simp [member])

theorem surrogateBare {c : CodeUnit} (pair : High c ∨ Low c) : sqlLetter c = none := by
  by_contra spelled
  obtain ⟨l, letter⟩ := Option.ne_none_iff_exists'.mp spelled
  exact pair.elim (plainHigh (letterPlain letter).1) (plainLow (letterPlain letter).1)

theorem scalarWidth {c : CodeUnit} (plain : c < 128) : (String.utf8EncodeChar (scalar c)).length = 1 := by
  revert c
  decide

theorem unitWidth {c : CodeUnit} {t : Text} (apart : High c → ∀ d ∈ t.head?, ¬Low d) :
    width (escapeSql (c :: t)) + width t = width (c :: t) + width (escapeSql t) + escapedCount [c] := by
  rw [escapeSql, List.flatMap_cons, ← escapeSql]
  have alone : width (c :: t) = (String.utf8EncodeChar (scalar c)).length + width t := by
    simp [width, octets, scalarsCons apart]
  rw [alone]
  cases spelled : sqlLetter c with
  | some l =>
    have plain := letterPlain spelled
    have slash : (92 : CodeUnit) < 128 := by decide
    have inner : scalars ([92, l] ++ escapeSql t) = scalar 92 :: scalar l :: scalars (escapeSql t) := by
      show scalars (92 :: l :: escapeSql t) = _
      rw [scalarsCons fun high => absurd high (plainHigh slash), scalarsCons fun high => absurd high (plainHigh plain.2)]
    have own : width ([92, l] ++ escapeSql t) = 2 + width (escapeSql t) := by
      simp only [width, octets, inner, List.flatMap_cons, List.length_append, scalarWidth slash, scalarWidth plain.2]
      omega
    have one : escapedCount [c] = 1 := by simp [escapedCount, spelled]
    simp only [own, scalarWidth plain.1, one]
    omega
  | none =>
    have inner : scalars ([c] ++ escapeSql t) = scalar c :: scalars (escapeSql t) := by
      refine scalarsCons fun high d member => ?_
      rcases escapedHead t d member with rfl | same
      · exact plainLow (by decide)
      · exact apart high d same
    have own : width ([c] ++ escapeSql t) = (String.utf8EncodeChar (scalar c)).length + width (escapeSql t) := by
      simp only [width, octets, inner, List.flatMap_cons, List.length_append]
    have none' : escapedCount [c] = 0 := by simp [escapedCount, spelled]
    simp only [own, none']
    omega

theorem escapedWidth (t : Text) : width (escapeSql t) = width t + escapedCount t := by
  have more (c : CodeUnit) (t : Text) : escapedCount (c :: t) = escapedCount [c] + escapedCount t := by
    simp only [escapedCount, List.countP_cons, List.countP_nil]
    omega
  fun_induction scalars t with
  | case1 => rfl
  | case2 c =>
    have own := @unitWidth c [] fun _ d member => by cases member
    have nothing : width ([] : Text) = 0 := rfl
    have empty : width (escapeSql []) = 0 := rfl
    omega
  | case3 c d later pair ih =>
    rw [Bool.and_eq_true] at pair
    have high := surrogateBare (Or.inl pair.1)
    have low := surrogateBare (Or.inr pair.2)
    have written : escapeSql (c :: d :: later) = c :: d :: escapeSql later := by
      simp [escapeSql, high, low]
    have both (rest : Text) : width (c :: d :: rest) =
        (String.utf8EncodeChar (Char.ofNat (0x10000 + (c - 0xD800) * 0x400 + (d - 0xDC00)))).length + width rest := by
      have step : scalars (c :: d :: rest) = Char.ofNat (0x10000 + (c - 0xD800) * 0x400 + (d - 0xDC00)) :: scalars rest := by
        conv_lhs => unfold scalars
        simp only [pair.1, pair.2, Bool.and_self, if_true]
      simp only [width, octets, step, List.flatMap_cons, List.length_append]
    have counted : escapedCount (c :: d :: later) = escapedCount later := by simp [escapedCount, high, low]
    rw [written, both, both, ih, counted]
    omega
  | case4 c d later pair ih =>
    have own := @unitWidth c (d :: later) fun high e member low => by
      cases member
      exact pair (by simpa using ⟨high, low⟩)
    have count := more c (d :: later)
    omega

theorem hexPlainUnits (bytes : List UInt8) : ∀ c ∈ hexText bytes, c < 128 := by
  refine hexEach (fun n small => ?_) bytes
  unfold hexUnit
  grind

theorem literalWidth (p : Param) : width (literal p) = literalBytes p := by
  cases p with
  | null => decide
  | boolean value => cases value <;> decide
  | number n => rfl
  | text t =>
    have quote : width [apostrophe] = 1 := by decide
    have front : Apart [apostrophe] (escapeSql t ++ [apostrophe]) := by
      refine Or.inl fun c member => ?_
      cases member
      exact plainHigh (by decide)
    have back : Apart (escapeSql t) [apostrophe] := by
      refine Or.inr fun c member => ?_
      cases member
      exact plainLow (by decide)
    rw [literal, ← List.singleton_append, widthAppend front, widthAppend back, escapedWidth, quote, literalBytes]
    omega
  | buffer bytes =>
    have front : ∀ c ∈ units "X'", c < 128 := by decide
    have plain : ∀ c ∈ units "X'" ++ (hexText bytes ++ [apostrophe]), c < 128 := by
      intro c member
      rcases List.mem_append.mp member with lead | rest
      · exact front c lead
      · rcases List.mem_append.mp rest with digit | last
        · exact hexPlainUnits bytes c digit
        · rw [List.mem_singleton.mp last]
          decide
    rw [literal, widthPlain plain]
    simp only [List.length_append, hexTextLength, List.length_singleton, literalBytes, units, List.length_map]
    show 2 + (2 * bytes.length + 1) = _
    omega

end Literals

section Statements
variable (table : LoadTable) (mode : OnConflict)

def myIdent (name : Text) : Text := backtick :: (name.flatMap (fun c => if c = backtick then [backtick, backtick] else [c]) ++ [backtick])

def myTableRef : Text := (units ".").intercalate (((table.schema.toList ++ [table.table]).filter (· ≠ [])).map myIdent)

def commas (texts : List Text) : Text := (units ", ").intercalate texts

def verb : Text :=
  match mode with
  | .replace => units "REPLACE"
  | .ignore => units "INSERT IGNORE"
  | .insert | .upsert => units "INSERT"

def assignments : List Text :=
  let updatable := table.columns.filter fun c => !table.keyColumns.contains c
  if updatable.length > 0 then updatable.map fun c => myIdent c ++ units " = VALUES(" ++ myIdent c ++ units ")"
  else (table.columns.take 1).map fun c => myIdent c ++ units " = " ++ myIdent c

def insertTail : Text := if mode = .upsert then units " ON DUPLICATE KEY UPDATE " ++ commas (assignments table) else []

def insertHead : Text :=
  verb mode ++ units " INTO " ++ myTableRef table ++ units " (" ++ commas (table.columns.map myIdent) ++ units ") VALUES "

def tuple (row : Row) : Text := units "(" ++ (commas (row.map fun cell => literal (myParam cell)) ++ units ")")

def mysqlInsertSql (rows : List Row) : Text := insertHead table mode ++ (commas (rows.map tuple) ++ insertTail table mode)

def tupleBytes (row : Row) : Nat := (row.map fun cell => literalBytes (myParam cell)).sum + 2 * (row.length - 1) + 2

def statementBytes (rows : List Row) : Nat :=
  width (insertHead table mode) + (rows.map tupleBytes).sum + 2 * (rows.length - 1) + width (insertTail table mode)

theorem commasWidth (texts : List Text) : width (commas texts) = (texts.map width).sum + 2 * (texts.length - 1) := by
  have comma : units ", " = [44, 32] := rfl
  induction texts with
  | nil => rfl
  | cons text texts ih =>
    cases texts with
    | nil => simp [commas]
    | cons next texts =>
      have more : commas (text :: next :: texts) = text ++ ([44, 32] ++ commas (next :: texts)) := by
        rw [commas, List.intercalate_cons_cons, comma, List.append_assoc, ← comma, commas]
      have before : Apart text ([44, 32] ++ commas (next :: texts)) := by
        refine Or.inr fun c member => ?_
        cases member
        exact plainLow (by decide)
      have after : Apart [44, 32] (commas (next :: texts)) := by
        refine Or.inl fun c member => ?_
        cases member
        exact plainHigh (by decide)
      have two : width [44, 32] = 2 := by decide
      rw [more, widthAppend before, widthAppend after, ih, two]
      simp only [List.map_cons, List.sum_cons, List.length_cons]
      omega

theorem tupleWidth (row : Row) : width (tuple row) = tupleBytes row := by
  have front : Apart (units "(") (commas (row.map fun cell => literal (myParam cell)) ++ units ")") := by
    refine Or.inl fun c member => ?_
    cases member
    exact plainHigh (by decide)
  have back : Apart (commas (row.map fun cell => literal (myParam cell))) (units ")") := by
    refine Or.inr fun c member => ?_
    cases member
    exact plainLow (by decide)
  have brackets : width (units "(") = 1 ∧ width (units ")") = 1 := by decide
  rw [tuple, widthAppend front, widthAppend back, commasWidth, brackets.1, brackets.2, List.map_map, List.length_map, tupleBytes]
  simp only [Function.comp_def, literalWidth]
  omega

theorem statementWidth (rows : List Row) : width (mysqlInsertSql table mode rows) = statementBytes table mode rows := by
  have front : Apart (insertHead table mode) (commas (rows.map tuple) ++ insertTail table mode) := by
    refine Or.inl fun c member => ?_
    rw [insertHead, List.getLast?_append] at member
    cases member
    exact plainHigh (by decide)
  have back : Apart (commas (rows.map tuple)) (insertTail table mode) := by
    refine Or.inr fun c member => ?_
    unfold insertTail at member
    split at member
    · cases member
      exact plainLow (by decide)
    · contradiction
  have tuples : width ∘ tuple = tupleBytes := funext tupleWidth
  rw [mysqlInsertSql, widthAppend front, widthAppend back, commasWidth, List.map_map, List.length_map, statementBytes, tuples]
  omega

end Statements

section Runs

def cutFrom (size budget : Nat) : List Row → Nat → List Row → List (List Row)
  | pending, _, [] => if pending = [] then [] else [pending]
  | pending, bytes, row :: rows =>
      if size ≤ pending.length + 1 ∨ budget ≤ bytes + rowBytes row then (pending ++ [row]) :: cutFrom size budget [] 0 rows
      else cutFrom size budget (pending ++ [row]) (bytes + rowBytes row) rows

def cutRows (size budget : Nat) (rows : List Row) : List (List Row) := cutFrom size budget [] 0 rows

theorem cutFlat (size budget : Nat) (pending : List Row) (bytes : Nat) (rows : List Row) :
    (cutFrom size budget pending bytes rows).flatten = pending ++ rows := by
  induction rows generalizing pending bytes with
  | nil =>
    rw [cutFrom]
    split <;> simp_all
  | cons row rows ih =>
    rw [cutFrom]
    split <;> simp [ih]

theorem cutFull (size budget : Nat) (pending : List Row) (bytes : Nat) (rows : List Row) :
    ∀ run ∈ cutFrom size budget pending bytes rows, run ≠ [] := by
  induction rows generalizing pending bytes with
  | nil =>
    rw [cutFrom]
    split <;> simp_all
  | cons row rows ih =>
    rw [cutFrom]
    split
    · exact List.forall_mem_cons.mpr ⟨by simp, ih [] 0⟩
    · exact ih (pending ++ [row]) (bytes + rowBytes row)

variable {σ : Type} (server : Server σ) (table : LoadTable) (opts : LoadOptions) (packet : Nat)

theorem flushSends (load : MysqlLoad σ) :
    (mysqlFlush server opts load).1.statements =
        load.statements ++ cutFrom opts.batchSize (budget packet) (load.pending.map Prod.fst) load.pendingBytes [] ∧
      (load.pending ≠ [] → (mysqlFlush server opts load).1.pending = [] ∧ (mysqlFlush server opts load).1.pendingBytes = 0) := by
  unfold mysqlFlush
  split
  · rename_i none
    simp [none, cutFrom]
  · rename_i some'
    have listed : load.pending.map Prod.fst ≠ [] := by simpa using some'
    simp only [cutFrom, if_neg listed]
    split
    · exact ⟨rfl, fun _ => ⟨rfl, rfl⟩⟩
    · split
      · exact ⟨rfl, fun _ => ⟨rfl, rfl⟩⟩
      · exact ⟨rfl, fun _ => ⟨rfl, rfl⟩⟩

def planned (load : MysqlLoad σ) (rows : List Row) : List (List Row) :=
  load.statements ++ cutFrom opts.batchSize (budget packet) (load.pending.map Prod.fst) load.pendingBytes rows

theorem rowPlans {numbered : Row × Nat} (own : checkWidth table numbered.1 = none) (load : MysqlLoad σ) (rows : List Row) :
    ((mysqlRow server table opts packet load numbered).2 = none →
      planned opts packet (mysqlRow server table opts packet load numbered).1 rows =
        planned opts packet load (numbered.1 :: rows)) ∧
      (mysqlRow server table opts packet load numbered).1.statements <+: planned opts packet load (numbered.1 :: rows) := by
  simp only [mysqlRow, own, List.length_append, List.length_singleton]
  split
  · rename_i full
    have sent := flushSends server opts packet { load with
      pending := load.pending ++ [numbered]
      pendingBytes := load.pendingBytes + rowBytes numbered.1 }
    have listed : load.pending ++ [numbered] ≠ [] := by simp
    have emptied := sent.2 listed
    have whole := sent.1
    simp only [List.map_append, List.map_cons, List.map_nil, cutFrom, List.append_eq_nil_iff, List.cons_ne_nil, and_false,
      if_false] at whole
    have plan : planned opts packet load (numbered.1 :: rows) = load.statements ++
        ((load.pending.map Prod.fst ++ [numbered.1]) :: cutFrom opts.batchSize (budget packet) [] 0 rows) := by
      rw [planned, cutFrom, List.length_map, if_pos full]
    refine ⟨fun _ => ?_, ?_⟩
    · rw [plan, planned, whole, emptied.1, emptied.2, List.append_assoc]
      rfl
    · rw [plan, whole]
      exact ⟨cutFrom opts.batchSize (budget packet) [] 0 rows, by simp⟩
  · rename_i room
    refine ⟨fun _ => ?_, List.prefix_append _ _⟩
    rw [planned, planned, cutFrom, List.length_map, if_neg room, List.map_append]
    rfl

theorem rowsPlan {rows : List (Row × Nat)} (wide : Wide table rows) (load : MysqlLoad σ) (later : List Row) :
    ((runAll (mysqlRow server table opts packet) load rows).2 = none →
      planned opts packet (runAll (mysqlRow server table opts packet) load rows).1 later =
        planned opts packet load (rows.map Prod.fst ++ later)) ∧
      (runAll (mysqlRow server table opts packet) load rows).1.statements <+:
        planned opts packet load (rows.map Prod.fst ++ later) := by
  induction rows generalizing load with
  | nil => exact ⟨fun _ => rfl, List.prefix_append _ _⟩
  | cons row rows ih =>
    have own := rowPlans server table opts packet (wide row List.mem_cons_self) load (rows.map Prod.fst ++ later)
    rw [runAll]
    split
    · rename_i next stepped
      rw [stepped] at own
      have rest := ih (fun r member => wide r (List.mem_cons_of_mem _ member)) next
      rw [own.1 rfl] at rest
      exact rest
    · rename_i next thrown stepped
      rw [stepped] at own
      exact ⟨fun calm => by simp at calm, own.2⟩

theorem sentRuns {rows : List Row} (wide : Wide table rows.zipIdx) (start : σ) :
    (mysqlInsertBatches server table opts packet start rows).1.statements <+: cutRows opts.batchSize (budget packet) rows ∧
      ((mysqlInsertBatches server table opts packet start rows).2 = none →
        (mysqlInsertBatches server table opts packet start rows).1.statements = cutRows opts.batchSize (budget packet) rows) := by
  have plan := rowsPlan server table opts packet wide ⟨⟨start, []⟩, newTracker, [], 0, []⟩ []
  have whole : planned opts packet (⟨⟨start, []⟩, newTracker, [], 0, []⟩ : MysqlLoad σ) (rows.zipIdx.map Prod.fst ++ []) =
      cutRows opts.batchSize (budget packet) rows := by
    simp [planned, cutRows]
  rw [whole] at plan
  unfold mysqlInsertBatches
  split
  · rename_i load ran
    rw [ran] at plan
    have sent := (flushSends server opts packet load).1
    rw [show load.statements ++ cutFrom opts.batchSize (budget packet) (load.pending.map Prod.fst) load.pendingBytes [] =
      cutRows opts.batchSize (budget packet) rows from plan.1 rfl] at sent
    exact ⟨by rw [sent], fun _ => sent⟩
  · rename_i load thrown ran
    rw [ran] at plan
    exact ⟨plan.2, fun calm => by simp at calm⟩

end Runs

section Packets
variable (table : LoadTable) (opts : LoadOptions) (packet : Nat)

def Packed (rows : List Row) : Prop :=
  ∀ (σ : Type) (server : Server σ) (start : σ),
    (∀ sent ∈ (mysqlInsertBatches server table opts packet start rows).1.statements,
      width (mysqlInsertSql table opts.onConflict sent) ≤ packet) ∧
    (mysqlInsertBatches server table opts packet start rows).1.statements.flatten <+: rows ∧
    ((mysqlInsertBatches server table opts packet start rows).2 = none →
      (mysqlInsertBatches server table opts packet start rows).1.statements.flatten = rows)

theorem checkingTakes (stored : Stored Unit) (rows : List Row) : ∃ after, statement checking stored rows = .ok after := by
  have each (stored : Stored Unit) : ∃ after, eachRow checking stored rows = .ok after := by
    induction rows generalizing stored with
    | nil => exact ⟨stored, rfl⟩
    | cons row rows ih => exact ih ⟨(), stored.rows ++ [row]⟩
  unfold statement
  split
  · exact each stored
  · exact each stored

theorem checkingFlushes (load : MysqlLoad Unit) : (mysqlFlush checking opts load).2 = none := by
  obtain ⟨after, taken⟩ := checkingTakes load.stored (load.pending.map Prod.fst)
  unfold mysqlFlush
  split
  · rfl
  · simp only [taken]

theorem checkingReturns {rows : List Row} (wide : Wide table rows.zipIdx) :
    (mysqlInsertBatches checking table opts packet () rows).2 = none := by
  have each : ∀ numbered ∈ rows.zipIdx, ∀ (load : MysqlLoad Unit) (_ : Unit), True →
      ∃ load', mysqlRow checking table opts packet load numbered = (load', none) ∧ True := by
    intro numbered member load _ _
    refine ⟨_, Prod.ext rfl ?_, trivial⟩
    simp only [mysqlRow, wide numbered member]
    split
    · exact checkingFlushes opts _
    · rfl
  obtain ⟨last, ran, -⟩ := runKeeps (mysqlRow checking table opts packet) (fun _ (_ : Unit) => True) (fun c _ => c) rows.zipIdx each
    (a := ⟨⟨(), []⟩, newTracker, [], 0, []⟩) (c := ()) trivial
  simp only [mysqlInsertBatches, ran]
  exact checkingFlushes opts last

section Examples

def textRow (c : Char) (n : Nat) : Row := [.string (List.replicate n c)]

end Examples

end Packets

end DatabaseAdmin.MysqlPackets
