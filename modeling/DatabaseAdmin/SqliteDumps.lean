import DatabaseAdmin.SqliteShell

/-! The script `sqliteDump` pipes to `sqlite3`, and when the shell reads it as the commands the dump
intends. -/
namespace DatabaseAdmin
namespace SqliteDumps
open CodeUnits SqliteShell

inductive StructureMode where
  | both | structureOnly | dataOnly
  deriving DecidableEq, Repr

def captureCap : Nat := 4 * 1024 * 1024

def capture (captured : Text) (chunks : List Text) : Text :=
  chunks.foldl (fun captured c =>
    if captured.length < captureCap then captured ++ c else captured) captured

def sqliteQuoteIdent (name : Text) : Text :=
  doubleQuote :: (replaceUnit doubleQuote [doubleQuote, doubleQuote] name ++ [doubleQuote])

def sqliteTableNames (chunks : List Text) : List Text :=
  (((capture [] chunks).splitOn newline).map trim).filter (fun l => 0 < l.length)

def joined (lines : List Text) : Text := [newline].intercalate lines

def sqliteDump (mode : StructureMode) (tables : Option (List Text)) (chunks : List Text) : Text :=
  let named := tables.getD []
  let commands := match mode with
    | .structureOnly =>
        [if 0 < named.length then joined (named.map fun t => units ".schema " ++ t)
          else units ".schema"]
    | .dataOnly =>
        let tables := if 0 < named.length then named else sqliteTableNames chunks
        tables.flatMap fun table =>
          [units ".mode insert " ++ table,
            units "SELECT * FROM " ++ sqliteQuoteIdent table ++ [(';' : CodeUnit)]]
    | .both =>
        [if 0 < named.length then joined (named.map fun t => units ".dump " ++ t)
          else units ".dump"]
  joined commands ++ [newline]

def listing (catalog : List Text) : Text := catalog.flatMap (fun name => name ++ [newline])

structure Printed (catalog : List Text) where
  chunks : List Text
  whole : chunks.flatten = listing catalog

def commandWords : StructureMode → List Text
  | .structureOnly => [units "schema"]
  | .dataOnly => [units "mode", units "insert"]
  | .both => [units "dump"]

def tableRows (mode : StructureMode) (table : Text) : List Command :=
  if mode = .dataOnly then [.select table] else []

def tableCommands (mode : StructureMode) (table : Text) : List Command :=
  .dot (commandWords mode ++ [table]) :: tableRows mode table

def intended (mode : StructureMode) (tables : Option (List Text)) (catalog : List Text) :
    List Command :=
  let named := tables.getD []
  if 0 < named.length then named.flatMap (tableCommands mode)
  else if mode = .dataOnly then catalog.flatMap (tableCommands mode)
  else [.dot (commandWords mode)]

def Arrives {catalog : List Text} (output : Printed catalog) : Prop :=
  ∀ before after, output.chunks = before ++ after → captureCap ≤ before.flatten.length →
    after.flatten.length ≤ 1

section Script

def commandLead : StructureMode → Text
  | .structureOnly => units "schema"
  | .dataOnly => units "mode insert"
  | .both => units "dump"

def tableText (mode : StructureMode) (table : Text) : Text :=
  46 :: (commandLead mode ++ 32 :: (table ++ newline ::
    if mode = .dataOnly then selectOf table ++ [newline] else []))

theorem joinedCons (line : Text) {lines : List Text} (some : lines ≠ []) :
    joined (line :: lines) = line ++ newline :: joined lines := by
  cases lines with
  | nil => exact absurd rfl some
  | cons next lines => simp [joined, List.intercalate]

theorem joinedText {lines : List Text} (some : lines ≠ []) :
    joined lines ++ [newline] = lines.flatMap (fun line => line ++ [newline]) := by
  induction lines with
  | nil => exact absurd rfl some
  | cons line lines ih =>
    by_cases last : lines = []
    · subst last
      simp [joined, List.intercalate]
    · rw [joinedCons line last, List.flatMap_cons, ← ih last]
      simp

theorem joinedOne (line : Text) : joined [line] = line := by simp [joined, List.intercalate]

theorem selectText (table : Text) :
    units "SELECT * FROM " ++ sqliteQuoteIdent table ++ [(';' : CodeUnit)] = selectOf table := by
  rw [sqliteQuoteIdent, encodeDoubled, selectOf]
  have lead : selectLead = units "SELECT * FROM " ++ [doubleQuote] := by decide
  simp [lead]

theorem dotText {mode : StructureMode} (plain : mode ≠ .dataOnly) {word : Text}
    (lead : word = 46 :: (commandLead mode ++ [32])) {names : List Text} (some : names ≠ []) :
    joined [joined (names.map fun t => word ++ t)] ++ [newline] = names.flatMap (tableText mode) := by
  rw [joinedOne, joinedText (by simpa using some), List.flatMap_map]
  refine List.flatMap_congr (fun name _ => ?_)
  simp [tableText, plain, lead]

theorem dataText {names : List Text} (some : names ≠ []) :
    joined (names.flatMap fun table => [units ".mode insert " ++ table,
      units "SELECT * FROM " ++ sqliteQuoteIdent table ++ [(';' : CodeUnit)]]) ++ [newline] =
      names.flatMap (tableText .dataOnly) := by
  rw [joinedText (by cases names <;> simp_all), List.flatMap_assoc]
  refine List.flatMap_congr (fun name _ => ?_)
  have lead : units ".mode insert " = 46 :: (commandLead .dataOnly ++ [32]) := by decide
  simp only [List.flatMap_cons, List.flatMap_nil, selectText, tableText, lead]
  simp

theorem namedText (mode : StructureMode) {tables : Option (List Text)} (chunks : List Text)
    (named : 0 < (tables.getD []).length) :
    sqliteDump mode tables chunks = (tables.getD []).flatMap (tableText mode) := by
  have some : tables.getD [] ≠ [] := List.length_pos_iff.mp named
  cases mode with
  | structureOnly => simpa only [sqliteDump, if_pos named] using dotText (by decide) (by decide) some
  | dataOnly => simpa only [sqliteDump, if_pos named] using dataText some
  | both => simpa only [sqliteDump, if_pos named] using dotText (by decide) (by decide) some

end Script

section Reading
variable (shell : Shell)

theorem leadRead (mode : StructureMode) (line : Text) :
    shell.arguments .between (commandLead mode ++ 32 :: line) =
      commandWords mode ++ shell.arguments .between line := by
  cases mode with
  | structureOnly => exact plainThen shell (by decide) line
  | both => exact plainThen shell (by decide) line
  | dataOnly =>
    have split : commandLead .dataOnly ++ 32 :: line =
        units "mode" ++ 32 :: (units "insert" ++ 32 :: line) := rfl
    rw [split, plainThen shell (by decide), plainThen shell (by decide)]
    rfl

theorem withoutReturnTail (lead : Text) (line : Text) :
    withoutReturn (lead ++ 32 :: line) = lead ++ 32 :: withoutReturn line := by
  cases line with
  | nil => simp [withoutReturn]
  | cons c line =>
    simp only [withoutReturn, List.getLast?_append, List.getLast?_cons_cons]
    split <;> simp_all

theorem firstCommand (mode : StructureMode) {line : Text} (single : newline ∉ line) (input : Text) :
    shell.commands (46 :: (commandLead mode ++ 32 :: (line ++ newline :: input))) =
      .dot (commandWords mode ++ shell.arguments .between (withoutReturn line)) ::
        shell.commands input := by
  have first : 46 :: (commandLead mode ++ 32 :: (line ++ newline :: input)) =
      ((46 :: commandLead mode) ++ 32 :: line) ++ newline :: input := by simp
  have unbroken : newline ∉ (46 :: commandLead mode) ++ 32 :: line := by
    have lead : newline ∉ (46 :: commandLead mode) ++ [32] := by cases mode <;> decide
    simpa [single] using lead
  rw [Shell.commands, first, inputLinesFirst unbroken, List.nil_append, withoutReturnTail,
    List.cons_append, commandRead, leadRead]
  rfl

theorem selectFirst {table : Text} (single : newline ∉ table) (input : Text) :
    shell.commands (selectOf table ++ newline :: input) = .select table :: shell.commands input := by
  have unbroken : newline ∉ selectOf table := by
    have lead : newline ∉ selectLead := by decide
    have inside : newline ∉ encode doubleQuote false table := by
      intro member
      obtain ⟨c, there, here⟩ := List.mem_flatMap.mp member
      unfold encodeUnit at here
      split at here
      · exact absurd here (by decide)
      · simp only [Bool.false_eq_true, false_and, if_false, List.mem_singleton] at here
        exact single (here ▸ there)
    have after : newline ∉ [doubleQuote, (';' : CodeUnit)] := by decide
    simp only [selectOf, List.mem_append, not_or]
    exact ⟨lead, inside, after⟩
  have ended : withoutReturn (selectOf table) = selectOf table := by
    refine withoutReturnSelf (fun c last => ?_)
    simp [selectOf] at last
    subst last
    decide
  rw [Shell.commands, inputLinesFirst unbroken, List.nil_append, ended, selectRead]
  rfl

theorem tableFirst (mode : StructureMode) {table : Text} (single : newline ∉ table) (input : Text) :
    shell.commands (tableText mode table ++ input) =
      .dot (commandWords mode ++ shell.arguments .between (withoutReturn table)) ::
        (tableRows mode table ++ shell.commands input) := by
  by_cases data : mode = .dataOnly
  · have text : tableText mode table ++ input = 46 :: (commandLead mode ++ 32 ::
        (table ++ newline :: (selectOf table ++ newline :: input))) := by simp [tableText, data]
    rw [text, firstCommand shell mode single, selectFirst shell single]
    simp [tableRows, data]
  · have text : tableText mode table ++ input =
        46 :: (commandLead mode ++ 32 :: (table ++ newline :: input)) := by simp [tableText, data]
    rw [text, firstCommand shell mode single]
    simp [tableRows, data]

theorem plainSingle {word : Text} (plain : Plain word) : newline ∉ word := by
  intro member
  have dark := plain.2.1 newline member
  contradiction

theorem plainTable (mode : StructureMode) {table : Text} (plain : Plain table) (input : Text) :
    shell.commands (tableText mode table ++ input) =
      tableCommands mode table ++ shell.commands input := by
  have kept : withoutReturn table = table :=
    withoutReturnSelf (fun c last => plain.2.1 c (List.mem_of_getLast? last))
  rw [tableFirst shell mode (plainSingle plain), kept, plainAlone shell plain]
  rfl

theorem firstLine (mode : StructureMode) (table input : Text) :
    ∃ line rest, line <+: table ∧ shell.commands (tableText mode table ++ input) =
      .dot (commandWords mode ++ shell.arguments .between line) :: rest := by
  by_cases single : newline ∈ table
  · obtain ⟨line, rest, rfl, before⟩ := List.eq_append_cons_of_mem single
    obtain ⟨left, text⟩ : ∃ left, tableText mode (line ++ newline :: rest) ++ input =
        46 :: (commandLead mode ++ 32 :: (line ++ newline :: left)) := by
      simp only [tableText, List.cons_append, List.append_assoc]
      exact ⟨_, rfl⟩
    rw [text, firstCommand shell mode before]
    exact ⟨_, _, (withoutReturnPrefix line).trans (List.prefix_append _ _), rfl⟩
  · exact ⟨withoutReturn table, _, withoutReturnPrefix table, tableFirst shell mode single input⟩

theorem namedRead (mode : StructureMode) (tables : List Text) :
    shell.commands (tables.flatMap (tableText mode)) = tables.flatMap (tableCommands mode) ↔
      ∀ t ∈ tables, Plain t := by
  induction tables with
  | nil => simp [Shell.commands, inputLines, Shell.reads]
  | cons table tables ih =>
    simp only [List.flatMap_cons, List.forall_mem_cons]
    by_cases plain : Plain table
    · rw [plainTable shell mode plain, List.append_cancel_left_eq, ih]
      exact ⟨fun rest => ⟨plain, rest⟩, fun all => all.2⟩
    · obtain ⟨line, rest, inside, read⟩ := firstLine shell mode table (tables.flatMap (tableText mode))
      rw [read]
      refine ⟨fun same => ?_, fun all => absurd all.1 plain⟩
      obtain ⟨first, -⟩ := List.cons.inj same
      have one := List.append_cancel_left (Command.dot.inj first)
      exact absurd (wholeIsPlain shell one inside) plain

def chosen : Command → Option Text
  | .select table => some table
  | _ => none

theorem chosenOf (tables : List Text) :
    (tables.flatMap (tableCommands .dataOnly)).filterMap chosen = tables := by
  induction tables with
  | nil => rfl
  | cons table tables ih => simpa [tableCommands, tableRows, chosen, List.filterMap_cons] using ih

theorem chosenRead {tables : List Text} (single : ∀ t ∈ tables, newline ∉ t) :
    (shell.commands (tables.flatMap (tableText .dataOnly))).filterMap chosen = tables := by
  induction tables with
  | nil => simp [Shell.commands, inputLines, Shell.reads]
  | cons table tables ih =>
    obtain ⟨first, rest⟩ := List.forall_mem_cons.mp single
    rw [List.flatMap_cons, tableFirst shell .dataOnly first]
    simpa [tableRows, chosen, List.filterMap_cons] using ih rest

theorem listedRead {names : List Text} (single : ∀ t ∈ names, newline ∉ t) (catalog : List Text) :
    shell.commands (names.flatMap (tableText .dataOnly)) = catalog.flatMap (tableCommands .dataOnly) ↔
      names = catalog ∧ ∀ t ∈ catalog, Plain t := by
  constructor
  · intro same
    have tables : names = catalog := by
      have both := congrArg (List.filterMap chosen) same
      rwa [chosenRead shell single, chosenOf] at both
    subst tables
    exact ⟨rfl, (namedRead shell .dataOnly names).mp same⟩
  · rintro ⟨rfl, plain⟩
    exact (namedRead shell .dataOnly names).mpr plain

end Reading

section Listing
variable {catalog : List Text}

theorem captureSplit (captured : Text) (chunks : List Text) :
    ∃ before after, chunks = before ++ after ∧ capture captured chunks = captured ++ before.flatten ∧
      (after = [] ∨ captureCap ≤ (captured ++ before.flatten).length) ∧
      ∀ b a, chunks = b ++ a → captureCap ≤ (captured ++ b.flatten).length → before <+: b := by
  induction chunks generalizing captured with
  | nil => exact ⟨[], [], by simp [capture]⟩
  | cons c chunks ih =>
    by_cases room : captured.length < captureCap
    · obtain ⟨before, after, rfl, kept, full, least⟩ := ih (captured ++ c)
      refine ⟨c :: before, after, rfl, ?_, by simpa using full, fun b a split here => ?_⟩
      · rw [capture, List.foldl_cons, if_pos room, ← capture, kept]
        simp
      · cases b with
        | nil =>
          simp only [List.flatten_nil, List.append_nil] at here
          omega
        | cons d b =>
          rw [List.cons_append, List.cons.injEq] at split
          obtain ⟨rfl, split⟩ := split
          exact (List.prefix_cons_inj c).mpr (least b a split (by simpa using here))
    · have reached : captureCap ≤ (captured ++ ([] : List Text).flatten).length := by simpa using room
      obtain ⟨before, after, rfl, kept, -, least⟩ := ih captured
      have none : before = [] := List.prefix_nil.mp (least [] _ rfl reached)
      subst none
      refine ⟨[], c :: ([] ++ after), rfl, ?_, Or.inr reached, fun b _ _ _ => List.nil_prefix⟩
      rw [capture, List.foldl_cons, if_neg room, ← capture, kept]

theorem arrivesWhen (output : Printed catalog) :
    Arrives output ↔ (listing catalog).length ≤ (capture [] output.chunks).length + 1 := by
  obtain ⟨before, after, split, kept, full, least⟩ := captureSplit [] output.chunks
  simp only [List.nil_append] at kept full least
  have whole : (listing catalog).length = before.flatten.length + after.flatten.length := by
    rw [← output.whole, split, List.flatten_append, List.length_append]
  rw [kept, whole]
  constructor
  · intro arrives
    rcases full with none | full
    · subst none
      simp
    · have last := arrives before after split full
      omega
  · intro most b a parts here
    obtain ⟨more, rfl⟩ := least b a parts here
    have total : (listing catalog).length = (before ++ more).flatten.length + a.flatten.length := by
      rw [← output.whole, parts, List.flatten_append, List.length_append]
    simp only [List.flatten_append, List.length_append] at total
    omega

theorem capturePrefix (output : Printed catalog) : capture [] output.chunks <+: listing catalog := by
  obtain ⟨before, after, split, kept, -⟩ := captureSplit [] output.chunks
  rw [kept, ← output.whole, split, List.flatten_append]
  exact List.prefix_append _ _

theorem listingJoined (catalog : List Text) :
    listing catalog = joined (catalog ++ [[]]) := by
  induction catalog with
  | nil => rfl
  | cons name names ih =>
    rw [List.cons_append, joinedCons name (by simp), ← ih, listing, listing, List.flatMap_cons]
    simp

theorem joinedSplit {lines : List Text} (single : ∀ line ∈ lines, newline ∉ line)
    (some : lines ≠ []) : (joined lines).splitOn newline = lines :=
  List.splitOn_intercalate newline single some

theorem piecesSingle (text : Text) : ∀ piece ∈ text.splitOn newline, newline ∉ piece := by
  induction text with
  | nil => simp
  | cons c text ih =>
    rw [List.splitOn_cons_eq_if_modifyHead]
    split
    · exact List.forall_mem_cons.mpr ⟨List.not_mem_nil, ih⟩
    · rename_i apart
      cases pieces : text.splitOn newline with
      | nil => simp
      | cons piece more =>
        rw [pieces] at ih
        obtain ⟨first, rest⟩ := List.forall_mem_cons.mp ih
        have differs : newline ≠ c := fun same => apart (by simp [same])
        exact List.forall_mem_cons.mpr ⟨by simp [differs, first], rest⟩

theorem trimInside (text : Text) : trim text <:+: text :=
  (List.rdropWhile_prefix isWhite _).isInfix.trans (List.dropWhile_suffix isWhite).isInfix

theorem piecesLength (text : Text) : (listing (text.splitOn newline)).length = text.length + 1 := by
  have back : joined (text.splitOn newline) = text := List.intercalate_splitOn newline
  rw [listing, ← joinedText (List.splitOn_ne_nil newline text), back]
  simp

def namesOf (pieces : List Text) : List Text := (pieces.map trim).filter (fun l => 0 < l.length)

theorem namesShrink (pieces : List Text) : (listing (namesOf pieces)).length ≤ (listing pieces).length := by
  induction pieces with
  | nil => exact Nat.le_refl _
  | cons piece pieces ih =>
    have short := (trimInside piece).length_le
    simp only [namesOf, listing, List.map_cons, List.flatMap_cons, List.length_append] at ih ⊢
    rw [List.filter_cons]
    split
    · simp only [List.flatMap_cons, List.length_append]
      omega
    · omega

theorem namesKept {names : List Text} (clean : ∀ t ∈ names, trim t = t ∧ t ≠ []) :
    namesOf names = names := by
  have same : names.map trim = names :=
    (List.map_congr_left (fun t member => (clean t member).1)).trans (List.map_id names)
  rw [namesOf, same, List.filter_eq_self]
  exact fun t member => by simpa [List.length_pos_iff] using (clean t member).2

theorem namesClean (text : Text) : ∀ t ∈ namesOf (text.splitOn newline),
    newline ∉ t ∧ trim t = t ∧ t ≠ [] := by
  intro t member
  obtain ⟨inside, some⟩ := List.mem_filter.mp member
  obtain ⟨piece, there, rfl⟩ := List.mem_map.mp inside
  exact ⟨fun broken => piecesSingle text piece there ((trimInside piece).subset broken),
    trimByTwice isWhite piece, by simpa [List.length_pos_iff] using some⟩

theorem listedNames (output : Printed catalog) :
    sqliteTableNames output.chunks = catalog ↔
      (∀ t ∈ catalog, newline ∉ t ∧ trim t = t ∧ t ≠ []) ∧ Arrives output := by
  have read : sqliteTableNames output.chunks =
      namesOf ((capture [] output.chunks).splitOn newline) := rfl
  rw [arrivesWhen, read]
  constructor
  · intro same
    have clean := namesClean (capture [] output.chunks)
    have fits := namesShrink ((capture [] output.chunks).splitOn newline)
    rw [piecesLength, same] at fits
    rw [same] at clean
    exact ⟨clean, fits⟩
  · rintro ⟨clean, most⟩
    have single : ∀ t ∈ catalog ++ [[]], newline ∉ t := by
      intro t member
      rcases List.mem_append.mp member with inside | last
      · exact (clean t inside).1
      · simp_all
    have kept : namesOf catalog = catalog := namesKept (fun t member => (clean t member).2)
    obtain ⟨missing, split⟩ := capturePrefix output
    have total := congrArg List.length split
    rw [List.length_append] at total
    match missing with
    | [] =>
      have pieces : (capture [] output.chunks).splitOn newline = catalog ++ [[]] := by
        rw [← List.append_nil (capture [] output.chunks), split, listingJoined]
        exact joinedSplit single (by simp)
      have last : namesOf (catalog ++ [[]]) = namesOf catalog := by
        simp [namesOf, trim, trimByNil]
      rw [pieces, last, kept]
    | [c] =>
      have some : catalog ≠ [] := by
        rintro rfl
        simp [listing] at split
      have text : capture [] output.chunks = joined catalog := by
        rw [listing, ← joinedText some] at split
        exact List.append_inj_left' split rfl
      rw [text, joinedSplit (fun t member => (clean t member).1) some, kept]
    | c :: d :: missing =>
      simp only [List.length_cons] at total
      omega

end Listing

section Unnamed
variable (shell : Shell) {tables : Option (List Text)} (unnamed : ¬ 0 < (tables.getD []).length)
include unnamed

theorem listedText (chunks : List Text) :
    shell.commands (sqliteDump .dataOnly tables chunks) =
      shell.commands ((sqliteTableNames chunks).flatMap (tableText .dataOnly)) := by
  by_cases none : sqliteTableNames chunks = []
  · have blank : sqliteDump .dataOnly tables chunks = [newline] := by
      simp [sqliteDump, if_neg unnamed, none, joined]
    rw [blank, none]
    rfl
  · congr 1
    simpa only [sqliteDump, if_neg unnamed] using dataText none

theorem catalogRead {catalog : List Text} (output : Printed catalog) :
    shell.commands (sqliteDump .dataOnly tables output.chunks) =
      catalog.flatMap (tableCommands .dataOnly) ↔
      (∀ t ∈ catalog, Plain t ∧ trim t = t) ∧ Arrives output := by
  have single : ∀ t ∈ sqliteTableNames output.chunks, newline ∉ t :=
    fun t member => (namesClean _ t member).1
  rw [listedText shell unnamed, listedRead shell single, listedNames]
  constructor
  · rintro ⟨⟨clean, arrives⟩, plain⟩
    exact ⟨fun t member => ⟨plain t member, (clean t member).2.1⟩, arrives⟩
  · rintro ⟨good, arrives⟩
    refine ⟨⟨fun t member => ?_, arrives⟩, fun t member => (good t member).1⟩
    obtain ⟨plain, trimmed⟩ := good t member
    exact ⟨plainSingle plain, trimmed, plain.1⟩

theorem wholeRead {mode : StructureMode} (bare : mode ≠ .dataOnly) (chunks : List Text) :
    shell.commands (sqliteDump mode tables chunks) = [.dot (commandWords mode)] := by
  cases mode with
  | dataOnly => exact absurd rfl bare
  | structureOnly =>
    have text : sqliteDump .structureOnly tables chunks = units ".schema\n" := by
      simp only [sqliteDump, if_neg unnamed]
      rfl
    rw [text]
    rfl
  | both =>
    have text : sqliteDump .both tables chunks = units ".dump\n" := by
      simp only [sqliteDump, if_neg unnamed]
      rfl
    rw [text]
    rfl

end Unnamed

theorem sqliteDumpRunsItsOwn (shell : Shell) (mode : StructureMode) (tables : Option (List Text))
    (catalog : List Text) (output : Printed catalog) :
    shell.commands (sqliteDump mode tables output.chunks) = intended mode tables catalog ↔
      (∀ t ∈ tables.getD [], Plain t) ∧
      (mode = .dataOnly → tables.getD [] = [] →
        (∀ t ∈ catalog, Plain t ∧ trim t = t) ∧ Arrives output) := by
  by_cases named : 0 < (tables.getD []).length
  · have some : tables.getD [] ≠ [] := List.length_pos_iff.mp named
    rw [namedText mode output.chunks named, intended, if_pos named, namedRead]
    exact ⟨fun plain => ⟨plain, fun _ none => absurd none some⟩, fun both => both.1⟩
  · have none : tables.getD [] = [] := by simpa [List.length_pos_iff] using named
    have whole : ∀ t ∈ tables.getD [], Plain t := by simp [none]
    by_cases data : mode = .dataOnly
    · subst data
      rw [intended, if_neg named, if_pos rfl, catalogRead shell named output]
      exact ⟨fun good => ⟨whole, fun _ _ => good⟩, fun both => both.2 rfl none⟩
    · rw [intended, if_neg named, if_neg data, wholeRead shell named data]
      exact ⟨fun _ => ⟨whole, fun same => absurd same data⟩, fun _ => rfl⟩

def plainShell : Shell := ⟨id, fun _ => Nat.le_refl _⟩

theorem sqliteDumpRunsAnotherCommand :
    ¬ ∀ (shell : Shell) (mode : StructureMode) (tables : Option (List Text)) (catalog : List Text)
      (output : Printed catalog),
      shell.commands (sqliteDump mode tables output.chunks) = intended mode tables catalog := by
  intro all
  have same := all plainShell .structureOnly (some [units "a\n.shell id"]) [] ⟨[], rfl⟩
  revert same
  decide

end SqliteDumps
end DatabaseAdmin
