import DatabaseAdmin.SqlQuote

/-! What the `sqlite3` shell reads of its input: a command a line where no
statement is pending and the line begins with a dot, else SQL up to the line that
completes it. -/
namespace DatabaseAdmin
namespace SqliteShell
open CodeUnits

inductive Command where
  | dot (arguments : List Text)
  | select (table : Text)
  | sql (statement : Text)
  deriving DecidableEq, Repr

structure Shell where
  unescape : Text → Text
  shrinks : ∀ text, (unescape text).length ≤ text.length

inductive Place where
  | between
  | bare (read : Text)
  | quoted (quote : CodeUnit) (read : Text)
  | slashed (read : Text)

def Shell.finish (shell : Shell) (quote : CodeUnit) (read : Text) : Text :=
  if quote = doubleQuote then shell.unescape read else read

def Shell.arguments (shell : Shell) : Place → Text → List Text
  | .between, [] => []
  | .bare read, [] => [read]
  | .quoted quote read, [] => [shell.finish quote read]
  | .slashed read, [] => [shell.finish doubleQuote read]
  | .between, c :: line =>
      if isSpace c then shell.arguments .between line
      else if c = apostrophe ∨ c = doubleQuote then shell.arguments (.quoted c []) line
      else shell.arguments (.bare [c]) line
  | .bare read, c :: line =>
      if isSpace c then read :: shell.arguments .between line
      else shell.arguments (.bare (read ++ [c])) line
  | .quoted quote read, c :: line =>
      if c = quote then shell.finish quote read :: shell.arguments .between line
      else if quote = doubleQuote ∧ c = backslash then shell.arguments (.slashed (read ++ [c])) line
      else shell.arguments (.quoted quote (read ++ [c])) line
  | .slashed read, c :: line => shell.arguments (.quoted doubleQuote (read ++ [c])) line

section Arguments
variable (shell : Shell)

theorem finishShrinks (quote : CodeUnit) (read : Text) :
    (shell.finish quote read).length ≤ read.length := by
  unfold Shell.finish
  split
  · exact shell.shrinks read
  · exact Nat.le_refl _

def Place.read : Place → Text
  | .between => []
  | .bare read | .quoted _ read | .slashed read => read

theorem argumentsFit (place : Place) (line : Text) :
    ∀ word ∈ shell.arguments place line, word.length ≤ place.read.length + line.length := by
  induction line generalizing place with
  | nil =>
    cases place with
    | between => simp [Shell.arguments]
    | bare read => simp [Shell.arguments, Place.read]
    | quoted quote read => simpa [Shell.arguments, Place.read] using finishShrinks shell quote read
    | slashed read => simpa [Shell.arguments, Place.read] using finishShrinks shell doubleQuote read
  | cons c line ih =>
    have goOn : ∀ next : Place, next.read.length ≤ place.read.length + 1 →
        ∀ word ∈ shell.arguments next line, word.length ≤ place.read.length + (c :: line).length := by
      intro next room word member
      have fits := ih next word member
      simp only [List.length_cons]
      omega
    have after : ∀ word ∈ shell.arguments .between line,
        word.length ≤ place.read.length + (c :: line).length := goOn .between (by simp [Place.read])
    cases place with
    | between =>
      simp only [Shell.arguments]
      split
      · exact after
      · split
        · exact goOn (.quoted c []) (by simp [Place.read])
        · exact goOn (.bare [c]) (by simp [Place.read])
    | bare read =>
      simp only [Shell.arguments]
      split
      · exact List.forall_mem_cons.mpr ⟨by simp only [Place.read]; omega, after⟩
      · exact goOn (.bare (read ++ [c])) (by simp [Place.read])
    | quoted quote read =>
      simp only [Shell.arguments]
      split
      · have shorter := finishShrinks shell quote read
        exact List.forall_mem_cons.mpr ⟨by simp only [Place.read]; omega, after⟩
      · split
        · exact goOn (.slashed (read ++ [c])) (by simp [Place.read])
        · exact goOn (.quoted quote (read ++ [c])) (by simp [Place.read])
    | slashed read => exact goOn (.quoted doubleQuote (read ++ [c])) (by simp [Place.read])

end Arguments

inductive Scan where
  | plain (ended : Bool)
  | quoted (close : CodeUnit)
  | dash (ended : Bool)
  | line (ended : Bool)
  | slash (ended : Bool)
  | block (ended : Bool)
  | star (ended : Bool)
  deriving DecidableEq, Repr

def Scan.bare (ended : Bool) (c : CodeUnit) : Scan :=
  if c = '-' then .dash ended
  else if c = '/' then .slash ended
  else if isQuote c then .quoted c
  else if c = '[' then .quoted ']'
  else if isSpace c then .plain ended
  else .plain (c = ';')

def Scan.next : Scan → CodeUnit → Scan
  | .plain ended, c => bare ended c
  | .quoted close, c => if c = close then .plain false else .quoted close
  | .dash ended, c => if c = '-' then .line ended else bare false c
  | .line ended, c => if c = newline then .plain ended else .line ended
  | .slash ended, c => if c = '*' then .block ended else bare false c
  | .block ended, c => if c = '*' then .star ended else .block ended
  | .star ended, c =>
      if c = '/' then .plain ended else if c = '*' then .star ended else .block ended

def complete (statement : Text) : Bool :=
  (statement ++ [newline]).foldl Scan.next (.plain false) = .plain true

def selectLead : Text := units "SELECT * FROM \""

def selected (statement : Text) : Option Text :=
  if startsWith selectLead statement then
    let quoted := statement.drop selectLead.length
    let closed := scanQuotedTail doubleQuote true false quoted
    if quoted.drop closed = [(';' : CodeUnit)] then some (undouble doubleQuote (quoted.take (closed - 1)))
    else none
  else none

def statementCommand (statement : Text) : Command :=
  match selected statement with
  | some table => .select table
  | none => .sql statement

def withoutReturn (line : Text) : Text :=
  if line.getLast? = some 13 then line.dropLast else line

def inputLines (read : Text) : Text → List Text
  | [] => if read = [] then [] else [read]
  | c :: input =>
      if c = newline then withoutReturn read :: inputLines [] input
      else inputLines (read ++ [c]) input

def Shell.reads (shell : Shell) (pending : Text) : List Text → List Command
  | [] => if pending = [] then [] else [statementCommand pending]
  | line :: lines =>
      if pending = [] ∧ line.all isSpace then shell.reads [] lines
      else if pending = [] ∧ line.head? = some ('.' : CodeUnit) then
        .dot (shell.arguments .between line.tail) :: shell.reads [] lines
      else
        let statement := if pending = [] then line else pending ++ newline :: line
        if complete statement then statementCommand statement :: shell.reads [] lines
        else shell.reads statement lines

def Shell.commands (shell : Shell) (input : Text) : List Command :=
  shell.reads [] (inputLines [] input)

def Plain (word : Text) : Prop :=
  word ≠ [] ∧ (∀ c ∈ word, isSpace c = false) ∧
    ∀ c ∈ word.head?, c ≠ apostrophe ∧ c ≠ doubleQuote

instance (word : Text) : Decidable (Plain word) := by
  unfold Plain
  infer_instance

section Arguments
variable (shell : Shell)

theorem bareWhole {read line word : Text} (one : shell.arguments (.bare read) line = [word])
    (long : read.length + line.length ≤ word.length) :
    word = read ++ line ∧ ∀ c ∈ line, isSpace c = false := by
  induction line generalizing read with
  | nil =>
    cases one
    simp
  | cons c line ih =>
    simp only [Shell.arguments] at one
    split at one
    · obtain ⟨same, -⟩ := List.cons.inj one
      subst same
      simp only [List.length_cons] at long
      omega
    · rename_i ink
      have longer : (read ++ [c]).length + line.length ≤ word.length := by
        simp only [List.length_append, List.length_cons, List.length_nil] at long ⊢
        omega
      obtain ⟨whole, rest⟩ := ih one longer
      exact ⟨by simpa using whole, List.forall_mem_cons.mpr ⟨by simpa using ink, rest⟩⟩

theorem wholeIsPlain {line word : Text} (one : shell.arguments .between line = [word])
    (inside : line <+: word) : Plain word := by
  have long := inside.length_le
  cases line with
  | nil => simp [Shell.arguments] at one
  | cons c line =>
    have fits : ∀ place : Place, shell.arguments place line = [word] →
        word.length ≤ place.read.length + line.length :=
      fun place same => argumentsFit shell place line word (by simp [same])
    simp only [List.length_cons] at long
    simp only [Shell.arguments] at one
    split at one
    · have short := fits .between one
      simp only [Place.read, List.length_nil] at short
      omega
    · rename_i ink
      split at one
      · have short := fits (.quoted c []) one
        simp only [Place.read, List.length_nil] at short
        omega
      · rename_i unquoted
        obtain ⟨whole, rest⟩ := bareWhole shell one (by simpa [Nat.add_comm] using long)
        subst whole
        rw [not_or] at unquoted
        exact ⟨by simp, by simpa using ⟨by simpa using ink, rest⟩, by simpa using unquoted⟩

theorem bareRead (read : Text) {word : Text} (ink : ∀ c ∈ word, isSpace c = false) (line : Text) :
    shell.arguments (.bare read) (word ++ line) = shell.arguments (.bare (read ++ word)) line := by
  induction word generalizing read with
  | nil => simp
  | cons c word ih =>
    obtain ⟨first, rest⟩ := List.forall_mem_cons.mp ink
    have dark : ¬ isSpace c = true := by simp [first]
    simp only [List.cons_append, Shell.arguments, if_neg dark]
    rw [ih _ rest, List.append_assoc, List.singleton_append]

theorem plainRead {word : Text} (plain : Plain word) (line : Text) :
    shell.arguments .between (word ++ line) = shell.arguments (.bare word) line := by
  obtain ⟨some, ink, unquoted⟩ := plain
  cases word with
  | nil => exact absurd rfl some
  | cons c word =>
    obtain ⟨first, rest⟩ := List.forall_mem_cons.mp ink
    have dark : ¬ isSpace c = true := by simp [first]
    have open_ : ¬ (c = apostrophe ∨ c = doubleQuote) := by simpa using unquoted c rfl
    simp only [List.cons_append, Shell.arguments, if_neg dark, if_neg open_]
    exact bareRead shell [c] rest line

theorem plainThen {word : Text} (plain : Plain word) (line : Text) :
    shell.arguments .between (word ++ 32 :: line) = word :: shell.arguments .between line := by
  rw [plainRead shell plain]
  rfl

theorem plainAlone {word : Text} (plain : Plain word) : shell.arguments .between word = [word] := by
  have read := plainRead shell plain []
  rw [List.append_nil] at read
  exact read

end Arguments

theorem inputLinesFirst {line : Text} (single : newline ∉ line) (read input : Text) :
    inputLines read (line ++ newline :: input) =
      withoutReturn (read ++ line) :: inputLines [] input := by
  induction line generalizing read with
  | nil => simp [inputLines]
  | cons c line ih =>
    rw [List.mem_cons, not_or] at single
    have inner : ¬ c = newline := fun same => single.1 same.symm
    simp only [List.cons_append, inputLines, if_neg inner]
    rw [ih single.2, List.append_assoc, List.singleton_append]

theorem withoutReturnPrefix (line : Text) : withoutReturn line <+: line := by
  unfold withoutReturn
  split
  · exact List.dropLast_prefix line
  · exact List.prefix_rfl

theorem withoutReturnSelf {line : Text} (ink : ∀ c ∈ line.getLast?, isSpace c = false) :
    withoutReturn line = line := by
  refine if_neg (fun last => ?_)
  have dark := ink 13 last
  contradiction

theorem commandRead (shell : Shell) (line : Text) (lines : List Text) :
    shell.reads [] ((46 :: line) :: lines) =
      .dot (shell.arguments .between line) :: shell.reads [] lines := by
  simp [Shell.reads, isSpace]

theorem scanIdentifier (name : Text) :
    (encode doubleQuote false name).foldl Scan.next (.quoted doubleQuote) = .quoted doubleQuote := by
  induction name with
  | nil => rfl
  | cons c name ih =>
    simp only [encode, List.flatMap_cons, List.foldl_append] at ih ⊢
    have stays : (encodeUnit doubleQuote false c).foldl Scan.next (.quoted doubleQuote) =
        .quoted doubleQuote := by
      by_cases marked : c = doubleQuote
      · subst marked
        decide
      · simp [encodeUnit, marked, Scan.next]
    rw [stays, ih]

def selectOf (table : Text) : Text :=
  selectLead ++ (encode doubleQuote false table ++ [doubleQuote, (';' : CodeUnit)])

theorem selectComplete (table : Text) : complete (selectOf table) = true := by
  have lead : selectLead.foldl Scan.next (.plain false) = .quoted doubleQuote := by decide
  simp only [complete, selectOf, List.foldl_append, lead, scanIdentifier]
  decide

theorem selectedTable (table : Text) : selected (selectOf table) = some table := by
  have opens : startsWith selectLead (selectOf table) = true :=
    startsWithIff.mpr (List.prefix_append _ _)
  have closes : scanQuotedTail doubleQuote true false
      (encode doubleQuote false table ++ [doubleQuote, (';' : CodeUnit)]) =
      (encode doubleQuote false table).length + 1 :=
    scanEncoded (by decide) false table (t := [(';' : CodeUnit)]) (by decide)
  simp only [selected, if_pos opens]
  rw [selectOf, List.drop_left, closes, dropPast, if_pos rfl, Nat.add_sub_cancel, List.take_left,
    undoubleEncoded]

theorem selectRead (shell : Shell) (table : Text) (lines : List Text) :
    shell.reads [] (selectOf table :: lines) = .select table :: shell.reads [] lines := by
  have first : selectOf table = 83 :: (selectOf table).tail := rfl
  have inked : ¬ (selectOf table).all isSpace = true := by
    rw [first]
    simp [isSpace]
  have undotted : (selectOf table).head? ≠ some ('.' : CodeUnit) := by
    rw [first]
    simp
  simp only [Shell.reads, true_and, if_neg inked, if_neg undotted, if_true, selectComplete,
    statementCommand, selectedTable]

end SqliteShell
end DatabaseAdmin
