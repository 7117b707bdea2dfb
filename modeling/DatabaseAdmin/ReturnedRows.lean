import DatabaseAdmin.StatementGuards
import DatabaseAdmin.DumpRunner
import DatabaseAdmin.SqlFragments

/-! Which statements the PostgreSQL connector reads through a cursor, against what the lexer finds in them. -/
namespace DatabaseAdmin.ReturnedRows
open CodeUnits ScanLoop StatementGuards DumpRunner

section Reading

def pastComments (sql : Text) : Option Text :=
  if startsWith (units "--") (sql.dropWhile isWhite) then
    match found : indexOf [newline] (sql.dropWhile isWhite) with
    | none => none
    | some nl => pastComments ((sql.dropWhile isWhite).drop (nl + 1))
  else if startsWith (units "/*") (sql.dropWhile isWhite) then
    match found : indexOf (units "*/") (sql.dropWhile isWhite) with
    | none => none
    | some e => pastComments ((sql.dropWhile isWhite).drop (e + 2))
  else some (sql.dropWhile isWhite)
termination_by sql.length
decreasing_by
  all_goals
    have fits := (indexOfFits found).2
    have shorter := (List.dropWhile_suffix (l := sql) isWhite).length_le
    have mark : 1 ≤ ([newline] : Text).length ∧ 1 ≤ (units "*/").length := ⟨by decide, by decide⟩
    rw [List.length_drop]
    omega

def isLetter (c : CodeUnit) : Bool := (65 ≤ c && c ≤ 90) || (97 ≤ c && c ≤ 122) || c == 95

def returningIn (before : Option CodeUnit) : Text → Bool
  | [] => false
  | c :: rest => (!before.any isWordUnit && wordAt "returning" (c :: rest)) || returningIn (some c) rest

def rowVerbs : List String := ["select", "with", "table", "values", "show", "explain", "fetch", "call"]

def writeVerbs : List String := ["insert", "update", "delete", "merge"]

def returnsRows (sql : Text) : Bool :=
  match pastComments sql with
  | none => false
  | some s =>
      let keyword := (s.takeWhile isLetter).map lowerUnit
      if keyword ∈ rowVerbs.map units then true
      else if keyword ∈ writeVerbs.map units then returningIn none sql
      else false

end Reading

section Purpose

def tokensOf (sql : Text) : List SqlToken := tokenize sql (rulesOf .postgres)

def writes (t : SqlToken) : Bool := isOneOf t ["INSERT", "UPDATE", "DELETE", "MERGE"]

def returning (tokens : List SqlToken) : Bool :=
  match verbAt tokens with
  | [] => false
  | verb :: rest => writes verb && rest.any fun t => isWord t "RETURNING" && t.depth == verb.depth

def HasRows (sql : Text) : Prop :=
  classifyStatement sql .postgres = .select ∨ classifyStatement sql .postgres = .explain ∨ returning (tokensOf sql) = true

def commentMarks : List (Text × Text) := [(units "--", [newline]), (units "/*", units "*/")]

inductive FlatLead : Text → Prop where
  | nil : FlatLead []
  | white {c : CodeUnit} {lead : Text} (blank : isWhite c = true) (more : FlatLead lead) : FlatLead (c :: lead)
  | comment {start close comment lead : Text} (kind : (start, close) ∈ commentMarks) (begins : start <+: comment)
      (closes : indexOf close comment = some (comment.length - close.length)) (more : FlatLead lead) : FlatLead (comment ++ lead)

def SpellsReturning (sql : Text) : Prop := ∃ before word after, sql = before ++ (word ++ after) ∧
  word.map lowerUnit = units "returning" ∧ before.getLast?.all (!isWordUnit ·) ∧ after.head?.all (!isWordUnit ·)

def OpensPlainly (sql : Text) : Prop := ∃ lead word rest, sql = lead ++ (word ++ rest) ∧ FlatLead lead ∧
  word.all isLetter ∧ rest.head?.all (!isLetter ·) ∧
  (word.map lowerUnit ∈ rowVerbs.map units ∨ word.map lowerUnit ∈ writeVerbs.map units ∧ SpellsReturning sql)

end Purpose

section Leads

theorem whiteLead {w lead : Text} (blank : ∀ c ∈ w, isWhite c = true) (flat : FlatLead lead) : FlatLead (w ++ lead) := by
  induction w with
  | nil => exact flat
  | cons c w ih => exact .white (blank c List.mem_cons_self) (ih fun d member => blank d (List.mem_cons_of_mem _ member))

theorem whiteFlat {sql lead rest : Text} (cut : sql.dropWhile isWhite = lead ++ rest) (flat : FlatLead lead) :
    ∃ lead, sql = lead ++ rest ∧ FlatLead lead := by
  refine ⟨sql.takeWhile isWhite ++ lead, ?_, whiteLead (fun c member => List.mem_takeWhile_imp member) flat⟩
  rw [List.append_assoc, ← cut, List.takeWhile_append_dropWhile]

theorem commentFlat {start close s lead rest : Text} {n : Nat} (kind : (start, close) ∈ commentMarks) (begins : start <+: s)
    (found : indexOf close s = some n) (long : start.length ≤ n + close.length) (cut : s.drop (n + close.length) = lead ++ rest)
    (flat : FlatLead lead) : ∃ lead, s = lead ++ rest ∧ FlatLead lead := by
  have fits := (indexOfFits found).2
  have length : (s.take (n + close.length)).length = n + close.length := List.length_take_of_le fits
  have closes : indexOf close (s.take (n + close.length)) = some n := by
    rw [← List.take_append_drop (n + close.length) s] at found
    exact SqlFragments.indexOfCut found (by rw [length])
  refine ⟨s.take (n + close.length) ++ lead, by rw [List.append_assoc, ← cut, List.take_append_drop], .comment kind ?_ ?_ flat⟩
  · exact List.prefix_take_iff.mpr ⟨begins, long⟩
  · rw [closes, length, Nat.add_sub_cancel]

theorem leadBefore {sql s : Text} (past : pastComments sql = some s) : ∃ lead, sql = lead ++ s ∧ FlatLead lead := by
  fun_induction pastComments sql with
  | case1 | case3 => contradiction
  | case2 sql opens nl found ih =>
    obtain ⟨lead, cut, flat⟩ := ih past
    have begins := startsWithIff.mp opens
    have later : nl ≠ 0 := by
      rintro rfl
      have first := (indexOfFits found).1
      obtain ⟨t, same⟩ := begins
      rw [← same, List.drop_zero] at first
      simp [units, newline] at first
    obtain ⟨inner, text, full⟩ := commentFlat List.mem_cons_self begins found (by simp [units]; omega) cut flat
    exact whiteFlat text full
  | case4 sql _ opens e found ih =>
    obtain ⟨lead, cut, flat⟩ := ih past
    have begins := startsWithIff.mp opens
    obtain ⟨inner, text, full⟩ := commentFlat (.tail _ (.head _)) begins found (by simp [units]) cut flat
    exact whiteFlat text full
  | case5 sql =>
    cases past
    exact whiteFlat (List.nil_append _).symm .nil

structure Stands (s : Text) : Prop where
  ink : s.dropWhile isWhite = s
  line : startsWith (units "--") s = false
  block : startsWith (units "/*") s = false

theorem pastStanding {s : Text} (stands : Stands s) : pastComments s = some s := by
  rw [pastComments, stands.ink, stands.line, stands.block]
  simp

theorem pastComment {start close s : Text} {n : Nat} (kind : (start, close) ∈ commentMarks) (begins : start <+: s)
    (found : indexOf close s = some n) : pastComments s = pastComments (s.drop (n + close.length)) := by
  simp only [commentMarks, List.mem_cons, Prod.mk.injEq, List.not_mem_nil, or_false] at kind
  have opens := startsWithIff.mpr begins
  obtain ⟨t, rfl⟩ := begins
  rcases kind with ⟨rfl, rfl⟩ | ⟨rfl, rfl⟩
  · have ink : (units "--" ++ t).dropWhile isWhite = units "--" ++ t := rfl
    rw [pastComments, ink, if_pos opens]
    split <;> rename_i here
    · rw [here] at found
      contradiction
    · rw [here] at found
      rw [Option.some.inj found]
      rfl
  · have ink : (units "/*" ++ t).dropWhile isWhite = units "/*" ++ t := rfl
    rw [pastComments, ink, if_neg (by simp [units, startsWith]), if_pos opens]
    split <;> rename_i here
    · rw [here] at found
      contradiction
    · rw [here] at found
      rw [Option.some.inj found]
      rfl

theorem pastLead {lead s : Text} (flat : FlatLead lead) (stands : Stands s) : pastComments (lead ++ s) = some s := by
  induction flat with
  | nil => exact pastStanding stands
  | white blank more ih =>
    rw [List.cons_append, pastComments, List.dropWhile_cons_of_pos blank, ← pastComments]
    exact ih
  | comment kind begins closes more ih =>
    rename_i start close comment lead
    have fits := (indexOfFits closes).2
    have whole : comment.length - close.length + close.length = comment.length := by omega
    rw [List.append_assoc, pastComment kind (begins.trans (List.prefix_append _ _)) (indexOfAppend closes _), whole, List.drop_left]
    exact ih

end Leads

section Keywords

theorem wordAtIff {text : Text} : wordAt "returning" text = true ↔ ∃ word after, text = word ++ after ∧
    word.map lowerUnit = units "returning" ∧ after.head?.all (!isWordUnit ·) = true := by
  rw [wordAt, Bool.and_eq_true, startsWithIff]
  constructor
  · rintro ⟨begins, ends⟩
    refine ⟨text.take (units "returning").length, _, (List.take_append_drop _ _).symm, ?_, ends⟩
    rw [List.map_take]
    exact (List.prefix_iff_eq_take.mp begins).symm
  · rintro ⟨word, after, rfl, spelled, ends⟩
    have length : (units "returning").length = word.length := by rw [← spelled, List.length_map]
    rw [List.map_append, spelled, length, List.drop_left]
    exact ⟨List.prefix_append _ _, ends⟩

theorem returningInIff {sql : Text} (front : Text) : returningIn front.getLast? sql = true ↔
    ∃ before word after, sql = before ++ (word ++ after) ∧ word.map lowerUnit = units "returning" ∧
      (front ++ before).getLast?.all (!isWordUnit ·) = true ∧ after.head?.all (!isWordUnit ·) = true := by
  induction sql generalizing front with
  | nil =>
    refine ⟨nofun, ?_⟩
    rintro ⟨before, word, after, empty, spelled, -⟩
    simp only [List.nil_eq, List.append_eq_nil_iff] at empty
    rw [empty.2.1] at spelled
    contradiction
  | cons c rest ih =>
    have later := ih (front ++ [c])
    rw [List.getLast?_concat] at later
    rw [returningIn, Bool.or_eq_true, Bool.and_eq_true, wordAtIff, later]
    constructor
    · rintro (⟨apart, word, after, text, spelled, ends⟩ | ⟨before, word, after, text, spelled, apart, ends⟩)
      · refine ⟨[], word, after, text, spelled, ?_, ends⟩
        rw [List.append_nil]
        cases last : front.getLast? with
        | none => rfl
        | some d => simpa [last] using apart
      · exact ⟨c :: before, word, after, by rw [text]; rfl, spelled, by simpa using apart, ends⟩
    · rintro ⟨before, word, after, text, spelled, apart, ends⟩
      cases before with
      | nil =>
        refine .inl ⟨?_, word, after, text, spelled, ends⟩
        rw [List.append_nil] at apart
        cases last : front.getLast? with
        | none => rfl
        | some d => simpa [last] using apart
      | cons d before =>
        obtain ⟨rfl, tail⟩ := List.cons.inj text
        exact .inr ⟨before, word, after, tail, spelled, by simpa using apart, ends⟩

theorem spellsReturning {sql : Text} : returningIn none sql = true ↔ SpellsReturning sql := by
  simpa [SpellsReturning] using @returningInIff sql []

def plainKeyword (sql keyword : Text) : Prop :=
  keyword ∈ rowVerbs.map units ∨ keyword ∈ writeVerbs.map units ∧ SpellsReturning sql

theorem returnsRowsKeyword {sql s : Text} (past : pastComments sql = some s) :
    returnsRows sql = true ↔ plainKeyword sql ((s.takeWhile isLetter).map lowerUnit) := by
  rw [returnsRows, past, plainKeyword, ← spellsReturning]
  dsimp only
  split
  · simp [*]
  · split <;> simp [*]

theorem letterRange {c : Nat} (letter : isLetter c = true) : (65 ≤ c ∧ c ≤ 90 ∨ 97 ≤ c ∧ c ≤ 122) ∨ c = 95 := by
  simpa [isLetter] using letter

theorem letterStands {c : Nat} {s : Text} (letter : isLetter c = true) : Stands (c :: s) := by
  have range := letterRange letter
  have ink : ¬isWhite c = true := fun white => by
    have blank := whiteRange white
    omega
  have dash : 45 ≠ c := by omega
  have slash : 47 ≠ c := by omega
  exact ⟨List.dropWhile_cons_of_neg ink, by simp [startsWith, units, List.isPrefixOf, dash],
    by simp [startsWith, units, List.isPrefixOf, slash]⟩

theorem returnsRowsIff (sql : Text) : returnsRows sql = true ↔ OpensPlainly sql := by
  constructor
  · intro rows
    cases past : pastComments sql with
    | none => simp [returnsRows, past] at rows
    | some s =>
      obtain ⟨lead, cut, flat⟩ := leadBefore past
      refine ⟨lead, s.takeWhile isLetter, s.dropWhile isLetter, ?_, flat, List.all_takeWhile, ?_, (returnsRowsKeyword past).mp rows⟩
      · rw [List.takeWhile_append_dropWhile, cut]
      · have stop := List.head?_dropWhile_not isLetter s
        cases rest : (s.dropWhile isLetter).head? with
        | none => rfl
        | some d => simpa [rest] using stop
  · rintro ⟨lead, word, rest, rfl, flat, letters, ends, keyword⟩
    have spelled := List.all_eq_true.mp letters
    have whole : (word ++ rest).takeWhile isLetter = word := takeWhileStops spelled fun d here => by
      simpa [show rest.head? = some d from here] using ends
    cases word with
    | nil =>
      rcases keyword with row | write
      · exact absurd row (by decide)
      · exact absurd write.1 (by decide)
    | cons c word =>
      have stands : Stands (c :: word ++ rest) := letterStands (spelled c List.mem_cons_self)
      rw [returnsRowsKeyword (pastLead flat stands), whole]
      exact keyword

end Keywords

section Boundaries

def Shut (text : Text) (width : Nat) : Prop :=
  (∃ c, (text.take width).getLast? = some c ∧ isWordUnit c = false) ∨ (text.drop width).head? = some newline

theorem lastLater {c q : CodeUnit} {text : Text} (last : text.getLast? = some q) : (c :: text).getLast? = some q := by
  rw [List.getLast?_cons, last, Option.getD_some]

theorem quotedShut (quote : CodeUnit) (doubling escapes : Bool) (text : Text) :
    scanQuotedTail quote doubling escapes text < text.length →
      (text.take (scanQuotedTail quote doubling escapes text)).getLast? = some quote := by
  fun_induction scanQuotedTail quote doubling escapes text with
  | case1 | case2 => simp
  | case3 c d rest escaped ih =>
    intro short
    exact lastLater (lastLater (ih (by simp only [List.length_cons] at short; omega)))
  | case4 c d rest escaped closing doubled ih =>
    intro short
    exact lastLater (lastLater (ih (by simp only [List.length_cons] at short; omega)))
  | case5 c d rest escaped closing =>
    intro short
    simpa using closing
  | case6 c d rest escaped closing ih =>
    intro short
    exact lastLater (ih (by simp only [List.length_cons] at short ⊢; omega))

theorem blockShut (nested : Bool) (depth : Nat) (text : Text) : scanBlockTail nested depth text < text.length →
    (text.take (scanBlockTail nested depth text)).getLast? = some ('/' : CodeUnit) := by
  fun_induction scanBlockTail nested depth text with
  | case1 | case2 => simp
  | case3 depth c d rest opens ih =>
    intro short
    exact lastLater (lastLater (ih (by simp only [List.length_cons] at short; omega)))
  | case4 c d rest opens closes =>
    intro short
    simp_all
  | case5 depth c d rest opens closes deep ih =>
    intro short
    exact lastLater (lastLater (ih (by simp only [List.length_cons] at short; omega)))
  | case6 depth c d rest opens closes ih =>
    intro short
    exact lastLater (ih (by simp only [List.length_cons] at short ⊢; omega))

theorem scanQuotedShut {quote : CodeUnit} (apart : isWordUnit quote = false) (doubling escapes : Bool) {text : Text}
    (short : scanQuoted quote doubling escapes text < text.length) : Shut text (scanQuoted quote doubling escapes text) := by
  cases text with
  | nil => simp at short
  | cons c rest =>
    have last := quotedShut quote doubling escapes rest (by
      simp only [scanQuoted, List.drop_one, List.tail_cons, List.length_cons] at short
      omega)
    refine .inl ⟨quote, ?_, apart⟩
    rw [scanQuoted, List.drop_one, List.tail_cons, Nat.add_comm, List.take_succ_cons]
    exact lastLater last

theorem shutLater {c : CodeUnit} {text : Text} {width : Nat} (shut : Shut text width) : Shut (c :: text) (1 + width) := by
  rw [Shut, Nat.add_comm, List.take_succ_cons, List.drop_succ_cons]
  exact shut.imp (fun ⟨q, last, apart⟩ => ⟨q, lastLater last, apart⟩) id

theorem foundShut {mark text : Text} {n : Nat} {q : CodeUnit} (found : indexOf mark text = some n) (last : mark.getLast? = some q)
    (apart : isWordUnit q = false) : Shut text (n + mark.length) := by
  obtain ⟨tail, cut⟩ := (indexOfFits found).1
  have text_ : text = text.take n ++ (mark ++ tail) := by rw [cut, List.take_append_drop]
  have taken : text.take (n + mark.length) = text.take n ++ mark := by
    rw [List.take_add, ← cut, List.take_left]
  exact .inl ⟨q, by rw [taken, List.getLast?_append, last]; rfl, apart⟩

theorem shutBehind {front text : Text} {width : Nat} (shut : Shut text width) : Shut (front ++ text) (front.length + width) := by
  induction front with
  | nil => simpa using shut
  | cons c front ih =>
    rw [List.length_cons, Nat.add_right_comm, Nat.add_comm _ 1]
    exact shutLater ih

theorem tagLast {text tag : Text} (found : dollarTagAt text = some tag) : tag.getLast? = some ('$' : CodeUnit) := by
  cases text with
  | nil => contradiction
  | cons dollar rest =>
    simp only [dollarTagAt] at found
    split at found
    · rw [← Option.some.inj found]
      exact List.getLast?_concat
    · contradiction

theorem openerShut {rules : DialectRules} {before text : Text} {opener : Opener} (found : openerAt rules before text = some opener)
    (short : opener.scan rules text < text.length) : Shut text (opener.scan rules text) := by
  have stands := openerStands found
  cases opener with
  | dashComment | hashComment =>
    simp only [Opener.scan, scanLineComment] at short ⊢
    split at short
    · rename_i n here
      obtain ⟨tail, cut⟩ := (indexOfFits here).1
      exact .inr (by rw [← cut]; rfl)
    · omega
  | blockComment =>
    obtain ⟨c, d, rest, rfl⟩ : ∃ c d rest, text = c :: d :: rest := by
      obtain _ | ⟨c, _ | ⟨d, rest⟩⟩ := text
      · exact absurd (show 2 ≤ 0 from stands) (by decide)
      · exact absurd (show 2 ≤ 1 from stands) (by decide)
      · exact ⟨c, d, rest, rfl⟩
    have last := blockShut rules.nestedBlockComments 1 rest (by
      simp only [Opener.scan, scanBlockComment, List.drop_succ_cons, List.drop_zero, List.length_cons] at short
      omega)
    refine .inl ⟨('/' : CodeUnit), ?_, by decide⟩
    rw [Opener.scan, scanBlockComment, Nat.add_comm, List.drop_succ_cons, List.drop_succ_cons, List.drop_zero]
    exact lastLater (lastLater last)
  | escapeString =>
    cases text with
    | nil => simp at short
    | cons c rest =>
      refine shutLater (scanQuotedShut (by decide) true true ?_)
      simp only [Opener.scan, List.drop_succ_cons, List.drop_zero, List.length_cons] at short
      omega
  | plainString => exact scanQuotedShut (by decide) _ _ short
  | doubleQuoted => exact scanQuotedShut (by decide) _ _ short
  | backtickQuoted => exact scanQuotedShut (by decide) _ _ short
  | bracketed =>
    cases text with
    | nil => simp at short
    | cons c rest =>
      simp only [Opener.scan, scanBracket, List.drop_succ_cons, List.drop_zero] at short ⊢
      split at short
      · rename_i n here
        rw [Nat.add_assoc]
        exact shutLater (foundShut here rfl (by decide))
      · omega
  | dollarQuoted tag =>
    simp only [Opener.scan, scanDollarQuoted] at short ⊢
    split at short
    · rename_i n here
      obtain ⟨rest, rfl⟩ := dollarTagPrefix stands
      rw [List.drop_left] at here
      rw [Nat.add_assoc]
      exact shutBehind (foundShut here (tagLast stands) (by decide))
    · omega

def Fresh (c : Config CodeUnit Nat) : Prop := c.before.head?.any isWordUnit = true → c.rest.head?.any isLetter = false

theorem shutFresh {text : Text} {width : Nat} (shut : Shut text width) :
    (∃ q, (text.take width).getLast? = some q ∧ isWordUnit q = false) ∨ (text.drop width).head?.any isLetter = false := by
  refine shut.imp_right fun head => ?_
  rw [head]
  rfl

theorem wordUnitRange {c : Nat} (joined : isWordUnit c = true) : isIdentStart c = true ∨ isDigit c = true := by
  have range : ((48 ≤ c ∧ c ≤ 57 ∨ 65 ≤ c ∧ c ≤ 90) ∨ 97 ≤ c ∧ c ≤ 122) ∨ c = 95 := by simpa [isWordUnit] using joined
  simp only [isIdentStart, isDigit, Bool.or_eq_true, Bool.and_eq_true, decide_eq_true_eq, beq_iff_eq]
  rcases range with ((digit | capital) | small) | line
  · exact .inr digit
  · exact .inl (.inl (.inl (.inl capital)))
  · exact .inl (.inl (.inl (.inr small)))
  · exact .inl (.inl (.inr line))

theorem wordUnitPart {c : CodeUnit} (joined : isWordUnit c = true) : isIdentPart c = true := by
  rcases wordUnitRange joined with start | digit
  · rw [isIdentPart, start]
    rfl
  · simp only [isDigit, Bool.and_eq_true, decide_eq_true_eq] at digit
    simp [isIdentPart, digit]

theorem spaceApart {c : CodeUnit} (space : isSpace c = true) : isWordUnit c = false := by
  simp only [isSpace, Bool.or_eq_true, beq_iff_eq] at space
  rcases space with ((((rfl | rfl) | rfl) | rfl) | rfl) | rfl <;> rfl

theorem identLetter {c : Nat} (letter : isLetter c = true) : isIdentPart c = true := by
  have range := letterRange letter
  have part : ((65 ≤ c ∧ c ≤ 90 ∨ 97 ≤ c ∧ c ≤ 122) ∨ c = 95) ∨ 128 ≤ c := .inl range
  simp only [isIdentPart, isIdentStart, Bool.or_eq_true, Bool.and_eq_true, decide_eq_true_eq, beq_iff_eq]
  exact .inl (.inl part)

theorem numberLetter {c : Nat} (letter : isLetter c = true) : isNumberPart c = true := by
  have range := letterRange letter
  have part : (65 ≤ c ∧ c ≤ 90) ∨ (97 ≤ c ∧ c ≤ 122) ∨ c = 95 := by omega
  simp only [isNumberPart, Bool.or_eq_true, Bool.and_eq_true, decide_eq_true_eq, beq_iff_eq]
  rcases part with capital | small | line
  · exact .inl (.inl (.inl (.inr capital)))
  · exact .inl (.inl (.inr small))
  · exact .inl (.inr line)

theorem runStops {p : CodeUnit → Bool} (letters : ∀ c, isLetter c = true → p c = true) (more : Text) :
    (more.drop (more.takeWhile p).length).head?.any isLetter = false := by
  have stop := takeWhileHead p more
  cases head : (more.drop (more.takeWhile p).length).head? with
  | none => rfl
  | some c =>
    rw [Option.any_some, Bool.eq_false_iff]
    exact fun letter => Bool.eq_false_iff.mp (stop c head) (letters c letter)

theorem stepFresh {rules : DialectRules} {depth : Nat} {before more : Text} {d : CodeUnit}
    (short : (tokenStep rules depth before (d :: more)).width < (d :: more).length) :
    (∃ q, ((d :: more).take (tokenStep rules depth before (d :: more)).width).getLast? = some q ∧ isWordUnit q = false) ∨
      ((d :: more).drop (tokenStep rules depth before (d :: more)).width).head?.any isLetter = false := by
  have single (apart : isWordUnit d = false) : ∃ q, ((d :: more).take 1).getLast? = some q ∧ isWordUnit q = false := ⟨d, rfl, apart⟩
  unfold tokenStep at short ⊢
  dsimp only at short ⊢
  by_cases space : isSpace d = true
  · rw [if_pos space]
    exact .inl (single (spaceApart space))
  · rw [if_neg space] at short ⊢
    cases form : openerAt rules before (d :: more) with
    | some opener =>
      rw [form] at short
      have width : opener.scan rules (d :: more) < (d :: more).length := by
        cases kind : openerKind opener <;> simpa only [kind] using short
      have shut := shutFresh (openerShut form width)
      cases kind : openerKind opener <;> simpa only [kind] using shut
    | none =>
      dsimp only
      by_cases start : isIdentStart d = true
      · rw [if_pos start, Nat.add_comm, List.drop_succ_cons]
        exact .inr (runStops (fun _ => identLetter) more)
      · rw [if_neg start]
        by_cases digit : isDigit d = true
        · rw [if_pos digit, Nat.add_comm, List.drop_succ_cons]
          exact .inr (runStops (fun _ => numberLetter) more)
        · have apart : isWordUnit d = false := Bool.eq_false_iff.mpr fun joined =>
            (wordUnitRange joined).elim start digit
          rw [if_neg digit]
          split
          · exact .inl (single apart)
          · split <;> exact .inl (single apart)

theorem freshNext {c : Config CodeUnit Nat} (some : c.rest ≠ []) : Fresh (c.next (tokenStep (rulesOf .postgres))) := by
  obtain ⟨depth, before, rest⟩ := c
  cases rest with
  | nil => exact absurd rfl some
  | cons d more =>
    intro joined
    simp only [Config.next] at joined ⊢
    rcases Nat.lt_or_ge (tokenStep (rulesOf .postgres) depth before (d :: more)).width (d :: more).length with short | whole
    · rcases stepFresh short with ⟨q, last, apart⟩ | stops
      · rw [List.head?_append, List.head?_reverse, last, Option.some_or, Option.any_some, apart] at joined
        contradiction
      · exact stops
    · rw [List.drop_eq_nil_of_le whole]
      rfl

theorem freshPath {c c' : Config CodeUnit Nat} {outs : List SqlToken} (path : Path (tokenStep (rulesOf .postgres)) c outs c')
    (fresh : Fresh c) : Fresh c' := by
  induction path with
  | refl => exact fresh
  | turn some _ ih => exact ih (freshNext some)

end Boundaries

section FirstTokens
variable {sql : Text} {t : SqlToken}

structure Found (sql : Text) (t : SqlToken) (before rest after : Text) : Prop where
  text : sql = before.reverse ++ rest
  fresh : before.head?.any isWordUnit = true → rest.head?.any isLetter = false
  start : sql.take t.start = before.reverse
  split : rest = t.text ++ after
  word : t.kind = .word → t.text ≠ [] ∧ ∀ d ∈ after.head?, isIdentPart d = false

theorem wordOut {c : Config CodeUnit Nat} (member : t ∈ c.out (tokenStep (rulesOf .postgres))) (word : t.kind = .word) :
    ∃ d more, c.rest = d :: more ∧ t.text = d :: more.takeWhile isIdentPart := by
  obtain ⟨depth, before, rest⟩ := c
  cases rest with
  | nil => simp [Config.out, tokenStep] at member
  | cons d more =>
    refine ⟨d, more, rfl, ?_⟩
    simp only [Config.out, tokenStep] at member
    split at member
    · simp at member
    · split at member
      · rename_i opener _
        cases form : openerKind opener with
        | none => simp [form] at member
        | some kind =>
          simp only [form, List.mem_singleton] at member
          subst member
          cases opener <;> simp [openerKind, tokenOf] at form word <;> simp [← form] at word
      · split at member
        · rw [List.mem_singleton.mp member]
          simp only [tokenOf, Nat.add_comm 1, List.take_succ_cons]
          rw [← List.prefix_iff_eq_take.mp (List.takeWhile_prefix isIdentPart)]
        · repeat' split at member
          all_goals
            rw [List.mem_singleton.mp member] at word
            contradiction

theorem foundAt (member : t ∈ tokensOf sql) : ∃ before rest after, Found sql t before rest after := by
  have here : t ∈ runAt (tokenStep (rulesOf .postgres)) (fun _ _ => []) ⟨0, [], sql⟩ := member
  obtain ⟨outs, c, path, read | ended⟩ := runMember (tokenProgress _) here
  · obtain ⟨kind, width, depth, rfl⟩ := tokenOut read.2
    have text : sql = c.before.reverse ++ c.rest := path.text.symm
    refine ⟨c.before, c.rest, c.rest.drop width, text, freshPath path nofun, ?_, (List.take_append_drop width c.rest).symm, fun word => ?_⟩
    · have start : (tokenOf kind c.before c.rest width depth).start = c.before.reverse.length := by simp [tokenOf]
      rw [text, start, List.take_left]
    · obtain ⟨d, more, rest, spelled⟩ := wordOut read.2 word
      have cut := (List.take_append_drop width c.rest).symm
      rw [show c.rest.take width = _ from spelled, rest, List.cons_append, List.cons.injEq, and_iff_right rfl] at cut
      have after : (d :: more).drop width = more.dropWhile isIdentPart :=
        List.append_cancel_left (cut.symm.trans List.takeWhile_append_dropWhile.symm)
      rw [spelled, rest, after]
      refine ⟨List.cons_ne_nil _ _, fun e head => ?_⟩
      have stop := List.head?_dropWhile_not isIdentPart more
      rw [show (more.dropWhile isIdentPart).head? = some e from head] at stop
      exact stop
  · exact absurd ended.2 List.not_mem_nil

def openers : List String :=
  ["WITH", "SELECT", "TABLE", "VALUES", "SHOW", "DESCRIBE", "DESC", "EXPLAIN", "INSERT", "UPDATE", "DELETE", "MERGE"]

theorem isOneOfIff {words : List String} : isOneOf t words = true ↔ t.kind = .word ∧ t.upper ∈ words.map units := by
  simp only [isOneOf, isWord, List.any_eq_true, Bool.and_eq_true, decide_eq_true_eq, List.mem_map]
  constructor
  · rintro ⟨word, member, kind, upper⟩
    exact ⟨kind, word, member, upper.symm⟩
  · rintro ⟨kind, word, member, upper⟩
    exact ⟨word, member, kind, upper.symm⟩

theorem isWordOf {word : String} {words : List String} (member : word ∈ words) (here : isWord t word = true) :
    isOneOf t words = true := List.any_eq_true.mpr ⟨word, member, here⟩

theorem openerOf {words : List String} (within : ∀ w ∈ words, w ∈ openers) (here : isOneOf t words = true) :
    isOneOf t openers = true := by
  obtain ⟨word, member, spelled⟩ := List.any_eq_true.mp here
  exact isWordOf (within word member) spelled

theorem kindOpens {kind : StatementKind} (verb : kindForVerb t = some kind) (reads : kind = .select ∨ kind = .explain) :
    isOneOf t openers = true := by
  by_cases row : isOneOf t selectish = true
  · exact @openerOf t selectish (by decide) row
  · by_cases explain : isWord t "EXPLAIN" = true
    · exact isWordOf (by decide) explain
    · rw [kindForVerb, if_neg row, if_neg explain] at verb
      rcases reads with rfl | rfl
      all_goals
        repeat' split at verb
        all_goals exact absurd verb (by decide)

theorem verbOpens {kind : StatementKind} {set start : Bool} (reads : kind = .select ∨ kind = .explain)
    (here : (if isWord t "SET" = true then if set = true then StatementKind.transaction else .other
      else if isWord t "START" = true then if start = true then StatementKind.transaction else .other
      else (kindForVerb t).getD .other) = kind) : isOneOf t openers = true := by
  have apart : StatementKind.transaction ≠ kind ∧ StatementKind.other ≠ kind := by
    rcases reads with rfl | rfl <;> decide
  split at here
  · split at here
    · exact absurd here apart.1
    · exact absurd here apart.2
  · split at here
    · split at here
      · exact absurd here apart.1
      · exact absurd here apart.2
    · cases verb : kindForVerb t with
      | none => exact absurd (by rw [← here, verb]; rfl) apart.2
      | some found => exact kindOpens verb (by rwa [← here, verb] at reads)

theorem firstToken (rows : HasRows sql) : ∃ t rest, tokensOf sql = t :: rest ∧
    (isMark t "(" = true ∨ isMark t "(" = false ∧ isOneOf t openers = true) := by
  unfold HasRows at rows
  rw [classifyStatement, show tokenize sql (rulesOf .postgres) = tokensOf sql from rfl] at rows
  cases tokens : tokensOf sql with
  | nil => simp [tokens, classifyTokens, returning, verbAt, pastParens] at rows
  | cons t rest =>
    refine ⟨t, rest, rfl, ?_⟩
    cases paren : isMark t "(" with
    | true => exact .inl rfl
    | false =>
      refine .inr ⟨rfl, ?_⟩
      have past : pastParens (t :: rest) = t :: rest := List.dropWhile_cons_of_neg (by simp [paren])
      rw [tokens, returning, verbAt, classifyTokens, past] at rows
      dsimp only at rows
      by_cases starts : isWord t "WITH" = true
      · exact isWordOf (by decide) starts
      · rw [if_neg starts, if_neg starts] at rows
        by_cases kind : t.kind = .word
        · rw [if_neg (not_not.mpr kind), if_pos kind] at rows
          rcases rows with row | explain | write
          · exact verbOpens (.inl rfl) row
          · exact verbOpens (.inr rfl) explain
          · exact @openerOf t ["INSERT", "UPDATE", "DELETE", "MERGE"] (by decide) (Bool.and_eq_true_iff.mp write).1
        · simp [kind] at rows

end FirstTokens

section Spelling

def PlainWord (sql : Text) (t : SqlToken) : Prop :=
  isMark t "(" = false ∧ t.text.all isLetter = true ∧ isOneOf t ["DESC", "DESCRIBE"] = false ∧
    (writes t = true → SpellsReturning sql)

theorem upperLetter {c : Nat} (letter : isLetter c = true) : upperUnit c = upperUnit (lowerUnit c) ∧
    (upperUnit c).map lowerUnit = [lowerUnit c] := by
  have letters : ∀ c : Nat, c < 123 → isLetter c = true →
      upperUnit c = upperUnit (lowerUnit c) ∧ (upperUnit c).map lowerUnit = [lowerUnit c] := by decide
  have range := letterRange letter
  exact letters c (by omega) letter

theorem choiceFull {p : Prop} [Decidable p] {a b : Text} (first : a ≠ []) (second : b ≠ []) : (if p then a else b) ≠ [] := by
  split
  · exact first
  · exact second

theorem upperFull (c : CodeUnit) : upperUnit c ≠ [] := by
  unfold upperUnit
  repeat' apply choiceFull
  all_goals exact List.cons_ne_nil _ _

theorem upperNone {w : Text} (none : toUpperCase w = []) : w = [] := by
  cases w with
  | nil => rfl
  | cons c w =>
    rw [toUpperCase, List.flatMap_cons, List.append_eq_nil_iff] at none
    exact absurd none.1 (upperFull c)

theorem upperAppend (v w : Text) : toUpperCase (v ++ w) = toUpperCase v ++ toUpperCase w := List.flatMap_append

theorem upperLower {w : Text} (letters : ∀ c ∈ w, isLetter c = true) :
    toUpperCase (w.map lowerUnit) = toUpperCase w ∧ (toUpperCase w).map lowerUnit = w.map lowerUnit := by
  induction w with
  | nil => exact ⟨rfl, rfl⟩
  | cons c w ih =>
    obtain ⟨upper, lower⟩ := ih fun d member => letters d (List.mem_cons_of_mem _ member)
    obtain ⟨first, back⟩ := upperLetter (letters c List.mem_cons_self)
    constructor
    · simp only [List.map_cons, toUpperCase, List.flatMap_cons] at upper ⊢
      rw [upper, ← first]
    · simp only [List.map_cons, toUpperCase, List.flatMap_cons, List.map_append] at lower ⊢
      rw [lower, back]
      rfl

theorem verbCut : ∀ k ∈ openers, ∀ l ∈ rowVerbs ++ writeVerbs, toUpperCase (units l) <+: units k →
    toUpperCase (units l) = units k ∧ k ∉ ["DESC", "DESCRIBE"] ∧ (l ∈ writeVerbs ↔ k ∈ ["INSERT", "UPDATE", "DELETE", "MERGE"]) := by
  decide

theorem verbWhole : ∀ k ∈ openers, k ∉ ["DESC", "DESCRIBE"] → ∃ l ∈ rowVerbs ++ writeVerbs, (units k).map lowerUnit = units l ∧
    (l ∈ writeVerbs ↔ k ∈ ["INSERT", "UPDATE", "DELETE", "MERGE"]) := by
  decide

theorem keywordWithin {after : Text} (ends : ∀ d ∈ after.head?, isLetter d = false) (w : Text) :
    (w ++ after).takeWhile isLetter <+: w := by
  have none : after.takeWhile isLetter = [] := by
    cases after with
    | nil => rfl
    | cons d after => simp [ends d rfl]
  rw [List.takeWhile_append]
  split
  · rw [none, List.append_nil]
  · exact List.takeWhile_prefix _

theorem verbOf {keyword : Text} (plain : plainKeyword sql keyword) : ∃ l ∈ rowVerbs ++ writeVerbs, keyword = units l ∧
    (l ∈ writeVerbs → SpellsReturning sql) := by
  rcases plain with row | ⟨write, spells⟩
  · obtain ⟨l, verb, rfl⟩ := List.mem_map.mp row
    have apart : ∀ l ∈ rowVerbs, l ∉ writeVerbs := by decide
    exact ⟨l, List.mem_append_left _ verb, rfl, fun here => absurd here (apart l verb)⟩
  · obtain ⟨l, verb, rfl⟩ := List.mem_map.mp write
    exact ⟨l, List.mem_append_right _ verb, rfl, fun _ => spells⟩

theorem keywordPlain {w after : Text} {k : String} (opener : k ∈ openers) (upper : toUpperCase w = units k)
    (ends : ∀ d ∈ after.head?, isLetter d = false) :
    plainKeyword sql (((w ++ after).takeWhile isLetter).map lowerUnit) ↔
      w.all isLetter = true ∧ k ∉ ["DESC", "DESCRIBE"] ∧ (k ∈ ["INSERT", "UPDATE", "DELETE", "MERGE"] → SpellsReturning sql) := by
  constructor
  · intro plain
    have spelled : ∀ c ∈ (w ++ after).takeWhile isLetter, isLetter c = true := fun c member => List.mem_takeWhile_imp member
    have within := keywordWithin ends w
    generalize (w ++ after).takeWhile isLetter = keyword at plain spelled within
    obtain ⟨tail, rfl⟩ := within
    obtain ⟨l, verb, lower, write⟩ := verbOf plain
    have same := (upperLower spelled).1
    rw [lower] at same
    rw [upperAppend, ← same] at upper
    obtain ⟨whole, reads, writes⟩ := verbCut k opener l verb (upper ▸ List.prefix_append _ _)
    have none : toUpperCase tail = [] := List.append_right_eq_self.mp (upper.trans whole.symm)
    rw [upperNone none, List.append_nil]
    exact ⟨List.all_eq_true.mpr spelled, reads, fun here => write (writes.mpr here)⟩
  · intro ⟨letters, reads, write⟩
    have spelled := List.all_eq_true.mp letters
    obtain ⟨l, verb, lower, writes⟩ := verbWhole k opener reads
    rw [takeWhileStops spelled ends, ← (upperLower spelled).2, upper, lower]
    rcases List.mem_append.mp verb with row | here
    · exact .inl (List.mem_map_of_mem row)
    · exact .inr ⟨List.mem_map_of_mem here, write (writes.mp here)⟩

theorem upperSelf {c : Nat} (white : isWhite c = true ∨ c = 45 ∨ c = 47) : upperUnit c = [c] := by
  have range : c ≤ 47 ∨ c = 0xA0 ∨ 0x1680 ≤ c ∧ c ≤ 0x3000 ∨ c = 0xFEFF := by
    rcases white with white | rfl | rfl
    · have blank := whiteRange white
      omega
    all_goals decide
  have small : ¬((97 : Nat) ≤ c ∧ c ≤ 122) := by omega
  have apart (n : Nat) (other : 47 < n ∧ n < 0xA0 ∨ 0xA0 < n ∧ n < 0x1680 ∨ 0x3000 < n ∧ n < 0xFEFF) : c ≠ n := by omega
  rw [upperUnit, if_neg small]
  iterate 10 rw [if_neg (apart _ (by decide))]

theorem shoutStands {c : Nat} {w after : Text} {k : String} (opener : k ∈ openers) (shout : toUpperCase (c :: w) = units k) :
    Stands (c :: w ++ after) := by
  have capitals : ∀ k ∈ openers, ∀ d ∈ units k, (65 : Nat) ≤ d ∧ d ≤ 90 := by decide
  have other (plain : isWhite c = true ∨ c = 45 ∨ c = 47) : False := by
    have member : c ∈ units k := by
      rw [← shout, toUpperCase, List.flatMap_cons, upperSelf plain]
      exact List.mem_cons_self
    have capital : (65 : Nat) ≤ c ∧ c ≤ 90 := capitals k opener c member
    rcases plain with white | rfl | rfl
    · have blank := whiteRange white
      omega
    all_goals omega
  have dash : 45 ≠ c := fun same => other (.inr (.inl same.symm))
  have slash : 47 ≠ c := fun same => other (.inr (.inr same.symm))
  exact ⟨List.dropWhile_cons_of_neg fun white => other (.inl white), by simp [startsWith, units, List.isPrefixOf, dash],
    by simp [startsWith, units, List.isPrefixOf, slash]⟩

theorem plainFirst {rest : List SqlToken} (first : tokensOf sql = t :: rest)
    (kind : isMark t "(" = true ∨ isMark t "(" = false ∧ isOneOf t openers = true)
    (flat : FlatLead (sql.take t.start)) : OpensPlainly sql ↔ PlainWord sql t := by
  have member : t ∈ tokensOf sql := first ▸ List.mem_cons_self
  obtain ⟨before, s, after, found⟩ := foundAt member
  rw [found.start] at flat
  rw [← returnsRowsIff]
  rcases kind with paren | ⟨bare, opener⟩
  · have open_ : t.text = units "(" := of_decide_eq_true paren
    have stands : Stands s := by
      rw [found.split, open_]
      exact ⟨rfl, rfl, rfl⟩
    have past := pastLead flat stands
    rw [← found.text] at past
    rw [returnsRowsKeyword past, PlainWord, paren, found.split, open_]
    simp [plainKeyword, units, isLetter, rowVerbs, writeVerbs]
  · obtain ⟨word, upper⟩ := isOneOfIff.mp opener
    obtain ⟨k, verb, spelled⟩ := List.mem_map.mp upper
    have shout : toUpperCase t.text = units k := by rw [spelled, tokenUpper member, if_pos word]
    obtain ⟨full, ends⟩ := found.word word
    have stops : ∀ d ∈ after.head?, isLetter d = false := fun d head =>
      Bool.eq_false_iff.mpr fun letter => Bool.eq_false_iff.mp (ends d head) (identLetter letter)
    have stands : Stands s := by
      rw [found.split]
      cases text : t.text with
      | nil => exact absurd text full
      | cons c w => exact shoutStands verb (text ▸ shout)
    have past := pastLead flat stands
    rw [← found.text] at past
    have among (words : List String) : isOneOf t words = true ↔ k ∈ words := by
      rw [isOneOfIff, ← spelled, List.mem_map_of_injective unitsInjective]
      exact and_iff_right word
    rw [returnsRowsKeyword past, found.split, keywordPlain verb shout stops, PlainWord, bare, writes, among, ← among,
      Bool.not_eq_true]
    exact (and_iff_right rfl).symm

theorem returningSpelled {r : SqlToken} (member : r ∈ tokensOf sql) (here : isWord r "RETURNING" = true)
    (letters : r.text.all isLetter = true) : SpellsReturning sql := by
  obtain ⟨before, rest, after, found⟩ := foundAt member
  simp only [isWord, Bool.and_eq_true, decide_eq_true_eq] at here
  obtain ⟨full, ends⟩ := found.word here.1
  have shout : toUpperCase r.text = units "RETURNING" := by rw [← here.2, tokenUpper member, if_pos here.1]
  have spelled := List.all_eq_true.mp letters
  refine ⟨before.reverse, r.text, after, by rw [found.text, found.split], ?_, ?_, ?_⟩
  · rw [← (upperLower spelled).2, shout]
    rfl
  · have apart : before.head?.any isWordUnit = false := Bool.eq_false_iff.mpr fun joined => by
      have stops := found.fresh joined
      rw [found.split] at stops
      cases text : r.text with
      | nil => exact full text
      | cons c w =>
        rw [text, List.cons_append, List.head?_cons, Option.any_some] at stops
        exact Bool.eq_false_iff.mp stops (spelled c (text ▸ List.mem_cons_self))
    rw [List.getLast?_reverse]
    cases head : before.head? with
    | none => rfl
    | some d => simpa [head] using apart
  · cases head : after.head? with
    | none => rfl
    | some d =>
      have stop := ends d head
      have apart : isWordUnit d = false := Bool.eq_false_iff.mpr fun joined => Bool.eq_false_iff.mp stop (wordUnitPart joined)
      simp [apart]

theorem rowsReturned (sql : Text) (rows : HasRows sql) : (returnsRows sql = true ↔ OpensPlainly sql) ∧
    (∃ t rest, tokensOf sql = t :: rest ∧ (FlatLead (sql.take t.start) → (OpensPlainly sql ↔ PlainWord sql t))) ∧
    ∀ r ∈ tokensOf sql, isWord r "RETURNING" = true → r.text.all isLetter = true → SpellsReturning sql := by
  obtain ⟨t, rest, first, kind⟩ := firstToken rows
  exact ⟨returnsRowsIff sql, ⟨t, rest, first, plainFirst first kind⟩, fun r member => returningSpelled member⟩

def returningDelete : Text := units "/* one */ DELETE FROM t WHERE id = 1 RETURNING id"

theorem returningDeleteRead : returnsRows returningDelete = true ↔ OpensPlainly returningDelete :=
  (rowsReturned returningDelete (.inr (.inr (by decide +kernel)))).1

def unionOfSelects : Text := units "(SELECT 1) UNION (SELECT 2)"

theorem unionDropped : HasRows unionOfSelects ∧ returnsRows unionOfSelects = false := by
  refine ⟨.inl (by decide +kernel), ?_⟩
  rw [returnsRows, pastStanding ⟨rfl, rfl, rfl⟩]
  decide +kernel

end Spelling

end DatabaseAdmin.ReturnedRows
