import DatabaseAdmin.SqlDialect

/-! The scanners of the lexer. Each takes the text from its construct on and
returns how many units the construct has, so an offset of the source is the
length of what was passed before. `before` is what was passed, nearest first.
A scanner that stops short of the end of its text stops there whatever follows. -/
namespace DatabaseAdmin
open CodeUnits

def scanQuotedTail (quote : CodeUnit) (doubling escapes : Bool) : Text → Nat
  | [] => 0
  | [_] => 1
  | c :: d :: rest =>
      if escapes && c == backslash then scanQuotedTail quote doubling escapes rest + 2
      else if c == quote then
        if doubling && d == quote then scanQuotedTail quote doubling escapes rest + 2 else 1
      else scanQuotedTail quote doubling escapes (d :: rest) + 1

def scanQuoted (quote : CodeUnit) (doubling escapes : Bool) (text : Text) : Nat :=
  1 + scanQuotedTail quote doubling escapes (text.drop 1)

def scanBracket (text : Text) : Nat :=
  match indexOf [']'] (text.drop 1) with
  | some n => 1 + n + 1
  | none => text.length

def scanLineComment (text : Text) : Nat :=
  match indexOf ['\n'] text with
  | some n => n
  | none => text.length

def scanBlockTail (nested : Bool) : Nat → Text → Nat
  | _, [] => 0
  | _, [_] => 1
  | depth, c :: d :: rest =>
      if nested && c == '/' && d == '*' then scanBlockTail nested (depth + 1) rest + 2
      else if c == '*' && d == '/' then
        if depth == 1 then 2 else scanBlockTail nested (depth - 1) rest + 2
      else scanBlockTail nested depth (d :: rest) + 1

def scanBlockComment (nested : Bool) (text : Text) : Nat :=
  2 + scanBlockTail nested 1 (text.drop 2)

def tagName : Text → Text
  | [] => []
  | c :: rest => if isTagStart c then c :: rest.takeWhile isTagPart else []

def dollarTagAt : Text → Option Text
  | [] => none
  | dollar :: rest =>
      if (rest.drop (tagName rest).length).head? = some ('$' : CodeUnit)
      then some (dollar :: tagName rest ++ units "$") else none

def scanDollarQuoted (tag text : Text) : Nat :=
  match indexOf tag (text.drop tag.length) with
  | some n => tag.length + n + tag.length
  | none => text.length

def nextIs (c : CodeUnit) (text : Text) : Bool := text.head? == some c

inductive Opener where
  | dashComment
  | hashComment
  | blockComment
  | escapeString
  | plainString
  | doubleQuoted
  | backtickQuoted
  | bracketed
  | dollarQuoted (tag : Text)
  deriving DecidableEq, Repr

def openerAt (rules : DialectRules) (before : Text) : Text → Option Opener
  | [] => none
  | c :: more =>
      if c == '-' && nextIs '-' more &&
          (!rules.dashDashNeedsSpace || (more.drop 1).head?.all isSpace) then some .dashComment
      else if rules.hashComments && c == '#' then some .hashComment
      else if c == '/' && nextIs '*' more then some .blockComment
      else if rules.escapeStringPrefix && (c == 'E' || c == 'e') && nextIs apostrophe more &&
          !before.head?.any isIdentPart then some .escapeString
      else if c == apostrophe then some .plainString
      else if c == doubleQuote then some .doubleQuoted
      else if rules.backtickIdent && c == backtick then some .backtickQuoted
      else if rules.bracketIdent && c == '[' then some .bracketed
      else if rules.dollarQuoting && c == '$' then (dollarTagAt (c :: more)).map .dollarQuoted
      else none

namespace Opener

def scan (rules : DialectRules) (text : Text) : Opener → Nat
  | dashComment | hashComment => scanLineComment text
  | blockComment => scanBlockComment rules.nestedBlockComments text
  | escapeString => 1 + scanQuoted apostrophe true true (text.drop 1)
  | plainString => scanQuoted apostrophe true rules.backslashEscapes text
  | doubleQuoted =>
      scanQuoted doubleQuote true (rules.doubleQuoteIsString && rules.backslashEscapes) text
  | backtickQuoted => scanQuoted backtick true false text
  | bracketed => scanBracket text
  | dollarQuoted tag => scanDollarQuoted tag text

def isComment : Opener → Bool
  | dashComment | hashComment | blockComment => true
  | _ => false

def Stands (text : Text) : Opener → Prop
  | dashComment => text.head? = some ('-' : CodeUnit)
  | hashComment => text.head? = some ('#' : CodeUnit)
  | blockComment => 2 ≤ text.length
  | escapeString => 2 ≤ text.length
  | dollarQuoted tag => dollarTagAt text = some tag
  | _ => text ≠ []

end Opener

def Fits (scan : Text → Nat) : Prop := ∀ text, scan text ≤ text.length

def Settles (scan : Text → Nat) : Prop :=
  ∀ text more, scan text < text.length → scan (text ++ more) = scan text

section Quoted
variable (quote : CodeUnit) (doubling escapes : Bool)

theorem scanQuotedTailFits : Fits (scanQuotedTail quote doubling escapes) := by
  intro text
  fun_induction scanQuotedTail quote doubling escapes text <;> simp_all

theorem scanQuotedTailSettles : Settles (scanQuotedTail quote doubling escapes) := by
  intro text more
  fun_induction scanQuotedTail quote doubling escapes text with
  | case1 => simp
  | case2 => simp
  | case3 c d rest escaped ih =>
    intro short
    simp only [List.length_cons] at short
    simp only [List.cons_append, scanQuotedTail, if_pos escaped, ih (by omega)]
  | case4 c d rest escaped closing doubled ih =>
    intro short
    simp only [List.length_cons] at short
    simp only [List.cons_append, scanQuotedTail, if_neg escaped, if_pos closing, if_pos doubled,
      ih (by omega)]
  | case5 c d rest escaped closing doubled =>
    intro _
    simp only [List.cons_append, scanQuotedTail, if_neg escaped, if_pos closing, if_neg doubled]
  | case6 c d rest escaped closing ih =>
    intro short
    simp only [List.length_cons] at short ih
    have tail := ih (by omega)
    rw [List.cons_append] at tail
    simp only [List.cons_append, scanQuotedTail, if_neg escaped, if_neg closing, tail]

theorem scanQuotedFits {text : Text} (open_ : text ≠ []) :
    scanQuoted quote doubling escapes text ≤ text.length := by
  cases text with
  | nil => exact absurd rfl open_
  | cons c rest =>
    have tail := scanQuotedTailFits quote doubling escapes rest
    simp only [scanQuoted, List.drop_one, List.tail_cons, List.length_cons]
    omega

theorem scanQuotedSettles {text : Text} (more : Text)
    (short : scanQuoted quote doubling escapes text < text.length) :
    scanQuoted quote doubling escapes (text ++ more) = scanQuoted quote doubling escapes text := by
  cases text with
  | nil => simp at short
  | cons c rest =>
    simp only [scanQuoted, List.drop_one, List.tail_cons, List.length_cons] at short
    have tail := scanQuotedTailSettles quote doubling escapes rest more (by omega)
    simpa [scanQuoted] using tail

end Quoted

theorem scanBracketFits {text : Text} (some : text ≠ []) : scanBracket text ≤ text.length := by
  unfold scanBracket
  split
  · rename_i n found
    have fits := (indexOfFits found).2
    have long : 0 < text.length := List.length_pos_iff.mpr some
    simp only [List.length_drop, List.length_singleton] at fits
    omega
  · exact Nat.le_refl _

theorem scanBracketSettles {text : Text} (more : Text) (short : scanBracket text < text.length) :
    scanBracket (text ++ more) = scanBracket text := by
  cases text with
  | nil => simp at short
  | cons c rest =>
    cases found : indexOf [(']' : CodeUnit)] rest with
    | none => simp only [scanBracket, List.drop_one, List.tail_cons, found, Nat.lt_irrefl] at short
    | some n =>
      have still := indexOfAppend found more
      simp only [scanBracket, List.cons_append, List.drop_one, List.tail_cons, found, still]

theorem scanLineCommentFits : Fits scanLineComment := by
  intro text
  unfold scanLineComment
  split
  · rename_i n found
    have fits := (indexOfFits found).2
    omega
  · exact Nat.le_refl _

theorem scanLineCommentSettles : Settles scanLineComment := by
  intro text more short
  cases found : indexOf [('\n' : CodeUnit)] text with
  | none => simp only [scanLineComment, found, Nat.lt_irrefl] at short
  | some n => simp only [scanLineComment, found, indexOfAppend found more]

theorem scanBlockTailFits (nested : Bool) (depth : Nat) : Fits (scanBlockTail nested depth) := by
  intro text
  fun_induction scanBlockTail nested depth text <;> simp_all

theorem scanBlockTailSettles (nested : Bool) (depth : Nat) :
    Settles (scanBlockTail nested depth) := by
  intro text more
  fun_induction scanBlockTail nested depth text with
  | case1 => simp
  | case2 => simp
  | case3 depth c d rest opening ih =>
    intro short
    simp only [List.length_cons] at short
    simp only [List.cons_append, scanBlockTail, if_pos opening, ih (by omega)]
  | case4 depth c d rest opening closing last =>
    intro _
    simp only [List.cons_append, scanBlockTail, if_neg opening, if_pos closing, if_pos last]
  | case5 depth c d rest opening closing last ih =>
    intro short
    simp only [List.length_cons] at short
    simp only [List.cons_append, scanBlockTail, if_neg opening, if_pos closing, if_neg last,
      ih (by omega)]
  | case6 depth c d rest opening closing ih =>
    intro short
    simp only [List.length_cons] at short ih
    have tail := ih (by omega)
    rw [List.cons_append] at tail
    simp only [List.cons_append, scanBlockTail, if_neg opening, if_neg closing, tail]

theorem scanBlockCommentFits (nested : Bool) {text : Text} (long : 2 ≤ text.length) :
    scanBlockComment nested text ≤ text.length := by
  have tail := scanBlockTailFits nested 1 (text.drop 2)
  simp only [List.length_drop] at tail
  simp only [scanBlockComment]
  omega

theorem scanBlockCommentSettles (nested : Bool) {text : Text} (more : Text)
    (short : scanBlockComment nested text < text.length) :
    scanBlockComment nested (text ++ more) = scanBlockComment nested text := by
  simp only [scanBlockComment] at short ⊢
  have tail := scanBlockTailSettles nested 1 (text.drop 2) more
    (by simp only [List.length_drop]; omega)
  rw [List.drop_append_of_le_length (by omega), tail]

theorem tagNamePrefix (rest : Text) : tagName rest <+: rest := by
  cases rest with
  | nil => exact List.prefix_rfl
  | cons c rest =>
    simp only [tagName]
    split
    · exact (List.cons_prefix_cons.mpr ⟨rfl, List.takeWhile_prefix _⟩)
    · exact List.nil_prefix

theorem tagNameParts (rest : Text) : ∀ c ∈ tagName rest, isTagPart c = true := by
  cases rest with
  | nil => simp [tagName]
  | cons c rest =>
    simp only [tagName]
    split
    · rename_i start
      intro d member
      rcases List.mem_cons.mp member with rfl | inner
      · simp only [isTagPart, Bool.or_eq_true]
        exact Or.inl start
      · exact List.mem_takeWhile_imp inner
    · simp

theorem tagNameAppend {rest : Text} (more : Text) (inside : (tagName rest).length < rest.length) :
    tagName (rest ++ more) = tagName rest := by
  cases rest with
  | nil => simp at inside
  | cons c rest =>
    simp only [List.cons_append, tagName] at inside ⊢
    split at inside
    · rename_i start
      simp only [List.length_cons, Nat.add_lt_add_iff_right] at inside
      have cut : ¬ (rest.takeWhile isTagPart).length = rest.length := by omega
      rw [if_pos start, if_pos start, List.takeWhile_append, if_neg cut]
    · rename_i start
      rw [if_neg start, if_neg start]

theorem tagNameStops {rest more : Text} (whole : tagName rest = rest)
    (stop : ∀ d ∈ more.head?, isTagPart d = false) : tagName (rest ++ more) = rest := by
  cases rest with
  | nil =>
    cases more with
    | nil => rfl
    | cons d more =>
      have part := stop d rfl
      simp only [isTagPart, Bool.or_eq_false_iff] at part
      simp [tagName, isTagStart, part.1]
  | cons c rest =>
    simp only [tagName] at whole
    split at whole
    · rename_i start
      have all : rest.takeWhile isTagPart = rest := (List.cons.inj whole).2
      simp only [List.cons_append, tagName, if_pos start]
      rw [takeWhileStops (List.takeWhile_eq_self_iff.mp all) stop]
    · contradiction

theorem dollarTagSettles {text tag : Text} (found : dollarTagAt text = some tag) (more : Text) :
    dollarTagAt (text ++ more) = some tag := by
  cases text with
  | nil => simp [dollarTagAt] at found
  | cons c rest =>
    simp only [dollarTagAt, List.cons_append] at found ⊢
    split at found
    · rename_i closed
      have inside : (tagName rest).length < rest.length := by
        by_contra beyond
        rw [List.drop_eq_nil_of_le (by omega)] at closed
        simp at closed
      rw [tagNameAppend more inside, List.drop_append_of_le_length (by omega)]
      have stays : (rest.drop (tagName rest).length ++ more).head? = some ('$' : CodeUnit) := by
        rw [List.head?_append, closed]
        rfl
      rw [if_pos stays]
      exact found
    · contradiction

theorem dollarTagMisses {c : CodeUnit} {rest : Text} (more : Text)
    (absent : dollarTagAt (c :: rest) = none)
    (ends : (∃ d ∈ rest, isTagPart d = false) ∨
      ∀ d ∈ more.head?, isTagPart d = false ∧ d ≠ '$') :
    dollarTagAt (c :: (rest ++ more)) = none := by
  simp only [dollarTagAt] at absent ⊢
  split at absent
  · contradiction
  · rename_i unclosed
    have parts := tagNameParts rest
    by_cases inside : (tagName rest).length < rest.length
    · rw [tagNameAppend more inside, List.drop_append_of_le_length (by omega), List.head?_append]
      obtain ⟨d, tail, there⟩ : ∃ d tail, rest.drop (tagName rest).length = d :: tail := by
        cases there : rest.drop (tagName rest).length with
        | nil => simp only [List.drop_eq_nil_iff] at there; omega
        | cons d tail => exact ⟨d, tail, rfl⟩
      simp only [there, List.head?_cons, Option.some_or] at unclosed ⊢
      exact if_neg unclosed
    · have whole : tagName rest = rest := (tagNamePrefix rest).eq_of_length_le (by omega)
      rcases ends with ⟨d, member, stop⟩ | stop
      · rw [← whole] at member
        simp [parts d member] at stop
      · rw [tagNameStops whole (fun d head => (stop d head).1), List.drop_left]
        exact if_neg (fun head => (stop _ head).2 rfl)


theorem dollarTagPrefix {text tag : Text} (found : dollarTagAt text = some tag) : tag <+: text := by
  cases text with
  | nil => simp [dollarTagAt] at found
  | cons c rest =>
    simp only [dollarTagAt] at found
    split at found
    · rename_i closed
      cases Option.some.inj found
      obtain ⟨after, there⟩ : ∃ after, rest.drop (tagName rest).length = 36 :: after := by
        cases tail : rest.drop (tagName rest).length with
        | nil => simp [tail] at closed
        | cons d after =>
          rw [tail] at closed
          exact ⟨after, by rw [Option.some.inj closed]; rfl⟩
      have name := List.prefix_iff_eq_take.mp (tagNamePrefix rest)
      refine ⟨after, ?_⟩
      conv_rhs => rw [← List.take_append_drop (tagName rest).length rest, ← name, there]
      simp [units]
    · contradiction

theorem scanDollarFits {tag text : Text} (head : tag <+: text) :
    scanDollarQuoted tag text ≤ text.length := by
  unfold scanDollarQuoted
  split
  · rename_i n found
    have fits := (indexOfFits found).2
    have whole := head.length_le
    simp only [List.length_drop] at fits
    omega
  · exact Nat.le_refl _

theorem scanDollarSettles {tag text : Text} (head : tag <+: text) (more : Text)
    (short : scanDollarQuoted tag text < text.length) :
    scanDollarQuoted tag (text ++ more) = scanDollarQuoted tag text := by
  have whole := head.length_le
  cases found : indexOf tag (text.drop tag.length) with
  | none => simp only [scanDollarQuoted, found, Nat.lt_irrefl] at short
  | some n =>
    have still := indexOfAppend found more
    rw [← List.drop_append_of_le_length whole] at still
    simp only [scanDollarQuoted, found, still]

theorem dollarTagSome {text tag : Text} (found : dollarTagAt text = some tag) : tag ≠ [] := by
  cases text with
  | nil => simp [dollarTagAt] at found
  | cons c rest =>
    simp only [dollarTagAt] at found
    split at found
    · cases Option.some.inj found
      simp
    · contradiction

theorem scanLineCommentPositive {c : CodeUnit} {rest : Text} (inline : c ≠ '\n') :
    0 < scanLineComment (c :: rest) := by
  unfold scanLineComment
  split
  · rename_i n found
    cases n with
    | zero =>
      have head := (indexOfFits found).1
      simp only [List.drop_zero, List.cons_prefix_cons] at head
      exact absurd head.1.symm inline
    | succ n => omega
  · simp

theorem scanDollarPositive {tag text : Text} (some : tag ≠ []) (open_ : text ≠ []) :
    0 < scanDollarQuoted tag text := by
  have long : 0 < tag.length := List.length_pos_iff.mpr some
  have whole : 0 < text.length := List.length_pos_iff.mpr open_
  unfold scanDollarQuoted
  split <;> omega

theorem scanBracketPositive {c : CodeUnit} {rest : Text} : 0 < scanBracket (c :: rest) := by
  unfold scanBracket
  split
  · omega
  · simp

theorem nextIsCons (c d : CodeUnit) (rest : Text) : nextIs c (d :: rest) = (d == c) := by
  simp [nextIs]

section Openers
variable {rules : DialectRules} {before text : Text} {opener : Opener}

theorem openerStands (found : openerAt rules before text = some opener) : opener.Stands text := by
  cases text with
  | nil => simp [openerAt] at found
  | cons c more =>
    have pair {d : CodeUnit} (next : nextIs d more = true) : 2 ≤ (c :: more).length := by
      cases more with
      | nil => simp [nextIs] at next
      | cons => simp
    simp only [openerAt, Bool.and_eq_true, beq_iff_eq] at found
    repeat' split at found
    all_goals first | contradiction | cases found | skip
    · rename_i test
      simp [Opener.Stands, test.1.1]
    · rename_i test
      simp [Opener.Stands, test.2]
    · rename_i test
      exact pair test.2
    · rename_i test
      exact pair test.1.2
    · simp [Opener.Stands]
    · simp [Opener.Stands]
    · simp [Opener.Stands]
    · simp [Opener.Stands]
    · obtain ⟨tag, there, rfl⟩ := Option.map_eq_some_iff.mp found
      exact there

theorem openerPositive (found : openerAt rules before text = some opener) :
    0 < opener.scan rules text := by
  have stands := openerStands found
  cases text with
  | nil => simp [openerAt] at found
  | cons c rest =>
    cases opener with
    | dashComment =>
      exact scanLineCommentPositive (by rw [Option.some.inj stands]; decide)
    | hashComment =>
      exact scanLineCommentPositive (by rw [Option.some.inj stands]; decide)
    | bracketed => exact scanBracketPositive
    | dollarQuoted tag => exact scanDollarPositive (dollarTagSome stands) (by simp)
    | blockComment => simp only [Opener.scan, scanBlockComment]; omega
    | escapeString => simp only [Opener.scan]; omega
    | plainString => simp only [Opener.scan, scanQuoted]; omega
    | doubleQuoted => simp only [Opener.scan, scanQuoted]; omega
    | backtickQuoted => simp only [Opener.scan, scanQuoted]; omega

theorem openerFits (found : openerAt rules before text = some opener) :
    opener.scan rules text ≤ text.length := by
  have stands := openerStands found
  cases opener with
  | dashComment => exact scanLineCommentFits text
  | hashComment => exact scanLineCommentFits text
  | blockComment => exact scanBlockCommentFits _ stands
  | escapeString =>
    have long : 2 ≤ text.length := stands
    have inner : scanQuoted apostrophe true true (text.drop 1) ≤ (text.drop 1).length :=
      scanQuotedFits _ _ _ (by intro empty; simp only [List.drop_eq_nil_iff] at empty; omega)
    simp only [List.length_drop] at inner
    simp only [Opener.scan]
    omega
  | plainString => exact scanQuotedFits _ _ _ stands
  | doubleQuoted => exact scanQuotedFits _ _ _ stands
  | backtickQuoted => exact scanQuotedFits _ _ _ stands
  | bracketed => exact scanBracketFits stands
  | dollarQuoted tag => exact scanDollarFits (dollarTagPrefix stands)

theorem openerScanSettles (stands : opener.Stands text) (more : Text)
    (short : opener.scan rules text < text.length) :
    opener.scan rules (text ++ more) = opener.scan rules text := by
  cases opener with
  | dashComment => exact scanLineCommentSettles text more short
  | hashComment => exact scanLineCommentSettles text more short
  | blockComment => exact scanBlockCommentSettles _ more short
  | escapeString =>
    simp only [Opener.scan] at short ⊢
    rw [List.drop_append_of_le_length (by omega),
      scanQuotedSettles _ _ _ more (by simp only [List.length_drop]; omega)]
  | plainString => exact scanQuotedSettles _ _ _ more short
  | doubleQuoted => exact scanQuotedSettles _ _ _ more short
  | backtickQuoted => exact scanQuotedSettles _ _ _ more short
  | bracketed => exact scanBracketSettles more short
  | dollarQuoted tag => exact scanDollarSettles (dollarTagPrefix stands) more short

theorem openerAppend {c d : CodeUnit} {rest more : Text}
    (tag : rules.dollarQuoting = true → c = '$' →
      dollarTagAt (c :: d :: (rest ++ more)) = dollarTagAt (c :: d :: rest))
    (dashes : c = '-' → d = '-' →
      rest ≠ [] ∨ rules.dashDashNeedsSpace = false ∨ more.head?.all isSpace = true) :
    openerAt rules before (c :: d :: (rest ++ more)) = openerAt rules before (c :: d :: rest) := by
  have dash : (c == '-' && d == '-' &&
        (!rules.dashDashNeedsSpace || (rest ++ more).head?.all isSpace)) =
      (c == '-' && d == '-' && (!rules.dashDashNeedsSpace || rest.head?.all isSpace)) := by
    by_cases both : c = '-' ∧ d = '-'
    · cases rest with
      | cons => rfl
      | nil =>
        rcases dashes both.1 both.2 with some | free | space
        · exact absurd rfl some
        · simp [free]
        · simp [space]
    · have neither : (c == '-' && d == '-') = false := by
        simpa only [Bool.and_eq_false_iff, beq_eq_false_iff_ne, ne_eq, ← not_and_or] using both
      simp only [neither, Bool.false_and]
  have dollar : (if rules.dollarQuoting && c == '$' then
        (dollarTagAt (c :: d :: (rest ++ more))).map Opener.dollarQuoted else none) =
      (if rules.dollarQuoting && c == '$' then
        (dollarTagAt (c :: d :: rest)).map Opener.dollarQuoted else none) := by
    by_cases sign : (rules.dollarQuoting && c == '$') = true
    · simp only [Bool.and_eq_true, beq_iff_eq] at sign
      rw [tag sign.1 sign.2]
    · rw [if_neg sign, if_neg sign]
  simp only [openerAt, nextIsCons, List.drop_one, List.tail_cons, dash, dollar]

theorem openerAtDollar (rest : Text) : openerAt rules before (36 :: rest) =
    if rules.dollarQuoting then (dollarTagAt (36 :: rest)).map .dollarQuoted else none := by
  simp [openerAt, apostrophe, doubleQuote, backtick]

theorem openerSettles (found : openerAt rules before text = some opener) (more : Text)
    (short : opener.scan rules text < text.length) :
    openerAt rules before (text ++ more) = some opener := by
  match text, found, short with
  | [], found, _ => simp [openerAt] at found
  | [c], found, short =>
    have positive := openerPositive found
    simp only [List.length_singleton] at short
    omega
  | c :: d :: rest, found, short =>
    rw [← found]
    refine openerAppend (fun quoting sign => ?_) (fun first second => ?_)
    · have there : c :: d :: rest = 36 :: (d :: rest) := by rw [sign]; rfl
      rw [there, openerAtDollar, if_pos quoting] at found
      obtain ⟨tag, decided, _⟩ := Option.map_eq_some_iff.mp found
      rw [← there] at decided
      rw [decided]
      exact dollarTagSettles decided more
    · cases rest with
      | cons => exact Or.inl (by simp)
      | nil =>
        by_cases free : rules.dashDashNeedsSpace = false
        · exact Or.inr (Or.inl free)
        · have dashes : [c, d] = [45, 45] := by rw [first, second]; rfl
          rw [dashes] at found short
          have comment : openerAt rules before [45, 45] = some .dashComment := by
            simp [openerAt, nextIs]
          rw [comment] at found
          cases found
          exact absurd short (by simp [Opener.scan, scanLineComment, indexOf, startsWith])

theorem openerMisses {c d : CodeUnit} {rest more : Text}
    (absent : openerAt rules before (c :: d :: rest) = none)
    (ends : rules.dollarQuoting = true → c = '$' → (∃ e ∈ d :: rest, isTagPart e = false) ∨
      ∀ e ∈ more.head?, isTagPart e = false ∧ e ≠ '$') :
    openerAt rules before (c :: d :: (rest ++ more)) = none := by
  rw [← absent]
  refine openerAppend (fun quoting sign => ?_) (fun first second => ?_)
  · have there : c :: d :: rest = 36 :: (d :: rest) := by rw [sign]; rfl
    rw [there, openerAtDollar, if_pos quoting, Option.map_eq_none_iff, ← there] at absent
    rw [absent]
    exact dollarTagMisses more absent (ends quoting sign)
  · cases rest with
    | cons => exact Or.inl (by simp)
    | nil =>
      refine Or.inr (Or.inl ?_)
      by_contra needs
      have dashes : [c, d] = [45, 45] := by rw [first, second]; rfl
      rw [dashes] at absent
      simp [openerAt, nextIs] at absent

def SameLook (rules : DialectRules) (before before' : Text) : Prop :=
  rules.escapeStringPrefix = true →
    before.head?.any isIdentPart = before'.head?.any isIdentPart

theorem sameLookOpener {before before' : Text} (same : SameLook rules before before')
    (text : Text) : openerAt rules before text = openerAt rules before' text := by
  cases text with
  | nil => rfl
  | cons c more =>
    by_cases prefixed : rules.escapeStringPrefix = true
    · simp only [openerAt, same prefixed]
    · have off : rules.escapeStringPrefix = false := eq_false_of_ne_true prefixed
      simp only [openerAt, off, Bool.false_and]

theorem sameLookPush {before before' : Text} (same : SameLook rules before before')
    (passed : Text) : SameLook rules (passed.reverse ++ before) (passed.reverse ++ before') := by
  intro prefixed
  rw [List.head?_append, List.head?_append]
  cases passed.reverse with
  | nil => exact same prefixed
  | cons c tail => rfl

end Openers

end DatabaseAdmin
