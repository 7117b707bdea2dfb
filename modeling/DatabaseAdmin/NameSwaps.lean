import DatabaseAdmin.Placeholders

/-! A text with other marks in the places of its names. -/
namespace DatabaseAdmin.NameSwaps
open CodeUnits Placeholders

def isMark (c : CodeUnit) : Bool := c == '$' || c == '?'

inductive Swap (write : Text → Text) : Text → Text → Text → Prop where
  | done (before : Text) : Swap write before [] []
  | unit {before more more' : Text} (c : CodeUnit) (tail : Swap write (c :: before) more more') :
      Swap write before (c :: more) (c :: more')
  | name {before name more more' : Text} (begins : beginsName before (name ++ more) = true)
      (tail : Swap write (name.reverse ++ 58 :: before) more more') :
      Swap write before (58 :: (name ++ more)) (write name ++ more')

def Writes (write : Text → Text) : Prop := ∀ name, ∃ c rest, write name = c :: rest ∧ isMark c = true

section Heads
variable {write : Text → Text} {before more more' : Text}

theorem swapHead (writes : Writes write) (swap : Swap write before more more') : more'.head? = more.head? ∨
    (more.head? = some 58 ∧ before.head?.any isIdentPart = false ∧ ∃ c, more'.head? = some c ∧ isMark c = true) := by
  cases swap with
  | done => exact .inl rfl
  | unit c tail => exact .inl rfl
  | name begins tail =>
    rename_i name rest rest'
    obtain ⟨c, text, written, mark⟩ := writes name
    refine .inr ⟨rfl, ?_, c, by simp [written], mark⟩
    simp only [beginsName, Bool.and_eq_true, Bool.not_eq_true'] at begins
    exact begins.1

theorem swapAfter (writes : Writes write) (swap : Swap write before more more')
    (behind : before.head?.any isIdentPart = true) : more'.head? = more.head? := by
  rcases swapHead writes swap with same | ⟨-, free, -⟩
  · exact same
  · rw [behind] at free
    cases free

theorem markApart {c : Nat} (mark : isMark c = true) : c = 36 ∨ c = 63 := by
  simpa [isMark] using mark

theorem swapNext (writes : Writes write) (swap : Swap write before more more') {d : Nat}
    (plain : d ≠ 58 ∧ d ≠ 36 ∧ d ≠ 63) : nextIs d more' = nextIs d more := by
  rcases swapHead writes swap with same | ⟨colon, -, c, head, mark⟩
  · simp only [nextIs, same]
  · have left : nextIs d more = false := by simpa [nextIs, colon] using Ne.symm plain.1
    have right : nextIs d more' = false := by
      rcases markApart mark with rfl | rfl
      · simpa [nextIs, head] using Ne.symm plain.2.1
      · simpa [nextIs, head] using Ne.symm plain.2.2
    rw [left, right]

theorem swapSpace (writes : Writes write) (swap : Swap write before more more') :
    more'.head?.all isSpace = more.head?.all isSpace := by
  rcases swapHead writes swap with same | ⟨colon, -, c, head, mark⟩
  · rw [same]
  · rw [colon, head]
    rcases markApart mark with rfl | rfl <;> rfl

theorem swapUnit {c : CodeUnit} {text : Text} (swap : Swap write before (c :: more) text) (other : c ≠ 58) :
    ∃ tail, text = c :: tail ∧ Swap write (c :: before) more tail := by
  cases swap with
  | unit _ tail => exact ⟨_, rfl, tail⟩
  | name => exact absurd rfl other

theorem swapNil {text : Text} (swap : Swap write before [] text) : text = [] := by
  cases swap
  rfl

theorem swapRun (writes : Writes write) {p rest text : Text} (part : ∀ d ∈ p, isIdentPart d = true) : ∀ {before : Text},
    before.head?.any isIdentPart = true → Swap write before (p ++ rest) text →
    ∃ tail, text = p ++ tail ∧ Swap write (p.reverse ++ before) rest tail ∧ tail.head? = rest.head? := by
  induction p generalizing text with
  | nil =>
    intro before behind swap
    exact ⟨text, rfl, swap, swapAfter writes swap behind⟩
  | cons d p ih =>
    intro before behind swap
    have ident := part d (by simp)
    obtain ⟨tail, rfl, next⟩ := swapUnit swap (identTail ident)
    obtain ⟨tail, rfl, last, head⟩ := ih (fun e member => part e (by simp [member])) (by simpa using ident) next
    exact ⟨tail, rfl, by simpa using last, head⟩

theorem tagNameHead {p rest tail : Text} (whole : tagName (p ++ rest) = p) (head : tail.head? = rest.head?) :
    tagName (p ++ tail) = p := by
  cases p with
  | nil =>
    cases tail with
    | nil => rfl
    | cons d tail =>
      obtain ⟨more, rfl⟩ : ∃ more, rest = d :: more := by
        cases rest with
        | nil => cases head
        | cons e more =>
          obtain rfl : d = e := Option.some.inj head
          exact ⟨more, rfl⟩
      simp only [List.nil_append, tagName] at whole ⊢
      split at whole
      · cases whole
      · rename_i start
        rw [if_neg start]
  | cons c p =>
    simp only [List.cons_append, tagName] at whole ⊢
    split at whole
    · rename_i start
      have parts : (p ++ rest).takeWhile isTagPart = p := (List.cons.inj whole).2
      have all : ∀ d ∈ p, isTagPart d = true := by
        intro d member
        rw [← parts] at member
        exact List.mem_takeWhile_imp member
      have stop : ∀ d ∈ rest.head?, isTagPart d = false := by
        intro d first
        cases rest with
        | nil => cases first
        | cons e rest =>
          obtain rfl : e = d := Option.some.inj first
          by_contra part
          rw [Bool.not_eq_false] at part
          have long := congrArg List.length parts
          rw [List.takeWhile_append_of_pos all, List.takeWhile_cons_of_pos part] at long
          simp at long
      rw [if_pos start, takeWhileStops all (by rw [head]; exact stop)]
    · cases whole

theorem swapTag (writes : Writes write) (swap : Swap write (36 :: before) more more') :
    dollarTagAt (36 :: more') = dollarTagAt (36 :: more) := by
  obtain ⟨rest, split⟩ := tagNamePrefix more
  have parts : ∀ d ∈ tagName more, isIdentPart d = true := by
    intro d member
    have part := tagNameParts more d member
    simp only [isTagPart, Bool.or_eq_true] at part
    simp only [isIdentPart, Bool.or_eq_true]
    exact .inl part
  have swap' := swap
  rw [← split] at swap'
  obtain ⟨tail, same, -, head⟩ := swapRun writes parts rfl swap'
  have name : tagName more' = tagName more := by
    rw [same]
    exact tagNameHead (by rw [split]) head
  have after : (more'.drop (tagName more).length).head? = (more.drop (tagName more).length).head? := by
    have right := @List.drop_left _ (tagName more) rest
    rw [split] at right
    rw [right, same, List.drop_left, head]
  simp only [dollarTagAt, name, after]

theorem swapOpener (writes : Writes write) {rules : DialectRules} {c : CodeUnit}
    (swap : Swap write (c :: before) more more') :
    openerAt rules before (c :: more') = openerAt rules before (c :: more) := by
  have dash := swapNext writes swap (d := ('-' : CodeUnit)) (by decide)
  have star := swapNext writes swap (d := ('*' : CodeUnit)) (by decide)
  have tick := swapNext writes swap (d := apostrophe) (by decide)
  have third : nextIs '-' more = true → (more'.drop 1).head?.all isSpace = (more.drop 1).head?.all isSpace := by
    intro minus
    cases more with
    | nil => simp [nextIs] at minus
    | cons d more =>
      obtain rfl : d = 45 := by simpa [nextIs] using minus
      obtain ⟨tail, rfl, next⟩ := swapUnit swap (by decide)
      exact swapSpace writes next
  have dashes : (c == '-' && nextIs '-' more' && (!rules.dashDashNeedsSpace || (more'.drop 1).head?.all isSpace)) =
      (c == '-' && nextIs '-' more && (!rules.dashDashNeedsSpace || (more.drop 1).head?.all isSpace)) := by
    rw [dash]
    cases minus : nextIs '-' more with
    | false => simp
    | true => rw [third minus]
  have dollar : (if rules.dollarQuoting && c == '$' then (dollarTagAt (c :: more')).map Opener.dollarQuoted else none) =
      (if rules.dollarQuoting && c == '$' then (dollarTagAt (c :: more)).map Opener.dollarQuoted else none) := by
    by_cases sign : c = 36
    · subst sign
      rw [swapTag writes swap]
    · simp [sign]
  simp only [openerAt, dashes, star, tick, dollar]

end Heads

section Scans

def Follows (d d' : CodeUnit) : Prop := d' = d ∨ (d = 58 ∧ isMark d' = true)

variable {d d' : CodeUnit} {u u' : Text}

theorem followsQuote (follows : Follows d d') {quote : CodeUnit} (mark : isQuote quote = true) (other : d ≠ quote) :
    d' ≠ quote := by
  rcases follows with rfl | ⟨-, sign⟩
  · exact other
  · rintro rfl
    rcases markApart sign with rfl | rfl <;> simp [isQuote, apostrophe, doubleQuote, backtick] at mark

theorem quotedTailPositive (quote : CodeUnit) (escapes : Bool) (c : CodeUnit) (t : Text) :
    0 < scanQuotedTail quote true escapes (c :: t) := by
  cases t with
  | nil => exact Nat.one_pos
  | cons e t =>
    simp only [scanQuotedTail]
    repeat' split
    all_goals omega

theorem quotedTailKept (quote : CodeUnit) (escapes : Bool) (mark : isQuote quote = true) (follows : Follows d d') (t : Text) :
    scanQuotedTail quote true escapes (t ++ d :: u) = t.length →
      scanQuotedTail quote true escapes (t ++ d' :: u') = t.length := by
  have positive := quotedTailPositive quote escapes d u
  fun_induction scanQuotedTail quote true escapes t with
  | case1 =>
    intro whole
    simp only [List.nil_append, List.length_nil] at whole
    omega
  | case2 c =>
    intro whole
    simp only [List.singleton_append, scanQuotedTail, List.length_singleton] at whole ⊢
    split at whole
    · omega
    · rename_i escaped
      split at whole
      · rename_i closing
        split at whole
        · omega
        · rename_i doubled
          have other : d ≠ quote := by simpa using doubled
          have differs : ¬ (true && d' == quote) = true := by simpa using followsQuote follows mark other
          rw [if_neg escaped, if_pos closing, if_neg differs]
      · omega
  | case3 c e rest escaped ih =>
    intro whole
    simp only [List.cons_append, scanQuotedTail, if_pos escaped, List.length_cons] at whole ⊢
    rw [ih (by omega)]
  | case4 c e rest escaped closing doubled ih =>
    intro whole
    simp only [List.cons_append, scanQuotedTail, if_neg escaped, if_pos closing, if_pos doubled, List.length_cons] at whole ⊢
    rw [ih (by omega)]
  | case5 c e rest escaped closing doubled =>
    intro whole
    simp only [List.cons_append, scanQuotedTail, if_neg escaped, if_pos closing, if_neg doubled, List.length_cons] at whole ⊢
    omega
  | case6 c e rest escaped closing ih =>
    intro whole
    simp only [List.cons_append, scanQuotedTail, if_neg escaped, if_neg closing, List.length_cons] at whole ih ⊢
    rw [ih (by omega)]

theorem quotedKept (quote : CodeUnit) (escapes : Bool) (mark : isQuote quote = true) (follows : Follows d d') (t : Text) :
    scanQuoted quote true escapes (t ++ d :: u) = t.length →
      scanQuoted quote true escapes (t ++ d' :: u') = t.length := by
  intro whole
  cases t with
  | nil => simp only [scanQuoted, List.length_nil] at whole; omega
  | cons c t =>
    simp only [scanQuoted, List.cons_append, List.drop_one, List.tail_cons, List.length_cons] at whole ⊢
    have inner : scanQuotedTail quote true escapes (t ++ d' :: u') = t.length :=
      quotedTailKept (u := u) quote escapes mark follows t (by omega)
    omega

theorem blockTailPositive (nested : Bool) (depth : Nat) (c : CodeUnit) (t : Text) :
    0 < scanBlockTail nested depth (c :: t) := by
  cases t with
  | nil => exact Nat.one_pos
  | cons e t =>
    simp only [scanBlockTail]
    repeat' split
    all_goals omega

theorem blockTailKept (nested : Bool) (depth : Nat) (t : Text) :
    scanBlockTail nested depth (t ++ d :: u) = t.length → scanBlockTail nested depth (t ++ d' :: u') = t.length := by
  fun_induction scanBlockTail nested depth t with
  | case1 depth =>
    intro whole
    have positive := blockTailPositive nested depth d u
    simp only [List.nil_append, List.length_nil] at whole
    omega
  | case2 depth c =>
    intro whole
    have positive := blockTailPositive nested depth d u
    simp only [List.singleton_append, scanBlockTail, List.length_singleton] at whole
    repeat' split at whole
    all_goals omega
  | case3 depth c e rest opening ih =>
    intro whole
    simp only [List.cons_append, scanBlockTail, if_pos opening, List.length_cons] at whole ⊢
    rw [ih (by omega)]
  | case4 depth c e rest opening closing last =>
    intro whole
    simp only [List.cons_append, scanBlockTail, if_neg opening, if_pos closing, if_pos last, List.length_cons] at whole ⊢
    omega
  | case5 depth c e rest opening closing last ih =>
    intro whole
    simp only [List.cons_append, scanBlockTail, if_neg opening, if_pos closing, if_neg last, List.length_cons] at whole ⊢
    rw [ih (by omega)]
  | case6 depth c e rest opening closing ih =>
    intro whole
    simp only [List.cons_append, scanBlockTail, if_neg opening, if_neg closing, List.length_cons] at whole ih ⊢
    rw [ih (by omega)]

theorem lineKept (follows : Follows d d') (f : Text) :
    scanLineComment (f ++ d :: u) = f.length → scanLineComment (f ++ d' :: u') = f.length := by
  intro whole
  cases found : indexOf [('\n' : CodeUnit)] (f ++ d :: u) with
  | none =>
    simp only [scanLineComment, found, List.length_append, List.length_cons] at whole
    omega
  | some n =>
    obtain rfl : n = f.length := by simpa only [scanLineComment, found] using whole
    have there := (indexOfFits found).1
    rw [List.drop_left] at there
    obtain rfl : d = 10 := (List.cons_prefix_cons.mp there).1.symm
    obtain rfl : d' = 10 := by
      rcases follows with same | ⟨colon, -⟩
      · exact same
      · cases colon
    have split : ∀ v : Text, f ++ (10 : Nat) :: v = f ++ [10] ++ v := by simp
    rw [split] at found
    have kept := SqlFragments.indexOfMore found (by simp) u'
    rw [split, scanLineComment, kept]

theorem scanKept {rules : DialectRules} {opener : Opener} {f : Text} (follows : Follows d d')
    (whole : opener.scan rules (f ++ d :: u) = f.length) :
    opener.scan rules (f ++ d' :: u') = f.length := by
  cases opener with
  | dashComment => exact lineKept follows f whole
  | hashComment => exact lineKept follows f whole
  | plainString => exact quotedKept _ _ rfl follows f whole
  | doubleQuoted => exact quotedKept _ _ rfl follows f whole
  | backtickQuoted => exact quotedKept _ _ rfl follows f whole
  | blockComment =>
    simp only [Opener.scan, scanBlockComment] at whole ⊢
    have long : 2 ≤ f.length := by omega
    rw [List.drop_append_of_le_length long] at whole ⊢
    have inner : scanBlockTail rules.nestedBlockComments 1 (f.drop 2 ++ d' :: u') = (f.drop 2).length :=
      blockTailKept (d := d) (u := u) _ _ _ (by simp only [List.length_drop]; omega)
    simp only [List.length_drop] at inner
    omega
  | escapeString =>
    simp only [Opener.scan] at whole ⊢
    have long : 1 ≤ f.length := by omega
    rw [List.drop_append_of_le_length long] at whole ⊢
    have inner : scanQuoted apostrophe true true (f.drop 1 ++ d' :: u') = (f.drop 1).length :=
      quotedKept (u := u) _ _ rfl follows _ (by simp only [List.length_drop]; omega)
    simp only [List.length_drop] at inner
    omega
  | bracketed =>
    simp only [Opener.scan, scanBracket] at whole ⊢
    split at whole
    · rename_i n found
      have long : 1 ≤ f.length := by omega
      rw [List.drop_append_of_le_length long] at found ⊢
      have kept := SqlFragments.indexOfMore found (by simp only [List.length_drop, List.length_singleton]; omega) (d' :: u')
      simp only [kept]
      exact whole
    · simp only [List.length_append, List.length_cons] at whole
      omega
  | dollarQuoted tag =>
    simp only [Opener.scan, scanDollarQuoted] at whole ⊢
    split at whole
    · rename_i n found
      have long : tag.length ≤ f.length := by omega
      rw [List.drop_append_of_le_length long] at found ⊢
      have kept := SqlFragments.indexOfMore found (by simp only [List.length_drop]; omega) (d' :: u')
      simp only [kept]
      exact whole
    · simp only [List.length_append, List.length_cons] at whole
      omega

end Scans

end DatabaseAdmin.NameSwaps
