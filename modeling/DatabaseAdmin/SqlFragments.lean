import DatabaseAdmin.SplitWalk
import DatabaseAdmin.SqlQuote

/-! Fragments of a statement that the splitter passes as one piece. `closed` reads a fragment alone:
no form runs past its end and no terminator stands in it. -/
namespace DatabaseAdmin.SqlFragments
open CodeUnits ScanLoop

def joint (c : CodeUnit) : Bool :=
  isSpace c || c == '(' || c == ')' || c == ',' || c == ';' || c == '.' || c == '=' || c == ':'

def Seam (f g : Text) : Prop := ∀ c ∈ f.getLast?, ∀ d ∈ g.head?, joint c = true ∨ joint d = true

def space : CodeUnit := 32

def closedFrom (rules : DialectRules) : Nat → Text → Text → Bool
  | skip, _, [] => skip == 0
  | skip+1, before, c :: f => closedFrom rules skip (c :: before) f
  | 0, before, c :: f =>
      if isSpace c then closedFrom rules 0 (c :: before) f else
      match openerAt rules before (c :: f ++ [space]) with
      | some opener => closedFrom rules (opener.scan rules (c :: f ++ [space]) - 1) (c :: before) f
      | none => c != ';' && closedFrom rules 0 (c :: before) f

def closed (rules : DialectRules) (f : Text) : Bool := closedFrom rules 0 [] f

section Joints
variable {rules : DialectRules} {c : CodeUnit}

theorem jointUnits (joined : joint c = true) : isIdentPart c = false ∧ isTagPart c = false ∧ isQuote c = false ∧
    c ≠ 36 ∧ c ≠ 42 ∧ c ≠ 45 := by
  simp only [joint, isSpace, Bool.or_eq_true, beq_iff_eq] at joined
  rcases joined with ((((((((((((rfl | rfl) | rfl) | rfl) | rfl) | rfl) | rfl) | rfl) | rfl) | rfl) | rfl) | rfl) | rfl) <;> decide

theorem jointOpens (joined : joint c = true) (before more : Text) : openerAt rules before (c :: more) = none := by
  simp only [joint, isSpace, Bool.or_eq_true, beq_iff_eq] at joined
  rcases joined with ((((((((((((rfl | rfl) | rfl) | rfl) | rfl) | rfl) | rfl) | rfl) | rfl) | rfl) | rfl) | rfl) | rfl) <;>
    simp [openerAt, apostrophe, doubleQuote, backtick]

end Joints

section Scans

def Decided (scan : Text → Nat) : Prop :=
  ∀ t more, scan (t ++ [space]) ≤ t.length → scan (t ++ more) = scan (t ++ [space])

theorem indexOfCut {p x y : Text} {n : Nat} (found : indexOf p (x ++ y) = some n) (fits : n + p.length ≤ x.length) :
    indexOf p x = some n := by
  induction x generalizing n with
  | nil =>
    obtain ⟨rfl, empty⟩ : n = 0 ∧ p = [] := by
      have short : n + p.length = 0 := by simpa using fits
      exact ⟨by omega, List.length_eq_zero_iff.mp (by omega)⟩
    subst empty
    rfl
  | cons c x ih =>
    simp only [List.cons_append, indexOf] at found ⊢
    split at found
    · rename_i head
      cases Option.some.inj found
      have stands : p <+: c :: x := List.prefix_of_prefix_length_le (startsWithIff.mp head)
        (List.prefix_append (c :: x) y) (by simpa using fits)
      rw [if_pos (startsWithIff.mpr stands)]
    · rename_i miss
      obtain ⟨m, inner, rfl⟩ := Option.map_eq_some_iff.mp found
      have stillMiss : ¬startsWith p (c :: x) = true := fun head =>
        miss (startsWithIff.mpr ((startsWithIff.mp head).trans (List.prefix_append (c :: x) y)))
      simp only [List.length_cons] at fits
      rw [if_neg stillMiss, ih inner (by omega), Option.map_some]

theorem indexOfMore {p x y : Text} {n : Nat} (found : indexOf p (x ++ y) = some n) (fits : n + p.length ≤ x.length)
    (more : Text) : indexOf p (x ++ more) = some n := indexOfAppend (indexOfCut found fits) more

theorem lineDecided : Decided scanLineComment := by
  intro t more short
  unfold scanLineComment at short ⊢
  cases found : indexOf [('\n' : CodeUnit)] (t ++ [space]) with
  | none =>
    simp only [found, List.length_append, List.length_singleton] at short
    omega
  | some n =>
    simp only [found] at short ⊢
    have inside : n < t.length := by
      refine lt_of_le_of_ne short fun last => ?_
      have stands := (indexOfFits found).1
      rw [last, List.drop_left, space] at stands
      exact absurd stands (by decide)
    rw [indexOfMore found (by simp only [List.length_singleton]; omega) more]

theorem bracketDecided {t : Text} (some' : t ≠ []) (more : Text) (short : scanBracket (t ++ [space]) ≤ t.length) :
    scanBracket (t ++ more) = scanBracket (t ++ [space]) := by
  obtain ⟨c, t, rfl⟩ := List.exists_cons_of_ne_nil some'
  simp only [scanBracket, List.cons_append, List.drop_one, List.tail_cons, List.length_cons] at short ⊢
  cases found : indexOf [(']' : CodeUnit)] (t ++ [space]) with
  | none =>
    simp only [found, List.length_append, List.length_singleton] at short
    omega
  | some n =>
    simp only [found] at short ⊢
    rw [indexOfMore found (by simp only [List.length_singleton]; omega) more]

theorem dollarDecided {tag t : Text} (head : tag <+: t) (more : Text)
    (short : scanDollarQuoted tag (t ++ [space]) ≤ t.length) :
    scanDollarQuoted tag (t ++ more) = scanDollarQuoted tag (t ++ [space]) := by
  have whole := head.length_le
  simp only [scanDollarQuoted, List.drop_append_of_le_length whole] at short ⊢
  cases found : indexOf tag (t.drop tag.length ++ [space]) with
  | none =>
    simp only [found, List.length_append, List.length_singleton] at short
    omega
  | some n =>
    simp only [found] at short ⊢
    rw [indexOfMore found (by simp only [List.length_drop]; omega) more]

theorem blockTailDecided (nested : Bool) (depth : Nat) : Decided (scanBlockTail nested depth) := by
  intro t more
  fun_induction scanBlockTail nested depth t with
  | case1 => simp [scanBlockTail]
  | case2 depth c =>
    intro short
    simp [scanBlockTail, space] at short
  | case3 depth c d rest opening ih =>
    intro short
    simp only [List.cons_append, scanBlockTail, if_pos opening, List.length_cons] at short ⊢
    rw [ih (by omega)]
  | case4 depth c d rest opening closing last =>
    intro _
    simp only [List.cons_append, scanBlockTail, if_neg opening, if_pos closing, if_pos last]
  | case5 depth c d rest opening closing last ih =>
    intro short
    simp only [List.cons_append, scanBlockTail, if_neg opening, if_pos closing, if_neg last, List.length_cons] at short ⊢
    rw [ih (by omega)]
  | case6 depth c d rest opening closing ih =>
    intro short
    simp only [List.cons_append, scanBlockTail, if_neg opening, if_neg closing, List.length_cons] at short ih ⊢
    rw [ih (by omega)]

theorem quotedTailDecided (quote : CodeUnit) (escapes : Bool) (other : quote ≠ space) (t more : Text)
    (apart : t.getLast? = some quote → ∀ d ∈ more.head?, d ≠ quote) :
    scanQuotedTail quote true escapes (t ++ [space]) ≤ t.length →
      scanQuotedTail quote true escapes (t ++ more) = scanQuotedTail quote true escapes (t ++ [space]) := by
  fun_induction scanQuotedTail quote true escapes t with
  | case1 => simp [scanQuotedTail]
  | case2 c =>
    intro short
    by_cases escaped : (escapes && c == backslash) = true
    · simp only [List.singleton_append, scanQuotedTail, if_pos escaped, List.length_singleton] at short
      omega
    · by_cases same : c = quote
      · subst same
        have stop := apart rfl
        have single : ¬(true && space == c) = true := by simpa using Ne.symm other
        simp only [List.singleton_append, scanQuotedTail, if_neg escaped, beq_self_eq_true, if_true, if_neg single]
        cases more with
        | nil => rfl
        | cons d more =>
          have differs : ¬(true && d == c) = true := by simpa using stop d rfl
          simp only [scanQuotedTail, if_neg escaped, beq_self_eq_true, if_true, if_neg differs]
      · have inner : ¬(c == quote) = true := by simpa using same
        simp only [List.singleton_append, scanQuotedTail, if_neg escaped, if_neg inner, List.length_singleton] at short
        omega
  | case3 c d rest escaped ih =>
    intro short
    simp only [List.cons_append, scanQuotedTail, if_pos escaped, List.length_cons] at short ⊢
    cases rest with
    | nil => simp [scanQuotedTail] at short
    | cons e rest => rw [ih (by simpa using apart) (by omega)]
  | case4 c d rest escaped closing doubled ih =>
    intro short
    simp only [List.cons_append, scanQuotedTail, if_neg escaped, if_pos closing, if_pos doubled, List.length_cons] at short ⊢
    cases rest with
    | nil => simp [scanQuotedTail] at short
    | cons e rest => rw [ih (by simpa using apart) (by omega)]
  | case5 c d rest escaped closing doubled =>
    intro _
    simp only [List.cons_append, scanQuotedTail, if_neg escaped, if_pos closing, if_neg doubled]
  | case6 c d rest escaped closing ih =>
    intro short
    simp only [List.cons_append, scanQuotedTail, if_neg escaped, if_neg closing, List.length_cons] at short ih ⊢
    rw [ih (by simpa using apart) (by omega)]

theorem quotedDecided (quote : CodeUnit) (escapes : Bool) (other : quote ≠ space) (c : CodeUnit) (t more : Text)
    (apart : t.getLast? = some quote → ∀ d ∈ more.head?, d ≠ quote)
    (short : scanQuoted quote true escapes (c :: t ++ [space]) ≤ (c :: t).length) :
    scanQuoted quote true escapes (c :: t ++ more) = scanQuoted quote true escapes (c :: t ++ [space]) := by
  simp only [scanQuoted, List.cons_append, List.drop_one, List.tail_cons, List.length_cons] at short ⊢
  rw [quotedTailDecided quote escapes other t more apart (by omega)]

end Scans

section Openers
variable {rules : DialectRules}

theorem seamQuote {f more : Text} (seam : Seam f more) {quote : CodeUnit} (mark : isQuote quote = true) :
    f.getLast? = some quote → ∀ d ∈ more.head?, d ≠ quote := by
  rintro last d head rfl
  rcases seam _ last _ head with joined | joined
  · simp [(jointUnits joined).2.2.1] at mark
  · simp [(jointUnits joined).2.2.1] at mark

theorem seamTail {c : CodeUnit} {f more : Text} (seam : Seam (c :: f) more) : Seam f more := by
  intro e last
  cases f with
  | nil => simp at last
  | cons d f => exact seam e (by rwa [List.getLast?_cons_cons])

theorem openerDecided {opener : Opener} {t more : Text} (stands : opener.Stands (t ++ [space])) (seam : Seam t more)
    (short : opener.scan rules (t ++ [space]) ≤ t.length) (long : 2 ≤ t.length) :
    opener.scan rules (t ++ more) = opener.scan rules (t ++ [space]) := by
  obtain ⟨c, d, t, rfl⟩ : ∃ c d rest, t = c :: d :: rest := by
    match t, long with
    | c :: d :: rest, _ => exact ⟨c, d, rest, rfl⟩
  cases opener with
  | dashComment => exact lineDecided _ _ short
  | hashComment => exact lineDecided _ _ short
  | blockComment =>
    simp only [Opener.scan, scanBlockComment, List.cons_append, List.drop_succ_cons, List.drop_zero,
      List.length_cons] at short ⊢
    rw [blockTailDecided _ _ t more (by omega)]
  | escapeString =>
    simp only [Opener.scan, List.cons_append, List.drop_one, List.tail_cons, List.length_cons] at short ⊢
    have inner := quotedDecided apostrophe true (by decide) d t more (seamQuote (seamTail (seamTail seam)) rfl)
      (by simp only [List.length_cons, List.cons_append]; omega)
    rw [List.cons_append, List.cons_append] at inner
    rw [inner]
  | plainString => exact quotedDecided _ _ (by decide) c _ more (seamQuote (seamTail seam) rfl) short
  | doubleQuoted => exact quotedDecided _ _ (by decide) c _ more (seamQuote (seamTail seam) rfl) short
  | backtickQuoted => exact quotedDecided _ _ (by decide) c _ more (seamQuote (seamTail seam) rfl) short
  | bracketed => exact bracketDecided (by simp) more short
  | dollarQuoted tag =>
    have found : dollarTagAt (c :: d :: t ++ [space]) = some tag := stands
    have fits : tag.length ≤ (c :: d :: t).length := by
      refine le_trans ?_ short
      simp only [Opener.scan, scanDollarQuoted]
      split
      · omega
      · rename_i absent
        have within := (dollarTagPrefix found).length_le
        exact within
    exact dollarDecided (List.prefix_of_prefix_length_le (dollarTagPrefix found) (List.prefix_append _ _) fits) more short

theorem seamJoint {f more : Text} (seam : Seam f more) {c : CodeUnit} (last : f.getLast? = some c)
    (plain : joint c = false) : ∀ d ∈ more.head?, joint d = true := by
  intro d head
  rcases seam c last d head with joined | joined
  · simp [plain] at joined
  · exact joined

theorem tagDecided {t more : Text} (seam : Seam (36 :: t) more) : dollarTagAt (36 :: (t ++ more)) = dollarTagAt (36 :: t) := by
  cases found : dollarTagAt (36 :: t) with
  | some tag => exact dollarTagSettles found more
  | none =>
    refine dollarTagMisses more found ?_
    by_cases inner : ∃ d ∈ t, isTagPart d = false
    · exact Or.inl inner
    · right
      intro d head
      obtain ⟨last, ends⟩ : ∃ last, (36 :: t).getLast? = some last := ⟨_, List.getLast?_eq_some_getLast (by simp)⟩
      have plain : joint last = false := by
        by_contra joined
        have units := jointUnits (eq_true_of_ne_false joined)
        rcases List.mem_cons.mp (List.mem_of_getLast? ends) with rfl | member
        · exact units.2.2.2.1 rfl
        · exact inner ⟨last, member, units.2.1⟩
      have units := jointUnits (seamJoint seam ends plain d head)
      exact ⟨units.2.1, units.2.2.2.1⟩

def Loose (more : Text) : Prop := ∀ d ∈ more.head?, joint d = true

theorem looseNext {more : Text} (loose : Loose more) {c : CodeUnit} (plain : joint c = false) : nextIs c more = false := by
  cases more with
  | nil => rfl
  | cons e more =>
    have joined := loose e rfl
    rw [nextIsCons, beq_eq_false_iff_ne]
    rintro rfl
    simp [plain] at joined

theorem looseTag {more : Text} (loose : Loose more) : dollarTagAt (36 :: more) = none := by
  cases more with
  | nil => rfl
  | cons e more =>
    have units := jointUnits (loose e rfl)
    have start : isTagStart e = false := by
      simp only [isTagPart, Bool.or_eq_false_iff] at units
      exact units.2.1.1
    simp [dollarTagAt, tagName, start, units.2.2.2.1]

theorem looseOpener {more : Text} (loose : Loose more) (before : Text) (c : CodeUnit) :
    openerAt rules before (c :: more) =
      if rules.hashComments && c == '#' then some .hashComment
      else if c == apostrophe then some .plainString
      else if c == doubleQuote then some .doubleQuoted
      else if rules.backtickIdent && c == backtick then some .backtickQuoted
      else if rules.bracketIdent && c == '[' then some .bracketed else none := by
  have dash : nextIs ('-' : CodeUnit) more = false := looseNext loose rfl
  have star : nextIs ('*' : CodeUnit) more = false := looseNext loose rfl
  have mark : nextIs apostrophe more = false := looseNext loose rfl
  by_cases sign : c = 36
  · subst sign
    simp [openerAtDollar, looseTag loose, apostrophe, doubleQuote, backtick]
  · have other : (c == ('$' : CodeUnit)) = false := by simpa using sign
    simp only [openerAt, dash, star, mark, other, Bool.and_false, Bool.false_and, Bool.false_eq_true, if_false]

theorem lastForm {before : Text} {c : CodeUnit} {opener : Opener} (found : openerAt rules before [c, space] = some opener) :
    2 ≤ opener.scan rules [c, space] := by
  have quoted (quote : CodeUnit) (escapes : Bool) : 2 ≤ scanQuoted quote true escapes [c, space] := by
    simp [scanQuoted, scanQuotedTail]
  rw [looseOpener (by simp [Loose, joint, isSpace, space])] at found
  split at found
  · rename_i test
    cases found
    simp only [Bool.and_eq_true, beq_iff_eq] at test
    simp [Opener.scan, scanLineComment, indexOf, startsWith, test.2, space]
  split at found
  · cases found
    exact quoted _ _
  split at found
  · cases found
    exact quoted _ _
  split at found
  · cases found
    exact quoted _ _
  split at found
  · cases found
    simp [Opener.scan, scanBracket, indexOf, startsWith, space]
  · contradiction

theorem openerJoined {before f more : Text} {c : CodeUnit} (seam : Seam (c :: f) more)
    (fits : ∀ opener ∈ openerAt rules before (c :: f ++ [space]), opener.scan rules (c :: f ++ [space]) ≤ (c :: f).length) :
    openerAt rules before (c :: f ++ more) = openerAt rules before (c :: f ++ [space]) := by
  cases f with
  | nil =>
    cases found : openerAt rules before [c, space] with
    | some opener => exact absurd (fits opener found) (by have := lastForm found; simp; omega)
    | none =>
      by_cases joined : joint c = true
      · simp [jointOpens joined]
      · have loose := seamJoint seam rfl (eq_false_of_ne_true joined)
        simp only [List.singleton_append]
        rw [found, ← found, looseOpener loose, looseOpener (by simp [Loose, joint, isSpace, space])]
  | cons d f =>
    have dollar (rest : Text) (seam : Seam (c :: d :: f) rest) (sign : c = 36) :
        dollarTagAt (c :: d :: (f ++ rest)) = dollarTagAt (c :: d :: f) := by
      subst sign
      exact tagDecided seam
    have spaced : Seam (c :: d :: f) [space] := by simp [Seam, joint, isSpace, space]
    have ending : openerAt rules before (c :: d :: (f ++ [space])) = openerAt rules before (c :: d :: f) :=
      openerAppend (fun _ sign => dollar _ spaced sign) fun _ _ => Or.inr (Or.inr rfl)
    rw [List.cons_append, List.cons_append, List.cons_append, List.cons_append, ending]
    refine openerAppend (fun _ sign => dollar _ seam sign) fun first second => ?_
    by_cases free : rules.dashDashNeedsSpace = false
    · exact Or.inr (Or.inl free)
    · left
      rintro rfl
      subst first second
      have comment : openerAt rules before ([45, 45] ++ [space]) = some .dashComment := by
        simp [openerAt, nextIs, isSpace, space]
      have short := fits _ comment
      simp [Opener.scan, scanLineComment, indexOf, startsWith, space] at short

theorem closedFits {k : Nat} {before f : Text} (shut : closedFrom rules k before f = true) : k ≤ f.length := by
  induction f generalizing k before with
  | nil =>
    cases k with
    | zero => exact Nat.le_refl _
    | succ k => simp [closedFrom] at shut
  | cons c f ih =>
    cases k with
    | zero => exact Nat.zero_le _
    | succ k => exact Nat.succ_le_succ (ih shut)

end Openers

section Walks
variable {rules : DialectRules}

def Inert (rules : DialectRules) (f : Text) : Prop :=
  ∀ (s : SplitState) (before more : Text), s.sawContent = true → s.delimiter = .semicolon →
    Seam before.reverse f → Seam f more → Walk rules ⟨s, before, f ++ more⟩ ⟨s, f.reverse ++ before, more⟩

section Move
variable {s : SplitState} {before more : Text} {c : CodeUnit} (saw : s.sawContent = true)
include saw

theorem movePlain (mark : s.delimiter = .semicolon) (plain : openerAt rules before (c :: more) = none) (other : c ≠ 59)
    {c' : SplitConfig} (tail : Walk rules ⟨s, c :: before, more⟩ c') : Walk rules ⟨s, before, c :: more⟩ c' := by
  by_cases white : isSpace c = true
  · have here : splitMove rules s before c more = .space := by simp [splitMove, white]
    refine .step (.move (by rw [here]; rfl)) ?_
    rwa [staySpace white]
  · have quiet : commandAt rules s before (c :: more) = none := by simp [commandAt, saw]
    have inside : startsWith s.delimiter.text (c :: more) = false := by
      rw [mark, Bool.eq_false_iff, ne_eq, startsWithIff]
      exact fun stands => other (List.cons_prefix_cons.mp stands).1.symm
    have here : splitMove rules s before c more = .unit := by
      simp only [splitMove, if_neg white, quiet, plain, inside, Bool.false_eq_true, if_false]
    have same : { s with sawContent := true } = s := by rw [← saw]
    refine .step (.move (by rw [here]; rfl)) ?_
    simpa only [Config.next, splitStep, here, same, List.take_succ_cons, List.take_zero, List.reverse_cons,
      List.reverse_nil, List.nil_append, List.singleton_append, List.drop_succ_cons, List.drop_zero] using tail

theorem moveForm (ink : isSpace c = false) {opener : Opener} (found : openerAt rules before (c :: more) = some opener)
    {c' : SplitConfig} (tail : Walk rules ⟨s, (more.take (opener.scan rules (c :: more) - 1)).reverse ++ c :: before,
      more.drop (opener.scan rules (c :: more) - 1)⟩ c') : Walk rules ⟨s, before, c :: more⟩ c' := by
  have quiet : commandAt rules s before (c :: more) = none := by simp [commandAt, saw]
  have here : splitMove rules s before c more = .form opener := by
    simp only [splitMove, ink, quiet, found, Bool.false_eq_true, if_false]
  have same : { s with sawContent := s.sawContent || countsAsContent rules (c :: more) opener } = s := by
    rw [saw, Bool.true_or, ← saw]
  obtain ⟨w, width⟩ : ∃ w, opener.scan rules (c :: more) = w + 1 :=
    ⟨_, (Nat.sub_add_cancel (openerPositive found)).symm⟩
  refine .step (.move (by rw [here]; rfl)) ?_
  rw [width] at tail
  simpa only [Config.next, splitStep, here, same, width, List.take_succ_cons, List.reverse_cons, List.append_assoc,
    List.singleton_append, List.drop_succ_cons, Nat.add_sub_cancel] using tail

end Move

theorem closedWalk {s : SplitState} (saw : s.sawContent = true) (mark : s.delimiter = .semicolon) {more : Text} (f : Text) :
    ∀ (k : Nat) (known before : Text), closedFrom rules k known f = true → Seam f more →
      (∀ text, openerAt rules known (f ++ text) = openerAt rules before (f ++ text)) →
      Walk rules ⟨s, (f.take k).reverse ++ before, f.drop k ++ more⟩ ⟨s, f.reverse ++ before, more⟩ := by
  induction f with
  | nil =>
    intro k known before shut _ _
    simpa using Walk.refl _
  | cons c f ih =>
    intro k known before shut seam look
    have after (text : Text) : openerAt rules (c :: known) text = openerAt rules (c :: before) text :=
      sameLookOpener (fun _ => rfl) text
    have rest (k : Nat) (shut : closedFrom rules k (c :: known) f = true) :
        Walk rules ⟨s, (f.take k).reverse ++ c :: before, f.drop k ++ more⟩ ⟨s, (c :: f).reverse ++ before, more⟩ := by
      rw [List.reverse_cons, List.append_assoc]
      exact ih k (c :: known) (c :: before) shut (seamTail seam) fun text => after _
    cases k with
    | succ k =>
      rw [List.take_succ_cons, List.drop_succ_cons, List.reverse_cons, List.append_assoc]
      exact rest k shut
    | zero =>
      simp only [List.take_zero, List.reverse_nil, List.nil_append, List.drop_zero, List.cons_append]
      simp only [closedFrom] at shut
      split at shut
      · rename_i white
        refine .step (.move (by simp [splitMove, white, stays])) ?_
        rw [staySpace white]
        exact rest 0 shut
      · rename_i ink
        have ink := eq_false_of_ne_true ink
        split at shut
        · rename_i opener found
          have fits := closedFits shut
          have within : opener.scan rules (c :: f ++ [space]) ≤ (c :: f).length := by
            simp only [List.length_cons]
            omega
          have still := @openerJoined rules known f more c seam fun o there => by
            rw [found] at there
            cases there
            exact within
          rw [found, look] at still
          have long : 2 ≤ (c :: f).length := by
            cases f with
            | nil => exact absurd within (by have := lastForm found; simp only [List.singleton_append, List.length_singleton]; omega)
            | cons d f => simp
          have width := openerDecided (openerStands found) seam within long
          rw [List.cons_append] at still width
          refine moveForm saw ink still ?_
          rw [width, List.take_append_of_le_length fits, List.drop_append_of_le_length fits]
          exact rest _ shut
        · rename_i plain
          simp only [Bool.and_eq_true, bne_iff_ne] at shut
          have still := @openerJoined rules known f more c seam (by rw [plain]; simp)
          rw [plain, look] at still
          exact movePlain saw mark still shut.1 (rest 0 shut.2)

theorem closedInert {f : Text} (shut : closed rules f = true) : Inert rules f := by
  intro s before more saw mark front seam
  cases f with
  | nil => exact .refl _
  | cons c f =>
    by_cases joined : joint c = true
    · -- A joint is read the same whatever stands before it.
      have walk := closedWalk saw mark (c :: f) 0 [] before shut seam fun text => by
        rw [List.cons_append, jointOpens joined, jointOpens joined]
      simpa using walk
    · have look : SameLook rules [] before := by
        intro _
        cases before with
        | nil => rfl
        | cons d before =>
          have head : joint d = true := by
            rcases front d (by simp) c rfl with there | there
            · exact there
            · exact absurd there joined
          simp [(jointUnits head).1]
      simpa using closedWalk saw mark (c :: f) 0 [] before shut seam fun text => sameLookOpener look _

theorem inertNil : Inert rules [] := fun _ _ _ _ _ _ _ => .refl _

theorem walkTrans {a b c : SplitConfig} (first : Walk rules a b) (last : Walk rules b c) : Walk rules a c := by
  induction first with
  | refl => exact last
  | step here _ ih => exact .step here (ih last)

theorem inertAppend {f g : Text} (first : Inert rules f) (last : Inert rules g) (seam : Seam f g) : Inert rules (f ++ g) := by
  intro s before more saw mark front back
  by_cases nothing : f = []
  · subst nothing
    simpa using last s before more saw mark front back
  by_cases ended : g = []
  · subst ended
    rw [List.append_nil] at back front ⊢
    exact first s before more saw mark front back
  obtain ⟨c, f, rfl⟩ := List.exists_cons_of_ne_nil nothing
  obtain ⟨d, g, rfl⟩ := List.exists_cons_of_ne_nil ended
  rw [List.reverse_append, List.append_assoc, List.append_assoc]
  refine walkTrans (first s before _ saw mark front seam) (last s _ more saw mark ?_ ?_)
  · intro e ends
    rw [List.reverse_append, List.reverse_reverse, List.getLast?_append_of_ne_nil _ nothing] at ends
    exact seam e ends
  · intro e ends
    exact back e (by rwa [List.getLast?_append_of_ne_nil _ ended])

end Walks

section Pasted
variable {dialect : SqlDialect}

def leads (f : Text) : Bool := f.head?.any joint

def trails (f : Text) : Bool := f.getLast?.any joint

theorem seamLeads {f g : Text} (joined : leads g = true) : Seam f g := by
  intro _ _ d head
  simp only [leads, Option.any_eq_true] at joined
  obtain ⟨e, there, joint⟩ := joined
  rw [there] at head
  cases head
  exact Or.inr joint

theorem seamTrails {f g : Text} (joined : trails f = true) : Seam f g := by
  intro d last _ _
  simp only [trails, Option.any_eq_true] at joined
  obtain ⟨e, there, joint⟩ := joined
  rw [there] at last
  cases last
  exact Or.inl joint

theorem trailsAppend {f g : Text} (joined : trails g = true) : trails (f ++ g) = true := by
  have some' : g ≠ [] := by
    rintro rfl
    contradiction
  rwa [trails, List.getLast?_append_of_ne_nil _ some']

def closedWords (w : Text) : Bool := closed (rulesOf .mysql) w && closed (rulesOf .postgres) w && closed (rulesOf .sqlite) w

theorem wordsInert {w : Text} (shut : closedWords w = true) : Inert (rulesOf dialect) w := by
  simp only [closedWords, Bool.and_eq_true] at shut
  cases dialect with
  | mysql => exact closedInert shut.1.1
  | postgres => exact closedInert shut.1.2
  | sqlite => exact closedInert shut.2

structure Ready (rules : DialectRules) (f : Text) : Prop where
  inert : Inert rules f
  trailing : trails f = true

theorem readyWords (w : Text) (shut : (closedWords w && trails w) = true) : Ready (rulesOf dialect) w := by
  rw [Bool.and_eq_true] at shut
  exact ⟨wordsInert shut.1, shut.2⟩

theorem Ready.paste {rules : DialectRules} {f g : Text} (first : Ready rules f) (last : Inert rules g) : Inert rules (f ++ g) :=
  inertAppend first.inert last (seamTrails first.trailing)

theorem inertWords {f : Text} (first : Inert (rulesOf dialect) f) (w : Text) (shut : (closedWords w && leads w) = true) :
    Inert (rulesOf dialect) (f ++ w) := by
  rw [Bool.and_eq_true] at shut
  exact inertAppend first (wordsInert shut.1) (seamLeads shut.2)

theorem inertReady {f : Text} (first : Inert (rulesOf dialect) f) (w : Text)
    (shut : (closedWords w && leads w && trails w) = true) : Ready (rulesOf dialect) (f ++ w) := by
  rw [Bool.and_eq_true] at shut
  exact ⟨inertWords first w shut.1, trailsAppend shut.2⟩

theorem Ready.words {f : Text} (first : Ready (rulesOf dialect) f) (w : Text) (shut : (closedWords w && trails w) = true) :
    Ready (rulesOf dialect) (f ++ w) := by
  rw [Bool.and_eq_true] at shut
  exact ⟨first.paste (wordsInert shut.1), trailsAppend shut.2⟩

structure Clause (rules : DialectRules) (f : Text) : Prop where
  inert : Inert rules f
  opening : f = [] ∨ leads f = true

theorem clauseNil : Clause (rulesOf dialect) [] := ⟨inertNil, Or.inl rfl⟩

theorem clauseWords {w : Text} (shut : (closedWords w && leads w) = true) : Clause (rulesOf dialect) w := by
  rw [Bool.and_eq_true] at shut
  exact ⟨wordsInert shut.1, Or.inr shut.2⟩

theorem clausePaste {w f : Text} (shut : (closedWords w && leads w && trails w) = true) (last : Inert (rulesOf dialect) f) :
    Clause (rulesOf dialect) (w ++ f) := by
  simp only [Bool.and_eq_true] at shut
  refine ⟨inertAppend (wordsInert shut.1.1) last (seamTrails shut.2), Or.inr ?_⟩
  cases w with
  | nil => simp [leads] at shut
  | cons c w => exact shut.1.2

theorem inertClause {rules : DialectRules} {f g : Text} (first : Inert rules f) (last : Clause rules g) : Inert rules (f ++ g) := by
  rcases last.opening with rfl | joined
  · rwa [List.append_nil]
  · exact inertAppend first last.inert (seamLeads joined)

theorem inertJoin {sep : Text} (shut : (closedWords sep && leads sep && trails sep) = true) {parts : List Text}
    (each : ∀ part ∈ parts, Inert (rulesOf dialect) part) : Inert (rulesOf dialect) (sep.intercalate parts) := by
  induction parts with
  | nil => exact inertNil
  | cons a parts ih =>
    have first := each a (by simp)
    cases parts with
    | nil => simpa [List.intercalate] using first
    | cons b parts =>
      rw [List.intercalate_cons_cons]
      exact (inertReady first sep shut).paste (ih fun part member => each part (by simp [member]))

end Pasted

section Atoms
variable {rules : DialectRules}

theorem closedSkip (f before : Text) : closedFrom rules f.length before f = true := by
  induction f generalizing before with
  | nil => rfl
  | cons c f ih => exact ih (c :: before)

theorem closedForm {c : CodeUnit} {f before : Text} {opener : Opener} (ink : isSpace c = false)
    (found : openerAt rules before (c :: f ++ [space]) = some opener)
    (whole : opener.scan rules (c :: f ++ [space]) = (c :: f).length) : closedFrom rules 0 before (c :: f) = true := by
  simp only [closedFrom, ink, Bool.false_eq_true, if_false, found, whole, List.length_cons, Nat.add_sub_cancel]
  exact closedSkip f (c :: before)

theorem closedUnit {c : CodeUnit} {f before : Text} (plain : openerAt rules before (c :: f ++ [space]) = none)
    (other : c ≠ 59) (tail : closedFrom rules 0 (c :: before) f = true) : closedFrom rules 0 before (c :: f) = true := by
  simp only [closedFrom, plain, tail, Bool.and_true]
  split
  · rfl
  · exact bne_iff_ne.mpr other

theorem literalClosed (s before : Text) :
    closedFrom rules 0 before (apostrophe :: (encode apostrophe rules.backslashEscapes s ++ [apostrophe])) = true := by
  refine @closedForm rules _ _ _ .plainString rfl ?_ ?_
  · simp [openerAt, apostrophe]
  · exact quotedScan apostrophe (by decide) rules.backslashEscapes s (by decide) rfl

theorem escapedClosed (on : rules.escapeStringPrefix = true) (s : Text) :
    closed rules (('E' : CodeUnit) :: apostrophe :: (encode apostrophe true s ++ [apostrophe])) = true := by
  refine @closedForm rules _ _ _ .escapeString rfl ?_ ?_
  · simp [openerAt, nextIs, on, apostrophe]
  · have inner := quotedScan apostrophe (by decide) true s (t := [space]) (by decide) rfl
    simp only [Opener.scan, List.cons_append, List.drop_one, List.tail_cons, List.length_cons] at inner ⊢
    rw [inner]
    omega

theorem encodePlain {quote : CodeUnit} {escapes : Bool} {s : Text}
    (plain : ∀ c ∈ s, c ≠ quote ∧ (escapes = true → c ≠ backslash)) : encode quote escapes s = s := by
  have each : ∀ c ∈ s, encodeUnit quote escapes c = [c] := by
    intro c member
    obtain ⟨other, regular⟩ := plain c member
    rw [encodeUnit, if_neg other, if_neg fun both => regular both.1 both.2]
  rw [encode, List.flatMap_congr each, List.flatMap_singleton']

def numeralUnit (c : CodeUnit) : Bool := isDigit c || c == '.' || c == '+' || c == '-' || c == 'e' || c == 'E'

theorem numeralRange {c : Nat} (spelled : numeralUnit c = true) :
    (43 ≤ c ∧ c ≤ 57 ∧ c ≠ 47) ∨ c = 69 ∨ c = 101 := by
  simp only [numeralUnit, isDigit, Bool.or_eq_true, Bool.and_eq_true, decide_eq_true_eq, beq_iff_eq] at spelled
  rcases spelled with ((((digit | rfl) | rfl) | rfl) | rfl) | rfl
  · exact Or.inl ⟨Nat.le_trans (by decide) digit.1, digit.2, by rintro rfl; exact absurd digit.1 (by decide)⟩
  all_goals decide

theorem numeralOpens {before more : Text} {c : CodeUnit} (spelled : numeralUnit c = true)
    (single : c = 45 → more.head? ≠ some 45) (even : ∀ d ∈ more.head?, d ≠ apostrophe) : openerAt rules before (c :: more) = none := by
  have mark : nextIs apostrophe more = false := by
    cases more with
    | nil => rfl
    | cons d more => simpa [nextIsCons] using even d rfl
  have dash : (c == ('-' : CodeUnit) && nextIs ('-' : CodeUnit) more) = false := by
    by_cases sign : c = 45
    · have other := single sign
      simpa [nextIs, sign] using other
    · simp [sign]
  simp only [openerAt, mark, dash, Bool.false_and, Bool.and_false, Bool.false_eq_true, if_false]
  have apart (d : Nat) (other : d < 43 ∨ d = 47 ∨ 57 < d ∧ d ≠ 69 ∧ d ≠ 101) : (c == d) = false := by
    rw [beq_eq_false_iff_ne]
    rintro rfl
    have range := numeralRange spelled
    omega
  simp only [apart ('#' : CodeUnit) (by decide), apart ('/' : CodeUnit) (by decide), apart apostrophe (by decide),
    apart doubleQuote (by decide), apart backtick (by decide), apart ('[' : CodeUnit) (by decide),
    apart ('$' : CodeUnit) (by decide), Bool.and_false, Bool.false_and, Bool.false_eq_true, if_false]

theorem numeralClosed (v : Text) : ∀ before : Text, (∀ c ∈ v, numeralUnit c = true) →
    v.IsChain (fun a b => ¬(a = 45 ∧ b = 45)) → closedFrom rules 0 before v = true := by
  induction v with
  | nil => intros; rfl
  | cons c v ih =>
    intro before spelled single
    have head := spelled c (by simp)
    have plain : c ≠ 59 := by
      rintro rfl
      contradiction
    cases v with
    | nil =>
      refine closedUnit (numeralOpens head ?_ ?_) plain rfl
      · simp [space]
      · simp [space, apostrophe]
    | cons d v =>
      rw [List.isChain_cons_cons] at single
      refine closedUnit (numeralOpens head ?_ ?_) plain (ih (c :: before) (fun e member => spelled e (by simp [member])) single.2)
      · intro sign next
        exact single.1 ⟨sign, Option.some.inj next⟩
      · rintro e next rfl
        cases next
        exact absurd (spelled apostrophe (by simp)) (by decide)

end Atoms

section Quoted
variable {engine : EngineKind} {dialect : SqlDialect}

theorem identShape {name text : Text} (ok : quoteIdent name engine = .ok text) :
    ∃ style, styleFor engine = .ok style ∧ text = style.mark :: (encode style.mark false name ++ [style.mark]) := by
  unfold quoteIdent at ok
  cases named : styleFor engine with
  | error message => simp [named, bind, Except.bind] at ok
  | ok style =>
    simp only [named, bind, Except.bind, pure, Except.pure, throw, throwThe, MonadExceptOf.throw] at ok
    split at ok
    · contradiction
    · split at ok
      · contradiction
      · cases ok
        exact ⟨style, rfl, by rw [encodeDoubled, List.cons_append]⟩

theorem identInert (sql : dialectForEngine engine = .ok dialect) {name text : Text} (ok : quoteIdent name engine = .ok text) :
    Inert (rulesOf dialect) text := by
  obtain ⟨style, named, rfl⟩ := identShape ok
  have opens := styleOpens sql named (encode style.mark false name ++ [style.mark] ++ [space])
  refine closedInert (@closedForm _ _ _ _ (styleOpener style) ?_ ?_ ?_)
  · cases style <;> rfl
  · rw [List.cons_append]
    exact opens.1
  · rw [List.cons_append, opens.2]
    exact quotedScan style.mark (by cases style <;> decide) false name (by decide) (by cases style <;> rfl)

theorem literalInert (sql : dialectForEngine engine = .ok dialect) {s text : Text} (ok : quoteLiteral (.string s) engine = .ok text) :
    Inert (rulesOf dialect) text := by
  have nulFree : 0 ∉ s := by
    intro member
    have has : s.contains 0 = true := by simpa using member
    simp only [quoteLiteral, has, if_true, reduceCtorEq] at ok
  rw [quoteLiteralText sql nulFree, Except.ok.injEq] at ok
  subst ok
  cases dialect with
  | mysql => exact closedInert (literalClosed s [])
  | sqlite => exact closedInert (literalClosed s [])
  | postgres =>
    dsimp only
    split
    · exact closedInert (escapedClosed rfl s)
    · exact closedInert (literalClosed s [])

end Quoted

end DatabaseAdmin.SqlFragments
