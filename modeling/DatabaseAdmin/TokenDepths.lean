import DatabaseAdmin.TokenFragments

/-! Fragments whose parentheses pair up. Such a fragment is read at every depth as it is read alone, and
leaves the depth as it was. -/
namespace DatabaseAdmin.TokenFragments
open CodeUnits ScanLoop SqlFragments

section Levels
variable {rules : DialectRules}

def raise (n : Nat) (l : Lexeme) : Lexeme := { l with depth := l.depth + n }

def level : Nat → List Lexeme → Option Nat
  | depth, [] => some depth
  | depth, l :: ls =>
      if l.kind = .punct ∧ l.text = units "(" then level (depth + 1) ls
      else if l.kind = .punct ∧ l.text = units ")" then
        match depth with
        | 0 => none
        | depth + 1 => level depth ls
      else level depth ls

def balanced (ls : List Lexeme) : Bool := level 0 ls = some 0

inductive Levels (rules : DialectRules) (before : Text) (c : CodeUnit) (f : Text) : Prop where
  | none (w : Nat) (step : ∀ depth, shape (tokenStep rules depth before (c :: f)) = (depth, w, []))
  | plain (w : Nat) (kind : TokenKind) (text : Text)
      (other : ¬ (kind = .punct ∧ text = units "(") ∧ ¬ (kind = .punct ∧ text = units ")"))
      (step : ∀ depth, shape (tokenStep rules depth before (c :: f)) = (depth, w, [⟨kind, text, depth⟩]))
  | rise (step : ∀ depth, shape (tokenStep rules depth before (c :: f)) = (depth + 1, 1, [⟨.punct, units "(", depth⟩]))
  | fall (step : ∀ depth, shape (tokenStep rules depth before (c :: f)) = (depth - 1, 1, [⟨.punct, units ")", depth - 1⟩]))

theorem stepLevels (before : Text) (c : CodeUnit) (f : Text) : Levels rules before c f := by
  cases ink : isSpace c with
  | true => exact .none 1 fun depth => by simp [tokenStep, ink, shape]
  | false =>
    cases found : openerAt rules before (c :: f) with
    | some opener =>
      cases kinded : openerKind opener with
      | none => exact .none (opener.scan rules (c :: f)) fun depth => by simp [tokenStep, ink, found, kinded, shape]
      | some kind =>
        refine .plain (opener.scan rules (c :: f)) kind ((c :: f).take (opener.scan rules (c :: f))) ?_ fun depth => by
          simp [tokenStep, ink, found, kinded, shape, lexeme, tokenOf]
        cases opener <;> cases kinded <;> simp
    | none =>
      cases start : isIdentStart c with
      | true =>
        exact .plain (1 + (f.takeWhile isIdentPart).length) .word ((c :: f).take (1 + (f.takeWhile isIdentPart).length)) (by simp)
          fun depth => by simp [tokenStep, ink, found, start, shape, lexeme, tokenOf]
      | false =>
        cases digit : isDigit c with
        | true =>
          exact .plain (1 + (f.takeWhile isNumberPart).length) .number ((c :: f).take (1 + (f.takeWhile isNumberPart).length))
            (by simp) fun depth => by simp [tokenStep, ink, found, start, digit, shape, lexeme, tokenOf]
        | false =>
          by_cases opens : (c == ('(' : CodeUnit)) = true
          · obtain rfl := beq_iff_eq.mp opens
            refine .rise fun depth => ?_
            simp only [tokenStep, ink, found, start, digit, beq_self_eq_true, Bool.false_eq_true, if_false, if_true]
            rfl
          · by_cases closes : (c == (')' : CodeUnit)) = true
            · obtain rfl := beq_iff_eq.mp closes
              refine .fall fun depth => ?_
              simp only [tokenStep, ink, found, start, digit, beq_self_eq_true, Bool.false_eq_true, if_false, if_true]
              rfl
            · refine .plain 1 .punct [c] ⟨fun same => opens ?_, fun same => closes ?_⟩ fun depth => ?_
              · exact beq_iff_eq.mpr (List.head_eq_of_cons_eq same.2)
              · exact beq_iff_eq.mpr (List.head_eq_of_cons_eq same.2)
              · simp only [tokenStep, ink, found, start, digit, if_neg opens, if_neg closes, Bool.false_eq_true, if_false]
                rfl

theorem levelKept (n : Nat) (f : Text) : ∀ (k depth e : Nat) (before : Text),
    level depth (lexemesFrom rules k depth before f) = some e →
    lexemesFrom rules k (depth + n) before f = (lexemesFrom rules k depth before f).map (raise n) ∧
      depthFrom rules k depth before f = e ∧ depthFrom rules k (depth + n) before f = e + n := by
  induction f with
  | nil =>
    intro k depth e before kept
    cases k <;> cases kept <;> exact ⟨rfl, rfl, rfl⟩
  | cons c f ih =>
    intro k depth e before kept
    cases k with
    | succ k => exact ih k depth e (c :: before) kept
    | zero =>
      rw [lexemesNext] at kept
      rw [lexemesNext, lexemesNext, depthNext, depthNext]
      rcases @stepLevels rules before c f with ⟨w, step⟩ | ⟨w, kind, text, other, step⟩ | ⟨step⟩ | ⟨step⟩
      · rw [step] at kept
        rw [step, step]
        exact ih _ depth e _ kept
      · rw [step] at kept
        rw [step, step]
        simp only [List.singleton_append, level, if_neg other.1, if_neg other.2] at kept
        obtain ⟨read, here, there⟩ := ih _ depth e _ kept
        exact ⟨by simp [read, raise], here, there⟩
      · rw [step] at kept
        rw [step, step]
        simp only [List.singleton_append, level, and_self, if_true] at kept
        obtain ⟨read, here, there⟩ := ih _ (depth + 1) e _ kept
        rw [Nat.add_right_comm depth 1 n] at read there
        exact ⟨by rw [read]; rfl, here, there⟩
      · rw [step] at kept
        rw [step, step]
        have apart : ¬ units ")" = units "(" := by decide
        simp only [List.singleton_append, level, apart, and_false, and_self, if_true, if_false] at kept
        cases depth with
        | zero => cases kept
        | succ depth =>
          obtain ⟨read, here, there⟩ := ih _ depth e _ kept
          rw [Nat.add_right_comm depth 1 n]
          exact ⟨by rw [Nat.add_sub_cancel, read]; rfl, here, there⟩

end Levels

section Solids
variable {rules : DialectRules}

structure Solid (rules : DialectRules) (f : Text) : Prop where
  full : f ≠ []
  reads : ∀ depth, Reads rules depth f ((lexemes rules 0 f).map (raise depth)) depth

theorem solidBalanced {f : Text} (full : f ≠ []) (shut : ended rules f = true) (even : balanced (lexemes rules 0 f) = true) :
    Solid rules f := by
  refine ⟨full, fun depth => ?_⟩
  obtain ⟨read, -, there⟩ := levelKept depth f 0 0 0 [] (of_decide_eq_true even)
  rw [Nat.zero_add] at read there
  have reads := endedReads shut depth
  rw [lexemes, depthAfter, read, there] at reads
  exact reads

theorem raiseNone : raise 0 = id := rfl

theorem solidAlone {f : Text} (solid : Solid rules f) : Reads rules 0 f (lexemes rules 0 f) 0 := by
  have reads := solid.reads 0
  rwa [raiseNone, List.map_id] at reads

theorem solidTokens {f g : Text} (first : Solid rules f) (last : Solid rules g) (parted : Parted f g) :
    lexemes rules 0 (f ++ g) = lexemes rules 0 f ++ lexemes rules 0 g :=
  readsWhole (readsAppend (solidAlone first) (solidAlone last) first.full last.full parted)

theorem solidAppend {f g : Text} (first : Solid rules f) (last : Solid rules g) (parted : Parted f g) : Solid rules (f ++ g) := by
  refine ⟨List.append_ne_nil_of_left_ne_nil first.full g, fun depth => ?_⟩
  rw [solidTokens first last parted, List.map_append]
  exact readsAppend (first.reads depth) (last.reads depth) first.full last.full parted

theorem solidForm {f : Text} {kind : TokenKind} (form : Formed rules [] f kind) (full : f ≠ []) : Solid rules f := by
  refine ⟨full, fun depth => ?_⟩
  have alone : lexemes rules 0 f = [⟨kind, f, 0⟩] := form.read 0
  rw [alone]
  simpa [raise] using formReads form depth

theorem unitsInside {depth : Nat} {f : Text} (flat : Flat rules f) : ∀ l ∈ lexemes rules depth f, ∀ c ∈ l.text, c ∈ f := by
  intro l member c inside
  have whole := (@flatLexemes rules depth f flat 0 [] (Nat.zero_le _)).1
  rw [List.drop_zero] at whole
  rw [← whole]
  exact List.mem_flatMap.mpr ⟨l, member, inside⟩

theorem levelPlain {depth : Nat} {ls : List Lexeme} (plain : ∀ l ∈ ls, l.text ≠ units "(" ∧ l.text ≠ units ")") :
    level depth ls = some depth := by
  induction ls with
  | nil => rfl
  | cons l ls ih =>
    obtain ⟨left, right⟩ := plain l List.mem_cons_self
    simp only [level, left, right, and_false, if_false]
    exact ih fun l member => plain l (List.mem_cons_of_mem _ member)

theorem solidFlat {f : Text} (full : f ≠ []) (flat : Flat rules f) : Solid rules f := by
  refine solidBalanced full (flatEnded flat 0 [] (Nat.zero_le _)) (decide_eq_true (levelPlain fun l member => ?_))
  have apart (c : CodeUnit) (paren : c = 40 ∨ c = 41) : l.text ≠ [c] := by
    intro same
    obtain ⟨t, suffix⟩ := List.mem_iff_append.mp (unitsInside flat l member c (by simp [same]))
    obtain ⟨rest, split⟩ := suffix
    obtain ⟨-, left, right, -⟩ := flat c rest ⟨t, split.symm⟩
    rcases paren with rfl | rfl
    · exact left rfl
    · exact right rfl
  exact ⟨apart 40 (Or.inl rfl), apart 41 (Or.inr rfl)⟩

def enclosed (rules : DialectRules) (f : Text) : List Lexeme :=
  ⟨.punct, units "(", 0⟩ :: ((lexemes rules 0 f).map (raise 1) ++ [⟨.punct, units ")", 0⟩])

def parenthesised (f : Text) : Text := units "(" ++ f ++ units ")"

theorem openStep (depth : Nat) (before more : Text) :
    shape (tokenStep rules depth before (40 :: more)) = (depth + 1, 1, [⟨.punct, units "(", depth⟩]) := by
  have plain : openerAt rules before (40 :: more) = none := jointOpens (by decide) before more
  simp only [tokenStep, plain]
  rfl

theorem closeStep (depth : Nat) (before more : Text) :
    shape (tokenStep rules depth before (41 :: more)) = (depth - 1, 1, [⟨.punct, units ")", depth - 1⟩]) := by
  have plain : openerAt rules before (41 :: more) = none := jointOpens (by decide) before more
  simp only [tokenStep, plain]
  rfl

theorem openReads (depth : Nat) : Reads rules depth (units "(") [⟨.punct, units "(", depth⟩] (depth + 1) := by
  intro before more _ _
  change lexemesFrom rules 0 depth before (40 :: more) = _
  rw [lexemesNext, openStep]
  rfl

theorem closeReads (depth : Nat) : Reads rules depth (units ")") [⟨.punct, units ")", depth - 1⟩] (depth - 1) := by
  intro before more _ _
  change lexemesFrom rules 0 depth before (41 :: more) = _
  rw [lexemesNext, closeStep]
  rfl

theorem parenReads {f : Text} (solid : Solid rules f) (depth : Nat) : Reads rules depth (parenthesised f)
    (⟨.punct, units "(", depth⟩ :: ((lexemes rules 0 f).map (raise (depth + 1)) ++ [⟨.punct, units ")", depth⟩])) depth := by
  have front := readsBehind (openReads depth) (by decide) (solid.reads (depth + 1)) solid.full
  exact readsBefore front (by simp [solid.full]) (closeReads (depth + 1)) (by decide)

theorem parenTokens {f : Text} (solid : Solid rules f) : lexemes rules 0 (parenthesised f) = enclosed rules f :=
  readsWhole (parenReads solid 0)

theorem parenSolid {f : Text} (solid : Solid rules f) : Solid rules (parenthesised f) := by
  refine ⟨by simp [parenthesised, units], fun depth => ?_⟩
  have twice : raise depth ∘ raise 1 = raise (depth + 1) := funext fun l => by simp [raise, Nat.add_assoc, Nat.add_comm 1]
  rw [parenTokens solid, enclosed, List.map_cons, List.map_append, List.map_map, twice]
  simpa [raise] using parenReads solid depth

theorem spacesRead {w : Text} (blank : ∀ c ∈ w, isSpace c = true) (before : Text) :
    endedFrom rules 0 before w = true ∧ lexemesFrom rules 0 0 before w = [] := by
  induction w generalizing before with
  | nil => exact ⟨rfl, rfl⟩
  | cons c w ih =>
    have ink := blank c List.mem_cons_self
    obtain ⟨shut, none⟩ := ih (fun d member => blank d (List.mem_cons_of_mem _ member)) (c :: before)
    have step (f : Text) : shape (tokenStep rules 0 before (c :: f)) = (0, 1, []) := by simp [tokenStep, ink, shape]
    refine ⟨?_, ?_⟩
    · have width : (tokenStep rules 0 before (c :: w ++ [space])).width = 1 := congrArg (fun s => s.2.1) (step (w ++ [space]))
      rw [endedFrom, width]
      exact shut
    · rw [lexemesNext, step]
      exact none

theorem spacesSolid {w : Text} (full : w ≠ []) (blank : ∀ c ∈ w, isSpace c = true) : Solid rules w := by
  obtain ⟨shut, none⟩ := @spacesRead rules w blank []
  exact solidBalanced full shut (by rw [lexemes, none]; rfl)

theorem spacesJoint {c : CodeUnit} (blank : isSpace c = true) : (joint c && !isNumberPart c) = true := by
  unfold isSpace at blank
  simp only [Bool.or_eq_true, beq_iff_eq] at blank
  rcases blank with (((((rfl | rfl) | rfl) | rfl) | rfl) | rfl) <;> rfl

theorem spacesBefore {w f : Text} (blank : ∀ c ∈ w, isSpace c = true) (solid : Solid rules f) :
    lexemes rules 0 (w ++ f) = lexemes rules 0 f := by
  cases w with
  | nil => rfl
  | cons c w =>
    have parted : Parted (c :: w) f := partedEnding (by
      rw [ending, List.getLast?_eq_some_getLast (List.cons_ne_nil c w)]
      exact spacesJoint (blank _ (List.getLast_mem _)))
    rw [solidTokens (spacesSolid (List.cons_ne_nil c w) blank) solid parted, lexemes, (spacesRead blank []).2, List.nil_append]

theorem spacesBehind {w f : Text} (blank : ∀ c ∈ w, isSpace c = true) (solid : Solid rules f) :
    Solid rules (f ++ w) ∧ lexemes rules 0 (f ++ w) = lexemes rules 0 f := by
  cases w with
  | nil => simpa using solid
  | cons c w =>
    have parted : Parted f (c :: w) := partedOpening (spacesJoint (blank c List.mem_cons_self))
    have spaces : Solid rules (c :: w) := spacesSolid (List.cons_ne_nil c w) blank
    refine ⟨solidAppend solid spaces parted, ?_⟩
    rw [solidTokens solid spaces parted, lexemes, lexemes, (spacesRead blank []).2, List.append_nil]

def solidWords (f : Text) : Bool := f != [] && [SqlDialect.mysql, .postgres, .sqlite].all fun dialect =>
  ended (rulesOf dialect) f && balanced (lexemes (rulesOf dialect) 0 f)

theorem wordsSolid {dialect : SqlDialect} {f : Text} (words : solidWords f = true) : Solid (rulesOf dialect) f := by
  simp only [solidWords, Bool.and_eq_true, bne_iff_ne] at words
  have here := List.all_eq_true.mp words.2 dialect (by cases dialect <;> simp)
  rw [Bool.and_eq_true] at here
  exact solidBalanced words.1 here.1 here.2

end Solids

end DatabaseAdmin.TokenFragments
