import DatabaseAdmin.CreatedTables
import DatabaseAdmin.SchemaDiffer
import DatabaseAdmin.TokenDepths

/-! The tests of whether one pair of parentheses goes around a whole expression, beside the tokens
of the expression. -/
namespace DatabaseAdmin.WrappedChecks
open CodeUnits ScanLoop SchemaModels MigrationScripts SchemaDiffer SqlFragments TokenFragments
open ChangeStatements (escapeIdentifier)

section Rendering

def parenthesizedFrom : Nat → Bool → Text → Bool
  | depth, _, [] => depth = 0
  | depth, true, 39 :: 39 :: rest => parenthesizedFrom depth true rest
  | depth, true, c :: rest => parenthesizedFrom depth (decide (c ≠ 39)) rest
  | depth, false, c :: rest =>
      if c = 39 then parenthesizedFrom depth true rest
      else if c = 40 then parenthesizedFrom (depth + 1) false rest
      else if c = 41 then !(depth = 1 && !rest.isEmpty) && parenthesizedFrom (depth - 1) false rest
      else parenthesizedFrom depth false rest

def isFullyParenthesized (expr : Text) : Bool := expr.head? = some 40 && expr.getLast? = some 41 && parenthesizedFrom 0 false expr

def wrapped (expr : Text) : Text := if isFullyParenthesized expr then expr else parenthesised expr

variable (ident : Text → Text)

def constraintLead (name : Text) : Text := if name ≠ [] then units "CONSTRAINT " ++ ident name ++ units " " else []

def renderCheckDefinition (chk : CheckModel) : Text :=
  constraintLead ident chk.name ++ (units "CHECK " ++ wrapped (trim chk.expression))

end Rendering

section Scans

def scanned (marks : List CodeUnit) : Nat → Option CodeUnit → Text → Bool
  | depth, _, [] => depth = 0
  | depth, some quote, c :: rest => scanned marks depth (if c = quote then none else some quote) rest
  | depth, none, c :: rest =>
      if c ∈ marks then scanned marks depth (some c) rest
      else if c = 40 then scanned marks (depth + 1) none rest
      else if c = 41 then !(depth = 1 && !rest.isEmpty) && scanned marks (depth - 1) none rest
      else scanned marks depth none rest

def spans (marks : List CodeUnit) (t : Text) : Bool := t.head? = some 40 && t.getLast? = some 41 && scanned marks 0 none t

def stringMarks : List CodeUnit := [39]

def quoteMarks : List CodeUnit := [39, 34, 96]

theorem wrappedScanned (depth : Nat) (quote : Option CodeUnit) (t : Text) :
    wrappedFrom depth quote t = scanned quoteMarks depth quote t := by
  have mark (c : CodeUnit) : isQuote c = true ↔ c ∈ quoteMarks := by
    simp [isQuote, apostrophe, doubleQuote, backtick, quoteMarks, or_assoc]
  induction t generalizing depth quote with
  | nil => cases quote <;> rfl
  | cons c rest ih => cases quote <;> simp only [wrappedFrom, scanned, ih, mark]

theorem parenthesizedScanned (depth : Nat) (inString : Bool) (t : Text) :
    parenthesizedFrom depth inString t = scanned stringMarks depth (if inString then some 39 else none) t := by
  fun_induction parenthesizedFrom depth inString t with
  | case1 depth inString => cases inString <;> rfl
  | case2 depth rest ih => simpa [scanned, stringMarks] using ih
  | case3 depth c rest other ih => by_cases closes : c = 39 <;> simpa [scanned, closes] using ih
  | case4 depth rest ih => simpa [scanned, stringMarks] using ih
  | case5 depth rest other ih => simpa [scanned, stringMarks] using ih
  | case6 depth rest other opens ih => simp [scanned, stringMarks, ih]
  | case7 depth c rest other opens closes ih => simpa [scanned, stringMarks, other, opens, closes] using ih

theorem fullySpans (t : Text) : isFullyWrapped t = spans quoteMarks t ∧ isFullyParenthesized t = spans stringMarks t := by
  simp [isFullyWrapped, isFullyParenthesized, spans, wrappedScanned, parenthesizedScanned]

def scanLevel (marks : List CodeUnit) : Nat → Option CodeUnit → Text → Option Nat
  | depth, quote, [] => if quote = none then some depth else none
  | depth, some quote, c :: rest => scanLevel marks depth (if c = quote then none else some quote) rest
  | depth, none, c :: rest =>
      if c ∈ marks then scanLevel marks depth (some c) rest
      else if c = 40 then scanLevel marks (depth + 1) none rest
      else if c = 41 then
        match depth with
        | 0 => none
        | depth + 1 => scanLevel marks depth none rest
      else scanLevel marks depth none rest

def Marks (marks : List CodeUnit) : Prop := ∀ c ∈ marks, c ≠ 40 ∧ c ≠ 41

theorem marksKnown : Marks stringMarks ∧ Marks quoteMarks := by
  constructor <;> simp [Marks, stringMarks, quoteMarks]

variable {marks : List CodeUnit}

theorem scannedLevel (known : Marks marks) (body : Text) : ∀ (depth : Nat) (quote : Option CodeUnit), (∀ c ∈ quote, c ∈ marks) →
    (scanned marks (depth + 1) quote (body ++ [41]) = true ↔ scanLevel marks depth quote body = some 0) := by
  have apart : 41 ∉ marks := fun member => (known 41 member).2 rfl
  induction body with
  | nil =>
    intro depth quote inside
    cases quote with
    | none => cases depth <;> simp [scanned, scanLevel, apart]
    | some q =>
      simp [scanned, scanLevel]
  | cons c body ih =>
    intro depth quote inside
    cases quote with
    | some q =>
      refine ih depth (if c = q then none else some q) fun d some' => ?_
      split at some'
      · contradiction
      · exact inside d some'
    | none =>
      simp only [List.cons_append, scanned, scanLevel]
      split_ifs with mark opens closes
      · exact ih depth (some c) fun d some' => Option.some.inj some' ▸ mark
      · exact ih (depth + 1) none nofun
      · cases depth with
        | zero => simp
        | succ depth => simpa using ih depth none nofun
      · exact ih depth none nofun

theorem spansLevel (known : Marks marks) (body : Text) :
    spans marks (parenthesised body) = true ↔ scanLevel marks 0 none body = some 0 := by
  have apart : 40 ∉ marks := fun member => (known 40 member).1 rfl
  have shape : parenthesised body = 40 :: (body ++ [41]) := rfl
  have last : (40 :: (body ++ [41])).getLast? = some 41 := List.getLast?_concat (l := 40 :: body)
  rw [← scannedLevel known body 0 none nofun, spans, shape, scanned, last]
  simp [apart]

def passes (marks : List CodeUnit) : Option CodeUnit → Text → Bool
  | quote, [] => quote.isNone
  | some quote, c :: rest => passes marks (if c = quote then none else some quote) rest
  | none, c :: rest => if c ∈ marks then passes marks (some c) rest else c ≠ 40 && c ≠ 41 && passes marks none rest

theorem passesLevel (t : Text) : ∀ (depth : Nat) (quote : Option CodeUnit) (rest : Text), passes marks quote t = true →
    scanLevel marks depth quote (t ++ rest) = scanLevel marks depth none rest := by
  induction t with
  | nil =>
    intro depth quote rest free
    rw [Option.isNone_iff_eq_none.mp free, List.nil_append]
  | cons c t ih =>
    intro depth quote rest free
    cases quote with
    | some q => exact ih depth _ rest free
    | none =>
      simp only [List.cons_append, scanLevel]
      rw [passes] at free
      split_ifs at free ⊢ with mark opens closes
      · exact ih depth (some c) rest free
      · simp [opens] at free
      · simp [closes] at free
      · simp only [Bool.and_eq_true] at free
        exact ih depth none rest free.2

end Scans

section Reading
variable {rules : DialectRules} {marks : List CodeUnit}

def passedFrom (rules : DialectRules) (marks : List CodeUnit) : Nat → Text → Text → Bool
  | _, _, [] => true
  | skip+1, before, c :: f => passedFrom rules marks skip (c :: before) f
  | 0, before, c :: f =>
      let width := (tokenStep rules 0 before (c :: f)).width
      (c = 40 || c = 41 || passes marks none ((c :: f).take width)) && passedFrom rules marks (width - 1) (c :: before) f

def passed (rules : DialectRules) (marks : List CodeUnit) (f : Text) : Bool := passedFrom rules marks 0 [] f

theorem stepTexts (depth : Nat) (before : Text) (c : CodeUnit) (f : Text) :
    ∀ l ∈ (shape (tokenStep rules depth before (c :: f))).2.2,
      l.text = (c :: f).take (shape (tokenStep rules depth before (c :: f))).2.1 := by
  simp only [tokenStep, shape]
  repeat' split
  all_goals simp [lexeme, tokenOf]

theorem passedLevel (known : Marks marks) (f : Text) : ∀ (k depth deep : Nat) (before : Text),
    passedFrom rules marks k before f = true → scanLevel marks depth none (f.drop k) = level depth (lexemesFrom rules k deep before f) := by
  induction f with
  | nil =>
    intro k depth deep before _
    cases k <;> rfl
  | cons c f ih =>
    intro k depth deep before free
    cases k with
    | succ k => exact ih k depth deep (c :: before) free
    | zero =>
      simp only [passedFrom, widthAlike rules 0 deep, Bool.and_eq_true] at free
      obtain ⟨here, later⟩ := free
      have width : (tokenStep rules deep before (c :: f)).width = (shape (tokenStep rules deep before (c :: f))).2.1 := rfl
      have positive := tokenProgress rules deep before (c :: f) (List.cons_ne_nil c f)
      rw [width] at here later positive
      have texts := @stepTexts rules deep before c f
      rw [List.drop_zero, lexemesNext]
      by_cases opens : c = 40
      · subst opens
        rw [openStep] at later ⊢
        have apart : 40 ∉ marks := fun member => (known 40 member).1 rfl
        simpa [scanLevel, level, apart] using ih 0 (depth + 1) (deep + 1) (40 :: before) later
      by_cases closes : c = 41
      · subst closes
        rw [closeStep] at later ⊢
        have apart : 41 ∉ marks := fun member => (known 41 member).2 rfl
        have other : units ")" ≠ units "(" := by decide
        cases depth with
        | zero => simp [scanLevel, level, apart, other]
        | succ depth => simpa [scanLevel, level, apart, other] using ih 0 depth (deep - 1) (41 :: before) later
      have passes' := (Bool.or_eq_true _ _).mp here |>.resolve_left (by simp [opens, closes])
      have past := passesLevel _ depth none ((c :: f).drop (shape (tokenStep rules deep before (c :: f))).2.1) passes'
      rw [List.take_append_drop] at past
      obtain ⟨w, wide⟩ : ∃ w, (shape (tokenStep rules deep before (c :: f))).2.1 = w + 1 := ⟨_, (Nat.succ_pred_eq_of_pos positive).symm⟩
      have rest := ih w depth (shape (tokenStep rules deep before (c :: f))).1 (c :: before) (by simpa [wide] using later)
      rw [past, wide, List.drop_succ_cons, rest, Nat.add_sub_cancel]
      rcases @stepLevels rules before c f with ⟨w', step⟩ | ⟨w', kind, text, other, step⟩ | ⟨step⟩ | ⟨step⟩
      · rw [step]
        rfl
      · rw [step]
        simp [level, other.1, other.2]
      · rw [step] at texts
        exact absurd (List.head_eq_of_cons_eq (texts _ List.mem_cons_self)).symm opens
      · rw [step] at texts
        exact absurd (List.head_eq_of_cons_eq (texts _ List.mem_cons_self)).symm closes

theorem levelBlind (f : Text) : ∀ (k depth deep deep' : Nat) (before : Text),
    level depth (lexemesFrom rules k deep before f) = level depth (lexemesFrom rules k deep' before f) := by
  induction f with
  | nil =>
    intro k depth deep deep' before
    cases k <;> rfl
  | cons c f ih =>
    intro k depth deep deep' before
    cases k with
    | succ k => exact ih k depth deep deep' (c :: before)
    | zero =>
      rw [lexemesNext, lexemesNext]
      rcases @stepLevels rules before c f with ⟨w, step⟩ | ⟨w, kind, text, other, step⟩ | ⟨step⟩ | ⟨step⟩
      · rw [step, step]
        exact ih _ depth deep deep' _
      · rw [step, step]
        simpa [level, other.1, other.2] using ih _ depth deep deep' _
      · rw [step, step]
        simpa [level] using ih _ (depth + 1) (deep + 1) (deep' + 1) _
      · rw [step, step]
        have other : units ")" ≠ units "(" := by decide
        cases depth with
        | zero => simp [level, other]
        | succ depth => simpa [level, other] using ih _ depth (deep - 1) (deep' - 1) _

theorem levelRaised (n : Nat) (ls : List Lexeme) (depth : Nat) : level depth (ls.map (raise n)) = level depth ls := by
  induction ls generalizing depth with
  | nil => rfl
  | cons l ls ih =>
    simp only [List.map_cons, level, raise]
    split_ifs
    · exact ih _
    · cases depth with
      | zero => rfl
      | succ depth => exact ih _
    · exact ih _

end Reading

section Wrapping
variable {rules : DialectRules} {marks : List CodeUnit}

def around (inner : List Lexeme) : List Lexeme := ⟨.punct, units "(", 0⟩ :: (inner.map (raise 1) ++ [⟨.punct, units ")", 0⟩])

def Wrapped (ls : List Lexeme) : Prop := ∃ inner, balanced inner = true ∧ ls = around inner

theorem parenthesisedTokens {body : Text} (shut : ended rules body = true) : lexemes rules 0 (parenthesised body) =
    ⟨.punct, units "(", 0⟩ :: (lexemes rules 1 body ++ [⟨.punct, units ")", depthAfter rules 1 body - 1⟩]) := by
  by_cases empty : body = []
  · subst empty
    exact readsWhole (readsBehind (openReads 0) (by decide) (closeReads 1) (by decide))
  · have front := readsBehind (openReads 0) (by decide) (endedReads shut 1) empty
    exact readsWhole (readsBefore front (by simp [empty]) (closeReads _) (by decide))

theorem balancedAround {body : Text} (shut : ended rules body = true) (even : balanced (lexemes rules 0 body) = true) :
    lexemes rules 0 (parenthesised body) = around (lexemes rules 0 body) := by
  by_cases empty : body = []
  · subst empty
    exact parenthesisedTokens rfl
  · exact parenTokens (solidBalanced empty shut even)

theorem wrappedBalanced {body : Text} (shut : ended rules body = true) :
    Wrapped (lexemes rules 0 (parenthesised body)) ↔ balanced (lexemes rules 0 body) = true := by
  refine ⟨fun ⟨inner, even, same⟩ => ?_, fun even => ⟨_, even, balancedAround shut even⟩⟩
  rw [parenthesisedTokens shut] at same
  have middle : lexemes rules 1 body = inner.map (raise 1) := (List.append_inj' (List.tail_eq_of_cons_eq same) rfl).1
  have blind : level 0 (lexemes rules 0 body) = level 0 inner :=
    (levelBlind body 0 0 0 1 []).trans ((congrArg (level 0) middle).trans (levelRaised 1 inner 0))
  rwa [balanced, blind]

def bodyOf (t : Text) : Option Text := if t.head? = some 40 ∧ t.getLast? = some 41 then some (t.drop 1).dropLast else none

theorem bodyOfSome {t body : Text} : body ∈ bodyOf t ↔ t = parenthesised body := by
  have last (body : Text) : (40 :: (body ++ [41])).getLast? = some 41 := List.getLast?_concat (l := 40 :: body)
  constructor
  · intro inside
    unfold bodyOf at inside
    split at inside
    · rename_i ends
      obtain rfl := Option.some.inj inside
      obtain ⟨rest, rfl⟩ := List.head?_eq_some_iff.mp ends.1
      cases rest using List.reverseRecOn with
      | nil => simp at ends
      | append_singleton body c =>
        have same : (40 :: (body ++ [c])).getLast? = some c := List.getLast?_concat (l := 40 :: body)
        obtain rfl := Option.some.inj (same.symm.trans ends.2)
        simp [parenthesised, units]
    · contradiction
  · rintro rfl
    have shape : parenthesised body = 40 :: (body ++ [41]) := rfl
    simp [bodyOf, shape, last]

def framed (rules : DialectRules) (t : Text) : Bool :=
  (lexemes rules 0 t).head?.all (fun l => l.text.isPrefixOf t) && (lexemes rules 0 t).getLast?.all fun l => l.text.isSuffixOf t

theorem wrappedFramed {t : Text} (frame : framed rules t = true) (wraps : Wrapped (lexemes rules 0 t)) :
    ∃ body, t = parenthesised body := by
  obtain ⟨inner, -, same⟩ := wraps
  have last : (around inner).getLast? = some ⟨.punct, units ")", 0⟩ := by rw [around, ← List.cons_append, List.getLast?_concat]
  rw [framed, same, last] at frame
  simp only [around, List.head?_cons, Option.all_some, Bool.and_eq_true] at frame
  obtain ⟨rest, rfl⟩ := List.isPrefixOf_iff_prefix.mp frame.1
  obtain ⟨front, back⟩ := List.isSuffixOf_iff_suffix.mp frame.2
  exact ⟨_, bodyOfSome.mp (by rw [bodyOf, if_pos ⟨rfl, by rw [← back]; exact List.getLast?_concat⟩]; rfl)⟩

structure Scanned (rules : DialectRules) (marks : List CodeUnit) (t : Text) : Prop where
  framed : framed rules t = true
  inside : ∀ body ∈ bodyOf t, ended rules body = true ∧ passed rules marks body = true

theorem spansBody {t : Text} (yes : spans marks t = true) : ∃ body, t = parenthesised body := by
  simp only [spans, Bool.and_eq_true, decide_eq_true_eq] at yes
  exact ⟨_, bodyOfSome.mp (by rw [bodyOf, if_pos yes.1]; rfl)⟩

theorem scannedAnswers (known : Marks marks) {t : Text} (text : Scanned rules marks t) :
    spans marks t = true ↔ Wrapped (lexemes rules 0 t) := by
  have answers (body : Text) (here : t = parenthesised body) : spans marks t = true ↔ Wrapped (lexemes rules 0 t) := by
    obtain ⟨shut, free⟩ := text.inside body (bodyOfSome.mpr here)
    have scan : scanLevel marks 0 none body = level 0 (lexemes rules 0 body) := passedLevel known body 0 0 0 [] free
    rw [here, spansLevel known, scan, wrappedBalanced shut, balanced, decide_eq_true_eq]
  constructor
  · intro yes
    obtain ⟨body, here⟩ := spansBody yes
    exact (answers body here).mp yes
  · intro wraps
    obtain ⟨body, here⟩ := wrappedFramed text.framed wraps
    exact (answers body here).mpr wraps

def endsInParentheses (expr : Text) : Prop := startsWith (units "(") expr = true ∧ expr.getLast? = some 41

instance (expr : Text) : Decidable (endsInParentheses expr) := inferInstanceAs (Decidable (_ ∧ _))

theorem endsBody {t : Text} : endsInParentheses t ↔ ∃ body, t = parenthesised body := by
  constructor
  · rintro ⟨first, last⟩
    obtain ⟨rest, rfl⟩ := List.isPrefixOf_iff_prefix.mp first
    exact ⟨_, bodyOfSome.mp (by rw [bodyOf, if_pos ⟨rfl, last⟩]; rfl)⟩
  · rintro ⟨body, rfl⟩
    exact ⟨rfl, List.getLast?_concat (l := 40 :: body)⟩

theorem endsAnswer {t : Text} (frame : framed rules t = true) (shut : ∀ body ∈ bodyOf t, ended rules body = true) :
    (endsInParentheses t ↔ Wrapped (lexemes rules 0 t)) ↔ ∀ body ∈ bodyOf t, balanced (lexemes rules 0 body) = true := by
  constructor
  · intro answers body inside
    have here := bodyOfSome.mp inside
    have wraps := answers.mp (endsBody.mpr ⟨body, here⟩)
    rw [here] at wraps
    exact (wrappedBalanced (shut body inside)).mp wraps
  · intro even
    refine ⟨fun ends => ?_, fun wraps => endsBody.mpr (wrappedFramed frame wraps)⟩
    obtain ⟨body, rfl⟩ := endsBody.mp ends
    have inside := bodyOfSome.mpr (rfl : parenthesised body = parenthesised body)
    exact (wrappedBalanced (shut body inside)).mpr (even body inside)

end Wrapping

section Blanks
variable {rules : DialectRules}

theorem blankReads {w : Text} (full : w ≠ []) (blank : ∀ c ∈ w, isSpace c = true) (d : ℕ) :
    TokenFragments.Reads rules d w [] d := by
  have solid : Solid rules w := spacesSolid full blank
  have reads := solid.reads d
  rwa [lexemes, (spacesRead blank []).2] at reads

theorem blankEnds {w : Text} (full : w ≠ []) (blank : ∀ c ∈ w, isSpace c = true) : ending w = true ∧ opening w = true := by
  refine ⟨?_, ?_⟩
  · rw [ending, List.getLast?_eq_some_getLast full]
    exact spacesJoint (blank _ (List.getLast_mem full))
  · obtain ⟨c, rest, rfl⟩ := List.exists_cons_of_ne_nil full
    exact spacesJoint (blank c List.mem_cons_self)

theorem gluedReads {f w g : Text} {ls ms : List Lexeme} {d e k : ℕ} (first : TokenFragments.Reads rules d f ls e)
    (last : TokenFragments.Reads rules e g ms k)
    (full : f ≠ []) (some' : g ≠ []) (wide : w ≠ []) (blank : ∀ c ∈ w, isSpace c = true) :
    TokenFragments.Reads rules d (f ++ (w ++ g)) (ls ++ ms) k := by
  have behind := readsBehind (blankReads wide blank e) (blankEnds wide blank).1 last some'
  refine readsAppend first behind full (by simp [wide]) (partedOpening ?_)
  obtain ⟨c, rest, rfl⟩ := List.exists_cons_of_ne_nil wide
  exact (blankEnds wide blank).2

theorem blanksAround {lead f trail : Text} {ls : List Lexeme} {d k : ℕ} (before : ∀ c ∈ lead, isSpace c = true)
    (behind : ∀ c ∈ trail, isSpace c = true) (full : f ≠ []) (reads : TokenFragments.Reads rules d f ls k) :
    TokenFragments.Reads rules d (lead ++ (f ++ trail)) ls k := by
  have back : TokenFragments.Reads rules d (f ++ trail) ls k := by
    by_cases none : trail = []
    · rwa [none, List.append_nil]
    · have after := readsBefore reads full (blankReads none behind k) (blankEnds none behind).2
      rwa [List.append_nil] at after
  by_cases none : lead = []
  · rwa [none]
  · exact readsBehind (blankReads none before d) (blankEnds none before).1 back (by simp [full])

structure Whole (rules : DialectRules) (e : Text) : Prop where
  lead : ∀ c ∈ e.takeWhile isWhite, isSpace c = true
  trail : ∀ c ∈ (e.dropWhile isWhite).rtakeWhile isWhite, isSpace c = true
  full : trim e ≠ []
  shut : ended rules (trim e) = true

theorem wholeTokens {e : Text} (whole : Whole rules e) : lexemes rules 0 e = lexemes rules 0 (trim e) := by
  have cut : e = e.takeWhile isWhite ++ (trim e ++ (e.dropWhile isWhite).rtakeWhile isWhite) := by
    rw [trim, trimBy, List.rdropWhile_append_rtakeWhile, List.takeWhile_append_dropWhile]
  have reads := blanksAround whole.lead whole.trail whole.full (endedReads whole.shut 0)
  rw [← cut] at reads
  exact readsWhole reads

end Blanks

section Clauses
variable {rules : DialectRules}

structure ClauseOf (rules : DialectRules) (e clause : Text) : Prop where
  solid : Solid rules clause
  one : Wrapped (lexemes rules 0 clause)
  kept : Wrapped (lexemes rules 0 e) → lexemes rules 0 clause = lexemes rules 0 e
  added : ¬ Wrapped (lexemes rules 0 e) → lexemes rules 0 clause = around (lexemes rules 0 e)

theorem clauseWraps {e : Text} (whole : Whole rules e) (even : balanced (lexemes rules 0 e) = true) {yes : Prop} [Decidable yes]
    (answer : yes ↔ Wrapped (lexemes rules 0 (trim e))) : ClauseOf rules e (if yes then trim e else parenthesised (trim e)) := by
  have tokens := wholeTokens whole
  rw [tokens] at even
  have solid := solidBalanced whole.full whole.shut even
  by_cases wraps : yes
  · rw [if_pos wraps]
    have one := answer.mp wraps
    exact ⟨solid, one, fun _ => tokens.symm, fun none => absurd (tokens ▸ one) none⟩
  · rw [if_neg wraps]
    have enclosed := parenTokens solid
    refine ⟨parenSolid solid, ⟨_, even, enclosed⟩, fun one => absurd (answer.mpr (tokens ▸ one)) wraps, fun _ => ?_⟩
    rw [enclosed, tokens]
    rfl

structure PgRead (e : Text) : Prop extends Whole (rulesOf .postgres) e where
  framed : framed (rulesOf .postgres) (trim e) = true
  inside : ∀ body ∈ bodyOf (trim e), ended (rulesOf .postgres) body = true

def PgEven (e : Text) : Prop := ∀ body ∈ bodyOf (trim e), balanced (lexemes (rulesOf .postgres) 0 body) = true

structure DdlPlain (rules : DialectRules) (e : Text) : Prop extends Whole rules e where
  scanned : Scanned rules stringMarks (trim e)

structure PgHolds (chk : CheckModel) : Prop where
  answer : endsInParentheses (trim chk.expression) ↔ Wrapped (lexemes (rulesOf .postgres) 0 (trim chk.expression))
  clause : ∃ clause, CreatedTables.renderCheck chk = units "CONSTRAINT " ++ escapeIdentifier chk.name ++ units " CHECK " ++ clause ∧
    ClauseOf (rulesOf .postgres) chk.expression clause

structure DdlHolds (rules : DialectRules) (ident : Text → Text) (chk : CheckModel) : Prop where
  answer : isFullyParenthesized (trim chk.expression) = true ↔ Wrapped (lexemes rules 0 (trim chk.expression))
  clause : ∃ clause, renderCheckDefinition ident chk = constraintLead ident chk.name ++ (units "CHECK " ++ clause) ∧
    ClauseOf rules chk.expression clause

theorem pgHolds {chk : CheckModel} (even : balanced (lexemes (rulesOf .postgres) 0 chk.expression) = true)
    (read : PgRead chk.expression) : PgHolds chk ↔ PgEven chk.expression := by
  have judged := endsAnswer read.framed read.inside
  exact ⟨fun holds => judged.mp holds.answer, fun inner =>
    ⟨judged.mpr inner, _, rfl, clauseWraps read.toWhole even (judged.mpr inner)⟩⟩

theorem ddlHolds (ident : Text → Text) {chk : CheckModel} (even : balanced (lexemes rules 0 chk.expression) = true)
    (plain : DdlPlain rules chk.expression) : DdlHolds rules ident chk := by
  have answer := scannedAnswers marksKnown.1 plain.scanned
  rw [← (fullySpans _).2] at answer
  exact ⟨answer, _, rfl, clauseWraps plain.toWhole even answer⟩

end Clauses

section Normal
variable {rules : DialectRules}

structure Chunk (rules : DialectRules) (f : Text) : Prop where
  full : f ≠ []
  shut : ended rules f = true
  first : ∀ c ∈ f.head?, isWhite c = false
  last : ∀ c ∈ f.getLast?, isWhite c = false
  single : squeeze false f = f

inductive Spaced (rules : DialectRules) : Text → Text → Prop where
  | one {f : Text} (chunk : Chunk rules f) : Spaced rules f f
  | more {f w e n : Text} (chunk : Chunk rules f) (wide : w ≠ []) (blank : ∀ c ∈ w, isSpace c = true) (rest : Spaced rules e n) :
      Spaced rules (f ++ (w ++ e)) (f ++ ([space] ++ n))

theorem spaceWhite {c : CodeUnit} (blank : isSpace c = true) : isWhite c = true := by
  simp only [isSpace, Bool.or_eq_true, beq_iff_eq] at blank
  rcases blank with (((((rfl | rfl) | rfl) | rfl) | rfl) | rfl) <;> rfl

theorem squeezeLength (spaced : Bool) (t : Text) : (squeeze spaced t).length ≤ t.length := by
  induction t generalizing spaced with
  | nil => exact Nat.le_refl _
  | cons c t ih =>
    simp only [squeeze]
    split_ifs
    · exact Nat.le_succ_of_le (ih true)
    · exact Nat.succ_le_succ (ih true)
    · exact Nat.succ_le_succ (ih false)

theorem squeezeAppend {f : Text} (full : f ≠ []) (last : ∀ c ∈ f.getLast?, isWhite c = false) (spaced : Bool) (more : Text) :
    squeeze spaced (f ++ more) = squeeze spaced f ++ squeeze false more := by
  induction f generalizing spaced with
  | nil => contradiction
  | cons c f ih =>
    by_cases none : f = []
    · subst none
      have ink : isWhite c = false := last c rfl
      simp [squeeze, ink]
    · have inner := ih none (fun d member => last d (by rwa [List.getLast?_cons_of_ne_nil none]))
      simp only [List.cons_append, squeeze, inner]
      split_ifs <;> rfl

theorem squeezeBlank {w e : Text} (wide : w ≠ []) (blank : ∀ c ∈ w, isSpace c = true) (first : ∀ c ∈ e.head?, isWhite c = false) :
    squeeze false (w ++ e) = [space] ++ squeeze false e := by
  have skipped (w : Text) (blank : ∀ c ∈ w, isSpace c = true) : squeeze true (w ++ e) = squeeze false e := by
    induction w with
    | nil =>
      cases e with
      | nil => rfl
      | cons c e => simp [squeeze, first c rfl]
    | cons c w ih =>
      obtain ⟨here, later⟩ := List.forall_mem_cons.mp blank
      simpa [squeeze, spaceWhite here] using ih later
  obtain ⟨c, rest, rfl⟩ := List.exists_cons_of_ne_nil wide
  obtain ⟨here, later⟩ := List.forall_mem_cons.mp blank
  simp [squeeze, spaceWhite here, skipped rest later, space]

theorem spacedEdges {e n : Text} (spaced : Spaced rules e n) : e ≠ [] ∧ n ≠ [] ∧ (∀ c ∈ e.head?, isWhite c = false) ∧
    ∀ c ∈ e.getLast?, isWhite c = false := by
  induction spaced with
  | one chunk => exact ⟨chunk.full, chunk.full, chunk.first, chunk.last⟩
  | more chunk wide blank rest ih =>
    obtain ⟨some', -, -, last⟩ := ih
    refine ⟨by simp [some'], by simp, ?_, ?_⟩
    · rw [List.head?_append_of_ne_nil _ chunk.full]
      exact chunk.first
    · rwa [List.getLast?_append_of_ne_nil _ (by simp [some']), List.getLast?_append_of_ne_nil _ some']

theorem spacedSqueezed {e n : Text} (spaced : Spaced rules e n) : squeeze false e = n := by
  induction spaced with
  | one chunk => exact chunk.single
  | more chunk wide blank rest ih =>
    rw [squeezeAppend chunk.full chunk.last, chunk.single, squeezeBlank wide blank (spacedEdges rest).2.2.1, ih]

theorem spacedReads {e n : Text} (spaced : Spaced rules e n) :
    ∀ d, ∃ ls k, TokenFragments.Reads rules d e ls k ∧ TokenFragments.Reads rules d n ls k := by
  induction spaced with
  | one chunk => exact fun d => ⟨_, _, endedReads chunk.shut d, endedReads chunk.shut d⟩
  | more chunk wide blank rest ih =>
    intro d
    obtain ⟨some', other, -⟩ := spacedEdges rest
    have here := endedReads chunk.shut d
    obtain ⟨ls, k, before, behind⟩ := ih (depthAfter _ d _)
    exact ⟨_, k, gluedReads here before chunk.full some' wide blank,
      gluedReads here behind chunk.full other (List.cons_ne_nil _ _) (by simp [isSpace, space])⟩

theorem spacedNormal {lead e trail n : Text} (before : ∀ c ∈ lead, isSpace c = true) (behind : ∀ c ∈ trail, isSpace c = true)
    (spaced : Spaced rules e n) : normalizeSpace (lead ++ (e ++ trail)) = n ∧
      lexemes rules 0 (lead ++ (e ++ trail)) = lexemes rules 0 n := by
  obtain ⟨full, -, first, last⟩ := spacedEdges spaced
  obtain ⟨ls, k, here, there⟩ := spacedReads spaced 0
  constructor
  · rw [normalizeSpace, trim, trimByLead (fun c member => spaceWhite (before c member)), trimTrail (fun c member => spaceWhite (behind c member)),
      trimKept first last, spacedSqueezed spaced]
  · exact (readsWhole (blanksAround before behind full here)).trans (readsWhole there).symm

end Normal

section Comparing
variable {rules : DialectRules}

inductive Plain (rules : DialectRules) : Text → Prop where
  | blank {e : Text} (blank : ∀ c ∈ e, isSpace c = true) : Plain rules e
  | layer {lead e trail n : Text} (before : ∀ c ∈ lead, isSpace c = true) (behind : ∀ c ∈ trail, isSpace c = true)
      (spaced : Spaced rules e n) (text : Scanned rules quoteMarks n)
      (inside : ∀ body ∈ bodyOf n, balanced (lexemes rules 0 body) = true → Plain rules body) : Plain rules (lead ++ (e ++ trail))

inductive Bare : List Lexeme → List Lexeme → Prop where
  | whole {ls : List Lexeme} (bare : ¬ Wrapped ls) : Bare ls ls
  | inside {inner core : List Lexeme} (even : balanced inner = true) (rest : Bare inner core) : Bare (around inner) core

theorem normalLength (e : Text) : (normalizeSpace e).length ≤ e.length := by
  obtain ⟨trail, cut, -⟩ := trimBySplit isWhite e
  refine (squeezeLength false _).trans ?_
  conv_rhs => rw [cut]
  simp only [trim, List.length_append]
  omega

theorem peelStops (fuel : ℕ) {t : Text} (stop : isFullyWrapped t = false) : peel fuel t = t := by
  cases fuel <;> simp [peel, stop]

theorem plainPeels {e : Text} (plain : Plain rules e) : ∀ fuel, (normalizeSpace e).length ≤ fuel →
    Bare (lexemes rules 0 e) (lexemes rules 0 (peel fuel (normalizeSpace e))) := by
  induction plain with
  | blank blank =>
    intro fuel _
    have trimmed : trim _ = [] := (trimByLead (fun c member => spaceWhite (blank c member)) []).trans trimByNil
    rw [List.append_nil] at trimmed
    rw [normalizeSpace, trimmed, squeeze, peelStops fuel rfl, lexemes, (spacesRead blank []).2]
    exact .whole (by rintro ⟨inner, _, same⟩; exact List.cons_ne_nil _ _ same.symm)
  | layer before behind spaced text inside ih =>
    intro fuel fits
    obtain ⟨normal, tokens⟩ := spacedNormal before behind spaced
    rw [normal] at fits ⊢
    rw [tokens]
    have answer := scannedAnswers marksKnown.2 text
    rw [← (fullySpans _).1] at answer
    cases wraps : isFullyWrapped _ with
    | false =>
      rw [peelStops fuel wraps]
      exact .whole fun one => by simp [answer.mpr one] at wraps
    | true =>
      obtain ⟨body, rfl⟩ := wrappedFramed text.framed (answer.mp wraps)
      have member := bodyOfSome.mpr (rfl : parenthesised body = parenthesised body)
      have shut := (text.inside body member).1
      have even := (wrappedBalanced shut).mp (answer.mp wraps)
      have shape : ((parenthesised body).drop 1).dropLast = body := by simp [parenthesised, units]
      cases fuel with
      | zero => simp [parenthesised, units] at fits
      | succ fuel =>
        rw [peel, if_pos wraps, shape, balancedAround shut even]
        refine .inside even (ih body member even fuel ?_)
        have short := normalLength body
        simp only [parenthesised, units, List.length_append] at fits
        simp at fits
        omega

theorem plainBare {e : Text} (plain : Plain rules e) : Bare (lexemes rules 0 e) (lexemes rules 0 (unwrapped e)) :=
  plainPeels plain e.length (normalLength e)

theorem plainSame {a b : Text} (first : Plain rules a) (last : Plain rules b)
    (same : normalizeConstraint (some a) = normalizeConstraint (some b)) :
    ∃ core, Bare (lexemes rules 0 a) core ∧ Bare (lexemes rules 0 b) core := by
  have equal : unwrapped a = unwrapped b := by
    simp only [normalizeConstraint, Option.map_some, Option.filter_some] at same
    split_ifs at same <;> simp_all
  exact ⟨_, plainBare first, equal ▸ plainBare last⟩

end Comparing

theorem wrappedMeansWrapped (dialect : SqlDialect) (ident : Text → Text) (chk : CheckModel) (s a b : Text) :
    (balanced (lexemes (rulesOf .postgres) 0 chk.expression) = true → PgRead chk.expression → (PgHolds chk ↔ PgEven chk.expression)) ∧
    (balanced (lexemes (rulesOf dialect) 0 chk.expression) = true → DdlPlain (rulesOf dialect) chk.expression →
      DdlHolds (rulesOf dialect) ident chk) ∧
    (Scanned (rulesOf dialect) quoteMarks s → (isFullyWrapped s = true ↔ Wrapped (lexemes (rulesOf dialect) 0 s))) ∧
    (Plain (rulesOf dialect) a → Plain (rulesOf dialect) b → normalizeConstraint (some a) = normalizeConstraint (some b) →
      ∃ core, Bare (lexemes (rulesOf dialect) 0 a) core ∧ Bare (lexemes (rulesOf dialect) 0 b) core) :=
  ⟨pgHolds, ddlHolds ident, fun text => (fullySpans s).1 ▸ scannedAnswers marksKnown.2 text, plainSame⟩

def twoGroups : CheckModel := ⟨units "c", units "(a) AND (b)"⟩

-- `CHECK (a) AND (b)`: the outer parentheses are two groups.
theorem twoGroupsTaken : balanced (lexemes (rulesOf .postgres) 0 twoGroups.expression) = true ∧ ¬ PgHolds twoGroups := by
  refine ⟨by decide +kernel, fun holds => ?_⟩
  have one : Wrapped (lexemes (rulesOf .postgres) 0 (parenthesised (units "a) AND (b"))) := holds.answer.mp (by decide +kernel)
  have even := (wrappedBalanced (by decide +kernel)).mp one
  revert even
  decide +kernel

def oneGroup : CheckModel := ⟨units "c", units " (a <> '(')"⟩

theorem oneGroupWrapped : (PgHolds oneGroup ∧ DdlHolds (rulesOf .sqlite) id oneGroup) ∧
    (isFullyWrapped (units "(\"f(\" > 0)") = true ↔ Wrapped (lexemes (rulesOf .sqlite) 0 (units "(\"f(\" > 0)"))) ∧
    ∃ core, Bare (lexemes (rulesOf .sqlite) 0 (units "(a > 0)")) core ∧ Bare (lexemes (rulesOf .sqlite) 0 (units "a  > 0 ")) core := by
  have holds := wrappedMeansWrapped .sqlite id oneGroup (units "(\"f(\" > 0)") (units "(a > 0)") (units "a  > 0 ")
  have inner : Spaced (rulesOf .sqlite) (units "a > 0") (units "a > 0") :=
    .one ⟨by decide, by decide +kernel, by decide, by decide, by decide +kernel⟩
  have bare : Plain (rulesOf .sqlite) (units "a > 0") := @Plain.layer _ [] _ [] _ nofun nofun inner ⟨by decide +kernel, by decide +kernel⟩ nofun
  have first : Plain (rulesOf .sqlite) (units "(a > 0)") :=
    @Plain.layer _ [] (units "(a > 0)") [] (units "(a > 0)") nofun nofun
      (.one ⟨by decide, by decide +kernel, by decide, by decide, by decide +kernel⟩) ⟨by decide +kernel, by decide +kernel⟩ fun body inside _ => by
        obtain rfl : units "a > 0" = body := Option.some.inj inside
        exact bare
  have last : Plain (rulesOf .sqlite) (units "a  > 0 ") :=
    @Plain.layer _ [] (units "a" ++ (units "  " ++ units "> 0")) (units " ") (units "a" ++ ([space] ++ units "> 0")) nofun (by decide)
      (.more ⟨by decide, by decide +kernel, by decide, by decide, by decide +kernel⟩ (by decide) (by decide)
        (.one ⟨by decide, by decide +kernel, by decide, by decide, by decide +kernel⟩))
      ⟨by decide +kernel, by decide +kernel⟩ nofun
  refine ⟨⟨?_, ?_⟩, ?_, ?_⟩
  · exact (holds.1 (by decide +kernel) ⟨⟨by decide, by decide, by decide, by decide +kernel⟩, by decide +kernel, by decide +kernel⟩).mpr
      (by unfold PgEven; decide +kernel)
  · exact holds.2.1 (by decide +kernel) ⟨⟨by decide, by decide, by decide, by decide +kernel⟩, ⟨by decide +kernel, by decide +kernel⟩⟩
  · exact holds.2.2.1 ⟨by decide +kernel, by decide +kernel⟩
  · exact holds.2.2.2 first last (by decide +kernel)

end DatabaseAdmin.WrappedChecks
