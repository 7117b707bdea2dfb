import DatabaseAdmin.SqlFragments

/-! Fragments of a statement as the tokenizer reads them. `ended` reads a fragment with a space
behind it: no token and no comment runs past its end. -/
namespace DatabaseAdmin.TokenFragments
open CodeUnits ScanLoop SqlFragments

structure Lexeme where
  kind : TokenKind
  text : Text
  depth : Nat
  deriving DecidableEq, Repr

def lexeme (t : SqlToken) : Lexeme := ⟨t.kind, t.text, t.depth⟩

def lexemesFrom (rules : DialectRules) (skip depth : Nat) (before rest : Text) : List Lexeme :=
  (run (tokenStep rules) (fun _ _ => []) skip depth before rest).map lexeme

def lexemes (rules : DialectRules) (depth : Nat) (f : Text) : List Lexeme := lexemesFrom rules 0 depth [] f

def depthFrom (rules : DialectRules) : Nat → Nat → Text → Text → Nat
  | _, depth, _, [] => depth
  | skip+1, depth, before, c :: f => depthFrom rules skip depth (c :: before) f
  | 0, depth, before, c :: f =>
      let turn := tokenStep rules depth before (c :: f)
      depthFrom rules (turn.width - 1) turn.state (c :: before) f

def depthAfter (rules : DialectRules) (depth : Nat) (f : Text) : Nat := depthFrom rules 0 depth [] f

def endedFrom (rules : DialectRules) : Nat → Text → Text → Bool
  | skip, _, [] => skip == 0
  | skip+1, before, c :: f => endedFrom rules skip (c :: before) f
  | 0, before, c :: f => endedFrom rules ((tokenStep rules 0 before (c :: f ++ [space])).width - 1) (c :: before) f

def ended (rules : DialectRules) (f : Text) : Bool := endedFrom rules 0 [] f

def Parted (f g : Text) : Prop :=
  Seam f g ∧ ∀ c ∈ f.getLast?, ∀ d ∈ g.head?, isNumberPart c = true → isNumberPart d = false

section Steps
variable {rules : DialectRules}

theorem partedTail {c : CodeUnit} {f more : Text} (parted : Parted (c :: f) more) : Parted f more := by
  refine ⟨seamTail parted.1, ?_⟩
  intro e last
  cases f with
  | nil => simp at last
  | cons d f => exact parted.2 e (by rwa [List.getLast?_cons_cons])

theorem partedSpace (f : Text) : Parted f [space] :=
  ⟨by simp [Seam, joint, isSpace, space], by simp [space, isNumberPart, isDigit]⟩

theorem runEnds {p : CodeUnit → Bool} {f more : Text}
    (stop : ∀ c ∈ f.getLast?, p c = true → ∀ d ∈ more.head?, p d = false) (empty : f = [] → ∀ d ∈ more.head?, p d = false) :
    (f ++ more).takeWhile p = f.takeWhile p := by
  induction f with
  | nil =>
    cases more with
    | nil => rfl
    | cons d more => simp [empty rfl d rfl]
  | cons c f ih =>
    cases here : p c with
    | false => simp [here]
    | true =>
      rw [List.cons_append, List.takeWhile_cons_of_pos here, List.takeWhile_cons_of_pos here]
      congr 1
      cases f with
      | nil => exact ih (by simp) fun _ => stop c rfl here
      | cons d f => exact ih (fun e last => stop e (by rwa [List.getLast?_cons_cons])) (by simp)

theorem identRun {c : CodeUnit} {f more : Text} (parted : Parted (c :: f) more) (start : isIdentPart c = true) :
    (f ++ more).takeWhile isIdentPart = f.takeWhile isIdentPart := by
  have stop : ∀ e ∈ (c :: f).getLast?, isIdentPart e = true → ∀ d ∈ more.head?, isIdentPart d = false := by
    intro e last part d head
    rcases parted.1 e last d head with joined | joined
    · rw [(jointUnits joined).1] at part
      cases part
    · exact (jointUnits joined).1
  refine runEnds (fun e last => stop e ?_) ?_
  · cases f with
    | nil => cases last
    | cons d f => rwa [List.getLast?_cons_cons]
  · rintro rfl
    exact stop c rfl start

theorem numberRun {c : CodeUnit} {f more : Text} (parted : Parted (c :: f) more) (start : isNumberPart c = true) :
    (f ++ more).takeWhile isNumberPart = f.takeWhile isNumberPart := by
  have stop : ∀ e ∈ (c :: f).getLast?, isNumberPart e = true → ∀ d ∈ more.head?, isNumberPart d = false :=
    fun e last part d head => parted.2 e last d head part
  refine runEnds (fun e last => stop e ?_) ?_
  · cases f with
    | nil => cases last
    | cons d f => rwa [List.getLast?_cons_cons]
  · rintro rfl
    exact stop c rfl start

def shape (turn : Turn Nat SqlToken) : Nat × Nat × List Lexeme := (turn.state, turn.width, turn.out.map lexeme)

theorem lexemeOf {kind : TokenKind} {before known f more more' : Text} {width depth : Nat} (fits : width ≤ f.length) :
    lexeme (tokenOf kind before (f ++ more) width depth) = lexeme (tokenOf kind known (f ++ more') width depth) := by
  simp only [lexeme, tokenOf, List.take_append_of_le_length fits]

theorem stepKept {depth : Nat} {known before f more : Text} {c : CodeUnit} (parted : Parted (c :: f) more)
    (fits : (tokenStep rules 0 known (c :: f ++ [space])).width ≤ (c :: f).length)
    (look : openerAt rules known (c :: (f ++ more)) = openerAt rules before (c :: (f ++ more))) :
    shape (tokenStep rules depth before (c :: f ++ more)) = shape (tokenStep rules depth known (c :: f ++ [space])) := by
  have one : 1 ≤ (c :: f).length := by simp
  simp only [List.cons_append, tokenStep] at fits ⊢
  split
  · rfl
  · rename_i ink
    rw [if_neg ink] at fits
    have joined : ∀ o ∈ openerAt rules known (c :: f ++ [space]), o.scan rules (c :: f ++ [space]) ≤ (c :: f).length := by
      intro o found
      rw [List.cons_append] at found ⊢
      rw [found] at fits
      dsimp only at fits
      split at fits <;> exact fits
    have still := @openerJoined rules known f more c parted.1 joined
    rw [List.cons_append, List.cons_append, look] at still
    rw [still]
    cases found : openerAt rules known (c :: (f ++ [space])) with
    | some opener =>
      have within := joined opener found
      have long : 2 ≤ (c :: f).length := by
        cases f with
        | nil =>
          have short := lastForm found
          simp only [List.singleton_append, List.length_singleton] at within
          omega
        | cons d f => simp
      have width := openerDecided (openerStands found) parted.1 within long
      rw [List.cons_append, List.cons_append] at width
      simp only [width]
      cases openerKind opener with
      | none => rfl
      | some kind =>
        simp only [shape, List.map_cons, List.map_nil]
        rw [← List.cons_append, ← List.cons_append, lexemeOf within]
    | none =>
      have single (depth : Nat) : lexeme (tokenOf .punct before (c :: (f ++ more)) 1 depth) =
          lexeme (tokenOf .punct known (c :: (f ++ [space])) 1 depth) := by
        rw [← List.cons_append, ← List.cons_append, lexemeOf one]
      dsimp only
      split
      · rename_i start
        have part : isIdentPart c = true := by simp [isIdentPart, start]
        have short : 1 + (f.takeWhile isIdentPart).length ≤ (c :: f).length := by
          have most := (List.takeWhile_prefix (p := isIdentPart) (l := f)).length_le
          simp only [List.length_cons]
          omega
        rw [identRun parted part, identRun (partedSpace _) part]
        simp only [shape, List.map_cons, List.map_nil]
        rw [← List.cons_append, ← List.cons_append, lexemeOf short]
      · split
        · rename_i digit
          have part : isNumberPart c = true := by simp [isNumberPart, digit]
          have short : 1 + (f.takeWhile isNumberPart).length ≤ (c :: f).length := by
            have most := (List.takeWhile_prefix (p := isNumberPart) (l := f)).length_le
            simp only [List.length_cons]
            omega
          rw [numberRun parted part, numberRun (partedSpace _) part]
          simp only [shape, List.map_cons, List.map_nil]
          rw [← List.cons_append, ← List.cons_append, lexemeOf short]
        · repeat' split
          all_goals simp only [shape, List.map_cons, List.map_nil, single]

end Steps

section Reads
variable {rules : DialectRules}

theorem endedFits {k : Nat} {before f : Text} (shut : endedFrom rules k before f = true) : k ≤ f.length := by
  induction f generalizing k before with
  | nil =>
    cases k with
    | zero => exact Nat.le_refl _
    | succ k => simp [endedFrom] at shut
  | cons c f ih =>
    cases k with
    | zero => exact Nat.zero_le _
    | succ k => exact Nat.succ_le_succ (ih shut)

theorem partedNil (f : Text) : Parted f [] := ⟨fun _ _ _ => nofun, fun _ _ _ => nofun⟩

theorem widthAlike (rules : DialectRules) (d e : Nat) (before text : Text) :
    (tokenStep rules d before text).width = (tokenStep rules e before text).width := by
  cases text with
  | nil => rfl
  | cons c more =>
    simp only [tokenStep]
    split
    · rfl
    · split
      · split <;> rfl
      · repeat' split
        all_goals rfl

theorem lexemesNext (depth : Nat) (before : Text) (c : CodeUnit) (f : Text) : lexemesFrom rules 0 depth before (c :: f) =
    (shape (tokenStep rules depth before (c :: f))).2.2 ++
      lexemesFrom rules ((shape (tokenStep rules depth before (c :: f))).2.1 - 1)
        (shape (tokenStep rules depth before (c :: f))).1 (c :: before) f := by
  simp only [lexemesFrom, run, List.map_append, shape]

theorem readsFrom {more : Text} (f : Text) : ∀ (k depth : Nat) (known before : Text), endedFrom rules k known f = true →
    Parted f more → (∀ text, openerAt rules known (f ++ text) = openerAt rules before (f ++ text)) →
    lexemesFrom rules k depth before (f ++ more) = lexemesFrom rules k depth known f ++
      lexemesFrom rules 0 (depthFrom rules k depth known f) (f.reverse ++ before) more := by
  induction f with
  | nil =>
    intro k depth known before shut _ _
    cases k with
    | zero => rfl
    | succ k => cases shut
  | cons c f ih =>
    intro k depth known before shut parted look
    have after (text : Text) : openerAt rules (c :: known) text = openerAt rules (c :: before) text :=
      sameLookOpener (fun _ => rfl) text
    have rest (k depth : Nat) (shut : endedFrom rules k (c :: known) f = true) := ih k depth (c :: known) (c :: before) shut
      (partedTail parted) fun text => after _
    rw [List.reverse_cons, List.append_assoc]
    cases k with
    | succ k => exact rest k depth shut
    | zero =>
      simp only [endedFrom] at shut
      have fits : (tokenStep rules 0 known (c :: f ++ [space])).width ≤ (c :: f).length := by
        have most := endedFits shut
        simp only [List.length_cons]
        omega
      have spaced (d : Nat) : shape (tokenStep rules d known (c :: f)) = shape (tokenStep rules d known (c :: f ++ [space])) := by
        have alone := @stepKept rules d known known f [] c (partedNil (c :: f)) fits rfl
        rwa [List.append_nil] at alone
      have here : shape (tokenStep rules depth before (c :: f ++ more)) = shape (tokenStep rules depth known (c :: f)) :=
        (stepKept parted fits (look more)).trans (spaced depth).symm
      have width : (tokenStep rules 0 known (c :: f ++ [space])).width = (tokenStep rules 0 known (c :: f)).width :=
        (congrArg (fun s => s.2.1) (spaced 0)).symm
      rw [width, widthAlike rules 0 depth] at shut
      have tail := rest _ (tokenStep rules depth known (c :: f)).state shut
      rw [List.cons_append, lexemesNext, ← List.cons_append, here, lexemesNext, List.append_assoc]
      congr 1

def Reads (rules : DialectRules) (depth : Nat) (f : Text) (ls : List Lexeme) (depth' : Nat) : Prop :=
  ∀ before more : Text, Seam before.reverse f → Parted f more →
    lexemesFrom rules 0 depth before (f ++ more) = ls ++ lexemesFrom rules 0 depth' (f.reverse ++ before) more

theorem endedReads {f : Text} (shut : ended rules f = true) (depth : Nat) :
    Reads rules depth f (lexemes rules depth f) (depthAfter rules depth f) := by
  intro before more front parted
  cases f with
  | nil => rfl
  | cons c f =>
    refine readsFrom (c :: f) 0 depth [] before shut parted fun text => ?_
    by_cases joined : joint c = true
    · rw [List.cons_append, jointOpens joined, jointOpens joined]
    · refine sameLookOpener (fun _ => ?_) _
      cases before with
      | nil => rfl
      | cons d before =>
        rcases front d (by simp) c rfl with there | there
        · simp [(jointUnits there).1]
        · exact absurd there joined

theorem readsAppend {f g : Text} {ls ms : List Lexeme} {d e k : Nat} (first : Reads rules d f ls e) (last : Reads rules e g ms k)
    (full : f ≠ []) (some : g ≠ []) (parted : Parted f g) : Reads rules d (f ++ g) (ls ++ ms) k := by
  intro before more front back
  have seam : Seam before.reverse f := by
    intro c ends x head
    refine front c ends x ?_
    rwa [List.head?_append_of_ne_nil _ full]
  have inner : Parted f (g ++ more) := by
    refine ⟨fun c ends x head => ?_, fun c ends x head => ?_⟩
    · exact parted.1 c ends x (by rwa [List.head?_append_of_ne_nil _ some] at head)
    · exact parted.2 c ends x (by rwa [List.head?_append_of_ne_nil _ some] at head)
  have behind : Seam (f.reverse ++ before).reverse g := by
    intro c ends
    rw [List.reverse_append, List.reverse_reverse, List.getLast?_append_of_ne_nil _ full] at ends
    exact parted.1 c ends
  have outer : Parted g more := by
    refine ⟨fun c ends => back.1 c ?_, fun c ends => back.2 c ?_⟩
    · rwa [List.getLast?_append_of_ne_nil _ some]
    · rwa [List.getLast?_append_of_ne_nil _ some]
  rw [List.append_assoc, first before _ seam inner, last _ more behind outer, List.append_assoc, List.reverse_append,
    List.append_assoc]

theorem readsWhole {f : Text} {ls : List Lexeme} {d e : Nat} (reads : Reads rules d f ls e) : lexemes rules d f = ls := by
  have whole := reads [] [] (by simp [Seam]) (partedNil f)
  rw [List.append_nil] at whole
  rw [lexemes, whole]
  simp [lexemesFrom, run]

end Reads

section Atoms
variable {rules : DialectRules}

theorem endedSkip (f before : Text) : endedFrom rules f.length before f = true := by
  induction f generalizing before with
  | nil => rfl
  | cons c f ih => exact ih (c :: before)

theorem formStep {depth : Nat} {before more f : Text} {c : CodeUnit} {opener : Opener} {kind : TokenKind}
    (ink : isSpace c = false) (found : openerAt rules before (c :: f ++ more) = some opener)
    (whole : opener.scan rules (c :: f ++ more) = (c :: f).length) (kinded : openerKind opener = some kind) :
    shape (tokenStep rules depth before (c :: f ++ more)) = (depth, (c :: f).length, [⟨kind, c :: f, depth⟩]) := by
  rw [List.cons_append] at found whole ⊢
  simp only [tokenStep, ink, Bool.false_eq_true, if_false, found, kinded, whole]
  rw [← List.cons_append]
  simp only [shape, List.map_cons, List.map_nil, lexeme, tokenOf, List.take_left]

theorem formEnded {before f : Text} {c : CodeUnit} {opener : Opener} {kind : TokenKind} (ink : isSpace c = false)
    (found : openerAt rules before (c :: f ++ [space]) = some opener)
    (whole : opener.scan rules (c :: f ++ [space]) = (c :: f).length) (kinded : openerKind opener = some kind) :
    endedFrom rules 0 before (c :: f) = true := by
  have step : shape (tokenStep rules 0 before (c :: f ++ [space])) = _ := formStep ink found whole kinded
  have width : (tokenStep rules 0 before (c :: f ++ [space])).width = (c :: f).length := congrArg (fun s => s.2.1) step
  simp only [endedFrom, width, List.length_cons, Nat.add_sub_cancel]
  exact endedSkip f (c :: before)

theorem lexemesSkip (depth : Nat) (f before : Text) : lexemesFrom rules f.length depth before f = [] := by
  rw [lexemesFrom, runSkip]
  simp [run]

theorem formLexemes {depth : Nat} {before f : Text} {c : CodeUnit} {opener : Opener} {kind : TokenKind} (ink : isSpace c = false)
    (found : openerAt rules before (c :: f) = some opener) (whole : opener.scan rules (c :: f) = (c :: f).length)
    (kinded : openerKind opener = some kind) : lexemesFrom rules 0 depth before (c :: f) = [⟨kind, c :: f, depth⟩] := by
  have step : shape (tokenStep rules depth before (c :: f)) = (depth, (c :: f).length, [⟨kind, c :: f, depth⟩]) := by
    have alone := @formStep rules depth before [] f c opener kind ink
    rw [List.append_nil] at alone
    exact alone found whole kinded
  rw [lexemesNext, step]
  simp [lexemesSkip]

theorem depthSkip (depth : Nat) (f before : Text) : depthFrom rules f.length depth before f = depth := by
  induction f generalizing before with
  | nil => rfl
  | cons c f ih => exact ih (c :: before)

theorem depthNext (depth : Nat) (before : Text) (c : CodeUnit) (f : Text) : depthFrom rules 0 depth before (c :: f) =
    depthFrom rules ((shape (tokenStep rules depth before (c :: f))).2.1 - 1)
      (shape (tokenStep rules depth before (c :: f))).1 (c :: before) f := rfl

structure Formed (rules : DialectRules) (before f : Text) (kind : TokenKind) : Prop where
  ended : endedFrom rules 0 before f = true
  read (depth : Nat) : lexemesFrom rules 0 depth before f = [⟨kind, f, depth⟩]
  level (depth : Nat) : depthFrom rules 0 depth before f = depth

theorem formed {before f : Text} {c : CodeUnit} {opener : Opener} {kind : TokenKind} (ink : isSpace c = false)
    (found : ∀ more, openerAt rules before (c :: f ++ more) = some opener)
    (whole : ∀ more : Text, (∀ d ∈ more.head?, isQuote d = false) → opener.scan rules (c :: f ++ more) = (c :: f).length)
    (kinded : openerKind opener = some kind) : Formed rules before (c :: f) kind := by
  have first := found []
  have last := whole [] (by simp)
  rw [List.append_nil] at first last
  refine ⟨formEnded ink (found _) (whole _ (by decide)) kinded, fun depth => formLexemes ink first last kinded, fun depth => ?_⟩
  have step : shape (tokenStep rules depth before (c :: f)) = (depth, (c :: f).length, [⟨kind, c :: f, depth⟩]) := by
    have alone := @formStep rules depth before [] f c opener kind ink
    rw [List.append_nil] at alone
    exact alone first last kinded
  rw [depthNext, step]
  exact depthSkip depth f (c :: before)

theorem formReads {f : Text} {kind : TokenKind} (form : Formed rules [] f kind) (depth : Nat) :
    Reads rules depth f [⟨kind, f, depth⟩] depth := by
  have reads := endedReads form.ended depth
  rw [lexemes, depthAfter, form.read, form.level] at reads
  exact reads

def Flat (rules : DialectRules) (f : Text) : Prop :=
  ∀ c t, c :: t <:+ f → isSpace c = false ∧ c ≠ 40 ∧ c ≠ 41 ∧ ∀ before, openerAt rules before (c :: t) = none ∧
    openerAt rules before (c :: t ++ [space]) = none

theorem flatTail {c : CodeUnit} {f : Text} (flat : Flat rules (c :: f)) : Flat rules f :=
  fun d t suffix => flat d t (suffix.trans (List.suffix_cons c f))

theorem shortRun {p : CodeUnit → Bool} (other : p space = false) (f : Text) :
    ((f ++ [space]).takeWhile p).length ≤ f.length := by
  rw [runEnds (f := f) (p := p) (by simp [other]) (by simp [other])]
  exact (List.takeWhile_prefix p).length_le

theorem flatEnded {f : Text} (flat : Flat rules f) : ∀ (k : Nat) (before : Text), k ≤ f.length →
    endedFrom rules k before f = true := by
  induction f with
  | nil =>
    intro k before fits
    obtain rfl : k = 0 := Nat.le_zero.mp fits
    rfl
  | cons c f ih =>
    intro k before fits
    cases k with
    | succ k => exact ih (flatTail flat) k _ (Nat.le_of_succ_le_succ fits)
    | zero =>
      refine ih (flatTail flat) _ _ ?_
      obtain ⟨ink, left, right, plain⟩ := flat c f List.suffix_rfl
      have none := (plain before).2
      rw [List.cons_append] at none ⊢
      have word := shortRun (p := isIdentPart) (by decide) f
      have number := shortRun (p := isNumberPart) (by decide) f
      simp only [tokenStep, ink, none, Bool.false_eq_true, if_false]
      repeat' split
      all_goals dsimp only; omega

theorem flatStep {f : Text} {c : CodeUnit} (flat : Flat rules (c :: f)) (depth : Nat) (before : Text) :
    ∃ kind w, 0 < w ∧ w ≤ (c :: f).length ∧
      shape (tokenStep rules depth before (c :: f)) = (depth, w, [⟨kind, (c :: f).take w, depth⟩]) := by
  obtain ⟨ink, left, right, plain⟩ := flat c f List.suffix_rfl
  have ident := (List.takeWhile_prefix (p := isIdentPart) (l := f)).length_le
  have number := (List.takeWhile_prefix (p := isNumberPart) (l := f)).length_le
  have opening : ¬ (c == ('(' : CodeUnit)) = true := by simpa using left
  have closing : ¬ (c == (')' : CodeUnit)) = true := by simpa using right
  simp only [tokenStep, ink, (plain before).1, Bool.false_eq_true, if_false, if_neg opening, if_neg closing]
  split
  · exact ⟨.word, _, Nat.add_pos_left Nat.one_pos _, by simp only [List.length_cons]; omega, rfl⟩
  · split
    · exact ⟨.number, _, Nat.add_pos_left Nat.one_pos _, by simp only [List.length_cons]; omega, rfl⟩
    · exact ⟨.punct, 1, Nat.one_pos, by simp, rfl⟩

theorem flatLexemes {depth : Nat} {f : Text} (flat : Flat rules f) : ∀ (k : Nat) (before : Text), k ≤ f.length →
    (lexemesFrom rules k depth before f).flatMap Lexeme.text = f.drop k ∧
      ∀ l ∈ lexemesFrom rules k depth before f, l.depth = depth := by
  induction f with
  | nil => intro k before _; cases k <;> simp [lexemesFrom, run]
  | cons c f ih =>
    intro k before fits
    cases k with
    | succ k => exact ih (flatTail flat) k _ (Nat.le_of_succ_le_succ fits)
    | zero =>
      obtain ⟨kind, w, positive, fits, step⟩ := flatStep flat depth before
      obtain ⟨w, rfl⟩ : ∃ v, w = v + 1 := ⟨w - 1, by omega⟩
      obtain ⟨text, depths⟩ := ih (flatTail flat) w (c :: before) (by simpa using fits)
      rw [lexemesNext, step]
      simp only [Nat.add_sub_cancel, List.cons_append, List.nil_append, List.flatMap_cons, text, List.take_succ_cons,
        List.drop_zero, List.take_append_drop, true_and, List.forall_mem_cons]
      exact depths

theorem flatDepth {depth : Nat} {f : Text} (flat : Flat rules f) : ∀ (k : Nat) (before : Text), k ≤ f.length →
    depthFrom rules k depth before f = depth := by
  induction f with
  | nil => intro k before _; cases k <;> rfl
  | cons c f ih =>
    intro k before fits
    cases k with
    | succ k => exact ih (flatTail flat) k _ (Nat.le_of_succ_le_succ fits)
    | zero =>
      obtain ⟨kind, w, positive, fits, step⟩ := flatStep flat depth before
      rw [depthNext, step]
      exact ih (flatTail flat) (w - 1) _ (by simp only [List.length_cons] at fits; omega)

theorem flatReads {f : Text} (flat : Flat rules f) (depth : Nat) : Reads rules depth f (lexemes rules depth f) depth := by
  have reads := endedReads (flatEnded flat 0 [] (Nat.zero_le _)) depth
  rwa [depthAfter, flatDepth flat 0 [] (Nat.zero_le _)] at reads

end Atoms

section Pasted
variable {rules : DialectRules}

def opening (f : Text) : Bool := f.head?.any fun d => joint d && !isNumberPart d

def ending (f : Text) : Bool := f.getLast?.any fun c => joint c && !isNumberPart c

theorem partedOpening {f g : Text} (opens : opening g = true) : Parted f g := by
  simp only [opening, Option.any_eq_true, Bool.and_eq_true, Bool.not_eq_true'] at opens
  obtain ⟨d, head, joined, plain⟩ := opens
  refine ⟨fun c _ e there => ?_, fun c _ e there _ => ?_⟩
  · rw [head] at there
    cases there
    exact Or.inr joined
  · rw [head] at there
    cases there
    exact plain

theorem partedEnding {f g : Text} (ends : ending f = true) : Parted f g := by
  simp only [ending, Option.any_eq_true, Bool.and_eq_true, Bool.not_eq_true'] at ends
  obtain ⟨c, last, joined, plain⟩ := ends
  refine ⟨fun e there d _ => ?_, fun e there d _ part => ?_⟩
  · rw [last] at there
    cases there
    exact Or.inl joined
  · rw [last] at there
    cases there
    simp [plain] at part

theorem endingFull {f : Text} (ends : ending f = true) : f ≠ [] := by
  rintro rfl
  contradiction

theorem openingFull {f : Text} (opens : opening f = true) : f ≠ [] := by
  rintro rfl
  contradiction

theorem endingAppend {f g : Text} (ends : ending g = true) : ending (f ++ g) = true := by
  rwa [ending, List.getLast?_append_of_ne_nil _ (endingFull ends)]

theorem readsBehind {w f : Text} {ls ms : List Lexeme} {d e k : Nat} (first : Reads rules d w ls e) (ends : ending w = true)
    (last : Reads rules e f ms k) (full : f ≠ []) : Reads rules d (w ++ f) (ls ++ ms) k :=
  readsAppend first last (endingFull ends) full (partedEnding ends)

theorem readsBefore {f w : Text} {ls ms : List Lexeme} {d e k : Nat} (first : Reads rules d f ls e) (full : f ≠ [])
    (last : Reads rules e w ms k) (opens : opening w = true) : Reads rules d (f ++ w) (ls ++ ms) k :=
  readsAppend first last full (openingFull opens) (partedOpening opens)

def readsAs (f : Text) (depth : Nat) (ls : List Lexeme) (depth' : Nat) : Bool :=
  [SqlDialect.mysql, .postgres, .sqlite].all fun dialect =>
    ended (rulesOf dialect) f && lexemes (rulesOf dialect) depth f == ls && depthAfter (rulesOf dialect) depth f == depth'

theorem readsWords {dialect : SqlDialect} {f : Text} {depth depth' : Nat} {ls : List Lexeme}
    (reads : readsAs f depth ls depth' = true) : Reads (rulesOf dialect) depth f ls depth' := by
  have here : (ended (rulesOf dialect) f && lexemes (rulesOf dialect) depth f == ls &&
      depthAfter (rulesOf dialect) depth f == depth') = true := by
    refine List.all_eq_true.mp reads dialect ?_
    cases dialect <;> simp
  simp only [Bool.and_eq_true, beq_iff_eq] at here
  obtain ⟨⟨shut, rfl⟩, rfl⟩ := here
  exact endedReads shut depth

theorem readsJoin {α : Type} {sep : Text} {mark : List Lexeme} {depth : Nat} (text : α → Text) (tokens : α → List Lexeme)
    (between : Reads rules depth sep mark depth) (shown : sep ≠ []) : ∀ parts : List α, parts ≠ [] →
    (∀ p ∈ parts, text p ≠ [] ∧ Parted (text p) sep ∧ Parted sep (text p) ∧ Reads rules depth (text p) (tokens p) depth) →
    sep.intercalate (parts.map text) ≠ [] ∧
      Reads rules depth (sep.intercalate (parts.map text)) (mark.intercalate (parts.map tokens)) depth
  | [], full, _ => absurd rfl full
  | [a], _, each => by
      obtain ⟨full, -, -, reads⟩ := each a (by simp)
      simpa [List.intercalate] using ⟨full, reads⟩
  | a :: b :: parts, _, each => by
      obtain ⟨full, back, -, reads⟩ := each a (by simp)
      obtain ⟨rest, tail⟩ := readsJoin text tokens between shown (b :: parts) (by simp) fun p member =>
        each p (List.mem_cons_of_mem _ member)
      obtain ⟨next, -, front, -⟩ := each b (by simp)
      have head : ((sep.intercalate ((b :: parts).map text)).head?) = (text b).head? := by
        cases parts with
        | nil => simp [List.intercalate]
        | cons c parts =>
          rw [List.map_cons, List.map_cons, List.intercalate_cons_cons, List.append_assoc, List.head?_append_of_ne_nil _ next]
      have seam : Parted sep (sep.intercalate ((b :: parts).map text)) := by
        rw [Parted, Seam, head]
        exact front
      have behind := readsAppend between tail shown rest seam
      have whole := readsAppend reads behind full (List.append_ne_nil_of_left_ne_nil shown _) (by
        rw [Parted, Seam, List.head?_append_of_ne_nil _ shown]
        exact back)
      rw [List.map_cons, List.map_cons, List.map_cons, List.map_cons, List.intercalate_cons_cons, List.intercalate_cons_cons,
        List.append_assoc, List.append_assoc]
      exact ⟨List.append_ne_nil_of_left_ne_nil full _, whole⟩

end Pasted

section Quoting
variable {engine : EngineKind} {dialect : SqlDialect}

theorem identFormed (fits : dialectForEngine engine = .ok dialect) {name text : Text} (ok : quoteIdent name engine = .ok text) :
    Formed (rulesOf dialect) [] text .quoted := by
  obtain ⟨style, named, rfl⟩ := identShape ok
  refine formed (by cases style <;> rfl) (fun more => ?_) (fun more apart => ?_) (styleKind style)
  · rw [List.cons_append]
    exact (styleOpens fits named _).1
  · rw [List.cons_append, (styleOpens fits named _).2, ← List.cons_append]
    exact quotedScan style.mark (by cases style <;> decide) false name apart (by cases style <;> rfl)

theorem stringFormed (rules : DialectRules) (s before : Text) :
    Formed rules before (apostrophe :: (encode apostrophe rules.backslashEscapes s ++ [apostrophe])) .string := by
  refine @formed rules _ _ _ .plainString _ rfl (fun more => ?_) (fun more apart => ?_) rfl
  · simp [openerAt, apostrophe]
  · exact quotedScan apostrophe (by decide) rules.backslashEscapes s apart rfl

theorem escapedFormed {rules : DialectRules} (on : rules.escapeStringPrefix = true) (s : Text) :
    Formed rules [] (('E' : CodeUnit) :: apostrophe :: (encode apostrophe true s ++ [apostrophe])) .string := by
  refine @formed rules _ _ _ .escapeString _ rfl (fun more => ?_) (fun more apart => ?_) rfl
  · simp [openerAt, nextIs, on, apostrophe]
  · have inner := quotedScan apostrophe (by decide) true s apart rfl
    simp only [Opener.scan, List.cons_append, List.drop_one, List.tail_cons, List.length_cons] at inner ⊢
    rw [inner]
    omega

theorem literalFormed (fits : dialectForEngine engine = .ok dialect) {s text : Text}
    (ok : quoteLiteral (.string s) engine = .ok text) : Formed (rulesOf dialect) [] text .string := by
  have nulFree : 0 ∉ s := by
    intro member
    have has : s.contains 0 = true := by simpa using member
    simp only [quoteLiteral, has, if_true, reduceCtorEq] at ok
  rw [quoteLiteralText fits nulFree, Except.ok.injEq] at ok
  subst ok
  cases dialect with
  | mysql => exact stringFormed (rulesOf .mysql) s []
  | sqlite => exact stringFormed (rulesOf .sqlite) s []
  | postgres =>
    dsimp only
    split
    · exact escapedFormed rfl s
    · exact stringFormed (rulesOf .postgres) s []

end Quoting

end DatabaseAdmin.TokenFragments
