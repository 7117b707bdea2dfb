import DatabaseAdmin.MigrationScripts
import DatabaseAdmin.SplitCut

/-! What the splitter reads in a rendered migration script. -/
namespace DatabaseAdmin.MigrationText
open CodeUnits ScanLoop MigrationScripts

def CommentLine (line : Text) : Prop :=
  newline ∉ line ∧ ∃ tail, line = units "--" ++ tail ∧ ∀ c ∈ tail.head?, isSpace c = true

def blockOf (lines : List Text) : Text := lines.flatMap (· ++ [newline])

def Behind (statement text : Text) : Prop :=
  ∃ lines, (∀ line ∈ lines, line = [] ∨ CommentLine line) ∧ text = blockOf lines ++ statement

def Whole (rules : DialectRules) (statement : Text) : Prop :=
  pieces rules .semicolon (statement ++ units ";\n") = [⟨statement, 0, statement.length, .semicolon⟩]

instance (rules : DialectRules) (statement : Text) : Decidable (Whole rules statement) :=
  inferInstanceAs (Decidable (_ = _))

section Turns
variable {rules : DialectRules} {s : SplitState} {before more : Text} {c : CodeUnit}

def stayTurn (rules : DialectRules) (saw : Bool) (text : Text) : SplitMove → Bool × Nat
  | .space => (saw, 1)
  | .form opener => (saw || countsAsContent rules text opener, opener.scan rules text)
  | .unit => (true, 1)
  | _ => (saw, 0)

theorem stayStep (here : stays (splitMove rules s before c more) = true) :
    splitStep rules s before (c :: more) =
      ⟨{ s with sawContent := (stayTurn rules s.sawContent (c :: more) (splitMove rules s before c more)).1 },
        (stayTurn rules s.sawContent (c :: more) (splitMove rules s before c more)).2, []⟩ := by
  simp only [splitStep]
  generalize splitMove rules s before c more = move at here ⊢
  cases move with
  | command => contradiction
  | terminator => contradiction
  | _ => rfl

theorem moveAlike {k : Nat} {before' : Text} (look : SameLook rules before before')
    (line : atLineStart before = atLineStart before') :
    splitMove rules s before c more = splitMove rules { s with chunkStart := k } before' c more := by
  have command : commandAt rules s before (c :: more) =
      commandAt rules { s with chunkStart := k } before' (c :: more) := by simp only [commandAt, line]
  simp only [splitMove, command, sameLookOpener look (c :: more)]

theorem semicolonEnds (mark : s.delimiter = .semicolon) :
    splitMove rules s before 59 more = .terminator := by
  have ink : isSpace 59 = false := by decide
  have quiet : commandAt rules s before (59 :: more) = none := by
    simp [commandAt, nextIs]
  have plain : openerAt rules before (59 :: more) = none := by
    simp [openerAt, apostrophe, doubleQuote, backtick]
  have ends : startsWith s.delimiter.text (59 :: more) = true := by
    rw [mark, startsWithIff]
    exact ⟨more, rfl⟩
  simp [splitMove, ink, quiet, plain, ends]

theorem semicolonTurn (mark : s.delimiter = .semicolon) :
    Config.out (splitStep rules) ⟨s, before, 59 :: more⟩ = flush s before ∧
      Config.next (splitStep rules) ⟨s, before, 59 :: more⟩ =
        ⟨⟨before.length + 1, .semicolon, false⟩, 59 :: before, more⟩ := by
  obtain ⟨k, d, saw⟩ := s
  obtain rfl : d = .semicolon := mark
  simp only [Config.out, Config.next, splitStep, semicolonEnds, true_and]
  rfl

theorem flushText (saw : s.sawContent = true) (some : trimBy isSpace (chunkOf s before) ≠ []) :
    ∃ p, flush s before = [p] ∧ p.text = trimBy isSpace (chunkOf s before) := by
  simp only [flush, saw, Bool.not_true, Bool.false_eq_true, if_false, if_neg some]
  exact ⟨_, rfl, rfl⟩

theorem semicolonSafe (mark : s.delimiter = .semicolon) (text : Text) :
    keywordHazard rules s before text = false := by
  cases found : commandAt rules s before text with
  | none => simp [keywordHazard, found]
  | some cmd =>
    have read := (commandAtFound found).2.2.2
    have keyword : (text.take delimiterKeyword.length).map lowerUnit = delimiterKeyword := by
      by_contra other
      rw [delimiterCommandAt, if_pos other] at read
      contradiction
    have absent : ¬ s.delimiter.text <:+: text.take delimiterKeyword.length := by
      intro inside
      have member : 59 ∈ text.take delimiterKeyword.length := by
        refine inside.subset ?_
        rw [mark]
        simp [Delimiter.semicolon]
      have lowered := List.mem_map_of_mem (f := lowerUnit) member
      rw [keyword] at lowered
      revert lowered
      decide
    simp [keywordHazard, absent]

end Turns

section Walks
variable {rules : DialectRules}

theorem staysSettles {state : SplitState} {behind more v : Text} {c : CodeUnit}
    (within : state.chunkStart ≤ behind.length) (here : Stays rules ⟨state, behind, c :: more⟩)
    (same : splitStep rules state behind (c :: more ++ v) = splitStep rules state behind (c :: more)) :
    stays (splitMove rules state behind c (more ++ v)) = true := by
  by_contra gone
  have opened := (@leavesNext rules ⟨state, behind, c :: more ++ v⟩ (by simp)
    (fun ⟨here⟩ => gone here)).1
  have kept := (staysNext here).2.2.1
  have progress := splitProgress rules state behind (c :: more) (by simp)
  simp only [Config.next, same] at opened kept
  rw [kept] at opened
  simp only [List.length_append, List.length_reverse, List.length_take, List.length_cons] at opened
  omega

theorem walkElsewhere (coherent : Coherent rules) {x z : SplitConfig} {tail : Text} (v : Text)
    (walk : Walk rules x z) (there : z.rest = 59 :: tail) (some : tail ≠ []) (within : Within x)
    (mark : x.state.delimiter = .semicolon) {k : Nat} {before : Text} (look : SameLook rules x.before before)
    (line : atLineStart x.before = atLineStart before) :
    ∃ passed, x.rest = passed ++ z.rest ∧ z.before = passed.reverse ++ x.before ∧
      Walk rules ⟨{ x.state with chunkStart := k }, before, x.rest ++ v⟩
        ⟨{ z.state with chunkStart := k }, passed.reverse ++ before, z.rest ++ v⟩ := by
  induction walk generalizing before with
  | refl c => exact ⟨[], rfl, rfl, .refl _⟩
  | @step x z here walk ih =>
    obtain ⟨state, behind, rest⟩ := x
    cases rest with
    | nil => exact absurd rfl (staysNext here).1
    | cons c more =>
      have same : (Config.next (splitStep rules) ⟨state, behind, c :: more⟩).state.delimiter = .semicolon :=
        (staysNext here).2.2.2.trans mark
      have zMark : z.state.delimiter = .semicolon := walk.state.2.trans same
      have leaves : ¬ Stays rules z := by
        obtain ⟨zs, zb, zr⟩ := z
        cases there
        intro stays
        cases stays with
        | move ends =>
          rw [semicolonEnds zMark] at ends
          contradiction
      have zSome : z.rest ≠ [] := by simp [there]
      have past : (z.next (splitStep rules)).rest ≠ [] := by
        obtain ⟨zs, zb, zr⟩ := z
        cases there
        simpa [Config.next, splitStep, semicolonEnds zMark, show zs.delimiter = .semicolon from zMark,
          Delimiter.semicolon] using some
      have step := turnSettles coherent v (by simp) within
        (walk.path.trans (.turn zSome (.refl _))) (leavesNext zSome leaves).1 (Or.inl past)
        (fun _ => mark) (semicolonSafe mark _)
      have stays' : stays (splitMove rules state behind c (more ++ v)) = true :=
        staysSettles within here step
      have move := @moveAlike rules state behind (more ++ v) c k before look line
      have stays'' : stays (splitMove rules { state with chunkStart := k } before c (more ++ v)) = true := move ▸ stays'
      have turn := (stayStep stays').symm.trans step
      have turn' := stayStep stays''
      rw [← move] at turn'
      generalize stayTurn rules state.sawContent (c :: (more ++ v)) (splitMove rules state behind c (more ++ v)) = t
        at turn turn'
      obtain ⟨saw, w⟩ := t
      have fits : w ≤ (c :: more).length := by
        have fits := @splitFits rules ⟨state, behind, c :: more⟩ (by simp)
        simpa [Config.width, ← turn] using fits
      have next : Config.next (splitStep rules) ⟨state, behind, c :: more⟩ =
          ⟨{ state with sawContent := saw }, ((c :: more).take w).reverse ++ behind, (c :: more).drop w⟩ := by
        simp only [Config.next, ← turn]
      have next' : Config.next (splitStep rules) ⟨{ state with chunkStart := k }, before, c :: more ++ v⟩ =
          ⟨{ state with chunkStart := k, sawContent := saw }, ((c :: more).take w).reverse ++ before,
            (c :: more).drop w ++ v⟩ := by
        simp only [Config.next, List.cons_append, turn']
        rw [← List.cons_append, List.take_append_of_le_length fits, List.drop_append_of_le_length fits]
      have within' := @withinNext rules ⟨state, behind, c :: more⟩ (by simp) within
      rw [next] at ih within'
      obtain ⟨passed, rest, zBefore, onward⟩ := ih there within' mark (sameLookPush look _)
        (lineStartPush (Or.inl line))
      refine ⟨(c :: more).take w ++ passed, ?_, ?_, ?_⟩
      · rw [List.append_assoc, ← rest, List.take_append_drop]
      · rw [zBefore]
        simp
      · have turned : Walk rules
            (Config.next (splitStep rules) ⟨{ state with chunkStart := k }, before, c :: more ++ v⟩)
            ⟨{ z.state with chunkStart := k }, ((c :: more).take w ++ passed).reverse ++ before, z.rest ++ v⟩ := by
          rw [next']
          simpa using onward
        exact .step (.move stays'') turned

theorem startReached {start c : SplitConfig} (reach : Reaches rules start c)
    (none : c.before.length = start.before.length) : c = start := by
  obtain ⟨outs, path⟩ := reach
  cases path with
  | refl => rfl
  | turn some tail =>
    have later := (tail.longer (splitProgress rules)).1
    have here := splitProgress rules start.state start.before start.rest some
    have long := List.length_pos_iff.mpr some
    simp only [Config.next, List.length_append, List.length_reverse, List.length_take] at later
    omega

theorem wholeWalk {statement : Text} (whole : Whole rules statement) :
    ∃ z, Walk rules ⟨fresh .semicolon 0, [], statement ++ units ";\n"⟩ z ∧ z.rest = units ";\n" ∧
      z.state.sawContent = true ∧ trimBy isSpace statement = statement ∧ statement ≠ [] := by
  have member : ⟨statement, 0, statement.length, .semicolon⟩ ∈
      runAt (splitStep rules) flush ⟨fresh .semicolon 0, [], statement ++ units ";\n"⟩ := by
    have listed := List.mem_singleton_self (⟨statement, 0, statement.length, .semicolon⟩ : Piece)
    rwa [← whole] at listed
  obtain ⟨c0, z, reach, opens, walk, out, stops⟩ :=
    @pieceOrigin rules (fun c => c.state.chunkStart = c.before.length) _ _ member rfl
      (fun c _ some leaves => (leavesNext some leaves).1)
  obtain ⟨lead, trail, rest, -, white, start, some, -, named⟩ := flushedChunk walk opens out
  have startless : c0.before.length = 0 ∧ lead.length = 0 := by
    simp only at start
    omega
  obtain rfl : c0 = ⟨fresh .semicolon 0, [], statement ++ units ";\n"⟩ := startReached reach startless.1
  obtain rfl : lead = [] := List.length_eq_zero_iff.mp startless.2
  obtain ⟨text, -, -, -, -, saw⟩ := flushMember out
  have trimmed : trimBy isSpace statement = statement := by
    simp only at text
    rw [text, trimByTwice]
  have left : units ";\n" = trail ++ z.rest := by simpa using rest
  have trailNone : trail = [] := by
    cases trail with
    | nil => rfl
    | cons d trail =>
      have same : d = 59 := by
        simp [units] at left
        exact left.1.symm
      have ink := white d (by simp)
      rw [same] at ink
      contradiction
  exact ⟨z, walk, by rw [left, trailNone]; rfl, saw, trimmed, some⟩

theorem chunkPushSame {s : SplitState} {before : Text} (within : s.chunkStart ≤ before.length) (passed : Text) :
    chunkOf s (passed.reverse ++ before) = chunkOf s before ++ passed := chunkPush within rfl passed

structure AtLine (c : SplitConfig) (lines : List Text) : Prop where
  mark : c.state.delimiter = .semicolon
  unseen : c.state.sawContent = false
  within : Within c
  head : ∀ d ∈ c.before.head?, d = newline
  chunk : chunkOf c.state c.before = blockOf lines
  comments : ∀ line ∈ lines, line = [] ∨ CommentLine line

theorem atLineLook {c : SplitConfig} {lines : List Text} (there : AtLine c lines) :
    SameLook rules [] c.before ∧ atLineStart [] = atLineStart c.before := by
  obtain ⟨s, before, rest⟩ := c
  have head : ∀ d ∈ before.head?, d = newline := there.head
  cases before with
  | nil => exact ⟨fun _ => rfl, rfl⟩
  | cons d before =>
    obtain rfl : d = newline := head d rfl
    exact ⟨fun _ => by simp; decide, rfl⟩

theorem blockSnoc (lines : List Text) (line : Text) : blockOf (lines ++ [line]) = blockOf lines ++ (line ++ [newline]) := by
  simp [blockOf]

theorem newlineStep {s : SplitState} {before v : Text} :
    Path (splitStep rules) ⟨s, before, newline :: v⟩ [] ⟨s, newline :: before, v⟩ := by
  have path := @spacePath rules s [newline] v before (by decide)
  simpa using path

theorem commentOpens {before v line : Text} (comment : CommentLine line) :
    openerAt rules before (line ++ newline :: v) = some .dashComment := by
  obtain ⟨-, tail, rfl, spaced⟩ := comment
  cases tail with
  | nil => cases rules.dashDashNeedsSpace <;> simp [openerAt, units, nextIs, newline, isSpace]
  | cons d tail =>
    have white := spaced d rfl
    simp [openerAt, units, nextIs, white]

theorem commentStep {s : SplitState} {before v line : Text} (comment : CommentLine line) :
    Path (splitStep rules) ⟨s, before, line ++ newline :: v⟩ [] ⟨s, line.reverse ++ before, newline :: v⟩ := by
  have opens : openerAt rules before (line ++ newline :: v) = some .dashComment := commentOpens comment
  obtain ⟨inline, tail, whole, spaced⟩ := comment
  have dashes : line ++ newline :: v = 45 :: (45 :: tail ++ newline :: v) := by rw [whole]; rfl
  have width : scanLineComment (line ++ newline :: v) = line.length := by
    have stops : indexOf [('\n' : Char).toNat] (line ++ newline :: v) = some line.length := indexOfStop inline v
    simp only [scanLineComment, stops]
  rw [dashes] at opens width
  have move : splitMove rules s before 45 (45 :: tail ++ newline :: v) = .form .dashComment := by
    have ink : isSpace 45 = false := by decide
    have quiet : commandAt rules s before (45 :: (45 :: tail ++ newline :: v)) = none := by
      simp [commandAt, nextIs]
    simp only [splitMove, ink, Bool.false_eq_true, if_false, quiet, opens]
  have next : Config.next (splitStep rules) ⟨s, before, line ++ newline :: v⟩ =
      ⟨s, line.reverse ++ before, newline :: v⟩ := by
    simp only [Config.next, dashes, splitStep, move, Opener.scan, width, countsAsContent, Bool.or_false]
    rw [← dashes, List.take_left, List.drop_left]
  have out : Config.out (splitStep rules) ⟨s, before, line ++ newline :: v⟩ = [] := by
    simp only [Config.out, dashes, splitStep, move]
  have turn : Path (splitStep rules) ⟨s, before, line ++ newline :: v⟩ _ _ := Path.turn (by simp) (.refl _)
  rwa [next, out, List.append_nil] at turn

theorem lineStep {s : SplitState} {before v line : Text} (plain : line = [] ∨ CommentLine line) :
    Path (splitStep rules) ⟨s, before, line ++ newline :: v⟩ [] ⟨s, newline :: (line.reverse ++ before), v⟩ := by
  rcases plain with rfl | comment
  · exact newlineStep
  · exact (commentStep comment).trans newlineStep

theorem atLineNext {s : SplitState} {before v line : Text} {lines : List Text}
    (there : AtLine ⟨s, before, line ++ newline :: v⟩ lines) (plain : line = [] ∨ CommentLine line) :
    AtLine ⟨s, newline :: (line.reverse ++ before), v⟩ (lines ++ [line]) := by
  obtain ⟨mark, unseen, within, head, chunk, comments⟩ := there
  refine ⟨mark, unseen, ?_, by simp, ?_, ?_⟩
  · have within : s.chunkStart ≤ before.length := within
    simp only [Within, List.length_cons, List.length_append]
    omega
  · have pushed := chunkPushSame within (line ++ [newline])
    rw [List.reverse_append, chunk, ← blockSnoc] at pushed
    exact pushed
  · intro l listed
    rcases List.mem_append.mp listed with old | new
    · exact comments l old
    · exact List.mem_singleton.mp new ▸ plain

theorem rdropKeeps {p : CodeUnit → Bool} {text : Text} (ends : text.rdropWhile p = text) (some : text ≠ [])
    (lead : Text) : (lead ++ text).rdropWhile p = lead ++ text := by
  rw [List.rdropWhile_eq_self_iff] at ends ⊢
  intro _
  rw [List.getLast_append_of_ne_nil _ some]
  exact ends some

theorem trimBehind {statement : Text} (trimmed : trimBy isSpace statement = statement) (some : statement ≠ [])
    {lines : List Text} (comments : ∀ line ∈ lines, line = [] ∨ CommentLine line) :
    trimBy isSpace (blockOf lines ++ statement) = blockOf (lines.dropWhile (· = [])) ++ statement := by
  have ends : statement.rdropWhile isSpace = statement := by
    conv_rhs => rw [← trimmed, trimBy, ← List.rdropWhile_idempotent, ← trimBy, trimmed]
  induction lines with
  | nil => simpa [blockOf] using trimmed
  | cons line lines ih =>
    obtain ⟨here, later⟩ := List.forall_mem_cons.mp comments
    rcases here with rfl | ⟨inline, tail, rfl, spaced⟩
    · have blank : blockOf ([] :: lines) ++ statement = [newline] ++ (blockOf lines ++ statement) := by simp [blockOf]
      rw [blank, trimByLead (by decide), ih later]
      simp
    · have dash : blockOf ((units "--" ++ tail) :: lines) ++ statement =
          45 :: (45 :: tail ++ newline :: (blockOf lines ++ statement)) := by simp [blockOf, units]
      rw [List.dropWhile_cons_of_neg (by simp [units]), dash, trimByOpen (by decide), ← dash]
      exact rdropKeeps ends some _

theorem commentsBehind {statement : Text} {lines : List Text}
    (comments : ∀ line ∈ lines, line = [] ∨ CommentLine line) : Behind statement (blockOf lines ++ statement) :=
  ⟨lines, comments, rfl⟩

theorem statementStep (coherent : Coherent rules) {statement : Text} (whole : Whole rules statement)
    {s : SplitState} {before v : Text} {lines : List Text}
    (there : AtLine ⟨s, before, statement ++ units ";\n" ++ v⟩ lines) :
    ∃ p c, runAt (splitStep rules) flush ⟨s, before, statement ++ units ";\n" ++ v⟩ =
        p :: runAt (splitStep rules) flush c ∧
      c.rest = v ∧ AtLine c [[]] ∧ Behind statement p.text := by
  obtain ⟨z, walk, rest, saw, trimmed, some⟩ := wholeWalk whole
  obtain ⟨look, line⟩ := atLineLook there
  obtain ⟨passed, parts, -, moved⟩ := walkElsewhere coherent v walk rest (by simp) (Nat.zero_le _) rfl
    (k := s.chunkStart) look line
  obtain ⟨mark, unseen, within, head, chunk, comments⟩ := there
  have same : passed = statement := by
    rw [rest] at parts
    exact (List.append_cancel_right parts).symm
  subst same
  obtain ⟨zs, zb, zr⟩ := z
  obtain ⟨k, d, seen⟩ := s
  obtain rfl : d = .semicolon := mark
  obtain rfl : seen = false := unseen
  obtain rfl : zr = units ";\n" := rest
  have zMark : zs.delimiter = .semicolon := walk.state.2
  have chunk' : chunkOf { zs with chunkStart := k } (passed.reverse ++ before) = blockOf lines ++ passed := by
    have pushed := @chunkPush ⟨k, .semicolon, false⟩ { zs with chunkStart := k } before within rfl passed
    rw [pushed]
    exact congrArg (· ++ passed) chunk
  have text : trimBy isSpace (blockOf lines ++ passed) = blockOf (lines.dropWhile (· = [])) ++ passed :=
    trimBehind trimmed some comments
  have full : blockOf (lines.dropWhile (· = [])) ++ passed ≠ [] := by simp [some]
  have content : zs.sawContent = true := saw
  obtain ⟨out, next⟩ := @semicolonTurn rules { zs with chunkStart := k } (passed.reverse ++ before) (newline :: v) zMark
  have run := runPath (splitProgress rules) flush moved.path
  have turn := @runAtNext _ _ _ _ (splitProgress rules) flush
    ⟨{ zs with chunkStart := k }, passed.reverse ++ before, 59 :: newline :: v⟩ (by simp)
  obtain ⟨p, flushed, named⟩ := @flushText { zs with chunkStart := k } (passed.reverse ++ before) content
    (by rw [chunk', text]; exact full)
  rw [out, next, flushed, runPath (splitProgress rules) flush newlineStep] at turn
  rw [chunk', text] at named
  refine ⟨p, _, run.trans turn, rfl, ⟨rfl, rfl, ?_, by simp, ?_, by simp⟩, named ▸ commentsBehind ?_⟩
  · simp [Within]
  · have opened : chunkOf ⟨(passed.reverse ++ before).length + 1, .semicolon, false⟩
        (59 :: (passed.reverse ++ before)) = [] := chunkFresh rfl
    have pushed := @chunkPushSame ⟨(passed.reverse ++ before).length + 1, .semicolon, false⟩
      (59 :: (passed.reverse ++ before)) (Nat.le_refl _) [newline]
    rwa [opened] at pushed
  · exact fun line listed => comments line ((List.dropWhile_suffix _).subset listed)

inductive Lays (rules : DialectRules) : List Text → List Text → Prop where
  | nil : Lays rules [] []
  | plain {line : Text} {lines statements : List Text} (plain : line = [] ∨ CommentLine line)
      (rest : Lays rules lines statements) : Lays rules (line :: lines) statements
  | statement {statement : Text} {lines statements : List Text} (whole : Whole rules statement)
      (rest : Lays rules lines statements) : Lays rules (terminated statement :: lines) (statement :: statements)

theorem laysRun (coherent : Coherent rules) {lines statements : List Text} (lays : Lays rules lines statements)
    {s : SplitState} {before : Text} {lead : List Text} (there : AtLine ⟨s, before, blockOf lines⟩ lead) :
    List.Forall₂ (fun p statement => Behind statement p.text)
      (runAt (splitStep rules) flush ⟨s, before, blockOf lines⟩) statements := by
  induction lays generalizing s before lead with
  | nil =>
    have unseen : s.sawContent = false := there.unseen
    rw [show blockOf [] = [] from rfl, runAtEnd]
    simp [flush, unseen]
  | @plain line lines statements plain rest ih =>
    have whole : blockOf (line :: lines) = line ++ newline :: blockOf lines := by simp [blockOf]
    rw [whole] at there ⊢
    rw [runPath (splitProgress rules) flush (lineStep plain), List.nil_append]
    exact ih (atLineNext there plain)
  | @statement statement lines statements whole rest ih =>
    have split : blockOf (terminated statement :: lines) = statement ++ units ";\n" ++ blockOf lines := by
      simp [blockOf, terminated, units]
    rw [split] at there ⊢
    obtain ⟨p, c, run, left, next, behind⟩ := statementStep coherent whole there
    rw [run]
    obtain ⟨s', before', rest'⟩ := c
    obtain rfl : rest' = blockOf lines := left
    exact .cons behind (ih next)

theorem laysPieces (coherent : Coherent rules) {lines statements : List Text} (lays : Lays rules lines statements) :
    List.Forall₂ (fun p statement => Behind statement p.text)
      (pieces rules .semicolon (blockOf lines)) statements := by
  refine @laysRun rules coherent _ _ lays _ _ [] ⟨rfl, rfl, Nat.le_refl _, by simp, by simp [chunkOf, blockOf], by simp⟩

theorem laysAppend {first last firsts lasts : List Text} (one : Lays rules first firsts) (two : Lays rules last lasts) :
    Lays rules (first ++ last) (firsts ++ lasts) := by
  induction one with
  | nil => exact two
  | plain plain _ ih => exact .plain plain ih
  | statement whole _ ih => exact .statement whole ih

end Walks

section Layout

structure Inked (line : Text) : Prop where
  some : line ≠ []
  first : ∀ c ∈ line.head?, c ≠ newline
  last : ∀ c ∈ line.getLast?, c ≠ newline
  steady : collapseBlank line = line

def Spaced : Bool → List Text → Prop
  | _, [] => True
  | blank, line :: rest => (line = [] ∧ blank = false ∧ Spaced true rest) ∨ (Inked line ∧ Spaced false rest)

theorem collapseThrough {c : CodeUnit} (ink : c ≠ newline) (lead text : Text) (n : Nat) :
    collapseFrom n (lead ++ [c] ++ text) = collapseFrom n (lead ++ [c]) ++ collapseFrom 0 text := by
  induction lead generalizing n with
  | nil => simp [collapseFrom, ink]
  | cons d lead ih =>
    simp only [List.cons_append, collapseFrom]
    split
    · split
      · rw [ih, List.cons_append]
      · exact ih n
    · rw [ih, List.cons_append]

theorem collapseInked {line : Text} (inked : Inked line) (n : Nat) (text : Text) :
    collapseFrom n (line ++ newline :: text) = line ++ newline :: collapseFrom 1 text := by
  obtain ⟨lead, c, rfl⟩ := List.eq_nil_or_concat' line |>.resolve_left inked.some
  have ink : c ≠ newline := inked.last c (by simp)
  have same : collapseFrom n (lead ++ [c]) = lead ++ [c] := by
    have steady := inked.steady
    have first := inked.first
    cases lead with
    | nil => simp [collapseFrom, ink]
    | cons d lead =>
      have head : d ≠ newline := first d rfl
      simpa [collapseBlank, collapseFrom, head] using steady
  rw [collapseThrough ink, same]
  simp [collapseFrom]

theorem collapseSpaced {lines : List Text} {blank : Bool} (spaced : Spaced blank lines) :
    collapseFrom (if blank then 2 else 1) (blockOf lines) = blockOf lines := by
  induction lines generalizing blank with
  | nil => rfl
  | cons line lines ih =>
    rcases spaced with ⟨rfl, rfl, rest⟩ | ⟨inked, rest⟩
    · have whole : blockOf ([] :: lines) = newline :: blockOf lines := by simp [blockOf]
      rw [whole]
      simpa [collapseFrom] using ih rest
    · have whole : blockOf (line :: lines) = line ++ newline :: blockOf lines := by simp [blockOf]
      rw [whole, collapseInked inked]
      simpa using ih rest

theorem spacedAfter {lines : List Text} {blank : Bool} (spaced : Spaced true lines) : Spaced blank lines := by
  cases lines with
  | nil => trivial
  | cons line lines =>
    rcases spaced with ⟨_, no, _⟩ | inked
    · contradiction
    · exact Or.inr inked

theorem spacedAppend {first last : List Text} {blank : Bool} (one : Spaced blank first) (two : Spaced true last) :
    Spaced blank (first ++ last) := by
  induction first generalizing blank with
  | nil => exact spacedAfter two
  | cons line first ih =>
    rcases one with ⟨none, unblank, rest⟩ | ⟨inked, rest⟩
    · exact Or.inl ⟨none, unblank, ih rest⟩
    · exact Or.inr ⟨inked, ih rest⟩

theorem spacedInit {first last : List Text} {blank : Bool} (spaced : Spaced blank (first ++ last)) :
    Spaced blank first := by
  induction first generalizing blank with
  | nil => trivial
  | cons line first ih =>
    rcases spaced with ⟨none, unblank, rest⟩ | ⟨inked, rest⟩
    · exact Or.inl ⟨none, unblank, ih rest⟩
    · exact Or.inr ⟨inked, ih rest⟩

theorem spacedInked {lines : List Text} {blank : Bool} (inked : ∀ line ∈ lines, Inked line) : Spaced blank lines := by
  induction lines generalizing blank with
  | nil => trivial
  | cons line lines ih =>
    obtain ⟨here, later⟩ := List.forall_mem_cons.mp inked
    exact Or.inr ⟨here, ih later⟩

structure Paragraphs (lines : List Text) : Prop where
  spaced : Spaced true lines
  ends : lines = [] ∨ ∃ init last, lines = init ++ [last, []] ∧ last ≠ []

theorem paragraphsNil : Paragraphs [] := ⟨trivial, Or.inl rfl⟩

theorem paragraph {lines : List Text} (some : lines ≠ []) (inked : ∀ line ∈ lines, Inked line) :
    Paragraphs (lines ++ [[]]) := by
  obtain ⟨init, last, rfl⟩ := List.eq_nil_or_concat' lines |>.resolve_left some
  have lastInked : Inked last := inked last (by simp)
  refine ⟨?_, Or.inr ⟨init, last, by simp, lastInked.some⟩⟩
  rw [List.append_assoc]
  have tail : Spaced true ([last] ++ [[]]) := Or.inr ⟨lastInked, Or.inl ⟨rfl, rfl, trivial⟩⟩
  exact spacedAppend (spacedInked fun line listed => inked line (by simp [listed])) tail

theorem paragraphsAppend {first last : List Text} (one : Paragraphs first) (two : Paragraphs last) :
    Paragraphs (first ++ last) := by
  refine ⟨spacedAppend one.spaced two.spaced, ?_⟩
  rcases two.ends with rfl | ⟨init, line, rfl, some⟩
  · simpa using one.ends
  · exact Or.inr ⟨first ++ init, line, by simp, some⟩

theorem joinBlock (lines : List Text) : [newline].intercalate (lines ++ [[]]) = blockOf lines := by
  induction lines with
  | nil => rfl
  | cons line lines ih =>
    obtain ⟨next, rest, tail⟩ : ∃ next rest, lines ++ [[]] = next :: rest :=
      List.exists_cons_of_ne_nil (by simp)
    rw [List.cons_append, tail, List.intercalate_cons_cons, ← tail, ih]
    simp [blockOf]

variable {rules : DialectRules}

theorem rdropAfter {p : CodeUnit → Bool} {lead : Text} (stops : lead.rdropWhile p = lead) (tail : Text) :
    (lead ++ tail).rdropWhile p = lead ++ tail.rdropWhile p := by
  simp only [List.rdropWhile, List.reverse_append, List.dropWhile_append] at stops ⊢
  split
  · rename_i none
    rw [stops, List.isEmpty_iff.mp none]
    simp
  · simp

theorem commentTrimmed {line : Text} (comment : CommentLine line) : CommentLine (line.rdropWhile isWhite) ∧
    line.rdropWhile isWhite ≠ [] := by
  obtain ⟨inline, tail, rfl, spaced⟩ := comment
  have trimmed : (units "--" ++ tail).rdropWhile isWhite = units "--" ++ tail.rdropWhile isWhite :=
    rdropAfter (by decide) tail
  have front : tail.rdropWhile isWhite <+: tail := List.rdropWhile_prefix isWhite tail
  rw [trimmed]
  refine ⟨⟨fun broken => ?_, _, rfl, fun c head => ?_⟩, by simp [units]⟩
  · refine inline ?_
    rcases List.mem_append.mp broken with dashes | later
    · exact List.mem_append_left _ dashes
    · exact List.mem_append_right _ (front.subset later)
  · refine spaced c ?_
    obtain ⟨rest, same⟩ := front
    rw [← same, List.head?_append, head]
    rfl

theorem terminatedKept (statement : Text) : (terminated statement).rdropWhile isWhite = terminated statement := by
  rw [terminated, List.rdropWhile_eq_self_iff]
  intro _
  rw [List.getLast_append_of_ne_nil _ (by simp [units])]
  decide

theorem laysTrimmed {init statements : List Text} {last : Text} (lays : Lays rules (init ++ [last, []]) statements)
    (some : last ≠ []) : Lays rules (init ++ [last.rdropWhile isWhite]) statements ∧ last.rdropWhile isWhite ≠ [] := by
  induction init generalizing statements with
  | nil =>
    have blank {statements : List Text} (lays : Lays rules [[]] statements) : statements = [] := by
      generalize own : [[]] = lines at lays
      cases lays with
      | nil => rfl
      | plain _ rest =>
        cases own
        cases rest
        rfl
      | @statement statement => simp [terminated, units] at own
    cases lays with
    | plain plain rest =>
      obtain ⟨comment, full⟩ := commentTrimmed (plain.resolve_left some)
      rw [blank rest]
      exact ⟨.plain (Or.inr comment) .nil, full⟩
    | @statement statement _ _ whole rest =>
      rw [blank rest, terminatedKept]
      exact ⟨.statement whole .nil, some⟩
  | cons line init ih =>
    cases lays with
    | plain plain rest => exact ⟨.plain plain (ih rest).1, (ih rest).2⟩
    | statement whole rest => exact ⟨.statement whole (ih rest).1, (ih rest).2⟩

theorem blockTrimmed {init : List Text} {last : Text} (some : last.rdropWhile isWhite ≠ []) :
    (blockOf (init ++ [last])).rdropWhile isWhite ++ [newline] = blockOf (init ++ [last.rdropWhile isWhite]) := by
  have white : isWhite newline = true := by decide
  have tail : (blockOf init ++ last).rdropWhile isWhite = blockOf init ++ last.rdropWhile isWhite := by
    simp only [List.rdropWhile, List.reverse_append, List.dropWhile_append] at some ⊢
    split
    · rename_i none
      exact absurd (by rw [List.isEmpty_iff.mp none, List.reverse_nil]) some
    · simp
  rw [blockSnoc, ← List.append_assoc, List.rdropWhile_concat_pos _ _ _ white, tail, blockSnoc, List.append_assoc]

theorem renderedLays {lines statements : List Text} (some : lines ≠ []) (paragraphs : Paragraphs lines)
    (lays : Lays rules lines statements) :
    ∃ shown, (collapseBlank ([newline].intercalate lines)).rdropWhile isWhite ++ [newline] = blockOf shown ∧
      Lays rules shown statements := by
  obtain ⟨init, last, rfl, full⟩ := paragraphs.ends.resolve_left some
  obtain ⟨laid, kept⟩ := laysTrimmed lays full
  refine ⟨init ++ [last.rdropWhile isWhite], ?_, laid⟩
  have spaced : Spaced true (init ++ [last]) := by
    refine @spacedInit (init ++ [last]) [[]] true ?_
    simpa using paragraphs.spaced
  have joined : [newline].intercalate (init ++ [last, []]) = blockOf (init ++ [last]) := by
    have joined := joinBlock (init ++ [last])
    rwa [List.append_assoc] at joined
  have steady : collapseBlank (blockOf (init ++ [last])) = blockOf (init ++ [last]) := by
    obtain ⟨line, rest, same⟩ : ∃ line rest, init ++ [last] = line :: rest :=
      List.exists_cons_of_ne_nil (by simp)
    rw [same] at spaced ⊢
    rcases spaced with ⟨_, no, _⟩ | ⟨inked, later⟩
    · contradiction
    · have whole : blockOf (line :: rest) = line ++ newline :: blockOf rest := by simp [blockOf]
      have tail : collapseFrom 1 (blockOf rest) = blockOf rest := collapseSpaced later
      rw [whole, collapseBlank, collapseInked inked, tail]
  rw [joined, steady, blockTrimmed kept]

end Layout

end DatabaseAdmin.MigrationText
