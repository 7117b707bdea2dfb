import DatabaseAdmin.SplitStatements

/-! Places of the splitter's run. -/
namespace DatabaseAdmin
open CodeUnits ScanLoop

section Walk
variable {rules : DialectRules}

def stays : SplitMove → Bool
  | .space | .form _ | .unit => true
  | .command _ | .terminator => false

inductive Stays (rules : DialectRules) : SplitConfig → Prop where
  | move {s : SplitState} {before : Text} {c : CodeUnit} {more : Text}
      (here : stays (splitMove rules s before c more) = true) : Stays rules ⟨s, before, c :: more⟩

inductive Walk (rules : DialectRules) : SplitConfig → SplitConfig → Prop where
  | refl (c) : Walk rules c c
  | step {c c'} (here : Stays rules c) (tail : Walk rules (c.next (splitStep rules)) c') :
      Walk rules c c'

theorem staysNext {c : SplitConfig} (here : Stays rules c) :
    c.rest ≠ [] ∧ c.out (splitStep rules) = [] ∧
      (c.next (splitStep rules)).state.chunkStart = c.state.chunkStart ∧
      (c.next (splitStep rules)).state.delimiter = c.state.delimiter := by
  obtain ⟨here⟩ := here
  rename_i s before x more
  simp only [Config.out, Config.next, splitStep]
  generalize splitMove rules s before x more = move at here ⊢
  cases move <;> simp_all [stays]

inductive Leaves (rules : DialectRules) : SplitConfig → Prop where
  | command {s : SplitState} {before more : Text} {c : CodeUnit} (cmd : DelimiterCommand)
      (found : commandAt rules s before (c :: more) = some cmd) (move : splitMove rules s before c more = .command cmd) :
      Leaves rules ⟨s, before, c :: more⟩
  | terminator {s : SplitState} {before more : Text} {c : CodeUnit} (plain : openerAt rules before (c :: more) = none)
      (ends : startsWith s.delimiter.text (c :: more) = true) (move : splitMove rules s before c more = .terminator) :
      Leaves rules ⟨s, before, c :: more⟩

theorem leavesHow {c : SplitConfig} (some : c.rest ≠ []) (leaves : ¬ Stays rules c) : Leaves rules c := by
  obtain ⟨s, before, rest⟩ := c
  cases rest with
  | nil => exact absurd rfl some
  | cons x more =>
    have moves := splitMoves rules s before x more
    have gone : stays (splitMove rules s before x more) = false :=
      eq_false_of_ne_true (fun here => leaves (.move here))
    generalize taken : splitMove rules s before x more = move at moves gone
    cases moves with
    | space => contradiction
    | form => contradiction
    | unit => contradiction
    | command cmd ink found => exact .command cmd found taken
    | terminator ink quiet plain ends => exact .terminator plain ends taken

theorem leavesNext {c : SplitConfig} (some : c.rest ≠ []) (leaves : ¬ Stays rules c) :
    (c.next (splitStep rules)).state.chunkStart = (c.next (splitStep rules)).before.length ∧
      (c.next (splitStep rules)).state.sawContent = false := by
  cases leavesHow some leaves with
  | command cmd found move =>
    have facts := commandAtFound found
    have fits := (commandNext facts.2.2.2).2
    simp only [Config.next, splitStep, move]
    refine ⟨?_, facts.2.1⟩
    simp only [List.length_append, List.length_reverse, List.length_take]
    omega
  | terminator plain ends move =>
    have fits := (startsWithIff.mp ends).length_le
    simp only [Config.next, splitStep, move, and_true]
    simp only [List.length_append, List.length_reverse, List.length_take]
    omega

theorem Walk.path {c c' : SplitConfig} (walk : Walk rules c c') :
    Path (splitStep rules) c [] c' := by
  induction walk with
  | refl c => exact .refl c
  | step here _ ih =>
    have next := staysNext here
    have turn := Path.turn next.1 ih
    rwa [next.2.1] at turn

theorem Walk.snoc {c c' : SplitConfig} (walk : Walk rules c c') (here : Stays rules c') :
    Walk rules c (c'.next (splitStep rules)) := by
  induction walk with
  | refl c => exact .step here (.refl _)
  | step first _ ih => exact .step first (ih here)

theorem Walk.state {c c' : SplitConfig} (walk : Walk rules c c') :
    c'.state.chunkStart = c.state.chunkStart ∧ c'.state.delimiter = c.state.delimiter := by
  induction walk with
  | refl c => exact ⟨rfl, rfl⟩
  | step here _ ih =>
    have next := staysNext here
    exact ⟨ih.1.trans next.2.2.1, ih.2.trans next.2.2.2⟩

theorem Walk.span {c c' : SplitConfig} (walk : Walk rules c c') :
    ∃ chunk, c.rest = chunk ++ c'.rest ∧ c'.before = chunk.reverse ++ c.before := by
  induction walk with
  | refl c => exact ⟨[], rfl, rfl⟩
  | @step c c' here _ ih =>
    obtain ⟨chunk, rest, before⟩ := ih
    refine ⟨c.rest.take (c.width (splitStep rules)) ++ chunk, ?_, ?_⟩
    · rw [List.append_assoc, ← rest]
      exact (List.take_append_drop _ _).symm
    · rw [before, List.reverse_append, List.append_assoc]
      rfl

def Reaches (rules : DialectRules) (c c' : SplitConfig) : Prop :=
  ∃ outs, Path (splitStep rules) c outs c'

theorem Reaches.snoc {c c' : SplitConfig} (reach : Reaches rules c c') (some : c'.rest ≠ []) :
    Reaches rules c (c'.next (splitStep rules)) := by
  obtain ⟨outs, path⟩ := reach
  exact ⟨_, path.trans (.turn some (.refl _))⟩

theorem walkOrigin {Opens : SplitConfig → Prop} {start c : SplitConfig}
    (reach : Reaches rules start c) (first : Opens start)
    (later : ∀ c, Reaches rules start c → c.rest ≠ [] → ¬ Stays rules c →
      Opens (c.next (splitStep rules))) :
    ∃ c0, Reaches rules start c0 ∧ Opens c0 ∧ Walk rules c0 c := by
  have along {c1 c2 : SplitConfig} {outs : List Piece} (path : Path (splitStep rules) c1 outs c2)
      (reach : Reaches rules start c1)
      (origin : ∃ c0, Reaches rules start c0 ∧ Opens c0 ∧ Walk rules c0 c1) :
      ∃ c0, Reaches rules start c0 ∧ Opens c0 ∧ Walk rules c0 c2 := by
    induction path with
    | refl => exact origin
    | @turn c1 outs c2 some _ ih =>
      refine ih (reach.snoc some) ?_
      by_cases here : Stays rules c1
      · obtain ⟨c0, there, opens, walk⟩ := origin
        exact ⟨c0, there, opens, walk.snoc here⟩
      · exact ⟨_, reach.snoc some, later c1 reach some here, .refl _⟩
  obtain ⟨outs, path⟩ := reach
  exact along path ⟨[], .refl start⟩ ⟨start, ⟨[], .refl start⟩, first, .refl start⟩

theorem leaveOut {c : SplitConfig} {p : Piece} (member : p ∈ c.out (splitStep rules)) :
    p ∈ flush c.state c.before ∧ c.state.delimiter.text <+: c.rest := by
  obtain ⟨s, before, rest⟩ := c
  cases rest with
  | nil => simp [Config.out, splitStep] at member
  | cons x more =>
    have moves := splitMoves rules s before x more
    simp only [Config.out, splitStep] at member
    generalize splitMove rules s before x more = move at moves member
    cases moves with
    | space => simp at member
    | command => simp at member
    | form => simp at member
    | unit => simp at member
    | terminator ink quiet plain ends => exact ⟨member, startsWithIff.mp ends⟩

theorem pieceOrigin {Opens : SplitConfig → Prop} {start : SplitConfig} {p : Piece}
    (member : p ∈ runAt (splitStep rules) flush start) (first : Opens start)
    (later : ∀ c, Reaches rules start c → c.rest ≠ [] → ¬ Stays rules c →
      Opens (c.next (splitStep rules))) :
    ∃ c0 c, Reaches rules start c0 ∧ Opens c0 ∧ Walk rules c0 c ∧ p ∈ flush c.state c.before ∧
      (c.rest = [] ∨ c.state.delimiter.text <+: c.rest) := by
  obtain ⟨outs, c, path, found⟩ := runMember (splitProgress rules) member
  obtain ⟨c0, there, opens, walk⟩ := walkOrigin ⟨outs, path⟩ first later
  rcases found with ⟨_, out⟩ | ⟨empty, out⟩
  · have facts := leaveOut out
    exact ⟨c0, c, there, opens, walk, facts.1, Or.inr facts.2⟩
  · exact ⟨c0, c, there, opens, walk, out, Or.inl empty⟩

theorem flushMember {s : SplitState} {before : Text} {p : Piece} (member : p ∈ flush s before) :
    p.text = trimBy isSpace (chunkOf s before) ∧ p.text ≠ [] ∧ p.delimiter = s.delimiter ∧
      p.start = s.chunkStart + ((chunkOf s before).takeWhile isSpace).length ∧
      p.stop = p.start + p.text.length ∧ s.sawContent = true := by
  unfold flush at member
  split at member
  · simp at member
  · rename_i saw
    dsimp only at member
    split at member
    · simp at member
    · rename_i some
      rw [List.mem_singleton] at member
      subst member
      exact ⟨rfl, some, rfl, rfl, rfl, by simpa using saw⟩

theorem Walk.head {c c' : SplitConfig} (walk : Walk rules c c')
    (longer : c'.rest.length < c.rest.length) :
    Stays rules c ∧ Walk rules (c.next (splitStep rules)) c' := by
  cases walk with
  | refl => exact absurd longer (Nat.lt_irrefl _)
  | step here tail => exact ⟨here, tail⟩

theorem staySpace {s : SplitState} {before more : Text} {x : CodeUnit}
    (white : isSpace x = true) :
    Config.next (splitStep rules) ⟨s, before, x :: more⟩ = ⟨s, x :: before, more⟩ := by
  simp [Config.next, splitStep, splitMove, white]

section Stay
variable {s : SplitState} {before : Text} {x : CodeUnit} {more : Text}
  (here : Stays rules ⟨s, before, x :: more⟩)
include here

theorem stayForm (ink : isSpace x = false) {opener : Opener}
    (found : openerAt rules before (x :: more) = some opener) :
    ∃ s', Config.next (splitStep rules) ⟨s, before, x :: more⟩ =
      ⟨s', ((x :: more).take (opener.scan rules (x :: more))).reverse ++ before,
        (x :: more).drop (opener.scan rules (x :: more))⟩ ∧ s'.delimiter = s.delimiter := by
  cases here with
  | move here =>
    have moves := splitMoves rules s before x more
    simp only [Config.next, splitStep]
    generalize splitMove rules s before x more = move at moves here ⊢
    cases moves with
    | space white => simp [ink] at white
    | command => contradiction
    | terminator => contradiction
    | unit _ _ plain => rw [plain] at found; contradiction
    | form other _ _ also =>
      rw [also] at found
      cases found
      exact ⟨_, rfl, rfl⟩

theorem stayUnit (ink : isSpace x = false) (plain : openerAt rules before (x :: more) = none) :
    ∃ s', Config.next (splitStep rules) ⟨s, before, x :: more⟩ = ⟨s', x :: before, more⟩ ∧
      s'.delimiter = s.delimiter ∧ ¬ s.delimiter.text <+: x :: more := by
  cases here with
  | move here =>
    have moves := splitMoves rules s before x more
    simp only [Config.next, splitStep]
    generalize splitMove rules s before x more = move at moves here ⊢
    cases moves with
    | space white => simp [ink] at white
    | command => contradiction
    | terminator => contradiction
    | form _ _ _ found => rw [plain] at found; contradiction
    | unit _ _ _ inside =>
      refine ⟨_, rfl, rfl, fun stands => ?_⟩
      rw [← startsWithIff, inside] at stands
      contradiction

end Stay

theorem walkLead {c1 : SplitConfig} (lead text : Text) : ∀ {c : SplitConfig}, Walk rules c c1 →
    c.rest = lead ++ text → (∀ d ∈ lead, isSpace d = true) → c1.rest.length < text.length →
    ∃ c', Walk rules c' c1 ∧ c'.rest = text ∧ c'.before = lead.reverse ++ c.before ∧
      c'.state = c.state := by
  induction lead with
  | nil => exact fun {c} walk same _ _ => ⟨c, walk, same, rfl, rfl⟩
  | cons d lead ih =>
    intro c walk same white longer
    obtain ⟨s, passed, rest⟩ := c
    obtain rfl : rest = d :: (lead ++ text) := same
    have next := walk.head (by simp only [List.length_cons, List.length_append]; omega)
    have walk' := next.2
    rw [staySpace (white d (by simp))] at walk'
    obtain ⟨c', there, rest', before', state'⟩ := ih walk' rfl
      (fun e member => white e (by simp [member])) longer
    refine ⟨c', there, rest', ?_, state'⟩
    rw [before']
    simp

def ChunkOpens (rules : DialectRules) (c : SplitConfig) : Prop :=
  c.state.chunkStart = c.before.length ∧ SameLook rules [] c.before

theorem flushOne (s : SplitState) (before : Text) : (flush s before).length ≤ 1 := by
  unfold flush
  split
  · simp
  · dsimp only
    split <;> simp

theorem outOne (c : SplitConfig) : (c.out (splitStep rules)).length ≤ 1 := by
  obtain ⟨s, before, rest⟩ := c
  cases rest with
  | nil => simp [Config.out, splitStep]
  | cons x more =>
    simp only [Config.out, splitStep]
    cases splitMove rules s before x more <;> simp [flushOne]

theorem leadLook {before lead : Text} (look : SameLook rules [] before)
    (white : ∀ d ∈ lead, isSpace d = true) : SameLook rules [] (lead.reverse ++ before) := by
  intro prefixed
  cases last : lead.reverse with
  | nil => exact look prefixed
  | cons d tail =>
    have inside : d ∈ lead := by
      rw [← List.mem_reverse, last]
      simp
    simp [spaceNotIdentPart (white d inside)]

theorem nextDelimiter (off : rules.delimiterCommand = false) (c : SplitConfig) :
    (c.next (splitStep rules)).state.delimiter = c.state.delimiter := by
  obtain ⟨s, before, rest⟩ := c
  cases rest with
  | nil => rfl
  | cons x more =>
    have moves := splitMoves rules s before x more
    simp only [Config.next, splitStep]
    generalize splitMove rules s before x more = move at moves ⊢
    cases moves with
    | command cmd ink found =>
      have on := (commandAtFound found).1
      rw [off] at on
      contradiction
    | _ => rfl

theorem fixedDelimiter (off : rules.delimiterCommand = false) {c c' : SplitConfig}
    (reach : Reaches rules c c') : c'.state.delimiter = c.state.delimiter := by
  obtain ⟨outs, path⟩ := reach
  induction path with
  | refl => rfl
  | turn _ _ ih => exact ih.trans (nextDelimiter off _)

theorem chunkOpensLater (plain : rules.escapeStringPrefix = true → rules.delimiterCommand = false)
    {start c : SplitConfig} (reach : Reaches rules start c)
    (default : rules.delimiterCommand = false → start.state.delimiter = .semicolon)
    (some : c.rest ≠ []) (leaves : ¬ Stays rules c) :
    ChunkOpens rules (c.next (splitStep rules)) := by
  refine ⟨(leavesNext some leaves).1, fun prefixed => ?_⟩
  have off := plain prefixed
  have mark := (fixedDelimiter off reach).trans (default off)
  cases leavesHow some leaves with
  | command cmd found move =>
    have on := (commandAtFound found).1
    rw [off] at on
    contradiction
  | @terminator s before more x none ends move =>
    have stands := startsWithIff.mp ends
    have mark' : s.delimiter = .semicolon := mark
    simp only [Config.next, splitStep, move]
    rw [mark'] at stands ⊢
    obtain ⟨after, there⟩ := stands
    rw [← there]
    rfl

theorem splitMember {sql : Text} {dialect : SqlDialect} {s : SqlStatement}
    (member : s ∈ splitStatements sql dialect) :
    ∃ p ∈ pieces (rulesOf dialect) .semicolon sql, p.text = s.text ∧ p.delimiter = s.delimiter ∧
      p.start = s.start ∧ p.stop = s.stop := by
  obtain ⟨p, inside, rfl⟩ := List.mem_map.mp member
  exact ⟨p, inside, rfl, rfl, rfl, rfl⟩

theorem dialectPlain (dialect : SqlDialect) : (rulesOf dialect).escapeStringPrefix = true →
    (rulesOf dialect).delimiterCommand = false := by
  cases dialect <;> simp [rulesOf]

theorem chunkFresh {s : SplitState} {before : Text} (opened : s.chunkStart = before.length) :
    chunkOf s before = [] := by
  rw [chunkOf, opened, List.drop_eq_nil_iff, List.length_reverse]

theorem chunkPush {s t : SplitState} {before : Text} (within : s.chunkStart ≤ before.length)
    (same : t.chunkStart = s.chunkStart) (passed : Text) :
    chunkOf t (passed.reverse ++ before) = chunkOf s before ++ passed := by
  rw [chunkOf, same, List.reverse_append, List.reverse_reverse,
    List.drop_append_of_le_length (by simpa using within)]
  rfl

theorem flushedChunk {c0 z : SplitConfig} {p : Piece} (walk : Walk rules c0 z)
    (opened : c0.state.chunkStart = c0.before.length) (out : p ∈ flush z.state z.before) :
    ∃ lead trail, c0.rest = lead ++ (p.text ++ (trail ++ z.rest)) ∧
      (∀ d ∈ lead, isSpace d = true) ∧ (∀ d ∈ trail, isSpace d = true) ∧
      p.start = c0.before.length + lead.length ∧ p.text ≠ [] ∧
      (∀ d ∈ p.text.head?, isSpace d = false) ∧ p.delimiter = c0.state.delimiter := by
  obtain ⟨text, some, mark, start, _, _⟩ := flushMember out
  obtain ⟨chunk, rest, before⟩ := walk.span
  have whole : chunkOf z.state z.before = chunk := by
    rw [before, chunkPush opened.le walk.state.1, chunkFresh opened, List.nil_append]
  rw [whole] at text start
  obtain ⟨trail, split, white⟩ := trimBySplit isSpace chunk
  rw [← text] at split
  refine ⟨chunk.takeWhile isSpace, trail, ?_, fun d member => List.mem_takeWhile_imp member, white,
    ?_, some, ?_, mark.trans walk.state.2⟩
  · rw [rest]
    conv_lhs => rw [split]
    simp only [List.append_assoc]
  · rw [start, walk.state.1, opened]
  · rw [text]
    exact trimByHead isSpace chunk

end Walk

end DatabaseAdmin
