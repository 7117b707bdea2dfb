import DatabaseAdmin.SplitWalk

/-! More text after a buffer. Up to the place where the buffer's last chunk opened, the
splitter takes the same turns whatever follows, because every form, command or delimiter
that could still change is cut short of a terminator that was already passed. The one
exception is a delimiter made of letters of the `DELIMITER` keyword itself. -/
namespace DatabaseAdmin
open CodeUnits ScanLoop

structure Coherent (rules : DialectRules) : Prop where
  dollar : rules.delimiterCommand = true → rules.dollarQuoting = false
  escape : rules.delimiterCommand = true → rules.escapeStringPrefix = false
  tick : rules.delimiterCommand = true → rules.backtickIdent = true

theorem rulesCoherent (dialect : SqlDialect) : Coherent (rulesOf dialect) := by
  cases dialect <;> constructor <;> simp [rulesOf]

theorem Coherent.plain {rules : DialectRules} (coherent : Coherent rules)
    (prefixed : rules.escapeStringPrefix = true) : rules.delimiterCommand = false := by
  by_contra on
  rw [coherent.escape (by simpa using on)] at prefixed
  contradiction

def keywordHazard (rules : DialectRules) (s : SplitState) (before rest : Text) : Bool :=
  (commandAt rules s before rest).isSome &&
    decide (s.delimiter.text <:+: rest.take delimiterKeyword.length)

theorem solidPrefix {mark word gap : Text} (solid : ∀ c ∈ mark, isSpace c = false)
    (blank : ∀ c ∈ gap.head?, isSpace c = true) (stands : mark <+: word ++ gap) : mark <+: word := by
  obtain ⟨after, whole⟩ := stands
  rcases List.append_eq_append_iff.mp whole with ⟨word', rfl, _⟩ | ⟨tail, rfl, rfl⟩
  · exact List.prefix_append _ _
  · cases tail with
    | nil => simp
    | cons c tail =>
      have white := blank c rfl
      rw [solid c (by simp)] at white
      contradiction

theorem partialInfix {mark word gap quotes text : Text} (solid : ∀ c ∈ mark, isSpace c = false)
    (some : mark ≠ []) (blank : ∀ c ∈ gap, isBlank c = true)
    (pair : quotes = [] ∨ gap ≠ [] ∧ ∃ c, isQuote c = true ∧ quotes = [c, c])
    (suffix : text <:+ word ++ (gap ++ quotes)) (stands : mark <+: text)
    (unquoted : ∀ c ∈ text.head?, isQuote c = false) : mark <:+: word := by
  have gapEnds : ∀ c ∈ (gap ++ quotes).head?, isSpace c = true := by
    intro c head
    cases gap with
    | cons d gap =>
      cases head
      exact blankIsSpace (blank c (by simp))
    | nil =>
      rcases pair with rfl | ⟨none, _⟩
      · simp at head
      · exact absurd rfl none
  have ink : ∀ c ∈ text.head?, isSpace c = false := by
    intro c head
    cases mark with
    | nil => exact absurd rfl some
    | cons d mark =>
      obtain ⟨after, rfl⟩ := stands
      cases head
      exact solid c (by simp)
  have outside (there : text <:+ gap ++ quotes) : False := by
    have open_ : text ≠ [] := by
      rintro rfl
      exact some (List.prefix_nil.mp stands)
    obtain ⟨c, text, rfl⟩ := List.exists_cons_of_ne_nil open_
    have member : c ∈ gap ++ quotes := there.subset (by simp)
    rcases List.mem_append.mp member with inGap | inQuotes
    · have white := blankIsSpace (blank c inGap)
      rw [ink c rfl] at white
      contradiction
    · rcases pair with rfl | ⟨_, d, quote, rfl⟩
      · simp at inQuotes
      · have same : c = d := by simpa using inQuotes
        rw [unquoted d (by simp [same])] at quote
        contradiction
  obtain ⟨lead, whole⟩ := suffix
  rcases List.append_eq_append_iff.mp whole with ⟨word', rfl, rfl⟩ | ⟨tail, rfl, there⟩
  · have inside := solidPrefix solid gapEnds stands
    exact inside.isInfix.trans (List.suffix_append _ _).isInfix
  · exact (outside ⟨tail, there.symm⟩).elim

section Grow
variable {rules : DialectRules}

def grow (more : Text) (c : SplitConfig) : SplitConfig := { c with rest := c.rest ++ more }

theorem splitFits {c : SplitConfig} (some : c.rest ≠ []) :
    c.width (splitStep rules) ≤ c.rest.length := by
  obtain ⟨s, before, rest⟩ := c
  cases rest with
  | nil => exact absurd rfl some
  | cons x more =>
    have moves := splitMoves rules s before x more
    simp only [Config.width, splitStep]
    generalize splitMove rules s before x more = move at moves ⊢
    cases moves with
    | space white => simp
    | command cmd ink found => exact (commandNext (commandAtFound found).2.2.2).2
    | form opener ink quiet found => exact openerFits found
    | terminator ink quiet plain ends => exact (startsWithIff.mp ends).length_le
    | unit ink quiet plain inside => simp

theorem leaveAhead {c c' : SplitConfig} {outs : List Piece}
    (path : Path (splitStep rules) c outs c') (inside : c.state.chunkStart < c.before.length)
    (opened : c'.state.chunkStart = c'.before.length) :
    ∃ y outs', Walk rules c y ∧ y.rest ≠ [] ∧ ¬ Stays rules y ∧
      Path (splitStep rules) (y.next (splitStep rules)) outs' c' := by
  induction path with
  | refl c => omega
  | @turn c outs c' some tail ih =>
    by_cases here : Stays rules c
    · have facts := staysNext here
      have longer : (c.next (splitStep rules)).state.chunkStart <
          (c.next (splitStep rules)).before.length := by
        rw [facts.2.2.1]
        simp only [Config.next, List.length_append]
        omega
      obtain ⟨y, outs', walk, more, leaves, rest⟩ := ih longer opened
      exact ⟨y, outs', .step here walk, more, leaves, rest⟩
    · exact ⟨c, outs, .refl c, some, here, tail⟩

theorem sawNext {c : SplitConfig} (here : Stays rules c) (saw : c.state.sawContent = true) :
    (c.next (splitStep rules)).state.sawContent = true := by
  obtain ⟨here⟩ := here
  rename_i s before x more
  have saw' : s.sawContent = true := saw
  simp only [Config.next, splitStep]
  generalize splitMove rules s before x more = move at here ⊢
  cases move <;> simp_all [stays]

theorem walkSaw {c c' : SplitConfig} (walk : Walk rules c c') (saw : c.state.sawContent = true) :
    c'.state.sawContent = true := by
  induction walk with
  | refl => exact saw
  | step here _ ih => exact ih (sawNext here saw)

theorem leaveTerminator {c : SplitConfig} (some : c.rest ≠ []) (leaves : ¬ Stays rules c)
    (saw : c.state.sawContent = true) :
    openerAt rules c.before c.rest = none ∧ c.state.delimiter.text <+: c.rest := by
  cases leavesHow some leaves with
  | @command s before more x cmd found move =>
    have saw' : s.sawContent = true := saw
    have unseen := (commandAtFound found).2.1
    rw [saw'] at unseen
    contradiction
  | terminator plain ends move => exact ⟨plain, startsWithIff.mp ends⟩

theorem quoteOpens (coherent : Coherent rules) (on : rules.delimiterCommand = true)
    {before text : Text} (plain : openerAt rules before text = none) :
    ∀ c ∈ text.head?, isQuote c = false := by
  intro c head
  by_contra quote
  rw [Bool.not_eq_false] at quote
  cases text with
  | nil => contradiction
  | cons d more =>
    cases head
    have tick := coherent.tick on
    simp only [isQuote, Bool.or_eq_true, beq_iff_eq] at quote
    rcases quote with (rfl | rfl) | rfl <;>
      simp [openerAt, tick, apostrophe, doubleQuote, backtick] at plain

theorem openerNotCommand {before more : Text} {c : CodeUnit} {opener : Opener}
    (found : openerAt rules before (c :: more) = some opener) :
    nextIs 'd' (c :: more) = false ∧ nextIs 'D' (c :: more) = false := by
  have other (d : CodeUnit) (plain : openerAt rules before (d :: more) = none) :
      nextIs d (c :: more) = false := by
    rw [nextIsCons, beq_eq_false_iff_ne]
    rintro rfl
    rw [found] at plain
    contradiction
  exact ⟨other 100 (by simp [openerAt, apostrophe, doubleQuote, backtick]),
    other 68 (by simp [openerAt, apostrophe, doubleQuote, backtick])⟩

theorem delimiterSolid (delimiter : Delimiter) : ∀ c ∈ delimiter.text, isSpace c = false := by
  simpa using delimiter.solid

structure Ends (rules : DialectRules) (x : SplitConfig) (y : Text) : Prop where
  suffix : y <:+ x.rest
  stands : x.state.delimiter.text <+: y
  unquoted : rules.delimiterCommand = true → ∀ c ∈ y.head?, isQuote c = false

theorem growQuiet {s : SplitState} {before more y : Text} {c : CodeUnit} (e : Text)
    (quiet : commandAt rules s before (c :: more) = none)
    (ends : Ends rules ⟨s, before, c :: more⟩ y)
    (safe : keywordHazard rules s before (c :: more ++ e) = false) :
    commandAt rules s before (c :: more ++ e) = none := by
  cases found : commandAt rules s before (c :: more ++ e) with
  | none => rfl
  | some cmd =>
    exfalso
    obtain ⟨on, unseen, line, read⟩ := commandAtFound found
    have absent : delimiterCommandAt (c :: more) = none := by
      unfold commandAt at quiet found
      rw [List.cons_append] at found
      simp only [nextIsCons] at quiet found
      split at found
      · rename_i test
        rwa [if_pos test] at quiet
      · contradiction
    have cut := commandPartial absent read
    generalize whole : c :: more = text at cut
    obtain ⟨word, gap, quotes, blank, pair, keyword⟩ := cut
    have inside : s.delimiter.text <:+: word :=
      partialInfix (delimiterSolid _) s.delimiter.nonempty blank pair
        (by rw [← whole]; exact ends.suffix) ends.stands (ends.unquoted on)
    have wordTaken : word <+: (c :: more ++ e).take delimiterKeyword.length := by
      rw [whole, List.append_assoc, List.take_append, List.take_of_length_le keyword]
      exact List.prefix_append _ _
    have hazard : keywordHazard rules s before (c :: more ++ e) = true := by
      simp only [keywordHazard, found, Option.isSome_some, Bool.true_and, decide_eq_true_eq]
      exact inside.trans wordTaken.isInfix
    rw [safe] at hazard
    contradiction

theorem growPlain (coherent : Coherent rules) {s : SplitState} {before more y : Text} {c : CodeUnit}
    (e : Text) (plain : openerAt rules before (c :: more) = none)
    (mark : rules.delimiterCommand = false → s.delimiter = .semicolon)
    (ends : Ends rules ⟨s, before, c :: more⟩ y)
    (last : more = [] → rules.delimiterCommand = false) :
    openerAt rules before (c :: more ++ e) = none := by
  have semicolon (off : rules.delimiterCommand = false) : (';' : CodeUnit) ∈ c :: more := by
    have stands := ends.stands
    rw [show Config.state (⟨s, before, c :: more⟩ : SplitConfig) = s from rfl, mark off] at stands
    exact ends.suffix.subset (stands.subset (by simp [Delimiter.semicolon]))
  cases more with
  | nil =>
    have same : c = ';' := (List.mem_singleton.mp (semicolon (last rfl))).symm
    rw [same]
    simp [openerAt, apostrophe, doubleQuote, backtick]
  | cons d rest =>
    refine openerMisses plain (fun dollar sign => Or.inl ⟨';', ?_, rfl⟩)
    have off : rules.delimiterCommand = false := by
      by_contra on
      rw [coherent.dollar (by simpa using on)] at dollar
      contradiction
    rcases List.mem_cons.mp (semicolon off) with same | inside
    · rw [sign] at same
      contradiction
    · exact inside

theorem walkDelimiterAhead (coherent : Coherent rules) {x c0 : SplitConfig} {outs : List Piece}
    (path : Path (splitStep rules) x outs c0) (opened : c0.state.chunkStart = c0.before.length)
    (inside : x.state.chunkStart < x.before.length) (saw : x.state.sawContent = true) :
    ∃ y, y ≠ [] ∧ Ends rules x y := by
  obtain ⟨y, outs', walk, some, leaves, _⟩ := leaveAhead path inside opened
  have terminator := leaveTerminator some leaves (walkSaw walk saw)
  obtain ⟨chunk, rest, _⟩ := walk.span
  refine ⟨y.rest, some, ⟨⟨chunk, rest.symm⟩, ?_, fun on => quoteOpens coherent on terminator.1⟩⟩
  rw [← walk.state.2]
  exact terminator.2

theorem contentSettles {before text : Text} {opener : Opener} (e : Text)
    (found : openerAt rules before text = some opener)
    (short : opener.scan rules text < text.length) :
    countsAsContent rules (text ++ e) opener = countsAsContent rules text opener := by
  cases opener with
  | blockComment =>
    have long : 2 < text.length := by
      simp only [Opener.scan, scanBlockComment] at short
      omega
    obtain ⟨c, rest, there⟩ : ∃ c rest, text.drop 2 = c :: rest := by
      refine List.exists_cons_of_ne_nil (fun empty => ?_)
      simp only [List.drop_eq_nil_iff] at empty
      omega
    simp only [countsAsContent]
    rw [List.drop_append_of_le_length (by omega), there, List.cons_append, nextIsCons, nextIsCons]
  | _ => rfl

theorem turnSettles (coherent : Coherent rules) {x c0 : SplitConfig} {outs : List Piece} (e : Text)
    (some : x.rest ≠ []) (within : x.state.chunkStart ≤ x.before.length)
    (path : Path (splitStep rules) (x.next (splitStep rules)) outs c0)
    (opened : c0.state.chunkStart = c0.before.length)
    (final : c0.rest ≠ [] ∨ rules.delimiterCommand = false)
    (mark : rules.delimiterCommand = false → x.state.delimiter = .semicolon)
    (safe : keywordHazard rules x.state x.before (x.rest ++ e) = false) :
    splitStep rules x.state x.before (x.rest ++ e) = splitStep rules x.state x.before x.rest := by
  obtain ⟨s, before, rest⟩ := x
  cases rest with
  | nil => exact absurd rfl some
  | cons c more =>
    have inside (here : Stays rules ⟨s, before, c :: more⟩) :
        (Config.next (splitStep rules) ⟨s, before, c :: more⟩).state.chunkStart <
          (Config.next (splitStep rules) ⟨s, before, c :: more⟩).before.length := by
      have positive := splitProgress rules s before (c :: more) (by simp)
      have within' : s.chunkStart ≤ before.length := within
      rw [(staysNext here).2.2.1]
      simp only [Config.next, List.length_append, List.length_reverse, List.length_take,
        List.length_cons]
      omega
    have after := path.restSuffix.length_le
    simp only [Config.next, List.length_drop] at after
    have moves := splitMoves rules s before c more
    generalize named : splitMove rules s before c more = move at moves
    cases moves with
    | space white => simp [splitStep, splitMove, white]
    | command cmd ink found =>
      obtain ⟨on, unseen, line, read⟩ := commandAtFound found
      have short : cmd.next < (c :: more).length := by
        rcases final with rest | off
        · have long := List.length_pos_iff.mpr rest
          simp only [splitStep, named] at after
          omega
        · rw [on] at off
          contradiction
      have grown : commandAt rules s before (c :: (more ++ e)) = Option.some cmd := by
        have read' := commandSettles e read short
        rw [List.cons_append] at read'
        rw [← found]
        simp only [commandAt, nextIsCons, read, read']
      have same : splitMove rules s before c (more ++ e) = .command cmd := by
        simp [splitMove, ink, grown]
      simp only [List.cons_append, splitStep, same, named]
    | form opener ink quiet found =>
      have here : Stays rules ⟨s, before, c :: more⟩ := .move (by rw [named]; rfl)
      obtain ⟨y, _, walk, rest, _, _⟩ := leaveAhead path (inside here) opened
      have short : opener.scan rules (c :: more) < (c :: more).length := by
        have long := List.length_pos_iff.mpr rest
        obtain ⟨chunk, split, _⟩ := walk.span
        have size := congrArg List.length split
        simp only [Config.next, splitStep, named, List.length_drop, List.length_append] at size
        omega
      have found' := openerSettles found e short
      have content := contentSettles e found short
      have scan := openerScanSettles (openerStands found) e short
      rw [List.cons_append] at found' content scan
      have never := openerNotCommand found'
      have quiet' : commandAt rules s before (c :: (more ++ e)) = none := by
        simp only [commandAt, never.1, never.2, Bool.or_self, Bool.and_false, Bool.false_and,
          Bool.false_eq_true, if_false]
      have same : splitMove rules s before c (more ++ e) = .form opener := by
        simp [splitMove, ink, quiet', found']
      simp only [List.cons_append, splitStep, same, named, content, scan]
    | terminator ink quiet plain ends =>
      have stands := startsWithIff.mp ends
      have ends' : Ends rules ⟨s, before, c :: more⟩ (c :: more) :=
        ⟨List.suffix_rfl, stands, fun on => quoteOpens coherent on plain⟩
      have quiet' := growQuiet e quiet ends' safe
      have plain' := growPlain coherent e plain mark ends' (fun empty => by
        rcases final with rest | off
        · have long := List.length_pos_iff.mpr rest
          have width := List.length_pos_iff.mpr s.delimiter.nonempty
          have alone : (c :: more).length = 1 := by rw [empty]; rfl
          simp only [splitStep, named, alone] at after
          omega
        · exact off)
      have stands' : startsWith s.delimiter.text (c :: (more ++ e)) = true :=
        startsWithIff.mpr (stands.trans (List.prefix_append (c :: more) e))
      have same : splitMove rules s before c (more ++ e) = .terminator := by
        rw [List.cons_append] at quiet' plain'
        simp [splitMove, ink, quiet', plain', stands']
      simp only [List.cons_append, splitStep, same, named]
    | unit ink quiet plain open_ =>
      have here : Stays rules ⟨s, before, c :: more⟩ := .move (by rw [named]; rfl)
      have next : Config.next (splitStep rules) ⟨s, before, c :: more⟩ =
          ⟨{ s with sawContent := true }, c :: before, more⟩ := by
        simp [Config.next, splitStep, named]
      have inside' := inside here
      rw [next] at path inside'
      obtain ⟨y, some', ends⟩ := walkDelimiterAhead coherent path opened inside' rfl
      have ends' : Ends rules ⟨s, before, c :: more⟩ y :=
        ⟨ends.suffix.trans (List.suffix_cons c more), ends.stands, ends.unquoted⟩
      have quiet' := growQuiet e quiet ends' safe
      have plain' := growPlain coherent e plain mark ends'
        (fun empty => absurd (List.suffix_nil.mp (empty ▸ ends.suffix)) some')
      have apart : startsWith s.delimiter.text (c :: more ++ e) = false := by
        by_contra stands
        rw [Bool.not_eq_false, startsWithIff] at stands
        have long : s.delimiter.text.length ≤ (c :: more).length :=
          ends'.stands.length_le.trans ends'.suffix.length_le
        have there := List.prefix_of_prefix_length_le stands (List.prefix_append (c :: more) e) long
        rw [← startsWithIff, open_] at there
        contradiction
      have grown : splitMove rules s before c (more ++ e) = .unit := by
        rw [List.cons_append] at quiet' plain' apart
        simp [splitMove, ink, quiet', plain', apart]
      simp only [List.cons_append, splitStep, grown, named]

def Within (c : SplitConfig) : Prop := c.state.chunkStart ≤ c.before.length

theorem withinNext {c : SplitConfig} (some : c.rest ≠ []) (within : Within c) :
    Within (c.next (splitStep rules)) := by
  unfold Within at within ⊢
  by_cases here : Stays rules c
  · rw [(staysNext here).2.2.1]
    simp only [Config.next, List.length_append]
    omega
  · exact (leavesNext some here).1.le

theorem pathGrows (coherent : Coherent rules) {start c0 : SplitConfig} {outs : List Piece}
    (e : Text) (path : Path (splitStep rules) start outs c0) (within : Within start)
    (opened : c0.state.chunkStart = c0.before.length)
    (final : c0.rest ≠ [] ∨ rules.delimiterCommand = false)
    (mark : rules.delimiterCommand = false → start.state.delimiter = .semicolon)
    (safe : ∀ c, Reaches rules (grow e start) c → c.rest ≠ [] →
      keywordHazard rules c.state c.before c.rest = false) :
    Path (splitStep rules) (grow e start) outs (grow e c0) := by
  induction path with
  | refl c => exact .refl _
  | @turn c outs c0 some tail ih =>
    have some' : (grow e c).rest ≠ [] := by simp [grow, some]
    have step := turnSettles coherent e some within tail opened final mark
      (safe _ ⟨[], .refl _⟩ some')
    have fits : c.width (splitStep rules) ≤ c.rest.length := splitFits some
    have next : (grow e c).next (splitStep rules) = grow e (c.next (splitStep rules)) := by
      simp only [Config.width] at fits
      simp only [grow, Config.next, step, List.take_append_of_le_length fits,
        List.drop_append_of_le_length fits]
    have out : (grow e c).out (splitStep rules) = c.out (splitStep rules) := by
      simp only [grow, Config.out, step]
    have tail' := ih (withinNext some within) opened final
      (fun off => (nextDelimiter off c).trans (mark off))
      (fun c' reach => safe c' (by
        rw [← next] at reach
        obtain ⟨outs', path⟩ := reach
        exact ⟨_, .turn some' path⟩))
    rw [← next] at tail'
    rw [← out]
    exact .turn some' tail'

end Grow

section Alike
variable {rules : DialectRules}

structure Alike (rules : DialectRules) (shift : Nat) (c c' : SplitConfig) : Prop where
  rest : c.rest = c'.rest
  delimiter : c.state.delimiter = c'.state.delimiter
  saw : c.state.sawContent = c'.state.sawContent
  size : c.before.length = c'.before.length + shift
  within : Within c ∧ Within c'
  chunk : ∃ lead, (∀ d ∈ lead, isSpace d = true) ∧
    chunkOf c.state c.before = lead ++ chunkOf c'.state c'.before ∧ lead.length ≤ shift
  look : SameLook rules c.before c'.before
  line : rules.delimiterCommand = true → atLineStart c.before = atLineStart c'.before ∨
    delimiterCommandAt c.rest = none ∧ ∀ d ∈ c.rest.head?, isSpace d = false

def Piece.shift (n : Nat) (p : Piece) : Piece := { p with start := p.start + n, stop := p.stop + n }

theorem chunkSize {c : SplitConfig} (within : Within c) :
    c.state.chunkStart + (chunkOf c.state c.before).length = c.before.length := by
  unfold Within at within
  simp only [chunkOf, List.length_drop, List.length_reverse]
  omega

theorem alikeFlush {shift : Nat} {c c' : SplitConfig} (alike : Alike rules shift c c') :
    flush c.state c.before = (flush c'.state c'.before).map (Piece.shift shift) := by
  obtain ⟨lead, white, chunk, short⟩ := alike.chunk
  have size := chunkSize alike.within.1
  have size' := chunkSize alike.within.2
  have sizes := alike.size
  rw [chunk, List.length_append] at size
  have whole : lead.takeWhile isSpace = lead := List.takeWhile_eq_self_iff.mpr white
  simp only [flush, alike.saw, chunk, trimByLead white, alike.delimiter, List.takeWhile_append,
    whole, if_true, List.length_append]
  split
  · rfl
  · split
    · rfl
    · simp only [List.map_cons, List.map_nil, Piece.shift, List.cons.injEq, Piece.mk.injEq, and_true,
        true_and]
      omega

theorem alikeCommand {shift : Nat} {c c' : SplitConfig} (alike : Alike rules shift c c') :
    commandAt rules c.state c.before c.rest = commandAt rules c'.state c'.before c'.rest := by
  by_cases on : rules.delimiterCommand = true
  · rcases alike.line on with same | ⟨none, _⟩
    · simp only [commandAt, alike.saw, same, alike.rest]
    · simp only [commandAt, ← alike.rest, none, ite_self]
  · simp only [commandAt, on, Bool.false_and, Bool.false_eq_true, if_false]

theorem lineStartPush {before before' passed : Text}
    (same : atLineStart before = atLineStart before' ∨ ∃ d ∈ passed, isBlank d = false) :
    atLineStart (passed.reverse ++ before) = atLineStart (passed.reverse ++ before') := by
  cases rest : passed.reverse.dropWhile isBlank with
  | cons d tail =>
    simp only [atLineStart, List.dropWhile_append, rest, List.isEmpty_cons, Bool.false_eq_true,
      if_false, List.cons_append]
  | nil =>
    rcases same with same | ⟨d, member, ink⟩
    · simpa only [atLineStart, List.dropWhile_append, rest, List.isEmpty_nil, if_true] using same
    · rw [List.dropWhile_eq_nil_iff] at rest
      rw [rest d (List.mem_reverse.mpr member)] at ink
      contradiction

theorem alikeMove {shift : Nat} {s s' : SplitState} {before before' more : Text} {x : CodeUnit}
    (alike : Alike rules shift ⟨s, before, x :: more⟩ ⟨s', before', x :: more⟩) :
    splitMove rules s before x more = splitMove rules s' before' x more := by
  have command : commandAt rules s before (x :: more) = commandAt rules s' before' (x :: more) :=
    alikeCommand alike
  have delimiter : s.delimiter = s'.delimiter := alike.delimiter
  have opener := sameLookOpener alike.look (x :: more)
  simp only at opener
  simp only [splitMove, command, opener, delimiter]

theorem alikeNext {shift : Nat} {c c' : SplitConfig} (alike : Alike rules shift c c')
    (some : c.rest ≠ []) :
    Alike rules shift (c.next (splitStep rules)) (c'.next (splitStep rules)) ∧
      c.out (splitStep rules) = (c'.out (splitStep rules)).map (Piece.shift shift) := by
  have flushed := alikeFlush alike
  have within : Within (c.next (splitStep rules)) := withinNext some alike.within.1
  have within' : Within (c'.next (splitStep rules)) :=
    withinNext (alike.rest ▸ some) alike.within.2
  obtain ⟨s, before, rest⟩ := c
  obtain ⟨s', before', rest'⟩ := c'
  obtain rfl : rest = rest' := alike.rest
  cases rest with
  | nil => exact absurd rfl some
  | cons x more =>
    have delimiter : s.delimiter = s'.delimiter := alike.delimiter
    have saw : s.sawContent = s'.sawContent := alike.saw
    have size : before.length = before'.length + shift := alike.size
    have move := alikeMove alike
    have positive := splitProgress rules s before (x :: more) (by simp)
    have width : (splitStep rules s before (x :: more)).width =
        (splitStep rules s' before' (x :: more)).width := by
      simp only [splitStep, move]
      cases splitMove rules s' before' x more <;> simp [delimiter]
    have state : (splitStep rules s before (x :: more)).state.delimiter =
          (splitStep rules s' before' (x :: more)).state.delimiter ∧
        (splitStep rules s before (x :: more)).state.sawContent =
          (splitStep rules s' before' (x :: more)).state.sawContent := by
      simp only [splitStep, move]
      cases splitMove rules s' before' x more <;> simp [delimiter, saw]
    have out : (splitStep rules s before (x :: more)).out =
        (splitStep rules s' before' (x :: more)).out.map (Piece.shift shift) := by
      simp only [splitStep, move]
      cases splitMove rules s' before' x more <;> simp [flushed]
    refine ⟨⟨?_, state.1, state.2, ?_, ⟨within, within'⟩, ?_, ?_, fun on => Or.inl ?_⟩, out⟩
    · simp only [Config.next, width]
    · simp only [Config.next, width, List.length_append, size]
      omega
    · by_cases here : stays (splitMove rules s before x more) = true
      · obtain ⟨lead, white, chunk, short⟩ := alike.chunk
        have start := (staysNext (Stays.move here)).2.2.1
        have start' := (staysNext (Stays.move (move ▸ here))).2.2.1
        refine ⟨lead, white, ?_, short⟩
        have next := chunkPush alike.within.1 start
          ((x :: more).take (splitStep rules s before (x :: more)).width)
        have next' := chunkPush alike.within.2 start'
          ((x :: more).take (splitStep rules s' before' (x :: more)).width)
        refine next.trans ?_
        rw [chunk, List.append_assoc, width]
        exact congrArg (lead ++ ·) next'.symm
      · have gone : ¬ Stays rules ⟨s, before, x :: more⟩ := by
          rintro ⟨there⟩
          exact here there
        have gone' : ¬ Stays rules ⟨s', before', x :: more⟩ := by
          rintro ⟨there⟩
          exact here (move ▸ there)
        have fresh := chunkFresh (leavesNext some gone).1
        have fresh' := chunkFresh (leavesNext (by simp) gone').1
        exact ⟨[], by simp, by rw [fresh, fresh']; rfl, Nat.zero_le _⟩
    · simp only [Config.next, width]
      exact sameLookPush alike.look _
    · simp only [Config.next, width]
      refine lineStartPush ?_
      rcases alike.line on with same | ⟨_, ink⟩
      · exact Or.inl same
      · refine Or.inr ⟨x, ?_, ?_⟩
        · rw [← width]
          cases w : (splitStep rules s before (x :: more)).width with
          | zero => omega
          | succ w => simp
        · by_contra blank
          have white := blankIsSpace (by simpa using blank)
          rw [ink x rfl] at white
          contradiction

theorem alikeRun {shift : Nat} (c' : SplitConfig) : ∀ {c : SplitConfig},
    Alike rules shift c c' → runAt (splitStep rules) flush c =
      (runAt (splitStep rules) flush c').map (Piece.shift shift) := by
  induction c' using passInduction (splitProgress rules) with
  | stop s' before' =>
    intro c alike
    have flushed := alikeFlush alike
    obtain ⟨s, before, rest⟩ := c
    obtain rfl : rest = [] := alike.rest
    rw [runAtEnd, runAtEnd]
    exact flushed
  | turn c' some ih =>
    intro c alike
    have some' : c.rest ≠ [] := alike.rest ▸ some
    have next := alikeNext alike some'
    rw [runAtNext (splitProgress rules) _ some, runAtNext (splitProgress rules) _ some',
      List.map_append, next.2, ih next.1]

theorem alikeReach {shift : Nat} {c1 c' : SplitConfig} (reach : Reaches rules c1 c') :
    ∀ {c0 : SplitConfig}, Alike rules shift c0 c1 →
      ∃ c, Reaches rules c0 c ∧ Alike rules shift c c' := by
  obtain ⟨outs, path⟩ := reach
  induction path with
  | refl c' => exact fun {c0} alike => ⟨c0, ⟨[], .refl c0⟩, alike⟩
  | turn some _ ih =>
    intro c0 alike
    have some' : c0.rest ≠ [] := alike.rest ▸ some
    obtain ⟨c, ⟨outs, path⟩, same⟩ := ih (alikeNext alike some').1
    exact ⟨c, ⟨_, .turn some' path⟩, same⟩

end Alike

end DatabaseAdmin
