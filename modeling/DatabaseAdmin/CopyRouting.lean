import DatabaseAdmin.CopyScript

/-! Where COPY blocks go. A COPY statement is found whatever stands behind it, since a statement is
handed out only once the next one has begun. -/
namespace DatabaseAdmin.DumpRunner
open CodeUnits ScanLoop

section Ends
variable {rules : DialectRules}

theorem pathOut {c c' : SplitConfig} {outs : List Piece} {p : Piece} (path : Path (splitStep rules) c outs c')
    (member : p ∈ outs) : ∃ d, Reaches rules c d ∧ d.rest ≠ [] ∧ p ∈ d.out (splitStep rules) ∧
      (d.next (splitStep rules)).before.length ≤ c'.before.length := by
  induction path with
  | refl => simp at member
  | @turn c outs c' some tail ih =>
    rcases List.mem_append.mp member with here | later
    · exact ⟨c, ⟨[], .refl c⟩, some, here, (tail.longer (splitProgress rules)).1⟩
    · obtain ⟨d, ⟨before, path⟩, more, out, long⟩ := ih later
      exact ⟨d, ⟨_, .turn some path⟩, more, out, long⟩

theorem withinReach {c d : SplitConfig} (reach : Reaches rules c d) (within : Within c) : Within d := by
  obtain ⟨outs, path⟩ := reach
  induction path with
  | refl => exact within
  | turn some _ ih => exact ih (withinNext some within)

theorem flushedEnd {d : SplitConfig} {p : Piece} (within : Within d) (out : p ∈ flush d.state d.before) :
    ∃ trail, (∀ c ∈ trail, isSpace c = true) ∧ d.text.drop p.stop = trail ++ d.rest ∧
      p.stop + trail.length = d.before.length := by
  obtain ⟨text, -, -, start, stop, -⟩ := flushMember out
  obtain ⟨trail, split, white⟩ := trimBySplit isSpace (chunkOf d.state d.before)
  have size := chunkSize within
  rw [← text] at split
  have whole := congrArg List.length split
  simp only [List.length_append] at whole
  have before : d.before.reverse = d.before.reverse.take d.state.chunkStart ++
      ((chunkOf d.state d.before).takeWhile isSpace ++ (p.text ++ trail)) := by
    rw [← split, chunkOf, List.take_append_drop]
  have front : (d.before.reverse.take d.state.chunkStart).length = d.state.chunkStart := by
    rw [List.length_take, List.length_reverse]
    exact min_eq_left within
  refine ⟨trail, white, ?_, by omega⟩
  have there : p.stop = (d.before.reverse.take d.state.chunkStart ++
      ((chunkOf d.state d.before).takeWhile isSpace ++ p.text)).length := by
    simp only [List.length_append, front]
    omega
  have text : d.text = d.before.reverse.take d.state.chunkStart ++
      ((chunkOf d.state d.before).takeWhile isSpace ++ p.text) ++ (trail ++ d.rest) := by
    conv_lhs => rw [Config.text, before]
    simp only [List.append_assoc]
  rw [text, there, List.drop_left]

theorem pieceMark (off : rules.delimiterCommand = false) {text : Text} {p : Piece}
    (member : p ∈ pieces rules .semicolon text) : p.delimiter = .semicolon := by
  obtain ⟨c0, c, reach, -, walk, out, -⟩ := @pieceOrigin rules (fun _ => True) _ _ member trivial (fun _ _ _ _ => trivial)
  exact (flushMember out).2.2.1.trans (walk.state.2.trans (fixedDelimiter off reach))

theorem heldBehind (off : rules.delimiterCommand = false) {text : Text} {ps : List Piece} {last : Piece}
    (parsed : pieces rules .semicolon text = ps ++ [last]) :
    (∃ d more, text.drop last.start = d :: more ∧ isSpace d = false) ∧
    ∀ p ∈ ps, ∃ trail rest, (∀ c ∈ trail, isSpace c = true) ∧
      text.drop p.stop = trail ++ (';' : CodeUnit) :: rest ∧ p.stop + trail.length + 1 ≤ last.start := by
  obtain ⟨c0, z, path, opens, walk, out⟩ :=
    @lastPiece rules (fun c => c.state.chunkStart = c.before.length) ⟨fresh .semicolon 0, [], text⟩
      (fun c _ some leaves => (leavesNext some leaves).1) last _ _ [] ps (.refl _) rfl (.refl _) parsed
  obtain ⟨lead, trail, rest, -, -, start, some, ink, -⟩ := flushedChunk walk opens out
  have whole : c0.before.reverse ++ c0.rest = text := path.text
  have behind : text.drop last.start = last.text ++ (trail ++ z.rest) := by
    have size : last.start = (c0.before.reverse ++ lead).length := by simp [start]
    rw [← whole, rest, ← List.append_assoc, size, List.drop_left]
  obtain ⟨d, more, head⟩ := List.exists_cons_of_ne_nil some
  refine ⟨⟨d, _, by rw [behind, head]; rfl, ink d (by rw [head]; rfl)⟩, fun p here => ?_⟩
  rw [List.nil_append] at path
  obtain ⟨d, reach, more, out', long⟩ := pathOut path here
  obtain ⟨held, stands⟩ := leaveOut out'
  have mark : d.state.delimiter = .semicolon := fixedDelimiter off reach
  obtain ⟨gap, white, after, size⟩ := flushedEnd (withinReach reach (Nat.zero_le _)) held
  rw [mark] at stands
  obtain ⟨tail, split⟩ := stands
  have origin : d.text = text := by
    obtain ⟨outs, path⟩ := reach
    exact path.text
  rw [origin, ← split] at after
  have step : d.before.length < (d.next (splitStep rules)).before.length := by
    have positive := splitProgress rules d.state d.before d.rest more
    have long := List.length_pos_iff.mpr more
    simp only [Config.next, List.length_append, List.length_reverse, List.length_take]
    omega
  exact ⟨gap, tail, white, after, by omega⟩

end Ends

section Reads

theorem spacesAlone {trail : Text} (white : ∀ c ∈ trail, isSpace c = true) : (';' : CodeUnit) ∉ trail := fun here =>
  absurd (white _ here) (by decide)

theorem trailUnique {a b s t : Text} (whiteA : ∀ c ∈ a, isSpace c = true) (whiteB : ∀ c ∈ b, isSpace c = true)
    (same : a ++ (';' : CodeUnit) :: s = b ++ (';' : CodeUnit) :: t) : a = b := by
  have ink : isSpace (';' : CodeUnit) = false := by decide
  have stops : ∀ {a s : Text}, (∀ c ∈ a, isSpace c = true) →
      (a ++ (';' : CodeUnit) :: s).takeWhile isSpace = a := fun white => takeWhileStops white (by simpa using ink)
  rw [← stops whiteA, same, stops whiteB]

theorem pastBreak {gap : Text} (known : gap = [] ∨ gap = units "\r") (rest : Text) :
    pastLineBreak (gap ++ newline :: rest) = rest := by
  rcases known with rfl | rfl <;> rfl

theorem copyReads {r : Reader} (drained : Drained r) {p : Piece} (mark : p.delimiter = .semicolon)
    {trail gap block : Text} (white : ∀ c ∈ trail, isSpace c = true) (known : gap = [] ∨ gap = units "\r")
    (behind : r.remaining.drop p.stop = trail ++ (';' : CodeUnit) :: (gap ++ newline :: block))
    (long : p.stop + trail.length + 1 + gap.length + 1 ≤ r.pending.length) :
    Follows r { r with pending := pastLineBreak (consume (afterTerminatorOf r.pending p.delimiter p.stop) r.pending) }
      block := by
  have held : r.pending.drop p.stop <+: r.remaining.drop p.stop := by
    rw [Reader.remaining, List.drop_append_of_le_length (by omega)]
    exact List.prefix_append _ _
  have line : trail ++ (';' : CodeUnit) :: (gap ++ [newline]) <+: r.remaining.drop p.stop := by
    rw [behind]
    simp
  obtain ⟨rest, split⟩ := List.prefix_of_prefix_length_le line held (by
    simp only [List.length_append, List.length_cons, List.length_nil, List.length_drop]
    omega)
  have found : indexOf Delimiter.semicolon.text (r.pending.drop p.stop) = some trail.length := by
    rw [← split, List.append_assoc]
    exact indexOfStop (spacesAlone white) _
  have offset : afterTerminatorOf r.pending p.delimiter p.stop = ((p.stop + trail.length + 1 : Nat) : Int) := by
    have one : Delimiter.semicolon.text.length = 1 := rfl
    rw [mark, afterTerminatorOf, indexFrom, Int.toNat_natCast, found]
    simp only [Option.map_some, one]
    omega
  have past : ∀ {n : Nat} {front tail text : Text}, text.drop n = front ++ (';' : CodeUnit) :: tail →
      text.drop (n + front.length + 1) = tail := by
    intro n front tail text split
    rw [Nat.add_assoc, ← List.drop_drop, split, dropPast]
  have pending : r.pending.drop (p.stop + trail.length + 1) = gap ++ newline :: rest := by
    refine past ?_
    rw [← split]
    simp
  have moved : pastLineBreak (consume (afterTerminatorOf r.pending p.delimiter p.stop) r.pending) =
      r.pending.drop (p.stop + trail.length + 1 + (gap.length + 1)) := by
    rw [offset, consume, if_neg (by omega), Int.toNat_natCast, pending, pastBreak known, ← List.drop_drop, pending,
      dropPast]
  have next := @dropFollows r drained (p.stop + trail.length + 1 + (gap.length + 1)) (by omega)
  have there : r.remaining.drop (p.stop + trail.length + 1 + (gap.length + 1)) = block := by
    rw [← List.drop_drop, past behind, dropPast]
  rw [there] at next
  rw [moved]
  exact next

theorem copyHeld {r : Reader} {ps : List Piece} {last p : Piece} (parsed : statementPieces r.pending = ps ++ [last])
    (here : p ∈ ps) {trail gap block : Text} (white : ∀ c ∈ trail, isSpace c = true)
    (known : gap = [] ∨ gap = units "\r")
    (behind : r.remaining.drop p.stop = trail ++ (';' : CodeUnit) :: (gap ++ newline :: block)) :
    p.stop + trail.length + 1 + gap.length + 1 ≤ r.pending.length := by
  obtain ⟨⟨d, more, head, ink⟩, before⟩ := heldBehind rfl parsed
  obtain ⟨trail', rest, white', there, order⟩ := before p here
  have inside : last.start < r.pending.length := by
    by_contra beyond
    rw [List.drop_eq_nil_of_le (not_lt.mp beyond)] at head
    contradiction
  have whole : r.remaining.drop p.stop = r.pending.drop p.stop ++ (r.chunks.flatten ++ if r.eof then [] else r.ending) := by
    rw [Reader.remaining, List.drop_append_of_le_length (by omega)]
  rw [whole, there, List.append_assoc] at behind
  obtain rfl := trailUnique white' white behind
  rcases known with rfl | rfl
  · simp only [List.length_nil]
    omega
  · have apart : last.start ≠ p.stop + trail'.length + 1 := by
      intro same
      have next := (List.cons.inj (List.append_cancel_left behind)).2
      rw [same, Nat.add_assoc, ← List.drop_drop, there, dropPast] at head
      rw [head] at next
      obtain rfl : d = 13 := (List.cons.inj next).1
      exact absurd ink (by decide)
    have one : (units "\r").length = 1 := rfl
    omega

end Reads

section Walks
variable {executor : ScriptExecutor} {opts : RunScriptOptions}

theorem copyNoCommand {text : Text} (copies : reCopyStdin text = true) : startsWith (units "\\") text = false := by
  cases text with
  | nil => rfl
  | cons c rest =>
    by_contra command
    obtain rfl : backslash = c := by simpa [startsWith, units] using command
    have kept : (backslash :: rest).dropWhile isWhite = backslash :: rest := List.dropWhile_cons_of_neg (by decide)
    have word : wordAt "copy" (backslash :: rest) = true := by
      rw [reCopyStdin, kept] at copies
      exact (Bool.and_eq_true_iff.mp copies).1
    have first := startsWithIff.mp (Bool.and_eq_true_iff.mp word).1
    rw [List.map_cons] at first
    exact absurd (List.cons_prefix_cons.mp first).1 (by decide)

theorem walkOthers {stmts : List ParsedStatement} (plain : ∀ s ∈ stmts, reCopyStdin s.text = false)
    (rest : List ParsedStatement) :
    walkStatements executor opts (stmts ++ rest) =
        (callsOf (stmts.map ParsedStatement.text)).foldr Walked.after (walkStatements executor opts rest) ∨
      ∃ calls, walkStatements executor opts (stmts ++ rest) = .threw calls ∧
        calls <+: callsOf (stmts.map ParsedStatement.text) := by
  induction stmts with
  | nil => exact Or.inl rfl
  | cons s stmts ih =>
    have tail := ih fun t here => plain t (by simp [here])
    have other : reCopyStdin s.text = false := plain s (by simp)
    rw [List.cons_append, walkStatements, List.map_cons, callsOf, List.flatMap_cons, statementCalls]
    by_cases command : startsWith (units "\\") s.text = true
    · simp only [command, if_true]
      exact tail
    · simp only [command, other, Bool.false_eq_true, if_false]
      split
      · exact Or.inr ⟨_, rfl, by simp⟩
      · rcases tail with through | ⟨calls, threw, front⟩
        · exact Or.inl (by rw [through]; rfl)
        · exact Or.inr ⟨_, by rw [threw]; rfl, List.cons_prefix_cons.mpr ⟨rfl, front⟩⟩

theorem afterThrough (calls more : List Call) : calls.foldr Walked.after (.through more) = .through (calls ++ more) := by
  induction calls with
  | nil => rfl
  | cons call calls ih => rw [List.foldr_cons, ih]; rfl

theorem afterCopy (calls more : List Call) (sql : Text) (offset : Int) :
    calls.foldr Walked.after (.copy more sql offset) = .copy (calls ++ more) sql offset := by
  induction calls with
  | nil => rfl
  | cons call calls ih => rw [List.foldr_cons, ih]; rfl

theorem walkThrough {stmts : List ParsedStatement} (plain : ∀ s ∈ stmts, reCopyStdin s.text = false) :
    walkStatements executor opts stmts = .through (callsOf (stmts.map ParsedStatement.text)) ∨
      ∃ calls, walkStatements executor opts stmts = .threw calls ∧
        calls <+: callsOf (stmts.map ParsedStatement.text) := by
  have walked := @walkOthers executor opts stmts plain []
  rw [List.append_nil, walkStatements, afterThrough, List.append_nil] at walked
  exact walked

theorem walkCopy {stmts rest : List ParsedStatement} {s : ParsedStatement}
    (plain : ∀ s ∈ stmts, reCopyStdin s.text = false) (copies : reCopyStdin s.text = true) :
    walkStatements executor opts (stmts ++ s :: rest) =
        .copy (callsOf (stmts.map ParsedStatement.text)) s.text s.afterTerminator ∨
      ∃ calls, walkStatements executor opts (stmts ++ s :: rest) = .threw calls ∧
        calls <+: callsOf (stmts.map ParsedStatement.text) := by
  have here : walkStatements executor opts (s :: rest) = .copy [] s.text s.afterTerminator := by
    simp [walkStatements, copies, copyNoCommand copies]
  have walked := @walkOthers executor opts stmts plain (s :: rest)
  rw [here, afterCopy, List.append_nil] at walked
  exact walked

end Walks

section Drains

theorem drainTaken (buffer : Text) (eof : Bool) : ∃ f : Piece → ParsedStatement,
    (∀ p, (f p).text = p.text ∧ (f p).afterTerminator = afterTerminatorOf buffer p.delimiter p.stop) ∧
    (drain buffer .semicolon .postgres eof).statements =
      (if eof then statementPieces buffer else (statementPieces buffer).dropLast).map f := by
  refine ⟨fun p => ⟨p.text, lineAt (lineStarts buffer) p.start - 0, p.start - 0,
    afterTerminatorOf buffer p.delimiter (p.stop - 0)⟩, fun p => ⟨rfl, by simp⟩, ?_⟩
  have lead : drainPrefix .semicolon .postgres = [] := rfl
  have parsed : statementPieces buffer = pieces (rulesOf .postgres) .semicolon buffer := rfl
  simp only [drain, lead, List.nil_append, splitStatements, ← parsed]
  rcases List.eq_nil_or_concat' (statementPieces buffer) with none | ⟨ps, last, some⟩
  · cases eof <;> simp [none]
  · cases eof <;> simp [some]

theorem mapTexts {f : Piece → ParsedStatement} {at_ : Piece → Int}
    (reads : ∀ p, (f p).text = p.text ∧ (f p).afterTerminator = at_ p) (ps : List Piece) :
    (ps.map f).map ParsedStatement.text = ps.map Piece.text := by
  rw [List.map_map]
  exact List.map_congr_left fun p _ => (reads p).1

theorem mapPlain {f : Piece → ParsedStatement} {at_ : Piece → Int}
    (reads : ∀ p, (f p).text = p.text ∧ (f p).afterTerminator = at_ p) {ps : List Piece}
    (plain : ∀ t ∈ ps.map Piece.text, reCopyStdin t = false) : ∀ s ∈ ps.map f, reCopyStdin s.text = false := by
  intro s here
  obtain ⟨p, inside, rfl⟩ := List.mem_map.mp here
  rw [(reads p).1]
  exact plain p.text (List.mem_map_of_mem inside)

end Drains

section Turns
variable {executor : ScriptExecutor} {opts : RunScriptOptions}

structure Ready (s : RunState) (blocks : List CopyBlock) (last : List Text) : Prop where
  script : Script s.reader.remaining blocks last
  mark : s.delimiter = .semicolon
  drained : Drained s.reader

def runMeasure (s : RunState) : Nat := s.reader.fills + s.reader.remaining.length

def TurnRoutes (executor : ScriptExecutor) (opts : RunScriptOptions) (s : RunState) (blocks : List CopyBlock)
    (last : List Text) : RunTurn → Prop
  | .stop calls => calls = scriptCalls blocks last
  | .threw calls => calls <+: scriptCalls blocks last
  | .next s' calls => ∃ blocks' last', TidyScript executor opts blocks' last' ∧ Ready s' blocks' last' ∧
      runMeasure s' < runMeasure s ∧ scriptCalls blocks last = calls ++ scriptCalls blocks' last'

theorem fillRoutes {s : RunState} {blocks : List CopyBlock} {last : List Text} (ready : Ready s blocks last)
    (tidy : TidyScript executor opts blocks last) (more : s.reader.eof = false) (parseAt : Nat) :
    TurnRoutes executor opts s blocks last (.next ⟨s.reader.fill, s.delimiter, parseAt⟩ []) := by
  have filled := fillFollows more
  have less := fillsLess more
  refine ⟨blocks, last, tidy, ⟨by rw [filled.remaining]; exact ready.script, ready.mark, filled.drained⟩, ?_, rfl⟩
  simp only [runMeasure, filled.remaining]
  omega

theorem copyRoutes {s : RunState} {b : CopyBlock} {blocks : List CopyBlock} {last : List Text}
    (mark : s.delimiter = .semicolon) (tidy : TidyScript executor opts (b :: blocks) last) {after : Text}
    (rest : Script after blocks last) {sql : Text} (statement : sql = b.statement) {offset : Int}
    (follows : Follows s.reader { s.reader with pending := pastLineBreak (consume offset s.reader.pending) }
      (blockText b.lines b.mark after))
    (shorter : after.length < s.reader.remaining.length) :
    TurnRoutes executor opts s (b :: blocks) last (copyTurn executor opts s (callsOf b.before) sql offset) := by
  subst statement
  obtain ⟨own, others⟩ := List.forall_mem_cons.mp tidy.blocks
  obtain ⟨r, taken, next⟩ := copyBlockReads b.data b.ends follows.drained follows.remaining executor b.statement
  simp only [copyTurn, taken]
  split
  · exact ⟨scriptCalls blocks last, by simp [scriptCalls, CopyBlock.texts]⟩
  · rename_i kept
    simp only [Bool.and_eq_true, Bool.not_eq_true', not_and, Bool.not_eq_false] at kept
    have along := followsTrans follows (next fun threw => own.asked (kept threw) threw)
    have fills := along.fills
    refine ⟨blocks, last, ⟨others, tidy.last⟩, ⟨by rw [along.remaining]; exact rest, mark, along.drained⟩, ?_, ?_⟩
    · simp only [runMeasure, along.remaining]
      omega
    · simp [scriptCalls, CopyBlock.texts]

structure CopyHere (text : Text) (ps : List Piece) (blocks : List CopyBlock) (last : List Text) where
  before : List Piece
  p : Piece
  more : List Piece
  trail : Text
  after : Text
  b : CopyBlock
  others : List CopyBlock
  split : ps = before ++ p :: more
  first : blocks = b :: others
  texts : before.map Piece.text = b.before
  statement : p.text = b.statement
  white : ∀ c ∈ trail, isSpace c = true
  block : text.drop p.stop = trail ++ (';' : CodeUnit) :: b.behind after
  rest : Script after others last

theorem hereRoutes {s : RunState} {ps : List Piece} {blocks : List CopyBlock} {last : List Text}
    (here : CopyHere s.reader.remaining ps blocks last) (ready : Ready s blocks last)
    (tidy : TidyScript executor opts blocks last) (marks : ∀ p ∈ ps, p.delimiter = .semicolon)
    (long : ∀ p ∈ ps, ∀ trail gap block : Text, (∀ c ∈ trail, isSpace c = true) → gap = [] ∨ gap = units "\r" →
      s.reader.remaining.drop p.stop = trail ++ (';' : CodeUnit) :: (gap ++ newline :: block) →
      p.stop + trail.length + 1 + gap.length + 1 ≤ s.reader.pending.length)
    {f : Piece → ParsedStatement}
    (reads : ∀ p, (f p).text = p.text ∧ (f p).afterTerminator = afterTerminatorOf s.reader.pending p.delimiter p.stop)
    {parsed : DrainResult} (taken : parsed.statements = ps.map f) :
    TurnRoutes executor opts s blocks last (walkedTurn executor opts s parsed) := by
  obtain ⟨before, p, more, trail, after, b, others, rfl, rfl, texts, statement, white, block, rest⟩ := here
  have own := tidy.blocks b (by simp)
  have inside : p ∈ before ++ p :: more := by simp
  have split : s.reader.remaining.drop p.stop =
      trail ++ (';' : CodeUnit) :: (b.gap ++ newline :: blockText b.lines b.mark after) := by
    rw [block, CopyBlock.behind, own.close]
    simp [blockText, CopyBlock.texts]
  have follows := copyReads ready.drained (marks p inside) white own.gap split (long p inside _ _ _ white own.gap split)
  have shorter : after.length < s.reader.remaining.length := by
    have size := congrArg List.length split
    simp only [blockText, List.length_drop, List.length_append, List.length_cons] at size
    omega
  have plain : ∀ t ∈ before.map Piece.text, reCopyStdin t = false := by
    rw [texts]
    exact own.others
  have copies : reCopyStdin (f p).text = true := by
    rw [(reads p).1, statement]
    exact own.recognised
  rw [List.map_append, List.map_cons] at taken
  rcases @walkCopy executor opts (before.map f) (more.map f) (f p) (mapPlain reads plain) copies with
    copied | ⟨calls, threw, front⟩
  · rw [mapTexts reads, texts] at copied
    rw [walkedTurn, taken, copied, (reads p).2]
    exact copyRoutes ready.mark tidy rest ((reads p).1.trans statement) follows shorter
  · rw [mapTexts reads, texts] at front
    rw [walkedTurn, taken, threw]
    exact front.trans (List.prefix_append _ _)

theorem shiftTexts (n : Nat) (ps : List Piece) : (ps.map (Piece.shift n)).map Piece.text = ps.map Piece.text := by
  rw [List.map_map]
  rfl

theorem callsAppend (s t : List Text) : callsOf (s ++ t) = callsOf s ++ callsOf t := List.flatMap_append

theorem scriptSplit {text : Text} {n : Nat} {ps : List Piece} {blocks : List CopyBlock} {last : List Text}
    (split : statementPieces text = ps ++ (statementPieces (text.drop n)).map (Piece.shift n))
    (script : Script text blocks last) : Nonempty (CopyHere text ps blocks last) ∨
      ∃ blocks' last', Script (text.drop n) blocks' last' ∧
        scriptCalls blocks last = callsOf (ps.map Piece.text) ++ scriptCalls blocks' last' ∧
        (TidyScript executor opts blocks last → TidyScript executor opts blocks' last' ∧
          ∀ t ∈ ps.map Piece.text, reCopyStdin t = false) := by
  cases script with
  | last plain =>
    rw [split, List.map_append, shiftTexts]
    refine Or.inr ⟨[], _, .last fun p here => ?_, callsAppend _ _, fun tidy => ⟨⟨by simp, fun t here => ?_⟩, fun t here => ?_⟩⟩
    · exact plain (p.shift n) (by rw [split]; exact List.mem_append_right _ (List.mem_map_of_mem here))
    · exact tidy.last t (List.mem_append_right _ here)
    · exact tidy.last t (List.mem_append_left _ here)
  | @copy text qs p garbage trail after others last b found before plain statement copies white block close rest =>
    have ahead : ∀ bs, qs = ps ++ bs → (statementPieces (text.drop n)).map (Piece.shift n) = bs ++ p :: garbage →
        ∃ blocks' last', Script (text.drop n) blocks' last' ∧
          scriptCalls (b :: others) last = callsOf (ps.map Piece.text) ++ scriptCalls blocks' last' ∧
          (TidyScript executor opts (b :: others) last → TidyScript executor opts blocks' last' ∧
            ∀ t ∈ ps.map Piece.text, reCopyStdin t = false) := by
      intro bs passed later
      obtain ⟨bs', tail, whole, rfl, held⟩ := List.map_eq_append_iff.mp later
      obtain ⟨p', more, rfl, rfl, -⟩ := List.map_eq_cons_iff.mp held
      have texts : ps.map Piece.text ++ bs'.map Piece.text = b.before := by
        rw [← before, passed, List.map_append, shiftTexts]
      have fewer : ∀ t ∈ bs'.map Piece.text, t ∈ b.before := fun t here => texts ▸ List.mem_append_right _ here
      have done : ∀ t ∈ ps.map Piece.text, t ∈ b.before := fun t here => texts ▸ List.mem_append_left _ here
      refine ⟨{ b with before := bs'.map Piece.text } :: others, last, ?_, ?_, fun tidy => ?_⟩
      · refine .copy whole rfl (fun t here => plain t (fewer t here)) statement copies white ?_ close rest
        rw [List.drop_drop, Nat.add_comm]
        exact block
      · rw [scriptCalls, ← texts, callsAppend, List.append_assoc]
        rfl
      · obtain ⟨own, rest⟩ := List.forall_mem_cons.mp tidy.blocks
        refine ⟨⟨List.forall_mem_cons.mpr ⟨?_, rest⟩, tidy.last⟩, fun t here => own.others t (done t here)⟩
        exact ⟨fun t here => own.others t (fewer t here), own.recognised, own.gap, own.close, own.asked⟩
    rcases List.append_eq_append_iff.mp (found.symm.trans split) with ⟨as, taken, held⟩ | ⟨bs, passed, later⟩
    · cases as with
      | nil => exact Or.inr (ahead [] (by simpa using taken.symm) held.symm)
      | cons q as =>
        obtain ⟨rfl, -⟩ := List.cons.inj held
        exact Or.inl ⟨⟨qs, p, as, trail, after, b, others, taken, rfl, before, statement, white, block, rest⟩⟩
    · exact Or.inr (ahead bs passed later)

theorem piecesNone : statementPieces [] = [] := rfl

theorem scriptEnd {blocks : List CopyBlock} {last : List Text} (script : Script [] blocks last) :
    scriptCalls blocks last = [] := by
  cases script with
  | last plain => rfl
  | copy split before plain statement copies white block close rest => simp [piecesNone] at split

theorem endSplit (text : Text) : statementPieces text =
    statementPieces text ++ (statementPieces (text.drop text.length)).map (Piece.shift text.length) := by
  simp [piecesNone]

theorem remainingEof {r : Reader} (drained : Drained r) (eof : r.eof = true) : r.remaining = r.pending := by
  simp [Reader.remaining, eof, drained eof]

theorem endCut (buffer : Text) : (drain buffer .semicolon .postgres true).cut = buffer.length := by
  simp only [drain]
  split <;> rfl

theorem consumeAll (text : Text) : consume (text.length : Int) text = [] := by
  rw [consume]
  split
  · exact List.length_eq_zero_iff.mp (by omega)
  · simp

theorem endRoutes {s : RunState} {blocks : List CopyBlock} {last : List Text} (ready : Ready s blocks last)
    (tidy : TidyScript executor opts blocks last) (eof : s.reader.eof = true) :
    TurnRoutes executor opts s blocks last
      (walkedTurn executor opts s (drain s.reader.pending s.delimiter .postgres true)) := by
  obtain ⟨f, reads, taken⟩ := drainTaken s.reader.pending true
  have whole := remainingEof ready.drained eof
  rw [ready.mark]
  rw [if_pos rfl, ← whole] at taken
  rcases @scriptSplit executor opts _ _ _ _ _ (endSplit s.reader.remaining) ready.script with
    ⟨⟨here⟩⟩ | ⟨blocks', last', rest, calls, still⟩
  · refine hereRoutes here ready tidy (fun p inside => pieceMark rfl inside) ?_ reads (whole ▸ taken)
    intro p inside trail gap block white known behind
    have size := congrArg List.length behind
    simp only [whole, List.length_drop, List.length_append, List.length_cons] at size
    omega
  · rw [List.drop_length] at rest
    rw [scriptEnd rest, List.append_nil] at calls
    rcases @walkThrough executor opts _ (mapPlain reads (still tidy).2) with through | ⟨made, threw, front⟩
    · have gone : trim ([] : Text) = [] := trimByNil
      rw [whole] at taken through calls
      rw [walkedTurn, taken, through, mapTexts reads]
      simp only [endCut, consumeAll, gone, eof, Bool.true_and, decide_true, if_true]
      exact calls.symm
    · rw [whole] at taken threw front calls
      rw [walkedTurn, taken, threw, TurnRoutes, calls, ← mapTexts reads]
      exact front

theorem heldCut {r : Reader} (more : r.eof = false) {ps : List Piece} {p : Piece} (parsed : statementPieces r.pending = ps ++ [p])
    (some : ps ≠ []) : r.remaining = r.pending ++ (r.chunks.flatten ++ r.ending) ∧
      Cut (rulesOf .postgres) r.pending (r.chunks.flatten ++ r.ending) p ∧ p.delimiter = .semicolon ∧
      pieces (rulesOf .postgres) .semicolon r.remaining =
        ps ++ (pieces (rulesOf .postgres) .semicolon (r.remaining.drop p.start)).map (Piece.shift p.start) := by
  have ahead : r.remaining = r.pending ++ (r.chunks.flatten ++ r.ending) := by simp [Reader.remaining, more]
  obtain ⟨cut, split⟩ := @cutHere _ (rulesCoherent .postgres) .semicolon r.pending (r.chunks.flatten ++ r.ending) ps p
    (fun _ => rfl) parsed some (hazardsOff rfl _)
  have mark : p.delimiter = .semicolon := cut.mark rfl
  have behind : r.remaining.drop p.start = r.pending.drop p.start ++ (r.chunks.flatten ++ r.ending) := by
    rw [ahead, List.drop_append_of_le_length cut.inside.le]
  rw [mark, ← ahead, ← behind] at split
  exact ⟨ahead, cut, mark, split⟩

theorem heldRoutes {s : RunState} {blocks : List CopyBlock} {last : List Text} (ready : Ready s blocks last)
    (tidy : TidyScript executor opts blocks last) (more : s.reader.eof = false) {ps : List Piece} {p : Piece}
    (parsed : statementPieces s.reader.pending = ps ++ [p]) (some : ps ≠ []) :
    TurnRoutes executor opts s blocks last
      (walkedTurn executor opts s (drain s.reader.pending s.delimiter .postgres false)) := by
  obtain ⟨f, reads, taken⟩ := drainTaken s.reader.pending false
  rw [if_neg Bool.false_ne_true, parsed, List.dropLast_concat] at taken
  obtain ⟨ahead, cut, mark, split⟩ := heldCut more parsed some
  have short := cut.inside
  rw [ready.mark]
  rcases @scriptSplit executor opts _ _ _ _ _ split ready.script with ⟨⟨here⟩⟩ | ⟨blocks', last', rest, calls, still⟩
  · refine hereRoutes here ready tidy (fun q inside => pieceMark rfl (parsed ▸ List.mem_append_left [p] inside)) ?_
      reads taken
    exact fun q inside trail gap block white known behind => copyHeld parsed inside white known behind
  · obtain ⟨tidy', plain⟩ := still tidy
    obtain ⟨-, cutAt, delimiter⟩ := drainHeld (carriedSemicolon .postgres) parsed
    rcases @walkThrough executor opts _ (mapPlain reads plain) with through | ⟨made, threw, front⟩
    · rw [mapTexts reads] at through
      have next := @dropFollows s.reader ready.drained p.start short.le
      rw [more] at next
      have consumed : consume (p.start : Int) s.reader.pending = s.reader.pending.drop p.start := by
        rw [consume, if_neg (by have positive := cut.positive; omega), Int.toNat_natCast]
      rw [walkedTurn, taken, through]
      simp only [cutAt, delimiter, consumed, more, Bool.false_and, Bool.false_eq_true, if_false]
      refine ⟨blocks', last', tidy', ⟨by rw [next.remaining]; exact rest, mark, next.drained⟩, ?_, calls⟩
      have positive := cut.positive
      have fills := next.fills
      simp only [runMeasure, next.remaining, List.length_drop]
      have long : s.reader.pending.length ≤ s.reader.remaining.length := by simp [ahead]
      omega
    · rw [mapTexts reads] at front
      rw [walkedTurn, taken, threw, TurnRoutes, calls]
      exact front.trans (List.prefix_append _ _)

end Turns

end DatabaseAdmin.DumpRunner
