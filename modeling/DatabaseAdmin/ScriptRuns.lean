import DatabaseAdmin.CopyRuns

/-! What a PostgreSQL script asks for as one text: its statements in order, a COPY with the lines of its
block. The runner does this whatever chunks the text comes in. -/
namespace DatabaseAdmin.DumpRunner
open CodeUnits ScanLoop

section Blocks

inductive Block : Text → List Text → Text → Prop where
  | empty : Block [] [] []
  | tail {t} (bare : newline ∉ t) (shown : t ≠ []) : Block t [t] []
  | mark {m rest} (ends : EndMark m) : Block (m ++ newline :: rest) [] rest
  | line {l rest lines after} (data : DataLine l) (more : Block rest lines after) :
      Block (l ++ newline :: rest) (lineEnded l :: lines) after

theorem blockSome (text : Text) : ∃ lines after, Block text lines after := by
  generalize size : text.length = n
  induction n using Nat.strongRecOn generalizing text with
  | ind n ih =>
    cases found : indexOf [newline] text with
    | none =>
      have bare := indexOfAbsent (c := newline) found
      cases text with
      | nil => exact ⟨[], [], .empty⟩
      | cons c text => exact ⟨[c :: text], [], .tail bare (by simp)⟩
    | some k =>
      obtain ⟨bare, split⟩ := indexOfUnit (c := newline) found
      have whole := congrArg List.length split
      simp only [List.length_append, List.length_cons] at whole
      rw [split]
      by_cases ends : chomp (text.take k) = copyTerminator
      · exact ⟨[], _, .mark ⟨bare, ends⟩⟩
      · obtain ⟨lines, after, more⟩ := ih _ (by omega) (text.drop (k + 1)) rfl
        exact ⟨_, after, .line ⟨bare, ends⟩ more⟩

theorem lastLineReads {r : Reader} (drained : Drained r) (bare : newline ∉ r.remaining) :
    ∃ r', nextLine r = (if r.remaining = [] then none else some r.remaining, r') ∧ Follows r r' [] := by
  induction r using nextLine.induct with
  | case1 r nl found _ =>
    obtain ⟨-, split⟩ := indexOfUnit (c := newline) found
    exact absurd (by rw [Reader.remaining, split]; simp) bare
  | case2 r nl found _ =>
    obtain ⟨-, split⟩ := indexOfUnit (c := newline) found
    exact absurd (by rw [Reader.remaining, split]; simp) bare
  | case3 r none more ih =>
    have filled := fillFollows more
    obtain ⟨r', read, next⟩ := ih filled.drained (by rwa [filled.remaining])
    rw [filled.remaining] at read
    refine ⟨r', ?_, followsTrans filled next⟩
    rw [nextLine, none]
    simp only [dif_pos more, read]
  | case4 r none eof empty =>
    have whole := remainingEof drained (by simpa using eof)
    refine ⟨r, ?_, by rw [whole, empty], drained, le_refl _⟩
    rw [nextLine, none, whole]
    simp only [dif_neg eof, if_pos empty]
  | case5 r none eof some =>
    have ended : r.eof = true := by simpa using eof
    have whole := remainingEof drained ended
    refine ⟨{ r with pending := [] }, ?_, by simp [Reader.remaining, ended, drained ended], drained, le_refl _⟩
    rw [nextLine, none, whole]
    simp only [dif_neg eof, if_neg some]

theorem pullBlockLines (n : Nat) : ∀ {r : Reader} {lines : List Text} {after : Text}, Drained r →
    Block r.remaining lines after → ∃ r', pull n r = (lines.take n, r', decide (lines.length < n)) ∧ Follows r r' r'.remaining ∧
      if lines.length < n then r'.remaining = after else Block r'.remaining (lines.drop n) after := by
  induction n with
  | zero => exact fun drained block => ⟨_, by simp [pull], ⟨rfl, drained, le_refl _⟩, by simpa using block⟩
  | succ n ih =>
    intro r lines after drained block
    have ended {r' : Reader} (read : nextLine r = (none, r')) (next : Follows r r' after) : ∃ r'',
        pull (n + 1) r = (([] : List Text).take (n + 1), r'', decide (([] : List Text).length < n + 1)) ∧
          Follows r r'' r''.remaining ∧
          if ([] : List Text).length < n + 1 then r''.remaining = after else Block r''.remaining (([] : List Text).drop (n + 1)) after :=
      ⟨r', by simp [pull, read], next.remaining.symm ▸ next, by simpa using next.remaining⟩
    have more {line rest : Text} {lines : List Text} {r' : Reader} (read : nextLine r = (some line, r')) (next : Follows r r' rest)
        (tail : Block rest lines after) : ∃ r'',
        pull (n + 1) r = ((line :: lines).take (n + 1), r'', decide ((line :: lines).length < n + 1)) ∧
          Follows r r'' r''.remaining ∧
          if (line :: lines).length < n + 1 then r''.remaining = after else Block r''.remaining ((line :: lines).drop (n + 1)) after := by
      obtain ⟨r'', pulled, last, reached⟩ := ih next.drained (next.remaining ▸ tail)
      exact ⟨r'', by simp [pull, read, pulled], followsTrans next last, by simpa using reached⟩
    generalize ahead : r.remaining = text at block
    cases block with
    | empty =>
      obtain ⟨r', read, next⟩ := lastLineReads drained (by simp [ahead])
      rw [ahead, if_pos rfl] at read
      exact ended read next
    | tail bare shown =>
      obtain ⟨r', read, next⟩ := lastLineReads drained (by rwa [ahead])
      rw [ahead, if_neg shown] at read
      exact more read next .empty
    | mark ends =>
      obtain ⟨r', read, next⟩ := nextLineReads drained ends.bare ahead
      rw [if_pos ends.ends] at read
      exact ended read next
    | line data tail =>
      obtain ⟨r', read, next⟩ := nextLineReads drained data.bare ahead
      rw [if_neg data.data] at read
      exact more read next tail

theorem blockFew {text : Text} {lines : List Text} {after : Text} (block : Block text lines after) : lines.length ≤ text.length := by
  induction block with
  | empty => exact le_refl _
  | tail bare shown => exact List.length_pos_iff.mpr shown
  | mark ends => exact Nat.zero_le _
  | line data more ih =>
    simp only [List.length_cons, List.length_append]
    omega

theorem pullWhole {r : Reader} {lines : List Text} {after : Text} (drained : Drained r) (block : Block r.remaining lines after) :
    ∃ r', pullBlock r = (lines, r', true) ∧ Follows r r' after := by
  have few : lines.length < r.remaining.length + 1 := Nat.lt_succ_of_le (blockFew block)
  obtain ⟨r', pulled, next, reached⟩ := pullBlockLines (r.remaining.length + 1) drained block
  rw [if_pos few] at reached
  refine ⟨r', ?_, reached ▸ next⟩
  rw [pullBlock, pulled, List.take_of_length_le few.le, decide_eq_true few]

theorem consumeReads {r : Reader} {lines : List Text} {after : Text} (drained : Drained r) (block : Block r.remaining lines after)
    {executor : ScriptExecutor} {sql : Text} (takes : executor.copyThrows sql lines = false) :
    ∃ r', consumeCopyBlock executor sql r = ⟨lines, r', false⟩ ∧ Follows r r' after := by
  obtain ⟨_, whole, -⟩ := pullWhole drained block
  obtain ⟨r', pulled, next, reached⟩ := pullBlockLines (executor.asks sql lines) drained block
  simp only [consumeCopyBlock, whole, pulled, takes]
  by_cases asked : lines.length < executor.asks sql lines
  · rw [if_pos asked] at reached
    exact ⟨r', by simp [asked], reached ▸ next⟩
  · rw [if_neg asked] at reached
    obtain ⟨r'', rest, last⟩ := pullWhole next.drained reached
    exact ⟨r'', by simp [asked, rest], followsTrans next last⟩

theorem consumeFails {r : Reader} {lines : List Text} {after : Text} (drained : Drained r) (block : Block r.remaining lines after)
    {executor : ScriptExecutor} {sql : Text} (throws : executor.copyThrows sql lines = true) :
    ∃ r', consumeCopyBlock executor sql r = ⟨lines, r', true⟩ := by
  obtain ⟨_, whole, -⟩ := pullWhole drained block
  refine ⟨(pull (executor.asks sql lines) r).2.1, ?_⟩
  simp only [consumeCopyBlock, whole, throws, if_true]

theorem blockBehind {text : Text} {lines : List Text} {after : Text} (block : Block text lines after) : after <:+ text := by
  induction block with
  | empty => exact List.suffix_rfl
  | tail => exact List.nil_suffix
  | mark => exact (List.suffix_cons _ _).trans (List.suffix_append _ _)
  | line _ _ ih => exact ih.trans ((List.suffix_cons _ _).trans (List.suffix_append _ _))

end Blocks

section Walks
variable (executor : ScriptExecutor) (opts : RunScriptOptions)

def placed (text : Text) (p : Piece) : Text × Int := (p.text, afterTerminatorOf text p.delimiter p.stop)

def walkPlaced : List (Text × Int) → Walked
  | [] => .through []
  | (sql, offset) :: rest =>
      if startsWith (units "\\") sql then walkPlaced rest
      else if reCopyStdin sql then .copy [] sql offset
      else if executor.refuses sql && !opts.continueOnError then .threw [.exec sql]
      else (walkPlaced rest).after (.exec sql)

theorem walkPlacedOf (stmts : List ParsedStatement) :
    walkStatements executor opts stmts = walkPlaced executor opts (stmts.map fun s => (s.text, s.afterTerminator)) := by
  induction stmts with
  | nil => rfl
  | cons s stmts ih => simp only [walkStatements, List.map_cons, walkPlaced, ih]

def Walked.andThen : Walked → Walked → Walked
  | .through calls, w => calls.foldr Walked.after w
  | .copy calls sql offset, _ => .copy calls sql offset
  | .threw calls, _ => .threw calls

def Walked.moved (n : Nat) : Walked → Walked
  | .through calls => .through calls
  | .copy calls sql offset => .copy calls sql (offset + n)
  | .threw calls => .threw calls

inductive Executes : Text → ScriptRun → Prop where
  | through {text calls} (walk : walkPlaced executor opts ((statementPieces text).map (placed text)) = .through calls) :
      Executes text ⟨calls, false⟩
  | threw {text calls} (walk : walkPlaced executor opts ((statementPieces text).map (placed text)) = .threw calls) :
      Executes text ⟨calls, true⟩
  | copied {text calls sql offset lines after run}
      (walk : walkPlaced executor opts ((statementPieces text).map (placed text)) = .copy calls sql offset)
      (block : Block (pastLineBreak (consume offset text)) lines after) (takes : executor.copyThrows sql lines = false)
      (rest : Executes after run) : Executes text ⟨calls ++ .copyIn sql lines :: run.calls, run.threw⟩
  | failed {text calls sql offset lines after}
      (walk : walkPlaced executor opts ((statementPieces text).map (placed text)) = .copy calls sql offset)
      (block : Block (pastLineBreak (consume offset text)) lines after) (throws : executor.copyThrows sql lines = true) :
      Executes text ⟨calls ++ [.copyIn sql lines], true⟩

def ScriptRun.followed (first last : ScriptRun) : ScriptRun :=
  if first.threw then first else ⟨first.calls ++ last.calls, last.threw⟩

variable {executor opts}

theorem afterAndThen (call : Call) (w more : Walked) : (w.after call).andThen more = (w.andThen more).after call := by
  cases w <;> rfl

theorem walkAppend (first last : List (Text × Int)) :
    walkPlaced executor opts (first ++ last) = (walkPlaced executor opts first).andThen (walkPlaced executor opts last) := by
  induction first with
  | nil => rfl
  | cons s first ih =>
    obtain ⟨sql, offset⟩ := s
    simp only [List.cons_append, walkPlaced]
    split
    · exact ih
    split
    · rfl
    split
    · rfl
    · rw [ih, afterAndThen]

theorem walkMoved (n : Nat) (stmts : List (Text × Int)) :
    walkPlaced executor opts (stmts.map fun s => (s.1, s.2 + n)) = (walkPlaced executor opts stmts).moved n := by
  induction stmts with
  | nil => rfl
  | cons s stmts ih =>
    obtain ⟨sql, offset⟩ := s
    simp only [List.map_cons, walkPlaced, ih]
    split
    · rfl
    split
    · rfl
    split
    · rfl
    · cases walkPlaced executor opts stmts <;> rfl

theorem walkCopied {stmts : List (Text × Int)} {calls : List Call} {sql : Text} {offset : Int}
    (walk : walkPlaced executor opts stmts = .copy calls sql offset) : (sql, offset) ∈ stmts ∧ reCopyStdin sql = true := by
  induction stmts generalizing calls with
  | nil => cases walk
  | cons s stmts ih =>
    obtain ⟨t, place⟩ := s
    simp only [walkPlaced] at walk
    split at walk
    · exact ⟨List.mem_cons_of_mem _ (ih walk).1, (ih walk).2⟩
    split at walk
    · rename_i copies
      cases walk
      exact ⟨List.mem_cons_self, copies⟩
    split at walk
    · cases walk
    · cases rest : walkPlaced executor opts stmts with
      | through => simp [rest, Walked.after] at walk
      | threw => simp [rest, Walked.after] at walk
      | copy =>
        rw [rest] at walk ih
        cases walk
        exact ⟨List.mem_cons_of_mem _ (ih rfl).1, (ih rfl).2⟩

theorem placedHere {text trail behind : Text} {p : Piece} (mark : p.delimiter = .semicolon)
    (white : ∀ c ∈ trail, isSpace c = true) (split : text.drop p.stop = trail ++ (';' : CodeUnit) :: behind) :
    placed text p = (p.text, ((p.stop + trail.length + 1 : Nat) : Int)) := by
  have found : indexOf Delimiter.semicolon.text (text.drop p.stop) = some trail.length := by
    rw [split]
    exact indexOfStop (spacesAlone white) _
  have one : Delimiter.semicolon.text.length = 1 := rfl
  rw [placed, mark, afterTerminatorOf, indexFrom, Int.toNat_natCast, found]
  simp only [Option.map_some, one, Prod.mk.injEq, true_and]
  push_cast
  omega

theorem placedMoved (text : Text) (n : Nat) (p : Piece) :
    placed text (p.shift n) = ((placed (text.drop n) p).1, (placed (text.drop n) p).2 + n) := by
  have start : ((p.stop + n : Nat) : Int).toNat = p.stop + n := rfl
  have there : ((p.stop : Nat) : Int).toNat = p.stop := rfl
  simp only [placed, Piece.shift, afterTerminatorOf, indexFrom, start, there, List.drop_drop, Nat.add_comm n]
  cases indexOf p.delimiter.text (text.drop (p.stop + n)) with
  | none => simp
  | some k =>
    simp only [Option.map_some, Prod.mk.injEq, true_and]
    push_cast
    omega

theorem walkSplit {text : Text} {n : Nat} {ps : List Piece}
    (split : statementPieces text = ps ++ (statementPieces (text.drop n)).map (Piece.shift n)) :
    walkPlaced executor opts ((statementPieces text).map (placed text)) =
      (walkPlaced executor opts (ps.map (placed text))).andThen
        ((walkPlaced executor opts ((statementPieces (text.drop n)).map (placed (text.drop n)))).moved n) := by
  rw [split, List.map_append, walkAppend, List.map_map, ← walkMoved, List.map_map]
  congr 2
  exact List.map_congr_left fun p _ => placedMoved text n p

end Walks

section Asked
variable {executor : ScriptExecutor} {opts : RunScriptOptions}

theorem foldThrough (calls more : List Call) : Walked.andThen (.through calls) (.through more) = .through (calls ++ more) :=
  afterThrough calls more

theorem foldThrew (calls more : List Call) : Walked.andThen (.through calls) (.threw more) = .threw (calls ++ more) := by
  induction calls with
  | nil => rfl
  | cons call calls ih =>
    have step : Walked.andThen (.through (call :: calls)) (.threw more) =
        (Walked.andThen (.through calls) (.threw more)).after call := rfl
    rw [step, ih]
    rfl

theorem foldCopy (calls more : List Call) (sql : Text) (offset : Int) :
    Walked.andThen (.through calls) (.copy more sql offset) = .copy (calls ++ more) sql offset := afterCopy calls more sql offset

theorem placedBehind {text : Text} {s : Text × Int} (member : s ∈ (statementPieces text).map (placed text)) : 0 < s.2 := by
  obtain ⟨p, inside, rfl⟩ := List.mem_map.mp member
  obtain ⟨-, c, -, -, -, out, -⟩ := @pieceOrigin postgres (fun _ => True) _ _ inside trivial (fun _ _ _ _ => trivial)
  obtain ⟨-, some, -, -, stop, -⟩ := flushMember out
  have long := List.length_pos_iff.mpr some
  simp only [placed, afterTerminatorOf]
  split
  · omega
  · rename_i n found
    obtain ⟨k, -, rfl⟩ := Option.map_eq_some_iff.mp found
    have there : ((p.stop : Nat) : Int).toNat = p.stop := rfl
    omega

theorem pastBreakBehind (text : Text) : pastLineBreak text <:+ text := by
  unfold pastLineBreak
  split
  · exact List.drop_suffix _ _
  split
  · exact List.drop_suffix _ _
  · exact List.suffix_rfl

theorem consumeBehind (offset : Int) (text : Text) : pastLineBreak (consume offset text) <:+ text := by
  refine (pastBreakBehind _).trans ?_
  unfold consume
  split
  · exact List.suffix_rfl
  · exact List.drop_suffix _ _

theorem afterShorter {text : Text} {calls : List Call} {sql : Text} {offset : Int} {lines : List Text} {after : Text}
    (walk : walkPlaced executor opts ((statementPieces text).map (placed text)) = .copy calls sql offset)
    (block : Block (pastLineBreak (consume offset text)) lines after) : after.length < text.length := by
  have member := (walkCopied walk).1
  have behind := placedBehind member
  have some : 0 < text.length := by
    obtain ⟨p, inside, -⟩ := List.mem_map.mp member
    cases text with
    | nil => simp [piecesNone] at inside
    | cons c text => simp
  have short := (blockBehind block).length_le
  have past := (pastBreakBehind (consume offset text)).length_le
  simp only [consume, if_neg (show ¬ offset ≤ 0 by omega), List.length_drop] at short past
  omega

theorem executesSome (text : Text) : ∃ run, Executes executor opts text run := by
  generalize size : text.length = n
  induction n using Nat.strongRecOn generalizing text with
  | ind n ih =>
    cases walk : walkPlaced executor opts ((statementPieces text).map (placed text)) with
    | through calls => exact ⟨_, .through walk⟩
    | threw calls => exact ⟨_, .threw walk⟩
    | copy calls sql offset =>
      obtain ⟨lines, after, block⟩ := blockSome (pastLineBreak (consume offset text))
      cases throws : executor.copyThrows sql lines with
      | true => exact ⟨_, .failed walk block throws⟩
      | false =>
        obtain ⟨run, rest⟩ := ih after.length (size ▸ afterShorter walk block) after rfl
        exact ⟨_, .copied walk block throws rest⟩

theorem consumeMoved {text : Text} {n : Nat} {offset : Int} (positive : 0 < offset) :
    consume (offset + n) text = consume offset (text.drop n) := by
  rw [consume, consume, if_neg (by omega), if_neg (by omega), List.drop_drop]
  congr 1
  omega

theorem executesPass {text : Text} {n : Nat} {ps : List Piece} {calls : List Call}
    (split : statementPieces text = ps ++ (statementPieces (text.drop n)).map (Piece.shift n))
    (through : walkPlaced executor opts (ps.map (placed text)) = .through calls) {run : ScriptRun}
    (rest : Executes executor opts (text.drop n) run) : Executes executor opts text ⟨calls ++ run.calls, run.threw⟩ := by
  have walk := @walkSplit executor opts _ _ _ split
  rw [through] at walk
  cases rest with
  | through there =>
    rw [there, Walked.moved, foldThrough] at walk
    exact .through walk
  | threw there =>
    rw [there, Walked.moved, foldThrew] at walk
    exact .threw walk
  | copied there block takes more =>
    rw [there, Walked.moved, foldCopy] at walk
    rw [← consumeMoved (placedBehind (walkCopied there).1)] at block
    have whole := Executes.copied walk block takes more
    rwa [List.append_assoc] at whole
  | failed there block throws =>
    rw [there, Walked.moved, foldCopy] at walk
    rw [← consumeMoved (placedBehind (walkCopied there).1)] at block
    have whole := Executes.failed walk block throws
    rwa [List.append_assoc] at whole

theorem executesDrop {text : Text} {n : Nat} {ps : List Piece} {calls : List Call}
    (split : statementPieces text = ps ++ (statementPieces (text.drop n)).map (Piece.shift n))
    (through : walkPlaced executor opts (ps.map (placed text)) = .through calls) {run : ScriptRun}
    (whole : Executes executor opts text run) :
    ∃ rest, Executes executor opts (text.drop n) rest ∧ run = ⟨calls ++ rest.calls, rest.threw⟩ := by
  have walk := @walkSplit executor opts _ _ _ split
  rw [through] at walk
  cases there : walkPlaced executor opts ((statementPieces (text.drop n)).map (placed (text.drop n))) with
  | through more =>
    rw [there, Walked.moved, foldThrough] at walk
    cases whole with
    | through here =>
      rw [walk] at here
      cases here
      exact ⟨_, .through there, rfl⟩
    | threw here => simp [walk] at here
    | copied here => simp [walk] at here
    | failed here => simp [walk] at here
  | threw more =>
    rw [there, Walked.moved, foldThrew] at walk
    cases whole with
    | through here => simp [walk] at here
    | threw here =>
      rw [walk] at here
      cases here
      exact ⟨_, .threw there, rfl⟩
    | copied here => simp [walk] at here
    | failed here => simp [walk] at here
  | copy more sql offset =>
    rw [there, Walked.moved, foldCopy] at walk
    cases whole with
    | through here => simp [walk] at here
    | threw here => simp [walk] at here
    | copied here block takes rest =>
      rw [walk] at here
      cases here
      rw [consumeMoved (placedBehind (walkCopied there).1)] at block
      exact ⟨_, .copied there block takes rest, by simp⟩
    | failed here block throws =>
      rw [walk] at here
      cases here
      rw [consumeMoved (placedBehind (walkCopied there).1)] at block
      exact ⟨_, .failed there block throws, by simp⟩

end Asked

section Chunks
variable {executor : ScriptExecutor} {opts : RunScriptOptions}

def CopiesStop (executor : ScriptExecutor) (opts : RunScriptOptions) : Prop :=
  ∀ sql lines, executor.copyThrows sql lines = true → opts.continueOnError = false

def TooLong (opts : RunScriptOptions) (text : Text) : Prop :=
  ∃ held, held <:+: text ∧ (drain held .semicolon .postgres false).statements = [] ∧ opts.maxStatementBytes < opts.byteLength held

theorem TooLong.within {text rest : Text} (long : TooLong opts rest) (behind : rest <:+ text) : TooLong opts text := by
  obtain ⟨held, inside, facts⟩ := long
  exact ⟨held, inside.trans behind.isInfix, facts⟩

structure Follow (opts : RunScriptOptions) (text : Text) (run whole : ScriptRun) : Prop where
  front : run.calls <+: whole.calls
  same : run = whole ∨ run.threw = true ∧ TooLong opts text

def TurnFollows (executor : ScriptExecutor) (opts : RunScriptOptions) (s : RunState) (whole : ScriptRun) : RunTurn → Prop
  | .stop calls => whole = ⟨calls, false⟩
  | .threw calls => whole = ⟨calls, true⟩ ∨ calls = [] ∧ TooLong opts s.reader.remaining
  | .next s' calls => ∃ rest, Executes executor opts s'.reader.remaining rest ∧ whole = ⟨calls ++ rest.calls, rest.threw⟩ ∧
      s'.delimiter = .semicolon ∧ Drained s'.reader ∧ s'.reader.remaining <:+ s.reader.remaining ∧ runMeasure s' < runMeasure s

theorem fillFollow {s : RunState} {whole : ScriptRun} (asked : Executes executor opts s.reader.remaining whole)
    (mark : s.delimiter = .semicolon) (more : s.reader.eof = false) (parseAt : Nat) :
    TurnFollows executor opts s whole (.next ⟨s.reader.fill, s.delimiter, parseAt⟩ []) := by
  have filled := fillFollows more
  have less := fillsLess more
  refine ⟨whole, by rwa [filled.remaining], rfl, mark, filled.drained, filled.remaining ▸ List.suffix_rfl, ?_⟩
  simp only [runMeasure, filled.remaining]
  omega

theorem pastBreakAppend {text : Text} (some : text ≠ []) (open' : text ≠ [13]) (more : Text) :
    pastLineBreak (text ++ more) = pastLineBreak text ++ more := by
  match text, some, open' with
  | [c], _, open' =>
    have other : ¬13 = c := fun same => open' (by rw [← same])
    by_cases line : 10 = c
    · subst line
      rfl
    · simp [pastLineBreak, startsWith, units, line, other]
  | c :: d :: text, _, _ =>
    by_cases line : 10 = c
    · subst line
      rfl
    · by_cases both : 13 = c ∧ 10 = d
      · obtain ⟨rfl, rfl⟩ := both
        rfl
      · simp [pastLineBreak, startsWith, units, line, both]

theorem copyFollow {s : RunState} {whole : ScriptRun} (asked : Executes executor opts s.reader.remaining whole)
    (mark : s.delimiter = .semicolon) (drained : Drained s.reader)
    (stops : CopiesStop executor opts)
    {calls : List Call} {sql : Text} {offset : Int}
    (walk : walkPlaced executor opts ((statementPieces s.reader.remaining).map (placed s.reader.remaining)) = .copy calls sql offset)
    (held : s.reader.pending.drop offset.toNat ≠ [] ∧ s.reader.pending.drop offset.toNat ≠ [13] ∨
      s.reader.pending = s.reader.remaining) :
    TurnFollows executor opts s whole (copyTurn executor opts s calls sql offset) := by
  have positive := placedBehind (walkCopied walk).1
  have moved : Follows s.reader { s.reader with pending := pastLineBreak (consume offset s.reader.pending) }
      (pastLineBreak (consume offset s.reader.remaining)) := by
    refine ⟨?_, drained, le_refl _⟩
    rcases held with ⟨some, open'⟩ | ended
    · have inside : offset.toNat ≤ s.reader.pending.length := by
        by_contra beyond
        exact some (List.drop_eq_nil_of_le (not_le.mp beyond).le)
      have apart := pastBreakAppend some open' (s.reader.chunks.flatten ++ if s.reader.eof then [] else s.reader.ending)
      simp only [consume, if_neg (show ¬ offset ≤ 0 by omega), Reader.remaining, List.drop_append_of_le_length inside]
      exact apart.symm
    · have none : s.reader.chunks.flatten ++ (if s.reader.eof then [] else s.reader.ending) = [] := by
        simpa [Reader.remaining] using ended
      rw [← ended]
      simp [Reader.remaining, none]
  cases asked with
  | through here => simp [walk] at here
  | threw here => simp [walk] at here
  | copied here block takes rest =>
    rw [walk] at here
    cases here
    obtain ⟨r, taken, next⟩ := consumeReads moved.drained (moved.remaining ▸ block) takes
    have fills := (followsTrans moved next).fills
    have shorter := afterShorter walk block
    have behind := (blockBehind block).trans (consumeBehind _ _)
    simp only [copyTurn, taken, Bool.false_and, Bool.false_eq_true, if_false]
    refine ⟨_, next.remaining ▸ rest, by simp, mark, next.drained, next.remaining ▸ behind, ?_⟩
    simp only [runMeasure, next.remaining]
    omega
  | failed here block throws =>
    rw [walk] at here
    cases here
    obtain ⟨r, taken⟩ := consumeFails moved.drained (moved.remaining ▸ block) throws
    simp only [copyTurn, taken, stops _ _ throws, Bool.not_false, Bool.and_self, if_true]
    exact Or.inl rfl

theorem seenDrained {f : Piece → ParsedStatement} {text : Text}
    (reads : ∀ p, (f p).text = p.text ∧ (f p).afterTerminator = afterTerminatorOf text p.delimiter p.stop) (ps : List Piece) :
    walkStatements executor opts (ps.map f) = walkPlaced executor opts (ps.map (placed text)) := by
  rw [walkPlacedOf, List.map_map]
  congr 1
  exact List.map_congr_left fun p _ => Prod.ext (reads p).1 (reads p).2

theorem endFollow {s : RunState} {whole : ScriptRun} (asked : Executes executor opts s.reader.remaining whole)
    (mark : s.delimiter = .semicolon) (drained : Drained s.reader) (stops : CopiesStop executor opts)
    (eof : s.reader.eof = true) :
    TurnFollows executor opts s whole (walkedTurn executor opts s (drain s.reader.pending s.delimiter .postgres true)) := by
  obtain ⟨f, reads, taken⟩ := drainTaken s.reader.pending true
  have ended := remainingEof drained eof
  rw [if_pos rfl, ← ended] at taken
  have walked := @seenDrained executor opts f s.reader.remaining (by rwa [ended]) (statementPieces s.reader.remaining)
  rw [mark, walkedTurn, ← ended, taken, walked]
  cases walk : walkPlaced executor opts ((statementPieces s.reader.remaining).map (placed s.reader.remaining)) with
  | through calls =>
    have gone : trim ([] : Text) = [] := trimByNil
    simp only [endCut, consumeAll, gone, eof, Bool.true_and, decide_true, if_true]
    cases asked with
    | through here =>
      rw [walk] at here
      cases here
      rfl
    | threw here => simp [walk] at here
    | copied here => simp [walk] at here
    | failed here => simp [walk] at here
  | threw calls =>
    cases asked with
    | through here => simp [walk] at here
    | threw here =>
      rw [walk] at here
      cases here
      exact Or.inl rfl
    | copied here => simp [walk] at here
    | failed here => simp [walk] at here
  | copy calls sql offset => exact copyFollow asked mark drained stops walk (Or.inr ended.symm)

theorem heldFollow {s : RunState} {whole : ScriptRun} (asked : Executes executor opts s.reader.remaining whole)
    (mark : s.delimiter = .semicolon) (drained : Drained s.reader) (stops : CopiesStop executor opts)
    (more : s.reader.eof = false) {ps : List Piece} {last : Piece} (parsed : statementPieces s.reader.pending = ps ++ [last])
    (shown : ps ≠ []) :
    TurnFollows executor opts s whole (walkedTurn executor opts s (drain s.reader.pending s.delimiter .postgres false)) := by
  obtain ⟨f, reads, taken⟩ := drainTaken s.reader.pending false
  rw [if_neg Bool.false_ne_true, parsed, List.dropLast_concat] at taken
  obtain ⟨ahead, cut, lastMark, split⟩ := heldCut more parsed shown
  have short := cut.inside
  obtain ⟨⟨d, tail, head, ink⟩, before⟩ := heldBehind rfl parsed
  have offsets : ∀ p ∈ ps, ∃ n : Nat, 0 < n ∧ n ≤ last.start ∧ placed s.reader.pending p = (p.text, (n : Int)) ∧
      placed s.reader.remaining p = (p.text, (n : Int)) := by
    intro p inside
    obtain ⟨trail, rest, white, there, order⟩ := before p inside
    have semicolon : p.delimiter = .semicolon := pieceMark rfl (parsed ▸ List.mem_append_left [last] inside)
    refine ⟨p.stop + trail.length + 1, by omega, order, placedHere semicolon white there, ?_⟩
    have stop : p.stop ≤ s.reader.pending.length := by omega
    refine @placedHere _ _ (rest ++ (s.reader.chunks.flatten ++ s.reader.ending)) _ semicolon white ?_
    rw [ahead, List.drop_append_of_le_length stop, there]
    simp
  have seen : ps.map (placed s.reader.pending) = ps.map (placed s.reader.remaining) :=
    List.map_congr_left fun p inside => by
      obtain ⟨n, -, -, first, second⟩ := offsets p inside
      rw [first, second]
  have walked := @seenDrained executor opts f s.reader.pending reads ps
  rw [seen] at walked
  have walkWhole := @walkSplit executor opts _ _ _ split
  rw [mark, walkedTurn, taken, walked]
  cases walk : walkPlaced executor opts (ps.map (placed s.reader.remaining)) with
  | through calls =>
    obtain ⟨rest, later, same⟩ := executesDrop split walk asked
    obtain ⟨-, cutAt, delimiter⟩ := drainHeld (carriedSemicolon .postgres) parsed
    have consumed : consume (last.start : Int) s.reader.pending = s.reader.pending.drop last.start := by
      rw [consume, if_neg (by have positive := cut.positive; omega), Int.toNat_natCast]
    have next := @dropFollows s.reader drained last.start short.le
    rw [more] at next
    simp only [cutAt, delimiter, consumed, more, Bool.false_and, Bool.false_eq_true, if_false]
    refine ⟨rest, next.remaining ▸ later, same, lastMark, next.drained, next.remaining ▸ List.drop_suffix _ _, ?_⟩
    have positive := cut.positive
    have fills := next.fills
    have long : s.reader.pending.length ≤ s.reader.remaining.length := by simp [ahead]
    simp only [runMeasure, next.remaining, List.length_drop]
    omega
  | threw calls =>
    rw [walk] at walkWhole
    cases asked with
    | through here => simp [walkWhole, Walked.andThen] at here
    | threw here =>
      rw [walkWhole] at here
      cases here
      exact Or.inl rfl
    | copied here => simp [walkWhole, Walked.andThen] at here
    | failed here => simp [walkWhole, Walked.andThen] at here
  | copy calls sql offset =>
    rw [walk] at walkWhole
    obtain ⟨p, inside, place⟩ := List.mem_map.mp (walkCopied walk).1
    obtain ⟨n, positive, order, -, second⟩ := offsets p inside
    rw [second] at place
    obtain rfl : (n : Int) = offset := congrArg Prod.snd place
    refine copyFollow asked mark drained stops walkWhole (Or.inl ?_)
    rw [Int.toNat_natCast]
    have there : (s.reader.pending.drop n).drop (last.start - n) = d :: tail := by
      rw [List.drop_drop, Nat.add_sub_cancel' order, head]
    constructor
    · intro none
      simp [none] at there
    · intro one
      rw [one] at there
      cases gap : last.start - n with
      | zero =>
        rw [gap] at there
        cases there
        cases ink
      | succ k => simp [gap] at there

theorem turnFollow {s : RunState} {whole : ScriptRun} (asked : Executes executor opts s.reader.remaining whole)
    (mark : s.delimiter = .semicolon) (drained : Drained s.reader) (stops : CopiesStop executor opts) :
    TurnFollows executor opts s whole (runTurn .postgres executor opts s) := by
  unfold runTurn
  split
  · rename_i early
    simp only [Bool.and_eq_true, Bool.not_eq_true'] at early
    exact fillFollow asked mark early.1 s.parseAt
  · dsimp only
    split
    · rename_i none
      cases eof : s.reader.eof with
      | true =>
        rw [mark, eof] at none
        have empty := drainEmpty none
        rw [← remainingEof drained eof] at empty
        cases asked with
        | through walk =>
          rw [empty] at walk
          cases walk
          rfl
        | threw walk =>
          rw [empty] at walk
          cases walk
        | copied walk =>
          rw [empty] at walk
          cases walk
        | failed walk =>
          rw [empty] at walk
          cases walk
      | false =>
        simp only [Bool.false_eq_true, if_false]
        split
        · rename_i long
          rw [mark, eof] at none
          exact Or.inr ⟨rfl, _, (List.prefix_append _ _).isInfix, none, long⟩
        · exact fillFollow asked mark eof _
    · rename_i some
      cases eof : s.reader.eof with
      | true => exact @endFollow _ _ { s with parseAt := minParseChars } _ asked mark drained stops eof
      | false =>
        rw [mark, eof] at some
        obtain ⟨ps, p, parsed, held⟩ := drainSome some
        exact @heldFollow _ _ { s with parseAt := minParseChars } _ asked mark drained stops eof _ _ parsed held

theorem loopFollow {fuel : Nat} {s : RunState} {whole : ScriptRun} (asked : Executes executor opts s.reader.remaining whole)
    (mark : s.delimiter = .semicolon) (drained : Drained s.reader)
    (stops : CopiesStop executor opts)
    (less : runMeasure s < fuel) :
    ∃ run, runLoop .postgres executor opts fuel s = some run ∧ Follow opts s.reader.remaining run whole := by
  induction fuel generalizing s whole with
  | zero => exact absurd less (Nat.not_lt_zero _)
  | succ fuel ih =>
    have follows := turnFollow asked mark drained stops
    rw [runLoop]
    cases turn : runTurn .postgres executor opts s with
    | stop calls =>
      rw [turn] at follows
      subst follows
      exact ⟨_, rfl, List.prefix_rfl, Or.inl rfl⟩
    | threw calls =>
      rw [turn] at follows
      refine ⟨_, rfl, ?_⟩
      rcases follows with rfl | ⟨rfl, long⟩
      · exact ⟨List.prefix_rfl, Or.inl rfl⟩
      · exact ⟨List.nil_prefix, Or.inr ⟨rfl, long⟩⟩
    | next s' calls =>
      rw [turn] at follows
      obtain ⟨rest, later, rfl, mark', drained', behind, smaller⟩ := follows
      obtain ⟨run, went, follow⟩ := ih later mark' drained' (by omega)
      refine ⟨⟨calls ++ run.calls, run.threw⟩, by simp only [went, Option.map_some],
        (List.prefix_append_right_inj calls).mpr follow.front, ?_⟩
      rcases follow.same with rfl | ⟨threw, long⟩
      · exact Or.inl rfl
      · exact Or.inr ⟨threw, long.within behind⟩

structure Chunked (text : Text) where
  marked : Bool
  chunks : List Text
  ending : Text
  whole : chunks.flatten ++ ending = (if marked then [byteOrderMark] else []) ++ text

theorem runFollows {text : Text} (unmarked : text.head? ≠ some byteOrderMark) (file : Chunked text) {whole : ScriptRun}
    (stops : CopiesStop executor opts) (asked : Executes executor opts text whole) :
    ∃ fuel run, runSqlScript .postgres executor opts file.chunks file.ending fuel = some run ∧ Follow opts text run whole := by
  have opened : Drained ⟨[], false, file.chunks, file.ending⟩ := fun never => nomatch never
  obtain ⟨filled, some⟩ := fillFirstFollows opened
  have all : (Reader.mk [] false file.chunks file.ending).remaining = (if file.marked then [byteOrderMark] else []) ++ text := by
    simp [Reader.remaining, file.whole]
  rw [all] at filled
  have start := unmarkedFollows filled.drained some unmarked filled.remaining
  obtain ⟨run, went, follow⟩ := loopFollow (s := ⟨unmark (fillFirst ⟨[], false, file.chunks, file.ending⟩), .semicolon, minParseChars⟩)
    (start.remaining ▸ asked) rfl start.drained stops (Nat.lt_succ_self _)
  exact ⟨_, run, went, start.remaining ▸ follow⟩

end Chunks

end DatabaseAdmin.DumpRunner
