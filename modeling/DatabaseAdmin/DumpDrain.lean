import DatabaseAdmin.SplitCut

/-! The dump runner's incremental split. `drain` splits the buffer under a synthetic `DELIMITER`
line and holds back the last statement; the stream fills the buffer chunk by chunk. -/
namespace DatabaseAdmin
open CodeUnits ScanLoop

def minParseChars : Nat := 64 * 1024

structure ParsedStatement where
  text : Text
  line : Int
  start : Int
  afterTerminator : Int
  deriving DecidableEq

structure DrainResult where
  statements : List ParsedStatement
  cut : Int
  delimiter : Delimiter
  deriving DecidableEq

def indexFrom (pattern text : Text) (start : Int) : Option Nat :=
  (indexOf pattern (text.drop start.toNat)).map (· + start.toNat)

def sliceTo (stop : Int) (text : Text) : Text :=
  if 0 ≤ stop then text.take stop.toNat else text.take (text.length + stop).toNat

def sliceFrom (start : Int) (text : Text) : Text :=
  if 0 ≤ start then text.drop start.toNat else text.drop (text.length + start).toNat

def afterTerminatorOf (buffer : Text) (delimiter : Delimiter) (stop : Int) : Int :=
  match indexFrom delimiter.text buffer stop with
  | none => stop
  | some n => n + delimiter.text.length

def drainPrefix (delimiter : Delimiter) (dialect : SqlDialect) : Text :=
  if dialect = .mysql ∧ delimiter ≠ .semicolon then delimiterLine delimiter else []

def drain (buffer : Text) (delimiter : Delimiter) (dialect : SqlDialect) (atEof : Bool) :
    DrainResult :=
  let lead := drainPrefix delimiter dialect
  let parsed := splitStatements (lead ++ buffer) dialect
  let shift : Int := lead.length
  let leadLines : Int := if lead = [] then 0 else 1
  match parsed.getLast? with
  | none => ⟨[], if atEof then buffer.length else 0, delimiter⟩
  | some last =>
      let take := if atEof then parsed else parsed.dropLast
      ⟨take.map (fun s => ⟨s.text, s.line - leadLines, s.start - shift,
          afterTerminatorOf buffer s.delimiter (s.stop - shift)⟩),
        if atEof then buffer.length else last.start - shift,
        if atEof then delimiter else last.delimiter⟩

def countNewlines (text : Text) : Nat := text.count ('\n' : CodeUnit)

structure ScriptStatement where
  text : Text
  line : Int
  deriving DecidableEq

structure StreamState where
  pending : Text
  delimiter : Delimiter
  line : Int
  eof : Bool
  chunks : List Text
  deriving DecidableEq

inductive StreamTurn where
  | stop (out : List ScriptStatement)
  | next (state : StreamState) (out : List ScriptStatement)

def fillStream (ending : Text) (s : StreamState) : StreamState :=
  match s.chunks with
  | chunk :: chunks => { s with pending := s.pending ++ chunk, chunks := chunks }
  | [] => { s with pending := s.pending ++ ending, eof := true }

def drainStream (dialect : SqlDialect) (ending : Text) (s : StreamState) : StreamTurn :=
  let parsed := drain s.pending s.delimiter dialect s.eof
  if parsed.statements = [] then
    if s.eof then .stop [] else .next (fillStream ending s) []
  else
    let out := parsed.statements.map (fun p => ⟨p.text, s.line + p.line - 1⟩)
    let rest := sliceFrom parsed.cut s.pending
    let line := s.line + countNewlines (sliceTo parsed.cut s.pending)
    if s.eof && trim rest = [] then .stop out
    else .next { s with pending := rest, line := line, delimiter := parsed.delimiter } out

def streamTurn (dialect : SqlDialect) (ending : Text) (s : StreamState) : StreamTurn :=
  if !s.eof && decide (s.pending.length < minParseChars) then
    if s.chunks = [] then drainStream dialect ending (fillStream ending s)
    else .next (fillStream ending s) []
  else drainStream dialect ending s

def streamLoop (dialect : SqlDialect) (ending : Text) :
    Nat → StreamState → Option (List ScriptStatement)
  | 0, _ => none
  | fuel+1, s => match streamTurn dialect ending s with
    | .stop out => some out
    | .next s out => (streamLoop dialect ending fuel s).map (out ++ ·)

def streamScriptStatements (dialect : SqlDialect) (chunks : List Text) (ending : Text)
    (fuel : Nat) : Option (List ScriptStatement) :=
  streamLoop dialect ending fuel ⟨[], .semicolon, 1, false, chunks⟩

section Drain
variable {dialect : SqlDialect} {delimiter : Delimiter} {buffer : Text}

structure Carried (dialect : SqlDialect) (delimiter : Delimiter) : Prop where
  bare : (rulesOf dialect).delimiterCommand = true → stripQuotePair delimiter.text = delimiter.text
  mark : (rulesOf dialect).delimiterCommand = false → delimiter = .semicolon

theorem carriedSemicolon (dialect : SqlDialect) : Carried dialect .semicolon :=
  ⟨fun _ => by decide, fun _ => rfl⟩

theorem pieceShiftZero (ps : List Piece) : ps.map (Piece.shift 0) = ps := by
  rw [show Piece.shift 0 = id from rfl, List.map_id]

theorem drainPieces (carried : Carried dialect delimiter) (buffer : Text) :
    pieces (rulesOf dialect) .semicolon (drainPrefix delimiter dialect ++ buffer) =
      (pieces (rulesOf dialect) delimiter buffer).map
        (Piece.shift (drainPrefix delimiter dialect).length) := by
  unfold drainPrefix
  split
  · rename_i custom
    obtain ⟨rfl, _⟩ := custom
    have read := delimiterLineRead (carried.bare rfl) buffer
    obtain ⟨more, head⟩ : ∃ more, delimiterLine delimiter ++ buffer = 68 :: more := ⟨_, rfl⟩
    have move : splitMove (rulesOf .mysql) (fresh .semicolon 0) [] 68 more =
        .command ⟨delimiter, (delimiterLine delimiter).length⟩ := by
      rw [head] at read
      have command : commandAt (rulesOf .mysql) (fresh .semicolon 0) [] (68 :: more) =
          some ⟨delimiter, (delimiterLine delimiter).length⟩ := read
      have ink : isSpace 68 = false := rfl
      simp only [splitMove, ink, command, Bool.false_eq_true, if_false]
    have out : Config.out (splitStep (rulesOf .mysql)) ⟨fresh .semicolon 0, [], 68 :: more⟩ = [] := by
      simp only [Config.out, splitStep, move]
    have next : Config.next (splitStep (rulesOf .mysql)) ⟨fresh .semicolon 0, [], 68 :: more⟩ =
        ⟨fresh delimiter (delimiterLine delimiter).length, (delimiterLine delimiter).reverse,
          buffer⟩ := by
      simp only [Config.next, splitStep, move, ← head, List.take_left, List.drop_left,
        List.append_nil, List.length_nil, Nat.zero_add]
      rfl
    have alike : Alike (rulesOf .mysql) (delimiterLine delimiter).length
        ⟨fresh delimiter (delimiterLine delimiter).length, (delimiterLine delimiter).reverse, buffer⟩
        ⟨fresh delimiter 0, [], buffer⟩ := by
      refine ⟨rfl, rfl, rfl, by simp, ⟨by simp [Within, fresh], Nat.zero_le _⟩,
        ⟨[], by simp, by simp [chunkOf, fresh], Nat.zero_le _⟩, (fun on => by cases on),
        fun _ => Or.inl ?_⟩
      simp only [delimiterLine, List.reverse_append]
      rfl
    rw [pieces, head, runAtNext (splitProgress _) flush (by simp), out, next, List.nil_append]
    exact alikeRun _ alike
  · rename_i plain
    have same : delimiter = .semicolon := by
      cases dialect with
      | mysql => simpa using plain
      | postgres => exact carried.mark rfl
      | sqlite => exact carried.mark rfl
    rw [same, List.nil_append, List.length_nil, pieceShiftZero]

theorem drainNone (carried : Carried dialect delimiter) (atEof : Bool)
    (none : pieces (rulesOf dialect) delimiter buffer = []) :
    (drain buffer delimiter dialect atEof).statements = [] := by
  have parsed := drainPieces carried buffer
  simp only [drain, splitStatements, parsed, none, List.map_nil, List.getLast?_nil]

theorem drainEof (carried : Carried dialect delimiter) (buffer : Text) :
    (drain buffer delimiter dialect true).statements.map ParsedStatement.text =
      (pieces (rulesOf dialect) delimiter buffer).map Piece.text ∧
    (pieces (rulesOf dialect) delimiter buffer ≠ [] →
      (drain buffer delimiter dialect true).cut = buffer.length) := by
  have parsed := drainPieces carried buffer
  simp only [drain, splitStatements, parsed]
  rcases List.eq_nil_or_concat' (pieces (rulesOf dialect) delimiter buffer) with none | ⟨ps, p, some⟩
  · simp [none]
  · simp [some, Piece.shift]

theorem drainHeld (carried : Carried dialect delimiter) {ps : List Piece} {last : Piece}
    (some : pieces (rulesOf dialect) delimiter buffer = ps ++ [last]) :
    (drain buffer delimiter dialect false).statements.map ParsedStatement.text =
      ps.map Piece.text ∧
    (drain buffer delimiter dialect false).cut = last.start ∧
    (drain buffer delimiter dialect false).delimiter = last.delimiter := by
  have parsed := drainPieces carried buffer
  simp only [drain, splitStatements, parsed, some]
  simp [Piece.shift]

end Drain

section Stream
variable {dialect : SqlDialect} {ending : Text}

def remaining (ending : Text) (s : StreamState) : Text :=
  s.pending ++ (s.chunks.flatten ++ if s.eof then [] else ending)

def remainingPieces (dialect : SqlDialect) (ending : Text) (s : StreamState) : List Piece :=
  pieces (rulesOf dialect) s.delimiter (remaining ending s)

def remainingHazards (dialect : SqlDialect) (ending : Text) (s : StreamState) : List Nat :=
  hazards (rulesOf dialect) ⟨fresh s.delimiter 0, [], remaining ending s⟩

structure Streams (dialect : SqlDialect) (ending : Text) (s : StreamState) : Prop where
  carried : Carried dialect s.delimiter
  drained : s.eof = true → s.chunks = []
  safe : minParseChars ≤ (remaining ending s).length → remainingHazards dialect ending s = []

def streamMeasure (ending : Text) (s : StreamState) : Nat :=
  s.chunks.length + (remaining ending s).length + if s.eof then 0 else 1

def TurnKeeps (dialect : SqlDialect) (ending : Text) (s : StreamState) : StreamTurn → Prop
  | .stop out => out.map ScriptStatement.text = (remainingPieces dialect ending s).map Piece.text
  | .next s' out => Streams dialect ending s' ∧ streamMeasure ending s' < streamMeasure ending s ∧
      (remainingPieces dialect ending s).map Piece.text =
        out.map ScriptStatement.text ++ (remainingPieces dialect ending s').map Piece.text

theorem fillRemaining (ending : Text) {s : StreamState} (open_ : s.eof = false) :
    remaining ending (fillStream ending s) = remaining ending s ∧
      (fillStream ending s).delimiter = s.delimiter ∧
      streamMeasure ending (fillStream ending s) < streamMeasure ending s ∧
      ((fillStream ending s).eof = true → (fillStream ending s).chunks = []) := by
  obtain ⟨pending, delimiter, line, eof, chunks⟩ := s
  obtain rfl : eof = false := open_
  cases chunks with
  | nil => simp [fillStream, remaining, streamMeasure]
  | cons chunk chunks =>
    simp [fillStream, remaining, streamMeasure]

theorem fillKeeps {s : StreamState} (streams : Streams dialect ending s) (open_ : s.eof = false) :
    TurnKeeps dialect ending s (.next (fillStream ending s) []) := by
  obtain ⟨rest, delimiter, less, drained⟩ := fillRemaining ending open_
  have same : remainingPieces dialect ending (fillStream ending s) =
      remainingPieces dialect ending s := by rw [remainingPieces, remainingPieces, rest, delimiter]
  refine ⟨⟨delimiter ▸ streams.carried, drained, fun long => ?_⟩, less, ?_⟩
  · rw [remainingHazards, rest, delimiter]
    exact streams.safe (rest ▸ long)
  · rw [same]
    rfl

theorem drainStreamHeld {pending : Text} {delimiter : Delimiter} {ps : List Piece} {last : Piece}
    (carried : Carried dialect delimiter) (line : Int) (chunks : List Text)
    (parsed : pieces (rulesOf dialect) delimiter pending = ps ++ [last]) (some : ps ≠ []) :
    ∃ line' out, drainStream dialect ending ⟨pending, delimiter, line, false, chunks⟩ =
        .next ⟨pending.drop last.start, last.delimiter, line', false, chunks⟩ out ∧
      out.map ScriptStatement.text = ps.map Piece.text := by
  obtain ⟨texts, cut, mark⟩ := drainHeld carried parsed
  have rest : sliceFrom (drain pending delimiter dialect false).cut pending =
      pending.drop last.start := by
    rw [cut, sliceFrom, if_pos (Int.natCast_nonneg _), Int.toNat_natCast]
  unfold drainStream
  dsimp only
  split
  · rename_i none
    rw [none] at texts
    exact absurd (List.map_eq_nil_iff.mp texts.symm) some
  · rw [rest, mark]
    refine ⟨_, _, rfl, ?_⟩
    rw [List.map_map]
    exact texts

theorem drainStreamEof {pending : Text} {delimiter : Delimiter}
    (carried : Carried dialect delimiter) (line : Int) (chunks : List Text) :
    ∃ out, drainStream dialect ending ⟨pending, delimiter, line, true, chunks⟩ = .stop out ∧
      out.map ScriptStatement.text = (pieces (rulesOf dialect) delimiter pending).map Piece.text := by
  obtain ⟨texts, cut⟩ := drainEof carried pending
  unfold drainStream
  dsimp only
  split
  · rename_i none
    rw [none] at texts
    exact ⟨[], rfl, texts⟩
  · rename_i some
    have piecesSome : pieces (rulesOf dialect) delimiter pending ≠ [] := by
      intro none
      exact some (drainNone carried true none)
    have whole : sliceFrom (drain pending delimiter dialect true).cut pending = [] := by
      simp [cut piecesSome, sliceFrom]
    rw [whole]
    refine ⟨_, rfl, ?_⟩
    rw [List.map_map]
    exact texts

theorem drainKeeps {s : StreamState} (streams : Streams dialect ending s)
    (safe : s.eof = false → remainingHazards dialect ending s = []) :
    TurnKeeps dialect ending s (drainStream dialect ending s) := by
  obtain ⟨pending, delimiter, line, eof, chunks⟩ := s
  have carried : Carried dialect delimiter := streams.carried
  cases eof with
  | true =>
    obtain rfl : chunks = [] := streams.drained rfl
    obtain ⟨out, turn, texts⟩ := drainStreamEof carried line []
    have rest : remainingPieces dialect ending ⟨pending, delimiter, line, true, []⟩ =
        pieces (rulesOf dialect) delimiter pending := by simp [remainingPieces, remaining]
    rw [turn, TurnKeeps, rest]
    exact texts
  | false =>
    have quiet := safe rfl
    rcases List.eq_nil_or_concat' (pieces (rulesOf dialect) delimiter pending)
      with none | ⟨ps, last, parsed⟩
    · have empty := drainNone carried false none
      simp only [drainStream, empty, if_true, Bool.false_eq_true, if_false]
      exact fillKeeps streams rfl
    · by_cases psSome : ps = []
      · have empty : (drain pending delimiter dialect false).statements = [] := by
          have texts := (drainHeld carried parsed).1
          rw [psSome] at texts
          exact List.map_eq_nil_iff.mp texts
        simp only [drainStream, empty, if_true, Bool.false_eq_true, if_false]
        exact fillKeeps streams rfl
      · obtain ⟨held, split⟩ := cutHere (rulesCoherent dialect) carried.mark parsed psSome quiet
        obtain ⟨line', out, turn, texts⟩ :=
          drainStreamHeld carried line chunks parsed psSome
        have inside := held.inside
        rw [turn]
        refine ⟨⟨⟨held.bare, held.mark⟩, (fun eof => nomatch eof), (fun _ => held.safe)⟩, ?_, ?_⟩
        · have positive := held.positive
          simp only [streamMeasure, remaining, List.length_append, List.length_drop]
          omega
        · have shifted : (Piece.text ∘ Piece.shift last.start) = Piece.text := rfl
          simp only [remainingPieces, remaining, Bool.false_eq_true, if_false] at split ⊢
          rw [split, List.map_append, List.map_map, shifted, ← texts]

theorem turnFills {pending chunk : Text} {chunks : List Text} (delimiter : Delimiter) (line : Int)
    (short : pending.length < minParseChars) :
    streamTurn dialect ending ⟨pending, delimiter, line, false, chunk :: chunks⟩ =
      .next ⟨pending ++ chunk, delimiter, line, false, chunks⟩ [] := by
  simp only [streamTurn, fillStream, short, decide_true, Bool.not_false, Bool.and_true, if_true,
    reduceCtorEq, if_false]

theorem turnFillsLast {pending : Text} (delimiter : Delimiter) (line : Int)
    (short : pending.length < minParseChars) :
    streamTurn dialect ending ⟨pending, delimiter, line, false, []⟩ =
      drainStream dialect ending ⟨pending ++ ending, delimiter, line, true, []⟩ := by
  simp only [streamTurn, fillStream, short, decide_true, Bool.not_false, Bool.and_true, if_true]

theorem turnDrains {s : StreamState} (long : minParseChars ≤ s.pending.length) :
    streamTurn dialect ending s = drainStream dialect ending s := by
  simp only [streamTurn, decide_eq_false (Nat.not_lt.mpr long), Bool.and_false, Bool.false_eq_true,
    if_false]

theorem turnKeeps {s : StreamState} (streams : Streams dialect ending s) :
    TurnKeeps dialect ending s (streamTurn dialect ending s) := by
  unfold streamTurn
  split
  · rename_i early
    simp only [Bool.and_eq_true, Bool.not_eq_true', decide_eq_true_eq] at early
    split
    · rename_i none
      have filled := fillKeeps streams early.1
      have eof : (fillStream ending s).eof = true := by simp [fillStream, none]
      have drained := drainKeeps filled.1 (fun open_ => by rw [eof] at open_; contradiction)
      obtain ⟨_, less, same⟩ := filled
      cases turn : drainStream dialect ending (fillStream ending s) with
      | stop out =>
        rw [turn] at drained
        exact Eq.trans drained same.symm
      | next s' out =>
        rw [turn] at drained
        exact ⟨drained.1, drained.2.1.trans less, same.trans drained.2.2⟩
    · exact fillKeeps streams early.1
  · rename_i late
    simp only [Bool.and_eq_true, Bool.not_eq_true', decide_eq_true_eq, not_and, Nat.not_lt] at late
    refine drainKeeps streams (fun open_ => streams.safe ?_)
    have long := late open_
    simp only [remaining, List.length_append]
    omega

theorem streamLoopStop {s : StreamState} {out : List ScriptStatement} (fuel : Nat)
    (turn : streamTurn dialect ending s = .stop out) :
    streamLoop dialect ending (fuel + 1) s = some out := by
  rw [streamLoop, turn]

theorem streamLoopNext {s s' : StreamState} {out rest : List ScriptStatement} {fuel : Nat}
    (turn : streamTurn dialect ending s = .next s' out)
    (run : streamLoop dialect ending fuel s' = some rest) :
    streamLoop dialect ending (fuel + 1) s = some (out ++ rest) := by
  simp only [streamLoop, turn, run, Option.map_some]

theorem streamLoopRuns {fuel : Nat} : ∀ {s : StreamState}, Streams dialect ending s →
    streamMeasure ending s < fuel → ∃ out, streamLoop dialect ending fuel s = some out ∧
      out.map ScriptStatement.text = (remainingPieces dialect ending s).map Piece.text := by
  induction fuel with
  | zero => exact fun {s} _ less => absurd less (Nat.not_lt_zero _)
  | succ fuel ih =>
    intro s streams less
    have keeps := turnKeeps streams
    cases turn : streamTurn dialect ending s with
    | stop out =>
      rw [turn] at keeps
      exact ⟨out, streamLoopStop _ turn, keeps⟩
    | next s' out =>
      rw [turn] at keeps
      obtain ⟨streams', smaller, same⟩ := keeps
      obtain ⟨rest, run, texts⟩ := ih streams' (by omega)
      refine ⟨out ++ rest, streamLoopNext turn run, ?_⟩
      rw [List.map_append, texts, same]

theorem streamLoopMore {fuel : Nat} (more : Nat) : ∀ {s : StreamState} {out : List ScriptStatement},
    streamLoop dialect ending fuel s = some out →
      streamLoop dialect ending (fuel + more) s = some out := by
  induction fuel with
  | zero =>
    intro s out run
    contradiction
  | succ fuel ih =>
    intro s out run
    rw [Nat.add_right_comm]
    unfold streamLoop at run ⊢
    cases turn : streamTurn dialect ending s with
    | stop last =>
      rw [turn] at run
      exact run
    | next s' first =>
      rw [turn] at run
      obtain ⟨rest, tail, rfl⟩ := Option.map_eq_some_iff.mp run
      simp only [ih tail, Option.map_some]

end Stream

def streamRefinesSplit (dialect : SqlDialect) (chunks : List Text) (ending : Text) : Prop :=
  ∃ fuel out, streamScriptStatements dialect chunks ending fuel = some out ∧
    out.map ScriptStatement.text =
      (splitStatements (chunks.flatten ++ ending) dialect).map SqlStatement.text

def scriptHazards (dialect : SqlDialect) (text : Text) : List Nat :=
  hazards (rulesOf dialect) ⟨fresh .semicolon 0, [], text⟩

theorem streamRefines {dialect : SqlDialect} {chunks : List Text} {ending : Text}
    (safe : minParseChars ≤ (chunks.flatten ++ ending).length →
      scriptHazards dialect (chunks.flatten ++ ending) = []) :
    streamRefinesSplit dialect chunks ending := by
  have streams : Streams dialect ending ⟨[], .semicolon, 1, false, chunks⟩ :=
    ⟨carriedSemicolon dialect, (fun eof => nomatch eof), safe⟩
  obtain ⟨out, run, texts⟩ := streamLoopRuns streams (Nat.lt_succ_self _)
  refine ⟨_, out, run, texts.trans ?_⟩
  simp only [splitStatements, List.map_map]
  rfl

section Lead

theorem piecesLead (rules : DialectRules) (delimiter : Delimiter) (n : Nat) (text : Text) :
    pieces rules delimiter (List.replicate n 32 ++ text) =
      (pieces rules delimiter text).map (Piece.shift n) := by
  have white : ∀ d ∈ List.replicate n (32 : CodeUnit), isSpace d = true := by
    intro d member
    rw [List.eq_of_mem_replicate member]
    rfl
  have blank : atLineStart ((List.replicate n (32 : CodeUnit)).reverse ++ []) = true := by
    have gone : (List.replicate n (32 : CodeUnit)).dropWhile isBlank = [] := by
      rw [List.dropWhile_eq_nil_iff]
      intro d member
      rw [List.eq_of_mem_replicate member]
      rfl
    simp [atLineStart, gone]
  have alike : Alike rules n ⟨fresh delimiter 0, (List.replicate n 32).reverse ++ [], text⟩
      ⟨fresh delimiter 0, [], text⟩ := by
    refine ⟨rfl, rfl, rfl, by simp, ⟨Nat.zero_le _, Nat.zero_le _⟩,
      ⟨List.replicate n 32, white, by simp [chunkOf, fresh], by simp⟩, ?_, fun _ => Or.inl blank⟩
    have look : SameLook rules [] ((List.replicate n (32 : CodeUnit)).reverse ++ []) :=
      leadLook (fun _ => rfl) white
    exact fun prefixed => (look prefixed).symm
  have path : Path (splitStep rules) ⟨fresh delimiter 0, [], List.replicate n 32 ++ text⟩ []
      ⟨fresh delimiter 0, (List.replicate n 32).reverse ++ [], text⟩ := spacePath _ _ _ white
  exact (runPath (splitProgress rules) flush path).trans (alikeRun _ alike)

end Lead

def padding : Text := List.replicate minParseChars 32

def heldBackMidLine : List Text :=
  [padding ++ units "SELECT 1; D", units "ELIMITER //\nSELECT 2;SELECT 3//"]

theorem heldBackWhole : (splitStatements (heldBackMidLine.flatten ++ []) .mysql).map SqlStatement.text =
    [units "SELECT 1", units "DELIMITER //\nSELECT 2", units "SELECT 3//"] := by
  have whole : heldBackMidLine.flatten ++ [] =
      padding ++ units "SELECT 1; DELIMITER //\nSELECT 2;SELECT 3//" := by
    simp only [heldBackMidLine, List.flatten_cons, List.flatten_nil, List.append_nil,
      List.append_assoc]
    rfl
  have texts (text : Text) (p : List Piece) (here : pieces (rulesOf .mysql) .semicolon text = p) :
      (splitStatements text .mysql).map SqlStatement.text = p.map Piece.text := by
    rw [splitStatements, here, List.map_map]
    rfl
  rw [whole, padding, texts _ _ (piecesLead _ _ _ _), List.map_map]
  decide

theorem heldBackDrain : ∃ line out, drainStream .mysql [] ⟨padding ++ units "SELECT 1; D",
      .semicolon, 1, false, [units "ELIMITER //\nSELECT 2;SELECT 3//"]⟩ =
      .next ⟨units "D", .semicolon, line, false, [units "ELIMITER //\nSELECT 2;SELECT 3//"]⟩ out ∧
    out.map ScriptStatement.text = [units "SELECT 1"] := by
  have parsed : pieces (rulesOf .mysql) .semicolon (padding ++ units "SELECT 1; D") =
      [⟨units "SELECT 1", 0 + minParseChars, 8 + minParseChars, .semicolon⟩] ++
        [⟨units "D", 10 + minParseChars, 11 + minParseChars, .semicolon⟩] := by
    have small : pieces (rulesOf .mysql) .semicolon (units "SELECT 1; D") =
        [⟨units "SELECT 1", 0, 8, .semicolon⟩, ⟨units "D", 10, 11, .semicolon⟩] := by decide
    rw [padding, piecesLead, small]
    rfl
  have rest : (padding ++ units "SELECT 1; D").drop (10 + minParseChars) = units "D" := by
    have size : padding.length = minParseChars := List.length_replicate
    rw [Nat.add_comm, ← List.drop_drop, ← size, List.drop_left]
    rfl
  obtain ⟨line, out, turn, texts⟩ := drainStreamHeld (carriedSemicolon .mysql) 1
    [units "ELIMITER //\nSELECT 2;SELECT 3//"] parsed (by simp)
  rw [rest] at turn
  exact ⟨line, out, turn, texts⟩

theorem heldBackTail (line : Int) : ∃ out, streamLoop .mysql [] 2 ⟨units "D", .semicolon, line,
      false, [units "ELIMITER //\nSELECT 2;SELECT 3//"]⟩ = some out ∧
    out.map ScriptStatement.text = [units "SELECT 2;SELECT 3"] := by
  have first : (units "D").length < minParseChars := by decide
  have second : (units "D" ++ units "ELIMITER //\nSELECT 2;SELECT 3//").length < minParseChars := by
    decide
  have texts : (pieces (rulesOf .mysql) .semicolon
      (units "D" ++ units "ELIMITER //\nSELECT 2;SELECT 3//" ++ [])).map Piece.text =
      [units "SELECT 2;SELECT 3"] := by decide
  obtain ⟨out, stop, same⟩ := drainStreamEof (carriedSemicolon .mysql) line []
  have held : streamTurn .mysql [] ⟨units "D", .semicolon, line, false,
      [units "ELIMITER //\nSELECT 2;SELECT 3//"]⟩ = .next _ [] := turnFills _ _ first
  exact ⟨out, streamLoopNext held (streamLoopStop _ ((turnFillsLast _ _ second).trans stop)),
    same.trans texts⟩

theorem heldBackStreamed : ∃ out, streamScriptStatements .mysql heldBackMidLine [] 4 = some out ∧
    out.map ScriptStatement.text = [units "SELECT 1", units "SELECT 2;SELECT 3"] := by
  obtain ⟨line, first, turn, firstTexts⟩ := heldBackDrain
  obtain ⟨second, run, secondTexts⟩ := heldBackTail line
  have short : ([] : Text).length < minParseChars := by decide
  have long : minParseChars ≤ (padding ++ units "SELECT 1; D").length := by
    rw [List.length_append, padding, List.length_replicate]
    exact Nat.le_add_right _ _
  have filled : streamTurn .mysql [] ⟨[], .semicolon, 1, false, heldBackMidLine⟩ =
      .next ⟨padding ++ units "SELECT 1; D", .semicolon, 1, false,
        [units "ELIMITER //\nSELECT 2;SELECT 3//"]⟩ [] := turnFills _ _ short
  have drained : streamTurn .mysql [] ⟨padding ++ units "SELECT 1; D", .semicolon, 1, false,
      [units "ELIMITER //\nSELECT 2;SELECT 3//"]⟩ = .next _ first := (turnDrains long).trans turn
  refine ⟨_, streamLoopNext filled (streamLoopNext drained run), ?_⟩
  rw [List.nil_append, List.map_append, firstTexts, secondTexts]
  rfl

theorem heldBackDiffers : ¬ streamRefinesSplit .mysql heldBackMidLine [] := by
  rintro ⟨fuel, out, run, texts⟩
  obtain ⟨other, otherRun, otherTexts⟩ := heldBackStreamed
  have one := streamLoopMore 4 run
  have two := streamLoopMore fuel otherRun
  rw [Nat.add_comm, two] at one
  obtain rfl : other = out := Option.some.inj one
  rw [heldBackWhole, otherTexts] at texts
  exact absurd texts (by decide)

theorem streamedStatementsDifferMidLine : ¬ streamRefinesSplit .mysql heldBackMidLine [] :=
  heldBackDiffers

theorem streamedStatementsAreTheScripts (dialect : SqlDialect) :
    (∀ chunks ending, (minParseChars ≤ (chunks.flatten ++ ending).length →
        scriptHazards dialect (chunks.flatten ++ ending) = []) →
      streamRefinesSplit dialect chunks ending) ∧
    ((∀ chunks ending, streamRefinesSplit dialect chunks ending) ↔ dialect ≠ .mysql) := by
  refine ⟨fun chunks ending safe => streamRefines safe, fun all same => ?_, fun plain chunks ending => ?_⟩
  · subst same
    exact heldBackDiffers (all _ _)
  · refine streamRefines (fun _ => hazardsOff ?_ _)
    cases dialect <;> first | rfl | contradiction

theorem streamedStatementsAcrossDelimiters : streamRefinesSplit .mysql
    [units "DELIMITER //\nSELECT 1; SELECT 2/", units "/\nDELIMITER ;\nSELECT '", units "3;'; D"] [] :=
  (streamedStatementsAreTheScripts .mysql).1 _ _ (fun _ => by decide)

end DatabaseAdmin
