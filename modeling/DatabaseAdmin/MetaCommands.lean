import DatabaseAdmin.ScriptRuns

/-! psql's meta-commands in a script. A command ends with its line, a statement only at `;`, so the
command and what follows it are one text to the runner. -/
namespace DatabaseAdmin.DumpRunner
open CodeUnits ScanLoop

section Stretches

def Splits (text : Text) (outs : List Piece) (behind : Text) : Prop :=
  ∃ front, text = front ++ behind ∧ Path (splitStep postgres) ⟨fresh .semicolon 0, [], text⟩ outs
    ⟨fresh .semicolon front.length, front.reverse, behind⟩

def White (text : Text) : Prop := ∀ c ∈ text, isSpace c = true

instance (text : Text) : Decidable (White text) := inferInstanceAs (Decidable (∀ c ∈ text, isSpace c = true))

theorem splitsAppend {text behind : Text} {outs : List Piece} (splits : Splits text outs behind) (more : Text) :
    Splits (text ++ more) outs (behind ++ more) := by
  obtain ⟨front, rfl, path⟩ := splits
  have grown := pathGrows (rulesCoherent .postgres) more path (Nat.zero_le _) (by simp [fresh]) (Or.inr rfl) (fun _ => rfl)
    (fun _ reach some => (hazardFree (hazardsReach (hazardsOff rfl _) reach some)).1)
  exact ⟨front, List.append_assoc _ _ _, grown⟩

theorem freshLook {text : Text} {outs : List Piece} {c : SplitConfig}
    (path : Path (splitStep postgres) ⟨fresh .semicolon 0, [], text⟩ outs c) (opened : c.state.chunkStart = c.before.length) :
    SameLook postgres [] c.before := by
  obtain ⟨c0, reach, ⟨start, look⟩, walk⟩ := @walkOrigin postgres (ChunkOpens postgres) _ _ ⟨_, path⟩ ⟨rfl, fun _ => rfl⟩
    (fun c reach some leaves => chunkOpensLater (rulesCoherent .postgres).plain reach (fun _ => rfl) some leaves)
  obtain ⟨chunk, -, before⟩ := walk.span
  have sizes := congrArg List.length before
  rw [List.length_append, List.length_reverse, ← opened, walk.state.1, start] at sizes
  obtain rfl : chunk = [] := List.length_eq_zero_iff.mp (by omega)
  rw [before]
  exact look

theorem splitsRest {text gap : Text} {outs : List Piece} (splits : Splits text outs gap) (white : White gap) (more : Text) :
    statementPieces (text ++ more) = outs ++ (statementPieces more).map (Piece.shift text.length) := by
  obtain ⟨front, whole, path⟩ := splitsAppend splits more
  have joined : text = front ++ gap := List.append_cancel_right (whole.trans (List.append_assoc _ _ _).symm)
  have along := path.trans (spacePath gap more front.reverse white)
  rw [List.append_nil] at along
  have look := leadLook (freshLook path (by simp [fresh])) white
  have alike : Alike postgres text.length ⟨fresh .semicolon front.length, gap.reverse ++ front.reverse, more⟩
      ⟨fresh .semicolon 0, [], more⟩ := by
    refine ⟨rfl, rfl, rfl, by simp [joined, Nat.add_comm], ⟨by simp [Within, fresh], Nat.zero_le _⟩, ⟨gap, white, ?_, by simp [joined]⟩,
      fun prefixed => (look prefixed).symm, fun on => by cases on⟩
    simp [chunkOf, fresh]
  exact (runPath (splitProgress postgres) flush along).trans (congrArg (outs ++ ·) (alikeRun _ alike))

theorem splitsPieces {text behind : Text} {outs : List Piece} (splits : Splits text outs behind) :
    ∃ others, statementPieces text = outs ++ others := by
  obtain ⟨front, -, path⟩ := splits
  exact ⟨_, runPath (splitProgress postgres) flush path⟩

inductive Marked : Text → List Text → Text → Prop where
  | mark {m rest} (ends : EndMark m) : Marked (m ++ newline :: rest) [] rest
  | line {l rest lines after} (data : DataLine l) (more : Marked rest lines after) :
      Marked (l ++ newline :: rest) (lineEnded l :: lines) after

theorem markedBlock {text : Text} {lines : List Text} {after : Text} (marked : Marked text lines after) (more : Text) :
    Block (text ++ more) lines (after ++ more) := by
  induction marked with
  | mark ends =>
    rw [List.append_assoc]
    exact .mark ends
  | line data _ ih =>
    rw [List.append_assoc]
    exact .line data ih

theorem markedLine {text : Text} {lines : List Text} {after : Text} (marked : Marked text lines after) : newline ∈ text := by
  cases marked with
  | mark => simp
  | line => simp

inductive Remarks : Text → Prop where
  | nil : Remarks []
  | space {c rest} (white : isSpace c = true) (tail : Remarks rest) : Remarks (c :: rest)
  | line {text rest} (opens : units "--" <+: text) (bare : newline ∉ text) (tail : Remarks rest) :
      Remarks (text ++ newline :: rest)
  | block {text rest} (opens : units "/*" <+: text)
      (closes : ∀ more, scanBlockComment postgres.nestedBlockComments (text ++ more) = text.length)
      (tail : Remarks rest) : Remarks (text ++ rest)

inductive Between : Text → Text → Prop where
  | settled {text outs gap} (splits : Splits text outs gap) (plain : ∀ p ∈ outs, reCopyStdin p.text = false)
      (remarks : Remarks gap) : Between text gap
  | copied {text outs p trail behind lines after gap} (splits : Splits text (outs ++ [p]) behind)
      (plain : ∀ p ∈ outs, reCopyStdin p.text = false) (copies : reCopyStdin p.text = true)
      (sql : startsWith (units "\\") p.text = false) (white : White trail)
      (ends : text.drop p.stop = trail ++ (';' : CodeUnit) :: behind) (block : Marked (pastLineBreak behind) lines after)
      (more : Between after gap) : Between text gap

end Stretches

section Runs
variable (executor : ScriptExecutor) (opts : RunScriptOptions)

def plainRun : List Text → ScriptRun
  | [] => ⟨[], false⟩
  | sql :: rest =>
      if startsWith (units "\\") sql then plainRun rest
      else if executor.refuses sql && !opts.continueOnError then ⟨[.exec sql], true⟩
      else ⟨.exec sql :: (plainRun rest).calls, (plainRun rest).threw⟩

def ScriptRun.walked (run : ScriptRun) : Walked := if run.threw then .threw run.calls else .through run.calls

def Precedes (text : Text) (first : ScriptRun) : Prop :=
  ∀ {more : Text} {run : ScriptRun}, Executes executor opts more run → Executes executor opts (text ++ more) (first.followed run)

variable {executor opts}

theorem walkPlain {stmts : List (Text × Int)} (plain : ∀ s ∈ stmts, reCopyStdin s.1 = false) :
    walkPlaced executor opts stmts = (plainRun executor opts (stmts.map Prod.fst)).walked := by
  induction stmts with
  | nil => rfl
  | cons s stmts ih =>
    obtain ⟨sql, offset⟩ := s
    have rest := ih (fun s member => plain s (List.mem_cons_of_mem _ member))
    have here := plain _ List.mem_cons_self
    simp only [walkPlaced, List.map_cons, plainRun, here, rest, Bool.false_eq_true, if_false]
    split
    · rfl
    split
    · rfl
    · unfold ScriptRun.walked
      split <;> rfl

theorem walkOuts {text : Text} {outs : List Piece} (plain : ∀ p ∈ outs, reCopyStdin p.text = false) :
    walkPlaced executor opts (outs.map (placed text)) = (plainRun executor opts (outs.map Piece.text)).walked := by
  rw [walkPlain fun s member => by
    obtain ⟨p, inside, rfl⟩ := List.mem_map.mp member
    exact plain p inside]
  rw [List.map_map]
  rfl

theorem precedesSplit {text gap : Text} {outs : List Piece} (splits : Splits text outs gap) (white : White gap)
    (plain : ∀ p ∈ outs, reCopyStdin p.text = false) :
    Precedes executor opts text (plainRun executor opts (outs.map Piece.text)) := by
  intro more run rest
  have behind : (text ++ more).drop text.length = more := List.drop_left
  have split := splitsRest splits white more
  nth_rewrite 2 [← behind] at split
  have walk := @walkOuts executor opts (text ++ more) outs plain
  cases threw : (plainRun executor opts (outs.map Piece.text)).threw with
  | false =>
    rw [ScriptRun.walked, threw] at walk
    have whole := executesPass split walk (behind ▸ rest)
    rwa [ScriptRun.followed, threw]
  | true =>
    rw [ScriptRun.walked, threw] at walk
    have walked := @walkSplit executor opts _ _ _ split
    rw [walk] at walked
    have whole := Executes.threw walked
    rw [ScriptRun.followed, if_pos threw]
    rwa [← threw] at whole

theorem followedTwice (a b c : ScriptRun) : (a.followed b).followed c = a.followed (b.followed c) := by
  cases threw : a.threw with
  | true => simp [ScriptRun.followed, threw]
  | false =>
    cases later : b.threw with
    | true => simp [ScriptRun.followed, threw, later]
    | false => simp [ScriptRun.followed, threw, later]

theorem copiedPrecedes {text behind trail after : Text} {outs : List Piece} {p : Piece} {lines : List Text}
    (splits : Splits text (outs ++ [p]) behind) (plain : ∀ p ∈ outs, reCopyStdin p.text = false)
    (copies : reCopyStdin p.text = true) (sql : startsWith (units "\\") p.text = false) (white : White trail)
    (ends : text.drop p.stop = trail ++ (';' : CodeUnit) :: behind) (block : Marked (pastLineBreak behind) lines after)
    {last : ScriptRun} (rest : Precedes executor opts after last) :
    Precedes executor opts text ((plainRun executor opts (outs.map Piece.text)).followed
      (if executor.copyThrows p.text lines then ⟨[.copyIn p.text lines], true⟩
       else ScriptRun.followed ⟨[.copyIn p.text lines], false⟩ last)) := by
  intro more run later
  obtain ⟨garbage, parsed⟩ := splitsPieces (splitsAppend splits more)
  rw [List.append_assoc, List.singleton_append] at parsed
  have mark : p.delimiter = .semicolon := by
    refine @pieceMark postgres rfl (text ++ more) p ?_
    have member : p ∈ statementPieces (text ++ more) := by simp [parsed]
    exact member
  have inside : p.stop ≤ text.length := by
    by_contra beyond
    rw [List.drop_eq_nil_of_le (not_le.mp beyond).le] at ends
    simp at ends
  have ends' : (text ++ more).drop p.stop = trail ++ (';' : CodeUnit) :: (behind ++ more) := by
    rw [List.drop_append_of_le_length inside, ends, List.append_assoc, List.cons_append]
  have place := placedHere mark white ends'
  have line : newline ∈ behind := (pastBreakBehind behind).subset (markedLine block)
  have consumed : consume ((p.stop + trail.length + 1 : Nat) : Int) (text ++ more) = behind ++ more := by
    rw [consume, if_neg (by omega), Int.toNat_natCast, Nat.add_assoc, ← List.drop_drop, ends', dropPast]
  have read : Block (pastLineBreak (consume ((p.stop + trail.length + 1 : Nat) : Int) (text ++ more))) lines (after ++ more) := by
    rw [consumed, pastBreakAppend (by rintro rfl; simp at line) (by rintro rfl; revert line; decide)]
    exact markedBlock block more
  have walk := @walkAppend executor opts (outs.map (placed (text ++ more))) ((p :: garbage).map (placed (text ++ more)))
  rw [← List.map_append, ← parsed, walkOuts plain, List.map_cons, place, walkPlaced, if_neg (by simp [sql]), if_pos copies] at walk
  cases threw : (plainRun executor opts (outs.map Piece.text)).threw with
  | true =>
    rw [ScriptRun.walked, if_pos threw] at walk
    have whole := Executes.threw walk
    rw [followedTwice, ScriptRun.followed, if_pos threw]
    rwa [← threw] at whole
  | false =>
    rw [ScriptRun.walked, if_neg (by simp [threw]), foldCopy, List.append_nil] at walk
    cases throws : executor.copyThrows p.text lines with
    | true =>
      have whole := Executes.failed walk read throws
      simpa [ScriptRun.followed, threw] using whole
    | false =>
      have whole := Executes.copied walk read throws (rest later)
      rw [followedTwice, if_neg Bool.false_ne_true, followedTwice]
      simpa only [ScriptRun.followed, threw, Bool.false_eq_true, if_false, List.singleton_append] using whole

theorem betweenPrecedes {text gap : Text} (between : Between text gap) (white : White gap) :
    ∃ first, Precedes executor opts text first := by
  induction between with
  | settled splits plain remarks => exact ⟨_, precedesSplit splits white plain⟩
  | copied splits plain copies sql trail ends block _ ih =>
    obtain ⟨last, rest⟩ := ih white
    exact ⟨_, copiedPrecedes splits plain copies sql trail ends block rest⟩

theorem runSilent {texts : List Text} (silent : ∀ t ∈ texts, startsWith (units "\\") t = true) :
    plainRun executor opts texts = ⟨[], false⟩ := by
  induction texts with
  | nil => rfl
  | cons t texts ih =>
    rw [plainRun, if_pos (silent t List.mem_cons_self)]
    exact ih fun t member => silent t (List.mem_cons_of_mem _ member)

theorem commandNoCopy {text : Text} (opens : startsWith (units "\\") text = true) : reCopyStdin text = false := by
  obtain ⟨rest, rfl⟩ := startsWithIff.mp opens
  rfl

def Silent (ps : List Piece) : Prop := ∀ p ∈ ps, startsWith (units "\\") p.text = true

instance (ps : List Piece) : Decidable (Silent ps) :=
  inferInstanceAs (Decidable (∀ p ∈ ps, startsWith (units "\\") p.text = true))

theorem silentPrecedes {text gap : Text} {outs : List Piece} (splits : Splits text outs gap) (white : White gap)
    (silent : Silent outs) : Precedes executor opts text ⟨[], false⟩ := by
  intro more run rest
  have first := precedesSplit splits white (fun p member => commandNoCopy (silent p member)) rest
  rwa [runSilent (List.forall_mem_map.mpr silent)] at first

theorem silentExecutes {text : Text} (silent : Silent (statementPieces text)) : Executes executor opts text ⟨[], false⟩ := by
  have walk := @walkOuts executor opts text _ fun p member => commandNoCopy (silent p member)
  rw [runSilent (List.forall_mem_map.mpr silent)] at walk
  exact .through walk

end Runs

section Scripts

structure MetaCommand (command : Text) : Prop where
  bare : newline ∉ command
  opens : ∃ indent rest, command = indent ++ units "\\" ++ rest ∧ White indent

inductive Scripted : Text → Text → Prop where
  | last (text) : Scripted text text
  | line {before gap command script bare} (between : Between before gap) (own : before = [] ∨ before.getLast? = some newline)
      (psql : MetaCommand command) (more : Scripted script bare) :
      Scripted (before ++ (command ++ newline :: script)) (before ++ bare)
  | closing {before gap command} (between : Between before gap) (own : before = [] ∨ before.getLast? = some newline)
      (psql : MetaCommand command) : Scripted (before ++ command) before

structure MetaScript where
  text : Text
  bare : Text
  lines : Scripted text bare
  unmarked : text.head? ≠ some byteOrderMark

def SkipsCommands (script : MetaScript) : Prop :=
  ∀ (executor : ScriptExecutor) (opts : RunScriptOptions), CopiesStop executor opts → ∀ file : Chunked script.text,
    ∃ fuel run whole, Executes executor opts script.bare whole ∧
      runSqlScript .postgres executor opts file.chunks file.ending fuel = some run ∧ Follow opts script.text run whole

inductive Kept : Text → Text → Prop where
  | nil : Kept [] []
  | text {text part kept} (more : Kept part kept) : Kept (text ++ part) (text ++ kept)
  | line {command part kept} (psql : MetaCommand command) (more : Kept part kept) : Kept (command ++ newline :: part) kept

inductive Apart : Text → Text → Prop where
  | same (text) : Apart text text
  | sql {text gap script bare} (between : Between text gap) (white : White gap) (more : Apart script bare) :
      Apart (text ++ script) (text ++ bare)
  | commands {part kept outs idle behind gap script bare} (lines : Kept part kept) (splits : Splits part outs behind)
      (white : White behind) (silent : Silent outs) (left : Splits kept idle gap) (blank : White gap) (quiet : Silent idle)
      (more : Apart script bare) : Apart (part ++ script) (kept ++ bare)
  | silent {script bare} (silent : Silent (statementPieces script)) (quiet : Silent (statementPieces bare)) : Apart script bare

theorem apartExecutes {executor : ScriptExecutor} {opts : RunScriptOptions} {script bare : Text} (apart : Apart script bare) :
    ∃ run, Executes executor opts script run ∧ Executes executor opts bare run := by
  induction apart with
  | same text =>
    obtain ⟨run, executes⟩ := executesSome text
    exact ⟨run, executes, executes⟩
  | sql between white _ ih =>
    obtain ⟨run, script, bare⟩ := ih
    obtain ⟨first, precedes⟩ := betweenPrecedes between white
    exact ⟨_, precedes script, precedes bare⟩
  | commands _ splits white silent left blank quiet _ ih =>
    obtain ⟨run, script, bare⟩ := ih
    exact ⟨_, silentPrecedes splits white silent script, silentPrecedes left blank quiet bare⟩
  | silent silent quiet => exact ⟨_, silentExecutes silent, silentExecutes quiet⟩

theorem commandsSkipped (script : MetaScript) (apart : Apart script.text script.bare) : SkipsCommands script := by
  intro executor opts stops file
  obtain ⟨whole, asked, bare⟩ := @apartExecutes executor opts _ _ apart
  obtain ⟨fuel, run, went, follow⟩ := runFollows script.unmarked file stops asked
  exact ⟨fuel, run, whole, bare, went, follow⟩

def splitFirst : Nat → SplitConfig → List Piece × SplitConfig
  | 0, c => ([], c)
  | n + 1, c =>
      if c.rest = [] then ([], c)
      else
        let (outs, last) := splitFirst n (c.next (splitStep postgres))
        (c.out (splitStep postgres) ++ outs, last)

theorem firstPath (n : Nat) (c : SplitConfig) : Path (splitStep postgres) c (splitFirst n c).1 (splitFirst n c).2 := by
  induction n generalizing c with
  | zero => exact .refl c
  | succ n ih =>
    unfold splitFirst
    split
    · exact .refl c
    · rename_i some
      exact .turn some (ih _)

instance : DecidableEq SplitConfig := fun a b =>
  decidable_of_iff (a.state = b.state ∧ a.before = b.before ∧ a.rest = b.rest) (by cases a; cases b; simp)

theorem splitsFirst {front behind : Text} {outs : List Piece} (n : Nat)
    (first : splitFirst n ⟨fresh .semicolon 0, [], front ++ behind⟩ = (outs, ⟨fresh .semicolon front.length, front.reverse, behind⟩)) :
    Splits (front ++ behind) outs behind := by
  have path := firstPath n ⟨fresh .semicolon 0, [], front ++ behind⟩
  rw [first] at path
  exact ⟨front, rfl, path⟩

def connectLine : Text := units "\\connect x"
def selectOne : Text := units "SELECT 1;"

theorem connectPsql : MetaCommand connectLine := ⟨by decide, [], _, rfl, by decide⟩

theorem nothingSplits : Splits [] [] [] := ⟨[], rfl, .refl _⟩

theorem betweenNothing : Between [] [] := .settled nothingSplits (by simp) .nil

def mergedScript : MetaScript where
  text := connectLine ++ newline :: (selectOne ++ [newline])
  bare := selectOne ++ [newline]
  lines := .line betweenNothing (Or.inl rfl) connectPsql (.last _)
  unmarked := by decide

theorem mergedRun : runSqlScript .postgres acceptsAll stopsAtError [mergedScript.text] [] 2 = some ⟨[], false⟩ := by
  rw [runSqlScript, oneChunkOpened (by decide)]
  decide

theorem bareWalk : walkPlaced acceptsAll stopsAtError
    ((statementPieces mergedScript.bare).map (placed mergedScript.bare)) = .through [.exec (units "SELECT 1")] := by
  have one : statementPieces mergedScript.bare = [⟨units "SELECT 1", 0, 8, .semicolon⟩] := by decide
  rw [one]
  rfl

theorem mergedStatementDropped : ¬ SkipsCommands mergedScript := by
  intro skips
  obtain ⟨fuel, run, whole, asked, went, follow⟩ := skips acceptsAll stopsAtError (fun _ _ never => nomatch never)
    ⟨false, [mergedScript.text], [], by simp⟩
  obtain rfl := runOnce went mergedRun
  rcases follow.same with same | ⟨never, -⟩
  · cases asked with
    | through walk =>
      rw [bareWalk] at walk
      cases walk
      cases same
    | threw walk => simp [bareWalk] at walk
    | copied walk => simp [bareWalk] at walk
    | failed walk => simp [bareWalk] at walk
  · cases never

def partedLine : Text := units "\\connect x;"

theorem partedPsql : MetaCommand partedLine := ⟨by decide, [], _, rfl, by decide⟩

theorem oneSplits : Splits (selectOne ++ [newline]) [⟨units "SELECT 1", 0, 8, .semicolon⟩] [newline] :=
  splitsFirst 9 (by decide)

theorem partedSplits : Splits (partedLine ++ [newline]) [⟨units "\\connect x", 0, 10, .semicolon⟩] [newline] :=
  splitsFirst 11 (by decide)

theorem lineWhite : White [newline] := by decide

theorem oneBetween : Between (selectOne ++ [newline]) [newline] :=
  .settled oneSplits (by decide) (.space (by decide) .nil)

def partedScript : MetaScript where
  text := selectOne ++ [newline] ++ (partedLine ++ newline :: (selectOne ++ [newline]))
  bare := selectOne ++ [newline] ++ (selectOne ++ [newline])
  lines := .line oneBetween (Or.inr (by decide)) partedPsql (.last _)
  unmarked := by decide

theorem partedApart : Apart partedScript.text partedScript.bare := by
  have commands := Apart.commands (.line partedPsql .nil) partedSplits lineWhite (by decide) nothingSplits (by decide) (by decide)
    (.same (selectOne ++ [newline]))
  exact .sql oneBetween lineWhite commands

theorem partedSkipped : SkipsCommands partedScript := commandsSkipped partedScript partedApart

end Scripts

end DatabaseAdmin.DumpRunner
