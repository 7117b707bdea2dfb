import DatabaseAdmin.CopyRouting

/-! Whole runs over scripts with COPY blocks. -/
namespace DatabaseAdmin.DumpRunner
open CodeUnits

section Runs
variable {executor : ScriptExecutor} {opts : RunScriptOptions}

theorem drainEmpty {buffer : Text} (none : (drain buffer .semicolon .postgres true).statements = []) :
    statementPieces buffer = [] := by
  obtain ⟨f, -, taken⟩ := drainTaken buffer true
  rw [taken, if_pos rfl] at none
  exact List.map_eq_nil_iff.mp none

theorem drainSome {buffer : Text} (some : (drain buffer .semicolon .postgres false).statements ≠ []) :
    ∃ ps p, statementPieces buffer = ps ++ [p] ∧ ps ≠ [] := by
  obtain ⟨f, -, taken⟩ := drainTaken buffer false
  rw [taken, if_neg Bool.false_ne_true] at some
  rcases List.eq_nil_or_concat' (statementPieces buffer) with none | ⟨ps, p, parsed⟩
  · simp [none] at some
  · refine ⟨ps, p, parsed, ?_⟩
    rintro rfl
    simp [parsed] at some

theorem stopRoutes {s : RunState} {blocks : List CopyBlock} {last : List Text} (ready : Ready s blocks last)
    (eof : s.reader.eof = true) (none : statementPieces s.reader.pending = []) :
    TurnRoutes executor opts s blocks last (.stop []) := by
  rw [← remainingEof ready.drained eof] at none
  rcases @scriptSplit executor opts _ _ _ _ _ (endSplit s.reader.remaining) ready.script with
    ⟨⟨here⟩⟩ | ⟨blocks', last', rest, calls, -⟩
  · have split := here.split
    simp [none] at split
  · rw [List.drop_length] at rest
    rw [none, scriptEnd rest] at calls
    exact calls.symm

theorem turnRoutes {s : RunState} {blocks : List CopyBlock} {last : List Text} (ready : Ready s blocks last)
    (tidy : TidyScript executor opts blocks last) :
    TurnRoutes executor opts s blocks last (runTurn .postgres executor opts s) := by
  unfold runTurn
  split
  · rename_i early
    simp only [Bool.and_eq_true, Bool.not_eq_true'] at early
    exact fillRoutes ready tidy early.1 s.parseAt
  · dsimp only
    split
    · rename_i none
      cases eof : s.reader.eof with
      | true =>
        rw [ready.mark, eof] at none
        exact stopRoutes ready eof (drainEmpty none)
      | false =>
        simp only [Bool.false_eq_true, if_false]
        split
        · exact List.nil_prefix
        · exact fillRoutes ready tidy eof _
    · rename_i some
      have start : Ready { s with parseAt := minParseChars } blocks last := ⟨ready.script, ready.mark, ready.drained⟩
      cases eof : s.reader.eof with
      | true =>
        exact endRoutes start tidy eof
      | false =>
        rw [ready.mark, eof] at some
        obtain ⟨ps, p, parsed, held⟩ := drainSome some
        exact heldRoutes start tidy eof parsed held

structure Routed (blocks : List CopyBlock) (last : List Text) (run : ScriptRun) : Prop where
  front : run.calls <+: scriptCalls blocks last
  whole : run.threw = false → run.calls = scriptCalls blocks last

theorem loopRoutes {fuel : Nat} {s : RunState} {blocks : List CopyBlock} {last : List Text}
    (ready : Ready s blocks last) (tidy : TidyScript executor opts blocks last) (less : runMeasure s < fuel) :
    ∃ run, runLoop .postgres executor opts fuel s = some run ∧ Routed blocks last run := by
  induction fuel generalizing s blocks last with
  | zero => exact absurd less (Nat.not_lt_zero _)
  | succ fuel ih =>
    have routes := turnRoutes ready tidy
    rw [runLoop]
    cases turn : runTurn .postgres executor opts s with
    | stop calls =>
      rw [turn] at routes
      exact ⟨_, rfl, routes ▸ List.prefix_rfl, fun _ => routes⟩
    | threw calls =>
      rw [turn] at routes
      exact ⟨_, rfl, routes, fun never => nomatch never⟩
    | next s' calls =>
      rw [turn] at routes
      obtain ⟨blocks', last', tidy', ready', smaller, due⟩ := routes
      obtain ⟨run, went, routed⟩ := ih ready' tidy' (by omega)
      refine ⟨⟨calls ++ run.calls, run.threw⟩, by simp only [went, Option.map_some], ?_, fun finished => ?_⟩
      · rw [due]
        exact (List.prefix_append_right_inj calls).mpr routed.front
      · rw [due, routed.whole finished]

theorem fillFirstFollows {r : Reader} (drained : Drained r) :
    Follows r (fillFirst r) r.remaining ∧ ((fillFirst r).pending = [] → (fillFirst r).eof = true) := by
  induction r using fillFirst.induct with
  | case1 r more ih =>
    have filled := fillFollows more.1
    rw [fillFirst, dif_pos more]
    obtain ⟨next, some⟩ := ih filled.drained
    exact ⟨followsTrans filled (filled.remaining ▸ next), some⟩
  | case2 r stop =>
    rw [fillFirst, dif_neg stop]
    refine ⟨⟨rfl, drained, le_refl _⟩, fun none => ?_⟩
    by_contra more
    exact stop ⟨by simpa using more, none⟩

theorem unmarkedFollows {r : Reader} (drained : Drained r) (some : r.pending = [] → r.eof = true) {marked : Bool}
    {text : Text} (unmarked : text.head? ≠ Option.some byteOrderMark)
    (whole : r.remaining = (if marked then [byteOrderMark] else []) ++ text) : Follows r (unmark r) text := by
  cases pending : r.pending with
  | nil =>
    have none : r.remaining = [] := (remainingEof drained (some pending)).trans pending
    rw [none] at whole
    obtain ⟨-, rfl⟩ := List.append_eq_nil_iff.mp whole.symm
    have kept : unmark r = r := by
      rw [unmark, pending, List.head?_nil, if_neg (by simp), ← pending]
    rw [kept]
    exact ⟨none, drained, le_refl _⟩
  | cons c rest =>
    have front : r.remaining.head? = Option.some c := by simp [Reader.remaining, pending]
    cases marked with
    | true =>
      obtain rfl : byteOrderMark = c := by simpa [whole] using front
      have next := @dropFollows r drained 1 (by simp [pending])
      rw [whole] at next
      have dropped : unmark r = { r with pending := r.pending.drop 1 } := by simp [unmark, pending]
      rw [dropped]
      exact next
    | false =>
      have same : r.remaining = text := whole
      have kept : unmark r = r := by
        have other : Option.some c ≠ Option.some byteOrderMark := by
          rw [← front, same]
          exact unmarked
        rw [unmark, pending, List.head?_cons, if_neg other, ← pending]
      rw [kept]
      exact ⟨same, drained, le_refl _⟩

end Runs

section Fuel

theorem runLoopMore {dialect : SqlDialect} {executor : ScriptExecutor} {opts : RunScriptOptions} {fuel : Nat}
    (more : Nat) {s : RunState} {run : ScriptRun} (went : runLoop dialect executor opts fuel s = some run) :
    runLoop dialect executor opts (fuel + more) s = some run := by
  induction fuel generalizing s run with
  | zero => contradiction
  | succ fuel ih =>
    rw [Nat.add_right_comm]
    unfold runLoop at went ⊢
    cases turn : runTurn dialect executor opts s with
    | stop calls =>
      rw [turn] at went
      exact went
    | threw calls =>
      rw [turn] at went
      exact went
    | next s' calls =>
      rw [turn] at went
      obtain ⟨rest, tail, rfl⟩ := Option.map_eq_some_iff.mp went
      simp only [ih tail, Option.map_some]

theorem runOnce {dialect : SqlDialect} {executor : ScriptExecutor} {opts : RunScriptOptions} {m n : Nat}
    {s : RunState} {a b : ScriptRun} (first : runLoop dialect executor opts m s = some a)
    (second : runLoop dialect executor opts n s = some b) : a = b := by
  have left := runLoopMore n first
  rw [Nat.add_comm, runLoopMore m second] at left
  exact (Option.some.inj left).symm

end Fuel

section Files

structure CopyScript where
  text : Text
  blocks : List CopyBlock
  last : List Text
  script : Script text blocks last
  unmarked : text.head? ≠ some byteOrderMark

structure ScriptFile (script : CopyScript) where
  marked : Bool
  chunks : List Text
  ending : Text
  whole : chunks.flatten ++ ending = (if marked then [byteOrderMark] else []) ++ script.text

def RoutesCopies (executor : ScriptExecutor) (opts : RunScriptOptions) (script : CopyScript)
    (file : ScriptFile script) : Prop :=
  ∃ fuel run, runSqlScript .postgres executor opts file.chunks file.ending fuel = some run ∧
    Routed script.blocks script.last run

theorem copyBlocksRouted (executor : ScriptExecutor) (opts : RunScriptOptions) (script : CopyScript)
    (file : ScriptFile script) :
    TidyScript executor opts script.blocks script.last → RoutesCopies executor opts script file := by
  intro tidy
  have opened : Drained ⟨[], false, file.chunks, file.ending⟩ := fun never => nomatch never
  obtain ⟨filled, some⟩ := fillFirstFollows opened
  have whole : (Reader.mk [] false file.chunks file.ending).remaining =
      (if file.marked then [byteOrderMark] else []) ++ script.text := by
    simp [Reader.remaining, file.whole]
  rw [whole] at filled
  have start := unmarkedFollows filled.drained some script.unmarked filled.remaining
  have ready : Ready ⟨unmark (fillFirst ⟨[], false, file.chunks, file.ending⟩), .semicolon, minParseChars⟩
      script.blocks script.last := ⟨by rw [start.remaining]; exact script.script, rfl, start.drained⟩
  obtain ⟨run, went, routed⟩ := loopRoutes ready tidy (Nat.lt_succ_self _)
  exact ⟨_, run, went, routed⟩

def acceptsAll : ScriptExecutor := ⟨fun _ => false, fun _ lines => lines.length + 1, fun _ _ => false⟩
def stopsAtError : RunScriptOptions := ⟨false, 1000, List.length⟩

def copyOnly : Text := units "COPY t FROM stdin"
def commentLine : Text := units "-- Data\n"

theorem copyCopies : CopiesStdin (tokenize copyOnly postgres) :=
  ⟨by decide, [⟨.word, units "COPY", units "COPY", 0, 0⟩, ⟨.word, units "t", units "T", 5, 0⟩],
    ⟨.word, units "FROM", units "FROM", 7, 0⟩, ⟨.word, units "stdin", units "STDIN", 12, 0⟩, [],
    by decide, by decide, by decide⟩

theorem copyStated {lead : Text} (leads : Lead lead) : CopyStatement (lead ++ copyOnly) :=
  ⟨lead, copyOnly, rfl, leads, copyCopies⟩

def oneLine (statement : Text) : CopyBlock where
  before := []
  statement := statement
  gap := []
  lines := [units "1"]
  mark := units "\\."
  close := [newline]
  gapBare := by decide
  data := List.forall_mem_singleton.mpr ⟨by decide, by decide⟩
  ends := ⟨by decide, by decide⟩

def scriptText (statement : Text) : Text := statement ++ units ";\n1\n\\.\n"

def copyScript (lead : Text) (leads : Lead lead) (p q : Piece) (text : p.text = lead ++ copyOnly)
    (split : statementPieces (scriptText (lead ++ copyOnly)) = [p, q])
    (block : (scriptText (lead ++ copyOnly)).drop p.stop = units ";\n1\n\\.\n")
    (unmarked : (scriptText (lead ++ copyOnly)).head? ≠ some byteOrderMark) : CopyScript where
  text := scriptText (lead ++ copyOnly)
  blocks := [oneLine (lead ++ copyOnly)]
  last := []
  script := @Script.copy _ [] p [q] [] [] _ _ (oneLine (lead ++ copyOnly)) split rfl (by simp [oneLine]) text
    (copyStated leads) (by simp) block (Or.inl rfl) (.last (by simp [piecesNone]))
  unmarked := unmarked

def commented : CopyScript :=
  copyScript commentLine (@Lead.line (units "-- Data") _ (Or.inl (by decide)) (by decide) .nil)
    ⟨commentLine ++ copyOnly, 0, 25, .semicolon⟩ ⟨units "1\n\\.", 27, 31, .semicolon⟩ rfl (by decide) (by decide)
    (by decide)

def uncommented : CopyScript :=
  copyScript [] .nil ⟨copyOnly, 0, 17, .semicolon⟩ ⟨units "1\n\\.", 19, 23, .semicolon⟩ rfl (by decide) (by decide)
    (by decide)

def oneChunk (script : CopyScript) : ScriptFile script := ⟨false, [script.text], [], by simp⟩

theorem uncommentedRouted : RoutesCopies acceptsAll stopsAtError uncommented (oneChunk uncommented) :=
  copyBlocksRouted _ _ _ _ ⟨List.forall_mem_singleton.mpr ⟨by simp [oneLine], by decide, Or.inl rfl, rfl,
    fun never => nomatch never⟩, by simp [uncommented, copyScript]⟩

theorem oneChunkOpened {text : Text} (some : text ≠ []) : fillFirst ⟨[], false, [text], []⟩ = ⟨text, false, [], []⟩ := by
  rw [fillFirst, dif_pos ⟨rfl, rfl⟩, fillFirst, dif_neg (fun none => some none.2)]
  rfl

theorem commentedRun : runSqlScript .postgres acceptsAll stopsAtError [commented.text] [] 2 =
    some ⟨[.exec (commentLine ++ copyOnly), .exec (units "1\n\\.")], false⟩ := by
  rw [runSqlScript, oneChunkOpened (by decide)]
  decide

theorem commentedCopyRunAsSql : ¬ RoutesCopies acceptsAll stopsAtError commented (oneChunk commented) := by
  rintro ⟨fuel, run, went, routed⟩
  obtain rfl := runOnce went commentedRun
  exact absurd routed.front (by decide)

end Files

end DatabaseAdmin.DumpRunner
