import DatabaseAdmin.DumpRunner

/-! The lines of a COPY block as the runner reads them. What is read depends on the text that
remains, not on the chunks it comes in. -/
namespace DatabaseAdmin.DumpRunner
open CodeUnits

section Lines

def Drained (r : Reader) : Prop := r.eof = true → r.chunks = []

structure Follows (r r' : Reader) (text : Text) : Prop where
  remaining : r'.remaining = text
  drained : Drained r'
  fills : r'.fills ≤ r.fills

theorem followsTrans {a b c : Reader} {s t : Text} (first : Follows a b s) (second : Follows b c t) : Follows a c t :=
  ⟨second.remaining, second.drained, second.fills.trans first.fills⟩

theorem fillFollows {r : Reader} (more : r.eof = false) : Follows r r.fill r.remaining := by
  have less := fillsLess more
  obtain ⟨pending, eof, chunks, ending⟩ := r
  obtain rfl : eof = false := more
  cases chunks with
  | nil => exact ⟨by simp [Reader.fill, Reader.remaining], fun _ => rfl, less.le⟩
  | cons chunk chunks => exact ⟨by simp [Reader.fill, Reader.remaining], (fun on => by cases on), less.le⟩

theorem dropFollows {r : Reader} (drained : Drained r) {n : Nat} (short : n ≤ r.pending.length) :
    Follows r { r with pending := r.pending.drop n } (r.remaining.drop n) :=
  ⟨by simp [Reader.remaining, List.drop_append_of_le_length short], drained, le_refl _⟩

theorem firstLine {a b s t : Text} (bareA : newline ∉ a) (bareB : newline ∉ b)
    (same : a ++ newline :: s = b ++ newline :: t) : a = b ∧ s = t := by
  have stops : ∀ {a s : Text}, newline ∉ a → (a ++ newline :: s).takeWhile (· ≠ newline) = a := fun bare =>
    takeWhileStops (fun c here => by simpa using fun (at_ : c = newline) => bare (at_ ▸ here)) (by simp)
  have front : a = b := by rw [← stops bareA, same, stops bareB]
  exact ⟨front, (List.cons.inj (List.append_cancel_left (front ▸ same))).2⟩

theorem noLine {r : Reader} (drained : Drained r) (none : indexOf (units "\n") r.pending = none)
    (eof : ¬ r.eof = false) {line rest : Text} : r.remaining ≠ line ++ newline :: rest := by
  have ended : r.eof = true := by simpa using eof
  have absent : newline ∉ r.remaining := by
    simpa [Reader.remaining, ended, drained ended] using indexOfAbsent (c := newline) none
  rintro ahead
  exact absent (by rw [ahead]; simp)

theorem pendingLine {r : Reader} (drained : Drained r) {line rest : Text} (bare : newline ∉ line)
    (ahead : r.remaining = line ++ newline :: rest) {n : Nat} (found : indexOf (units "\n") r.pending = some n) :
    r.pending.take n = line ∧ r.pending.take (n + 1) = line ++ [newline] ∧
      Follows r { r with pending := r.pending.drop (n + 1) } rest := by
  obtain ⟨absent, split⟩ := indexOfUnit (c := newline) found
  have short : n + 1 ≤ r.pending.length := (indexOfFits found).2
  have whole : r.remaining = r.pending.take n ++ newline :: (r.pending.drop (n + 1) ++
      (r.chunks.flatten ++ if r.eof then [] else r.ending)) := by
    conv_lhs => rw [Reader.remaining, split]
    simp
  obtain ⟨front, behind⟩ := firstLine absent bare (whole.symm.trans ahead)
  have whole : r.pending.take (n + 1) = r.pending.take n ++ [newline] := by
    conv_lhs => rw [split, List.append_cons, List.take_left' (by simp; omega)]
  have size : line.length = n := by
    rw [← front, List.length_take]
    omega
  have next := dropFollows drained short
  rw [ahead, ← size, dropPast, size] at next
  exact ⟨front, by rw [whole, front], next⟩

theorem nextLineReads {r : Reader} (drained : Drained r) {line rest : Text} (bare : newline ∉ line)
    (ahead : r.remaining = line ++ newline :: rest) :
    ∃ r', nextLine r = (if chomp line = copyTerminator then none else some (line ++ [newline]), r') ∧
      Follows r r' rest := by
  induction r using nextLine.induct with
  | case1 r nl found ends =>
    obtain ⟨same, -, next⟩ := pendingLine drained bare ahead found
    rw [same] at ends
    refine ⟨_, ?_, next⟩
    rw [nextLine, found]
    simp only [same, if_pos ends]
  | case2 r nl found other =>
    obtain ⟨same, whole, next⟩ := pendingLine drained bare ahead found
    rw [same] at other
    refine ⟨_, ?_, next⟩
    rw [nextLine, found]
    simp only [same, whole, if_neg other]
  | case3 r none more ih =>
    have filled := fillFollows more
    obtain ⟨r', read, next⟩ := ih filled.drained (filled.remaining.trans ahead)
    refine ⟨r', ?_, followsTrans filled next⟩
    rw [nextLine, none]
    simp only [dif_pos more, read]
  | case4 r none eof empty =>
    exact absurd ahead (noLine drained none eof)
  | case5 r none eof some =>
    exact absurd ahead (noLine drained none eof)

end Lines

section Blocks

def lineEnded (line : Text) : Text := line ++ [newline]

structure DataLine (line : Text) : Prop where
  bare : newline ∉ line
  data : chomp line ≠ copyTerminator

structure EndMark (mark : Text) : Prop where
  bare : newline ∉ mark
  ends : chomp mark = copyTerminator

def blockText (lines : List Text) (mark after : Text) : Text :=
  (lines.map lineEnded).flatten ++ (mark ++ newline :: after)

variable {lines : List Text} {mark after : Text}

theorem lineReads {r : Reader} (drained : Drained r) {line : Text} (data : DataLine line)
    (ahead : r.remaining = blockText (line :: lines) mark after) :
    ∃ r', nextLine r = (some (lineEnded line), r') ∧ Follows r r' (blockText lines mark after) := by
  have split : r.remaining = line ++ newline :: blockText lines mark after := by
    simp [ahead, blockText, lineEnded]
  obtain ⟨r', read, next⟩ := nextLineReads drained data.bare split
  exact ⟨r', by rw [read, if_neg data.data]; rfl, next⟩

theorem markReads {r : Reader} (drained : Drained r) (ends : EndMark mark)
    (ahead : r.remaining = blockText [] mark after) : ∃ r', nextLine r = (none, r') ∧ Follows r r' after := by
  have split : r.remaining = mark ++ newline :: after := ahead
  obtain ⟨r', read, next⟩ := nextLineReads drained ends.bare split
  exact ⟨r', by rw [read, if_pos ends.ends], next⟩

theorem pullReads (data : ∀ line ∈ lines, DataLine line) (ends : EndMark mark) (n : Nat) {r : Reader}
    (drained : Drained r) (ahead : r.remaining = blockText lines mark after) :
    ∃ r', pull n r = ((lines.take n).map lineEnded, r', decide (lines.length < n)) ∧
      Follows r r' (if lines.length < n then after else blockText (lines.drop n) mark after) := by
  induction n generalizing lines r with
  | zero => exact ⟨r, by simp [pull], by simpa using ahead, drained, le_refl _⟩
  | succ n ih =>
    cases lines with
    | nil =>
      obtain ⟨r', read, next⟩ := markReads drained ends ahead
      exact ⟨r', by simp [pull, read], by simpa using next⟩
    | cons line lines =>
      obtain ⟨r', read, next⟩ := lineReads drained (data line (by simp)) ahead
      obtain ⟨r'', pulled, last⟩ := ih (fun l here => data l (by simp [here])) next.drained next.remaining
      refine ⟨r'', by simp [pull, read, pulled], ?_⟩
      simpa using followsTrans next last

theorem blockLong (lines : List Text) (mark after : Text) : lines.length < (blockText lines mark after).length + 1 := by
  induction lines with
  | nil => simp
  | cons line lines ih =>
    simp only [blockText, List.map_cons, List.flatten_cons, List.length_append, List.length_cons, lineEnded] at ih ⊢
    omega

theorem pullBlockReads (data : ∀ line ∈ lines, DataLine line) (ends : EndMark mark) {r : Reader}
    (drained : Drained r) (ahead : r.remaining = blockText lines mark after) :
    ∃ r', pullBlock r = (lines.map lineEnded, r', true) ∧ Follows r r' after := by
  have long : lines.length < r.remaining.length + 1 := by
    rw [ahead]
    exact blockLong lines mark after
  obtain ⟨r', pulled, next⟩ := pullReads data ends (r.remaining.length + 1) drained ahead
  refine ⟨r', ?_, by rwa [if_pos long] at next⟩
  rw [pullBlock, pulled, List.take_of_length_le (by omega), decide_eq_true long]

theorem copyBlockReads (data : ∀ line ∈ lines, DataLine line) (ends : EndMark mark) {r : Reader}
    (drained : Drained r) (ahead : r.remaining = blockText lines mark after) (executor : ScriptExecutor) (sql : Text) :
    ∃ r', consumeCopyBlock executor sql r =
        ⟨lines.map lineEnded, r', executor.copyThrows sql (lines.map lineEnded)⟩ ∧
      ((executor.copyThrows sql (lines.map lineEnded) = true →
        lines.length < executor.asks sql (lines.map lineEnded)) → Follows r r' after) := by
  obtain ⟨_, whole, -⟩ := pullBlockReads data ends drained ahead
  obtain ⟨r', pulled, next⟩ := pullReads data ends (executor.asks sql (lines.map lineEnded)) drained ahead
  simp only [consumeCopyBlock, whole, pulled]
  cases threw : executor.copyThrows sql (lines.map lineEnded) with
  | true =>
    refine ⟨r', rfl, fun asked => ?_⟩
    rwa [if_pos (asked rfl)] at next
  | false =>
    by_cases asked : lines.length < executor.asks sql (lines.map lineEnded)
    · rw [if_pos asked] at next
      exact ⟨r', by simp [asked], fun _ => next⟩
    · rw [if_neg asked] at next
      obtain ⟨r'', rest, last⟩ :=
        pullBlockReads (fun l here => data l (List.mem_of_mem_drop here)) ends next.drained next.remaining
      exact ⟨r'', by simp [asked, rest], fun _ => followsTrans next last⟩

end Blocks

end DatabaseAdmin.DumpRunner
