import DatabaseAdmin.SplitStability

/-! Cutting a buffer at its last statement. What is split before the cut stays, and the
text from the cut on splits by itself as it did behind the cut, unless a place of the run
is a hazard: a statement that starts in mid-line with what reads as a `DELIMITER` line, a
delimiter that is itself wrapped in quotes, or a delimiter made of letters of the keyword. -/
namespace DatabaseAdmin
open CodeUnits ScanLoop

def cutHazard (rules : DialectRules) (s : SplitState) (before rest : Text) : Bool :=
  rules.delimiterCommand && !s.sawContent && decide (0 < s.chunkStart) &&
    (chunkOf s before).all isSpace && rest.head?.all (fun c => !isSpace c) &&
    (decide (stripQuotePair s.delimiter.text ≠ s.delimiter.text) ||
      (delimiterCommandAt rest).isSome && !atLineStart before)

def hazardHere (rules : DialectRules) (s : SplitState) (before rest : Text) : List Nat :=
  if keywordHazard rules s before rest || cutHazard rules s before rest then [before.length] else []

def hazards (rules : DialectRules) (c : SplitConfig) : List Nat :=
  runAt (relabel (hazardHere rules) (splitStep rules)) (fun _ _ => []) c

section Hazards
variable {rules : DialectRules}

theorem hazardFree {s : SplitState} {before rest : Text}
    (safe : hazardHere rules s before rest = []) :
    keywordHazard rules s before rest = false ∧ cutHazard rules s before rest = false := by
  unfold hazardHere at safe
  split at safe
  · contradiction
  · rename_i none
    simpa only [Bool.or_eq_true, not_or, Bool.not_eq_true] using none

theorem hazardsReach {start c : SplitConfig} (safe : hazards rules start = [])
    (reach : Reaches rules start c) (some : c.rest ≠ []) :
    hazardHere rules c.state c.before c.rest = [] := by
  obtain ⟨outs, path⟩ := reach
  have progress := relabelProgress (hazardHere rules) (splitProgress rules)
  induction path with
  | refl c =>
    rw [hazards, runAtNext progress _ some] at safe
    exact (List.append_eq_nil_iff.mp safe).1
  | turn some' _ ih =>
    rw [hazards, runAtNext progress _ some'] at safe
    exact ih (List.append_eq_nil_iff.mp safe).2 some

theorem hazardsNone {start : SplitConfig} (safe : ∀ c, Reaches rules start c → c.rest ≠ [] →
    hazardHere rules c.state c.before c.rest = []) : hazards rules start = [] := by
  have progress := relabelProgress (hazardHere rules) (splitProgress rules)
  induction start using passInduction progress with
  | stop s before => rfl
  | turn c some ih =>
    have later := ih (fun c' reach => safe c' (by
      obtain ⟨outs, path⟩ := reach
      exact ⟨_, .turn some path⟩))
    rw [hazards, runAtNext progress _ some]
    exact List.append_eq_nil_iff.mpr ⟨safe c ⟨[], .refl c⟩ some, later⟩

theorem hazardsOff (off : rules.delimiterCommand = false) (start : SplitConfig) :
    hazards rules start = [] := by
  refine hazardsNone (fun c _ _ => ?_)
  simp [hazardHere, keywordHazard, cutHazard, commandAt, off]

theorem hazardAlike {shift : Nat} {c c' : SplitConfig} (alike : Alike rules shift c c')
    (safe : hazardHere rules c.state c.before c.rest = []) :
    hazardHere rules c'.state c'.before c'.rest = [] := by
  have keyword : keywordHazard rules c'.state c'.before c'.rest =
      keywordHazard rules c.state c.before c.rest := by
    simp only [keywordHazard, alikeCommand alike]
    rw [alike.rest, alike.delimiter]
  have cut (here : cutHazard rules c'.state c'.before c'.rest = true) :
      cutHazard rules c.state c.before c.rest = true := by
    simp only [cutHazard, Bool.and_eq_true, decide_eq_true_eq] at here ⊢
    obtain ⟨⟨⟨⟨⟨on, unseen⟩, later⟩, white⟩, ink⟩, hazard⟩ := here
    obtain ⟨lead, leadWhite, chunk, short⟩ := alike.chunk
    have size := chunkSize alike.within.1
    have size' := chunkSize alike.within.2
    have sizes := alike.size
    have lengths := congrArg List.length chunk
    rw [List.length_append] at lengths
    refine ⟨⟨⟨⟨⟨on, ?_⟩, by omega⟩, ?_⟩, ?_⟩, ?_⟩
    · rw [alike.saw]
      exact unseen
    · rw [chunk, List.all_append, white, Bool.and_true]
      simpa using leadWhite
    · rw [alike.rest]
      exact ink
    · rw [alike.delimiter, alike.rest]
      rcases alike.line on with same | ⟨none, _⟩
      · rw [same]
        exact hazard
      · rw [← alike.rest, none] at hazard
        rw [← alike.rest, none]
        simpa using hazard
  have quiet := hazardFree safe
  rw [hazardHere, keyword, quiet.1, Bool.false_or]
  split
  · rename_i here
    rw [cut here] at quiet
    exact absurd quiet.2 (by simp)
  · rfl

theorem onlyOne {items ps : List Piece} {last : Piece} (short : items.length ≤ 1)
    (parsed : items = ps ++ [last]) : ps = [] := by
  rw [parsed, List.length_append, List.length_singleton] at short
  exact List.length_eq_zero_iff.mp (by omega)

theorem lastPiece {Opens : SplitConfig → Prop} {origin : SplitConfig}
    (later : ∀ c, Reaches rules origin c → c.rest ≠ [] → ¬ Stays rules c →
      Opens (c.next (splitStep rules))) {last : Piece} (c : SplitConfig) :
    ∀ {c0 : SplitConfig} {outs ps : List Piece}, Path (splitStep rules) origin outs c0 → Opens c0 →
      Walk rules c0 c → runAt (splitStep rules) flush c = ps ++ [last] →
      ∃ c0' z, Path (splitStep rules) origin (outs ++ ps) c0' ∧ Opens c0' ∧ Walk rules c0' z ∧
        last ∈ flush z.state z.before := by
  induction c using passInduction (splitProgress rules) with
  | stop s before =>
    intro c0 outs ps path opens walk parsed
    rw [runAtEnd] at parsed
    obtain rfl : ps = [] := onlyOne (flushOne s before) parsed
    rw [List.append_nil]
    exact ⟨c0, _, path, opens, walk, by rw [parsed]; simp⟩
  | turn c some ih =>
    intro c0 outs ps path opens walk parsed
    rw [runAtNext (splitProgress rules) _ some] at parsed
    by_cases here : Stays rules c
    · rw [(staysNext here).2.1, List.nil_append] at parsed
      exact ih path opens (walk.snoc here) parsed
    · have along := path.trans walk.path
      rw [List.append_nil] at along
      have next := along.trans (.turn some (.refl _))
      rw [List.append_nil] at next
      rcases List.eq_nil_or_concat' (runAt (splitStep rules) flush (c.next (splitStep rules)))
        with none | ⟨qs, q, tail⟩
      · rw [none, List.append_nil] at parsed
        obtain rfl : ps = [] := onlyOne (outOne c) parsed
        rw [List.append_nil]
        exact ⟨c0, c, path, opens, walk, (leaveOut (by rw [parsed]; simp)).1⟩
      · rw [tail, ← List.append_assoc] at parsed
        obtain ⟨rfl, same⟩ := List.append_inj' parsed rfl
        cases same
        have found := ih next (later c ⟨_, along⟩ some here) (.refl _) tail
        rwa [List.append_assoc] at found

theorem spacePath {s : SplitState} (lead rest : Text) : ∀ before : Text,
    (∀ d ∈ lead, isSpace d = true) →
    Path (splitStep rules) ⟨s, before, lead ++ rest⟩ [] ⟨s, lead.reverse ++ before, rest⟩ := by
  induction lead with
  | nil => exact fun before _ => .refl _
  | cons d lead ih =>
    intro before white
    have next : Config.next (splitStep rules) ⟨s, before, d :: lead ++ rest⟩ =
        ⟨s, d :: before, lead ++ rest⟩ := staySpace (white d (by simp))
    have out : Config.out (splitStep rules) ⟨s, before, d :: lead ++ rest⟩ = [] := by
      simp [Config.out, splitStep, splitMove, white d (by simp)]
    have tail := ih (d :: before) (fun e member => white e (by simp [member]))
    rw [← next] at tail
    have turn := Path.turn (by simp) tail
    rw [out] at turn
    simpa using turn

structure OpensFresh (rules : DialectRules) (c : SplitConfig) : Prop where
  start : c.state.chunkStart = c.before.length
  unseen : c.state.sawContent = false
  look : SameLook rules [] c.before
  mark : rules.delimiterCommand = false → c.state.delimiter = .semicolon

structure Cut (rules : DialectRules) (b e : Text) (last : Piece) : Prop where
  positive : 0 < last.start
  inside : last.start < b.length
  safe : hazards rules ⟨fresh last.delimiter 0, [], b.drop last.start ++ e⟩ = []
  bare : rules.delimiterCommand = true →
    stripQuotePair last.delimiter.text = last.delimiter.text
  mark : rules.delimiterCommand = false → last.delimiter = .semicolon

theorem cutHere (coherent : Coherent rules) {delimiter : Delimiter} {b e : Text} {ps : List Piece}
    {last : Piece} (mark : rules.delimiterCommand = false → delimiter = .semicolon)
    (parsed : pieces rules delimiter b = ps ++ [last]) (some : ps ≠ [])
    (safe : hazards rules ⟨fresh delimiter 0, [], b ++ e⟩ = []) :
    Cut rules b e last ∧ pieces rules delimiter (b ++ e) =
      ps ++ (pieces rules last.delimiter (b.drop last.start ++ e)).map (Piece.shift last.start) := by
  obtain ⟨c0, z, path, opens, walk, out⟩ : ∃ c0 z,
      Path (splitStep rules) ⟨fresh delimiter 0, [], b⟩ ps c0 ∧ OpensFresh rules c0 ∧
        Walk rules c0 z ∧ last ∈ flush z.state z.before := by
    refine lastPiece (fun c reach some leaves => ?_) _ (.refl _)
      (show OpensFresh rules _ from ⟨rfl, rfl, fun _ => rfl, mark⟩) (.refl _) parsed
    have fresh := leavesNext some leaves
    have opens := chunkOpensLater coherent.plain reach mark some leaves
    exact ⟨fresh.1, fresh.2, opens.2, fun off =>
      (nextDelimiter off c).trans ((fixedDelimiter off reach).trans (mark off))⟩
  obtain ⟨lead, trail, rest, leadWhite, trailWhite, start, textSome, ink, named⟩ :=
    flushedChunk walk opens.start out
  have whole : c0.before.reverse ++ c0.rest = b := path.text
  have longer : 0 < c0.before.length := (path.longer (splitProgress rules)).2 some
  have cut : b.drop last.start = last.text ++ (trail ++ z.rest) := by
    have size : last.start = (c0.before.reverse ++ lead).length := by simp [start]
    rw [← whole, rest, ← List.append_assoc, size, List.drop_left]
  have restSome : c0.rest ≠ [] := by
    rw [rest]
    simp [textSome]
  have grown := pathGrows coherent e path (Nat.zero_le _) opens.start (Or.inl restSome) mark
    (fun c reach some => (hazardFree (hazardsReach safe reach some)).1)
  have spaces : Path (splitStep rules) ⟨c0.state, c0.before, lead ++ (b.drop last.start ++ e)⟩ []
      ⟨c0.state, lead.reverse ++ c0.before, b.drop last.start ++ e⟩ :=
    spacePath _ _ _ leadWhite
  have there : grow e c0 = ⟨c0.state, c0.before, lead ++ (b.drop last.start ++ e)⟩ := by
    simp only [grow, rest, cut, List.append_assoc]
  have along := grown.trans (there ▸ spaces)
  rw [List.append_nil] at along
  have cutSome : b.drop last.start ++ e ≠ [] := by simp [cut, textSome]
  have cutInk : ∀ d ∈ (b.drop last.start ++ e).head?, isSpace d = false := by
    intro d head
    rw [cut, List.append_assoc, List.head?_append_of_ne_nil _ textSome] at head
    exact ink d head
  have quiet := hazardFree (hazardsReach safe ⟨_, along⟩ cutSome)
  have chunk : chunkOf c0.state (lead.reverse ++ c0.before) = lead := by
    rw [chunkPush opens.start.le rfl, chunkFresh opens.start, List.nil_append]
  have bare : rules.delimiterCommand = true →
      stripQuotePair last.delimiter.text = last.delimiter.text ∧
      ((delimiterCommandAt (b.drop last.start ++ e)).isSome = true →
        atLineStart (lead.reverse ++ c0.before) = true) := by
    intro on
    have free := quiet.2
    have white : lead.all isSpace = true := by simpa using leadWhite
    have inked : (b.drop last.start ++ e).head?.all (fun c => !isSpace c) = true := by
      cases head : (b.drop last.start ++ e).head? with
      | none => rfl
      | some d => simp [cutInk d head]
    have later : 0 < c0.state.chunkStart := by
      rw [opens.start]
      exact longer
    simp only [cutHazard, on, opens.unseen, chunk, white, inked, later, decide_true, Bool.not_false,
      Bool.and_self, Bool.true_and, Bool.or_eq_false_iff, decide_eq_false_iff_not, not_not] at free
    rw [named]
    refine ⟨free.1, fun read => ?_⟩
    have line := free.2
    rw [read, Bool.true_and] at line
    simpa using line
  have alike : Alike rules last.start ⟨c0.state, lead.reverse ++ c0.before, b.drop last.start ++ e⟩
      ⟨fresh last.delimiter 0, [], b.drop last.start ++ e⟩ := by
    refine ⟨rfl, named.symm, opens.unseen, ?_, ⟨?_, Nat.zero_le _⟩, ⟨lead, leadWhite, ?_, ?_⟩, ?_, ?_⟩
    · simp [start]
      omega
    · simp [Within, opens.start]
    · rw [chunk]
      simp [chunkOf]
    · omega
    · have look := leadLook opens.look leadWhite
      exact fun prefixed => (look prefixed).symm
    · intro on
      cases read : delimiterCommandAt (b.drop last.start ++ e) with
      | none => exact Or.inr ⟨rfl, cutInk⟩
      | some cmd => exact Or.inl ((bare on).2 (by rw [read]; rfl))
  refine ⟨⟨by omega, ?_, ?_, fun on => (bare on).1, fun off => named.trans (opens.mark off)⟩, ?_⟩
  · by_contra beyond
    rw [List.drop_eq_nil_of_le (by omega)] at cut
    simp [textSome] at cut
  · refine hazardsNone (fun c' reach some => ?_)
    obtain ⟨c, ⟨outs, path⟩, same⟩ := alikeReach reach alike
    exact hazardAlike same (hazardsReach safe ⟨_, along.trans path⟩ (same.rest ▸ some))
  · have run := runPath (splitProgress rules) flush along
    exact run.trans (congrArg (ps ++ ·) (alikeRun _ alike))

end Hazards

end DatabaseAdmin
