import DatabaseAdmin.SqlFragments

/-! What the splitter makes of a statement that is written with its terminator. -/
namespace DatabaseAdmin.SqlScripts
open CodeUnits ScanLoop SqlFragments

variable {rules : DialectRules}

def begins : Text → Bool
  | c :: d :: _ => 65 ≤ c && c ≤ 90 && c != 69 && (c != 68 || d == 82)
  | _ => false

section Starts

theorem beginsPlain {c : Nat} {rest : Text} (head : begins (c :: rest) = true) :
    65 ≤ c ∧ c ≤ 90 ∧ c ≠ 69 := by
  cases rest with
  | nil => contradiction
  | cons d rest =>
    simp only [begins, Bool.and_eq_true, decide_eq_true_eq, bne_iff_ne] at head
    exact ⟨head.1.1.1, head.1.1.2, head.1.2⟩

theorem beginsOpens {c : CodeUnit} {rest : Text} (head : begins (c :: rest) = true) (before more : Text) :
    openerAt rules before (c :: (rest ++ more)) = none := by
  have range := beginsPlain head
  have apart (d : Nat) (other : d < 65 ∨ d = 69 ∨ 90 < d) : (c == d) = false := by
    rw [beq_eq_false_iff_ne]
    rintro rfl
    omega
  simp only [openerAt, apart ('-' : CodeUnit) (by decide), apart ('#' : CodeUnit) (by decide), apart ('/' : CodeUnit) (by decide),
    apart ('E' : CodeUnit) (by decide), apart ('e' : CodeUnit) (by decide), apart apostrophe (by decide),
    apart doubleQuote (by decide), apart backtick (by decide), apart ('[' : CodeUnit) (by decide),
    apart ('$' : CodeUnit) (by decide), Bool.and_false, Bool.false_and, Bool.or_self, Bool.false_eq_true, if_false]

theorem beginsInk {c : CodeUnit} {rest : Text} (head : begins (c :: rest) = true) : isSpace c = false := by
  have range := beginsPlain head
  simp only [isSpace, Bool.or_eq_false_iff, beq_eq_false_iff_ne, ne_eq]
  refine ⟨⟨⟨⟨⟨?_, ?_⟩, ?_⟩, ?_⟩, ?_⟩, ?_⟩ <;> rintro rfl <;> exact absurd range.1 (by decide)

theorem beginsQuiet {stmt : Text} (head : begins stmt = true) (s : SplitState) (before more : Text) :
    commandAt rules s before (stmt ++ more) = none := by
  have absent : delimiterCommandAt (stmt ++ more) = none := by
    match stmt, head with
    | c :: d :: rest, head =>
      simp only [begins, Bool.and_eq_true, decide_eq_true_eq, bne_iff_ne, Bool.or_eq_true, beq_iff_eq] at head
      have differs : ((c :: d :: rest ++ more).take delimiterKeyword.length).map lowerUnit ≠ delimiterKeyword := by
        intro same
        have first : lowerUnit c = 100 := by
          simpa [delimiterKeyword, units] using congrArg List.head? same
        have second : lowerUnit d = 101 := by
          have tails := congrArg (fun t => t.tail.head?) same
          simpa [delimiterKeyword, units] using tails
        rcases head.2 with other | letter
        · rw [lowerUnit, if_pos ⟨head.1.1.1, head.1.1.2⟩] at first
          exact other (Nat.add_right_cancel (m := 32) first)
        · subst letter
          exact absurd second (by decide)
      rw [delimiterCommandAt, if_pos differs]
  rw [commandAt, absent, ite_self]

end Starts

section Splitting

theorem inkKept {t : Text} {c : CodeUnit} (member : c ∈ t) (ink : isSpace c = false) : trimBy isSpace t ≠ [] := by
  intro empty
  obtain ⟨trail, split, white⟩ := trimBySplit isSpace t
  rw [empty, List.nil_append] at split
  rw [split, List.mem_append] at member
  rcases member with lead | after
  · simp [List.mem_takeWhile_imp lead] at ink
  · simp [white c after] at ink

theorem flushText {s : SplitState} {before : Text} (saw : s.sawContent = true) {c : CodeUnit}
    (member : c ∈ chunkOf s before) (ink : isSpace c = false) :
    (flush s before).map Piece.text = [trimBy isSpace (chunkOf s before)] := by
  have kept := inkKept member ink
  simp only [flush, saw, Bool.not_true, Bool.false_eq_true, if_false, if_neg kept, List.map_cons, List.map_nil]

theorem turnPlain {s : SplitState} {before more : Text} {c : CodeUnit} (ink : isSpace c = false)
    (quiet : commandAt rules s before (c :: more) = none) (plain : openerAt rules before (c :: more) = none)
    (inside : startsWith s.delimiter.text (c :: more) = false) :
    Config.next (splitStep rules) ⟨s, before, c :: more⟩ = ⟨{ s with sawContent := true }, c :: before, more⟩ ∧
      Stays rules ⟨s, before, c :: more⟩ := by
  have here : splitMove rules s before c more = .unit := by
    simp only [splitMove, ink, quiet, plain, inside, Bool.false_eq_true, if_false]
  refine ⟨?_, .move (by rw [here]; rfl)⟩
  simp [Config.next, splitStep, here]

theorem shownWalk {s : SplitState} {before more f : Text} {c : CodeUnit} (mark : s.delimiter = .semicolon)
    (ink : isSpace c = false) (other : c ≠ 59) (quiet : ∀ s, commandAt rules s before (c :: (f ++ more)) = none)
    (plain : openerAt rules before (c :: (f ++ more)) = none) (inert : Inert rules (c :: f))
    (front : Seam before.reverse (c :: f)) (back : Seam (c :: f) more) :
    Walk rules ⟨s, before, c :: f ++ more⟩ ⟨{ s with sawContent := true }, (c :: f).reverse ++ before, more⟩ := by
  have inside : startsWith s.delimiter.text (c :: (f ++ more)) = false := by
    rw [mark, Bool.eq_false_iff, ne_eq, startsWithIff]
    intro stands
    exact other (List.cons_prefix_cons.mp stands).1.symm
  have opened := turnPlain ink (quiet s) plain inside
  have shown := turnPlain ink (quiet { s with sawContent := true }) plain inside
  have walk := inert { s with sawContent := true } before more rfl mark front back
  have tail := (walk.head (by simp only [List.length_append, List.length_cons]; omega)).2
  refine .step opened.2 ?_
  rw [List.cons_append, opened.1]
  rwa [List.cons_append, shown.1] at tail

theorem statementWalk {s : SplitState} {before more stmt : Text} (mark : s.delimiter = .semicolon) (head : begins stmt = true)
    (inert : Inert rules stmt) (front : Seam before.reverse stmt) (back : Seam stmt more) :
    Walk rules ⟨s, before, stmt ++ more⟩ ⟨{ s with sawContent := true }, stmt.reverse ++ before, more⟩ := by
  cases stmt with
  | nil => contradiction
  | cons c stmt =>
    have range := beginsPlain head
    refine shownWalk mark (beginsInk head) ?_ (fun s => beginsQuiet head s before more)
      (beginsOpens head before more) inert front back
    rintro rfl
    exact absurd range.1 (by decide)

theorem terminated {s : SplitState} {before more : Text} (saw : s.sawContent = true) (mark : s.delimiter = .semicolon) :
    Path (splitStep rules) ⟨s, before, 59 :: more⟩ (flush s before) ⟨fresh .semicolon (before.length + 1), 59 :: before, more⟩ := by
  have quiet : commandAt rules s before (59 :: more) = none := by simp [commandAt, saw]
  have plain : openerAt rules before (59 :: more) = none := jointOpens rfl before more
  have ends : startsWith s.delimiter.text (59 :: more) = true := by
    rw [mark, startsWithIff]
    exact ⟨more, rfl⟩
  have here : splitMove rules s before 59 more = .terminator := by
    simp only [splitMove, quiet, plain, ends]
    rfl
  have turn : Path (splitStep rules) ⟨s, before, 59 :: more⟩ _ _ := .turn (by simp) (.refl _)
  have out : Config.out (splitStep rules) ⟨s, before, 59 :: more⟩ = flush s before := by
    simp only [Config.out, splitStep, here]
  have next : Config.next (splitStep rules) ⟨s, before, 59 :: more⟩ =
      ⟨fresh .semicolon (before.length + 1), 59 :: before, more⟩ := by
    simp [Config.next, splitStep, here, mark, fresh, Delimiter.semicolon]
  rwa [out, next, List.append_nil] at turn

theorem statementPath {start : Nat} {before more stmt : Text} (opened : start ≤ before.length) (head : begins stmt = true)
    (inert : Inert rules stmt) (front : Seam before.reverse stmt) :
    ∃ outs, Path (splitStep rules) ⟨fresh .semicolon start, before, stmt ++ 59 :: more⟩ outs
        ⟨fresh .semicolon (stmt.reverse ++ before).length.succ, 59 :: (stmt.reverse ++ before), more⟩ ∧
      outs.map Piece.text = [trimBy isSpace (chunkOf (fresh .semicolon start) before ++ stmt)] := by
  have walk := @statementWalk rules (fresh .semicolon start) before (59 :: more) stmt rfl head inert front (seamLeads (by rfl : leads (59 :: more) = true))
  refine ⟨_, walk.path.trans (terminated rfl rfl), ?_⟩
  have chunk : chunkOf { fresh .semicolon start with sawContent := true } (stmt.reverse ++ before) =
      chunkOf (fresh .semicolon start) before ++ stmt := chunkPush opened rfl stmt
  rw [List.nil_append, ← chunk]
  cases stmt with
  | nil => contradiction
  | cons c stmt =>
    exact flushText rfl (by rw [chunk]; exact List.mem_append_right _ List.mem_cons_self) (beginsInk head)

end Splitting

end DatabaseAdmin.SqlScripts
