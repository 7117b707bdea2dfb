import DatabaseAdmin.SplitAgreement
import DatabaseAdmin.SplitCut
import DatabaseAdmin.SqlFragments

/-! What the statements of a script are made of: ordered slices of it, outside of which only
comments, terminators and DELIMITER lines stand. -/
namespace DatabaseAdmin
open CodeUnits ScanLoop

section Lines
variable {starts : List Nat} (offset : Nat)

theorem getDAt {k : Nat} (inside : k < starts.length) : starts.getD k 0 = starts[k] := by
  simp [List.getD_eq_getElem?_getD, inside]

theorem lineSearchFinds (ascending : starts.Pairwise (· < ·)) (fuel lo hi : Nat)
    (enough : hi - lo ≤ fuel) (ordered : lo ≤ hi) (inside : hi < starts.length)
    (below : starts.getD lo 0 ≤ offset)
    (above : ∀ j, hi < j → j < starts.length → offset < starts.getD j 0) :
    lineSearch starts offset fuel lo hi < starts.length
      ∧ starts.getD (lineSearch starts offset fuel lo hi) 0 ≤ offset
      ∧ ∀ j, lineSearch starts offset fuel lo hi < j → j < starts.length → offset < starts.getD j 0 := by
  induction fuel generalizing lo hi with
  | zero =>
    have same : hi = lo := by omega
    subst same
    exact ⟨inside, below, above⟩
  | succ fuel ih =>
    simp only [lineSearch]
    split
    · split
      · rename_i reached
        exact ih _ _ (by omega) (by omega) inside reached above
      · rename_i past
        refine ih _ _ (by omega) (by omega) (by omega) below fun j beyond within => ?_
        by_cases later : (lo + hi + 1) / 2 < j
        · have first : (lo + hi + 1) / 2 < starts.length := by omega
          have rising := List.pairwise_iff_getElem.mp ascending _ _ first within later
          rw [getDAt first] at past
          rw [getDAt within]
          omega
        · have same : j = (lo + hi + 1) / 2 := by omega
          subst same
          omega
    · have same : hi = lo := by omega
      subst same
      exact ⟨inside, below, above⟩

theorem lineStartsAfter (sql : Text) (n : Nat) :
    (((sql.zipIdx n).filter (fun unit : CodeUnit × Nat => unit.1 == '\n')).map (fun unit => unit.2 + 1)).Pairwise (· < ·)
      ∧ (∀ start ∈ ((sql.zipIdx n).filter (fun unit : CodeUnit × Nat => unit.1 == '\n')).map (fun unit => unit.2 + 1),
        n < start)
      ∧ (((sql.zipIdx n).filter (fun unit : CodeUnit × Nat => unit.1 == '\n')).map (fun unit => unit.2 + 1)).countP
        (fun start => decide (start ≤ offset)) = (sql.take (offset - n)).count newline := by
  induction sql generalizing n with
  | nil => simp
  | cons c rest ih =>
    obtain ⟨rising, past, counted⟩ := ih (n + 1)
    rw [List.zipIdx_cons]
    by_cases broken : c = newline
    · subst broken
      have kept : ((newline, n).1 == (('\n' : Char) : CodeUnit)) = true := rfl
      simp only [List.filter_cons, kept, if_true, List.map_cons, List.pairwise_cons, List.mem_cons,
        List.countP_cons, counted]
      refine ⟨⟨fun start later => past start later, rising⟩, ?_, ?_⟩
      · rintro start (rfl | later)
        · omega
        · have := past start later
          omega
      · by_cases reached : n + 1 ≤ offset
        · have size : offset - n = offset - (n + 1) + 1 := by omega
          rw [size, List.take_succ_cons, List.count_cons]
          simp [reached]
        · have none : offset - n = 0 := by omega
          have none' : offset - (n + 1) = 0 := by omega
          simp [none, none', reached]
    · have dropped : ((c, n).1 == (('\n' : Char) : CodeUnit)) = false := by
        simpa using broken
      simp only [List.filter_cons, dropped, Bool.false_eq_true, if_false]
      refine ⟨rising, fun start later => ?_, ?_⟩
      · have := past start later
        omega
      · rw [counted]
        by_cases reached : n + 1 ≤ offset
        · have size : offset - n = offset - (n + 1) + 1 := by omega
          rw [size, List.take_succ_cons, List.count_cons]
          simp [broken]
        · have none : offset - n = 0 := by omega
          have none' : offset - (n + 1) = 0 := by omega
          simp [none, none']

theorem countReached {k : Nat} (ascending : starts.Pairwise (· < ·)) (inside : k < starts.length)
    (below : starts.getD k 0 ≤ offset)
    (above : ∀ j, k < j → j < starts.length → offset < starts.getD j 0) :
    starts.countP (fun start => decide (start ≤ offset)) = k + 1 := by
  have reached : (starts.take (k + 1)).countP (fun start => decide (start ≤ offset)) = k + 1 := by
    have size : (starts.take (k + 1)).length = k + 1 := by
      rw [List.length_take]
      omega
    rw [List.countP_eq_length.mpr, size]
    intro start early
    obtain ⟨i, within, rfl⟩ := List.mem_take_iff_getElem.mp early
    rw [getDAt inside] at below
    have later : starts[i] ≤ starts[k] := by
      rcases Nat.lt_or_ge i k with before | same
      · exact (List.pairwise_iff_getElem.mp ascending i k (by omega) inside before).le
      · have : i = k := by omega
        subst this
        exact Nat.le_refl _
    simpa using later.trans below
  have rest : (starts.drop (k + 1)).countP (fun start => decide (start ≤ offset)) = 0 := by
    refine List.countP_eq_zero.mpr fun start late => ?_
    obtain ⟨i, within, rfl⟩ := List.mem_iff_getElem.mp late
    rw [List.length_drop] at within
    have past := above (k + 1 + i) (by omega) (by omega)
    rw [getDAt (by omega)] at past
    simpa using past
  conv_lhs => rw [← List.take_append_drop (k + 1) starts]
  rw [List.countP_append, reached, rest]

theorem lineAtCounts (sql : Text) :
    lineAt (lineStarts sql) offset = (sql.take offset).count newline + 1 := by
  obtain ⟨rising, past, counted⟩ := lineStartsAfter offset sql 0
  have ascending : (lineStarts sql).Pairwise (· < ·) := List.pairwise_cons.mpr ⟨past, rising⟩
  have some' : 0 < (lineStarts sql).length := by simp [lineStarts]
  obtain ⟨inside, below, above⟩ := lineSearchFinds offset ascending (lineStarts sql).length 0
    ((lineStarts sql).length - 1) (by omega) (by omega) (by omega) (by simp [lineStarts])
    (fun j beyond within => by omega)
  have whole := countReached offset ascending inside below above
  unfold lineAt
  rw [← whole, lineStarts, List.countP_cons, counted]
  simp

end Lines

section Slices
variable {rules : DialectRules} {sql : Text} {s : SplitState} {before : Text} {p : Piece}

def Trimmed (text : Text) : Prop :=
  (∀ c ∈ text.head?, isSpace c = false) ∧ ∀ c ∈ text.getLast?, isSpace c = false

structure Slice (sql : Text) (p : Piece) : Prop where
  text : p.text = (sql.drop p.start).take (p.stop - p.start)
  some : p.start < p.stop
  inside : p.stop ≤ sql.length
  trimmed : Trimmed p.text

theorem flushSlice (within : s.chunkStart ≤ before.length) (out : p ∈ flush s before) (rest : Text) :
    Slice (before.reverse ++ rest) p ∧ s.chunkStart ≤ p.start ∧ p.stop ≤ before.length := by
  obtain ⟨text, some', -, start, stop, -⟩ := flushMember out
  obtain ⟨trail, split, -⟩ := trimBySplit isSpace (chunkOf s before)
  rw [← text] at split
  have size := congrArg List.length split
  simp only [chunkOf, List.length_append, List.length_drop, List.length_reverse] at size
  have long := List.length_pos_iff.mpr some'
  have lead : (before.reverse.drop s.chunkStart).takeWhile isSpace
      = (chunkOf s before).takeWhile isSpace := rfl
  rw [lead] at size
  have cut : before.reverse.drop p.start = p.text ++ trail := by
    have whole : before.reverse.drop s.chunkStart = _ := split
    rw [start, ← List.drop_drop, whole, List.drop_left]
  refine ⟨⟨?_, by omega, ?_, ?_, ?_⟩, by omega, by omega⟩
  · have width : p.stop - p.start = p.text.length := by omega
    rw [List.drop_append_of_le_length (by rw [List.length_reverse]; omega), cut, width,
      List.append_assoc, List.take_left]
  · simp only [List.length_append, List.length_reverse]
    omega
  · rw [text]
    exact trimByHead isSpace _
  · rw [text]
    intro c last
    have ends := List.rdropWhile_last_not isSpace ((chunkOf s before).dropWhile isSpace)
    cases there : (chunkOf s before).dropWhile isSpace |>.rdropWhile isSpace with
    | nil => simp [trimBy, there] at last
    | cons d tail =>
      have filled : ((chunkOf s before).dropWhile isSpace).rdropWhile isSpace ≠ [] := by simp [there]
      have open' := ends filled
      rw [trimBy, List.getLast?_eq_some_getLast filled] at last
      cases Option.some.inj last
      simpa using open'

theorem runSlices (c : SplitConfig) (within : Within c) :
    (∀ p ∈ runAt (splitStep rules) flush c, Slice c.text p ∧ c.state.chunkStart ≤ p.start)
      ∧ (runAt (splitStep rules) flush c).Pairwise (fun p q => p.stop ≤ q.start) := by
  induction c using passInduction (splitProgress rules) with
  | stop s before =>
    rw [runAtEnd]
    refine ⟨fun p out => ?_, ?_⟩
    · have slice := flushSlice within out []
      exact ⟨slice.1, slice.2.1⟩
    · have one := flushOne s before
      match flush s before, one with
      | [], _ => exact .nil
      | [p], _ => exact List.pairwise_singleton _ p
  | turn c some' ih =>
    have next := ih (withinNext some' within)
    rw [Config.nextText] at next
    rw [runAtNext (splitProgress rules) _ some']
    by_cases here : Stays rules c
    · have facts := staysNext here
      rw [facts.2.1, List.nil_append]
      refine ⟨fun p out => ⟨(next.1 p out).1, ?_⟩, next.2⟩
      have start := (next.1 p out).2
      rwa [facts.2.2.1] at start
    · have opens := (leavesNext some' here).1
      have out : ∀ p ∈ c.out (splitStep rules), Slice c.text p ∧ c.state.chunkStart ≤ p.start
          ∧ p.stop ≤ c.before.length := fun p out => flushSlice within (leaveOut out).1 c.rest
      have forward : c.before.length ≤ (c.next (splitStep rules)).state.chunkStart := by
        rw [opens]
        simp only [Config.next, List.length_append]
        omega
      have start : c.state.chunkStart ≤ c.before.length := within
      constructor
      · intro p member
        rcases List.mem_append.mp member with first | later
        · exact ⟨(out p first).1, (out p first).2.1⟩
        · have := (next.1 p later).2
          exact ⟨(next.1 p later).1, by omega⟩
      · refine List.pairwise_append.mpr ⟨?_, next.2, fun p first q later => ?_⟩
        · have one := @outOne rules c
          match c.out (splitStep rules), one with
          | [], _ => exact .nil
          | [p], _ => exact List.pairwise_singleton _ p
        · have := (out p first).2.2
          have := (next.1 q later).2
          omega

end Slices

inductive RegionKind where
  | comment | terminator | command
  deriving DecidableEq

structure Region where
  kind : RegionKind
  start : Nat
  stop : Nat
  deriving DecidableEq

def regionHere (rules : DialectRules) (s : SplitState) (before : Text) : Text → List Region
  | [] => []
  | c :: more => match splitMove rules s before c more with
    | .command cmd => [⟨.command, before.length, before.length + cmd.next⟩]
    | .form opener =>
        if opener.isComment then
          [⟨.comment, before.length, before.length + opener.scan rules (c :: more)⟩]
        else []
    | .terminator => [⟨.terminator, before.length, before.length + s.delimiter.text.length⟩]
    | _ => []

def regionsAt (rules : DialectRules) (c : SplitConfig) : List Region :=
  runAt (relabel (regionHere rules) (splitStep rules)) (fun _ _ => []) c

def regions (rules : DialectRules) (sql : Text) : List Region :=
  regionsAt rules ⟨fresh .semicolon 0, [], sql⟩

structure Reads (rules : DialectRules) (sql : Text) (r : Region) : Prop where
  comment : r.kind = .comment → ∃ opener before, opener.isComment = true
    ∧ openerAt rules before (sql.drop r.start) = some opener
    ∧ r.stop = r.start + opener.scan rules (sql.drop r.start)
  terminator : r.kind = .terminator → ∃ delimiter : Delimiter,
    (sql.drop r.start).take (r.stop - r.start) = delimiter.text
    ∧ (rules.delimiterCommand = false → delimiter = .semicolon)
  command : r.kind = .command → rules.delimiterCommand = true ∧
    ∃ cmd, delimiterCommandAt (sql.drop r.start) = some cmd ∧ r.stop = r.start + cmd.next

section Cover
variable {rules : DialectRules}

def Region.Holds (r : Region) (i : Nat) : Prop := r.start ≤ i ∧ i < r.stop
def Piece.Holds (p : Piece) (i : Nat) : Prop := p.start ≤ i ∧ i < p.stop

theorem flushCovers {s : SplitState} {before rest : Text} {i : Nat} {x : CodeUnit}
    (saw : s.sawContent = true) (start : s.chunkStart ≤ i)
    (passed : i < before.length) (here : (before.reverse ++ rest)[i]? = some x)
    (ink : isSpace x = false) : ∃ p ∈ flush s before, p.Holds i := by
  obtain ⟨trail, split, white⟩ := trimBySplit isSpace (chunkOf s before)
  have size := congrArg List.length split
  simp only [chunkOf, List.length_append, List.length_drop, List.length_reverse] at size
  have at' : (chunkOf s before)[i - s.chunkStart]? = some x := by
    rw [chunkOf, List.getElem?_drop, show s.chunkStart + (i - s.chunkStart) = i by omega]
    rwa [List.getElem?_append_left (by simpa using passed)] at here
  have lead : ((chunkOf s before).takeWhile isSpace).length ≤ i - s.chunkStart := by
    by_contra early
    have inLead : x ∈ (chunkOf s before).takeWhile isSpace := by
      rw [split, List.getElem?_append_left (by omega)] at at'
      exact List.mem_of_getElem? at'
    rw [List.mem_takeWhile_imp inLead] at ink
    contradiction
  have trimmed : i - s.chunkStart
      < ((chunkOf s before).takeWhile isSpace).length + (trimBy isSpace (chunkOf s before)).length := by
    by_contra late
    have inTrail : x ∈ trail := by
      rw [split, List.getElem?_append_right (by omega), List.getElem?_append_right (by omega)] at at'
      exact List.mem_of_getElem? at'
    rw [white x inTrail] at ink
    contradiction
  have some' : trimBy isSpace (chunkOf s before) ≠ [] := by
    intro empty
    rw [empty] at trimmed
    simp only [List.length_nil] at trimmed
    omega
  have out : flush s before = [⟨trimBy isSpace (chunkOf s before),
      s.chunkStart + ((chunkOf s before).takeWhile isSpace).length,
      s.chunkStart + ((chunkOf s before).takeWhile isSpace).length
        + (trimBy isSpace (chunkOf s before)).length, s.delimiter⟩] := by
    simp only [flush, saw, Bool.not_true, Bool.false_eq_true, if_false, if_neg some']
  rw [out]
  refine ⟨_, List.mem_singleton_self _, ?_, ?_⟩
  · dsimp only
    omega
  · dsimp only
    omega

theorem regionsNext {c : SplitConfig} (some' : c.rest ≠ []) : regionsAt rules c
    = regionHere rules c.state c.before c.rest ++ regionsAt rules (c.next (splitStep rules)) :=
  runAtNext (relabelProgress (regionHere rules) (splitProgress rules)) _ some'

theorem coverFrom (c : SplitConfig) (within : Within c) {i : Nat} {x : CodeUnit}
    (here : c.text[i]? = some x) (ink : isSpace x = false) (start : c.state.chunkStart ≤ i) :
    (∃ p ∈ runAt (splitStep rules) flush c, p.Holds i) ∨ (∃ r ∈ regionsAt rules c, r.Holds i)
      ∨ i < c.before.length ∧ c.state.sawContent = false := by
  induction c using passInduction (splitProgress rules) with
  | stop s before =>
    have passed : i < before.length := by
      have inside := (List.getElem?_eq_some_iff.mp here).1
      simpa [Config.text] using inside
    by_cases saw : s.sawContent = true
    · rw [runAtEnd]
      exact Or.inl (flushCovers saw start passed here ink)
    · exact Or.inr (Or.inr ⟨passed, by simpa using saw⟩)
  | turn c some' ih =>
    have next := ih (withinNext some' within) (by rwa [Config.nextText])
    rw [runAtNext (splitProgress rules) _ some', regionsNext some']
    obtain ⟨s, before, rest⟩ := c
    cases rest with
    | nil => exact absurd rfl some'
    | cons c more =>
      have moves := splitMoves rules s before c more
      have fits := @splitFits rules _ some'
      simp only [Config.next, Config.width, Config.out, splitStep, regionHere] at next fits ⊢
      generalize splitMove rules s before c more = move at moves next fits ⊢
      have start' : s.chunkStart ≤ i := start
      cases moves with
      | space white =>
        rcases next start' with piece | region | ⟨passed, unseen⟩
        · exact Or.inl piece
        · exact Or.inr (Or.inl region)
        · simp only [List.take_succ_cons, List.take_zero, List.reverse_singleton, List.singleton_append,
            List.length_cons] at passed
          refine Or.inr (Or.inr ⟨?_, unseen⟩)
          by_contra here'
          have same : i = before.reverse.length := by
            rw [List.length_reverse]
            omega
          rw [same] at here
          simp only [Config.text, List.getElem?_append_right (Nat.le_refl _),
            Nat.sub_self, List.getElem?_cons_zero, Option.some.injEq] at here
          rw [← here, white] at ink
          contradiction
      | command cmd ink' found =>
        have unseen := (commandAtFound found).2.1
        rcases Nat.lt_or_ge i before.length with passed | here'
        · exact Or.inr (Or.inr ⟨passed, unseen⟩)
        · rcases Nat.lt_or_ge i (before.length + cmd.next) with inside | beyond
          · exact Or.inr (Or.inl ⟨_, List.mem_cons_self, here', inside⟩)
          · rcases next beyond with ⟨p, out, holds⟩ | ⟨r, out, holds⟩ | ⟨passed, -⟩
            · exact Or.inl ⟨p, out, holds⟩
            · exact Or.inr (Or.inl ⟨r, List.mem_cons_of_mem _ out, holds⟩)
            · simp only [List.length_append, List.length_reverse, List.length_take] at passed
              omega
      | form opener ink' quiet found =>
        rcases next start' with ⟨p, out, holds⟩ | ⟨r, out, holds⟩ | ⟨passed, unseen⟩
        · exact Or.inl ⟨p, out, holds⟩
        · exact Or.inr (Or.inl ⟨r, List.mem_append_right _ out, holds⟩)
        · simp only [Bool.or_eq_false_iff] at unseen
          simp only [List.length_append, List.length_reverse, List.length_take] at passed
          rcases Nat.lt_or_ge i before.length with passed' | here'
          · exact Or.inr (Or.inr ⟨passed', unseen.1⟩)
          · have comment : opener.isComment = true := by
              cases opener <;> simp_all [countsAsContent, Opener.isComment]
            refine Or.inr (Or.inl ⟨⟨.comment, before.length, before.length + opener.scan rules (c :: more)⟩,
              List.mem_append_left _ ?_, here', ?_⟩)
            · dsimp only
              rw [if_pos comment]
              exact List.mem_singleton_self _
            · dsimp only
              omega
      | terminator ink' quiet plain ends =>
        rcases Nat.lt_or_ge i before.length with passed | here'
        · by_cases saw : s.sawContent = true
          · obtain ⟨p, out, holds⟩ := flushCovers saw start' passed here ink
            exact Or.inl ⟨p, List.mem_append_left _ out, holds⟩
          · exact Or.inr (Or.inr ⟨passed, by simpa using saw⟩)
        · rcases Nat.lt_or_ge i (before.length + s.delimiter.text.length) with inside | beyond
          · exact Or.inr (Or.inl ⟨_, List.mem_cons_self, here', inside⟩)
          · rcases next beyond with ⟨p, out, holds⟩ | ⟨r, out, holds⟩ | ⟨passed, -⟩
            · exact Or.inl ⟨p, List.mem_append_right _ out, holds⟩
            · exact Or.inr (Or.inl ⟨r, List.mem_cons_of_mem _ out, holds⟩)
            · simp only [List.length_append, List.length_reverse, List.length_take] at passed
              omega
      | unit ink' quiet plain inside =>
        rcases next start' with piece | region | ⟨-, unseen⟩
        · exact Or.inl piece
        · exact Or.inr (Or.inl region)
        · cases unseen

theorem regionReads {c : SplitConfig} (mark : rules.delimiterCommand = false → c.state.delimiter = .semicolon)
    {r : Region} (out : r ∈ regionHere rules c.state c.before c.rest) : Reads rules c.text r := by
  obtain ⟨s, before, rest⟩ := c
  cases rest with
  | nil => simp [regionHere] at out
  | cons c more =>
    have cut : (Config.text (⟨s, before, c :: more⟩ : SplitConfig)).drop before.length = c :: more := by
      simp [Config.text]
    have moves := splitMoves rules s before c more
    simp only [regionHere] at out
    generalize splitMove rules s before c more = move at moves out
    cases moves with
    | space => simp at out
    | unit => simp at out
    | command cmd ink found =>
      rw [List.mem_singleton] at out
      subst out
      have facts := commandAtFound found
      exact ⟨by simp, by simp, fun _ => ⟨facts.1, cmd, by rw [cut]; exact facts.2.2.2, rfl⟩⟩
    | form opener ink quiet found =>
      dsimp only at out
      split at out
      · rename_i comment
        rw [List.mem_singleton] at out
        subst out
        exact ⟨fun _ => ⟨opener, before, comment, by rw [cut]; exact found, by rw [cut]⟩, by simp, by simp⟩
      · simp at out
    | terminator ink quiet plain ends =>
      rw [List.mem_singleton] at out
      subst out
      refine ⟨by simp, fun _ => ⟨s.delimiter, ?_, mark⟩, by simp⟩
      rw [cut, Nat.add_sub_cancel_left]
      exact (List.prefix_iff_eq_take.mp (startsWithIff.mp ends)).symm

theorem regionsRead (c : SplitConfig) (mark : rules.delimiterCommand = false → c.state.delimiter = .semicolon) :
    ∀ r ∈ regionsAt rules c, Reads rules c.text r := by
  induction c using passInduction (splitProgress rules) with
  | stop s before => simp [regionsAt, runAtEnd]
  | turn c some' ih =>
    have next := ih fun off => (nextDelimiter off c).trans (mark off)
    rw [Config.nextText] at next
    rw [regionsNext some']
    intro r out
    rcases List.mem_append.mp out with here | later
    · exact regionReads mark here
    · exact next r later

end Cover

section Grows

def Grows (scan : Text → Nat) : Prop := ∀ text more, scan text ≤ scan (text ++ more)

theorem scanQuotedTailGrows (quote : CodeUnit) (doubling escapes : Bool) :
    Grows (scanQuotedTail quote doubling escapes) := by
  intro text more
  fun_induction scanQuotedTail quote doubling escapes text with
  | case1 => exact Nat.zero_le _
  | case2 c =>
    cases more with
    | nil => simp [scanQuotedTail]
    | cons d more =>
      simp only [List.singleton_append, scanQuotedTail]
      split
      · omega
      · split
        · split <;> omega
        · omega
  | case3 c d rest escaped ih => simpa only [List.cons_append, scanQuotedTail, if_pos escaped] using Nat.add_le_add_right ih 2
  | case4 c d rest escaped closing doubled ih =>
    simpa only [List.cons_append, scanQuotedTail, if_neg escaped, if_pos closing, if_pos doubled]
      using Nat.add_le_add_right ih 2
  | case5 c d rest escaped closing doubled =>
    simp only [List.cons_append, scanQuotedTail, if_neg escaped, if_pos closing, if_neg doubled, Nat.le_refl]
  | case6 c d rest escaped closing ih =>
    rw [List.cons_append] at ih
    simpa only [List.cons_append, scanQuotedTail, if_neg escaped, if_neg closing]
      using Nat.add_le_add_right ih 1

theorem scanBlockTailGrows (nested : Bool) (depth : Nat) : Grows (scanBlockTail nested depth) := by
  intro text more
  fun_induction scanBlockTail nested depth text with
  | case1 => exact Nat.zero_le _
  | case2 depth c =>
    cases more with
    | nil => simp [scanBlockTail]
    | cons d more =>
      simp only [List.singleton_append, scanBlockTail]
      split
      · omega
      · split
        · split <;> omega
        · omega
  | case3 depth c d rest opening ih =>
    simpa only [List.cons_append, scanBlockTail, if_pos opening] using Nat.add_le_add_right ih 2
  | case4 depth c d rest opening closing last =>
    simp only [List.cons_append, scanBlockTail, if_neg opening, if_pos closing, if_pos last, Nat.le_refl]
  | case5 depth c d rest opening closing last ih =>
    simpa only [List.cons_append, scanBlockTail, if_neg opening, if_pos closing, if_neg last]
      using Nat.add_le_add_right ih 2
  | case6 depth c d rest opening closing ih =>
    rw [List.cons_append] at ih
    simpa only [List.cons_append, scanBlockTail, if_neg opening, if_neg closing]
      using Nat.add_le_add_right ih 1

theorem indexOfLater {pattern text more : Text} (absent : indexOf pattern text = none) :
    ∀ n ∈ indexOf pattern (text ++ more), text.length < n + pattern.length := by
  intro n found
  by_contra early
  rw [SqlFragments.indexOfCut found (by omega)] at absent
  cases absent

theorem scanIndexGrows (pattern : Text) (start past : Nat) (enough : pattern.length ≤ past) (text more : Text)
    (fits : start ≤ text.length) :
    (match indexOf pattern (text.drop start) with | some n => start + n + past | none => text.length)
      ≤ (match indexOf pattern ((text ++ more).drop start) with
        | some n => start + n + past | none => (text ++ more).length) := by
  rw [List.drop_append_of_le_length fits]
  cases found : indexOf pattern (text.drop start) with
  | some n => rw [indexOfAppend found more]
  | none =>
    cases later : indexOf pattern (text.drop start ++ more) with
    | none => simp
    | some n =>
      have beyond := indexOfLater found n later
      simp only [List.length_drop] at beyond ⊢
      omega

theorem openerScanGrows (rules : DialectRules) {text : Text} {opener : Opener} (stands : opener.Stands text)
    (more : Text) : opener.scan rules text ≤ opener.scan rules (text ++ more) := by
  have quoted (quote : CodeUnit) (escapes : Bool) {text : Text} (open' : text ≠ []) :
      scanQuoted quote true escapes text ≤ scanQuoted quote true escapes (text ++ more) := by
    obtain ⟨c, rest, rfl⟩ := List.exists_cons_of_ne_nil open'
    exact Nat.add_le_add_left (scanQuotedTailGrows quote true escapes rest more) 1
  have line : scanLineComment text ≤ scanLineComment (text ++ more) := by
    unfold scanLineComment
    cases found : indexOf [('\n' : CodeUnit)] text with
    | some n => rw [indexOfAppend found more]
    | none =>
      cases later : indexOf [('\n' : CodeUnit)] (text ++ more) with
      | none => simp
      | some n => exact Nat.le_of_lt_succ (indexOfLater found n later)
  cases opener with
  | dashComment => exact line
  | hashComment => exact line
  | blockComment =>
    have long : 2 ≤ text.length := stands
    simp only [Opener.scan, scanBlockComment]
    rw [List.drop_append_of_le_length long]
    exact Nat.add_le_add_left (scanBlockTailGrows _ 1 _ more) 2
  | escapeString =>
    have long : 2 ≤ text.length := stands
    simp only [Opener.scan]
    rw [List.drop_append_of_le_length (by omega)]
    refine Nat.add_le_add_left (quoted apostrophe true fun empty => ?_) 1
    rw [List.drop_eq_nil_iff] at empty
    omega
  | plainString => exact quoted _ _ stands
  | doubleQuoted => exact quoted _ _ stands
  | backtickQuoted => exact quoted _ _ stands
  | bracketed => exact scanIndexGrows _ 1 1 (by simp) text more (List.length_pos_iff.mpr stands)
  | dollarQuoted tag =>
    exact scanIndexGrows tag tag.length tag.length (Nat.le_refl _) text more
      (dollarTagPrefix stands).length_le

end Grows

section Truncated
variable {rules : DialectRules} {ext trail : Text} {z : SplitConfig}

theorem openerExtends (off : rules.dashDashNeedsSpace = false) {before text : Text} {opener : Opener}
    (found : openerAt rules before text = some opener) (more : Text) :
    openerAt rules before (text ++ more) = some opener := by
  match text, found with
  | [], found => simp [openerAt] at found
  | [c], found =>
    have apart (d : CodeUnit) (plain : openerAt rules before [d] = none) : (c == d) = false := by
      rw [beq_eq_false_iff_ne]
      rintro rfl
      rw [plain] at found
      cases found
    have dash : (c == '-') = false := apart 45 (by simp [openerAt, nextIs, apostrophe, doubleQuote, backtick])
    have slash : (c == '/') = false := apart 47 (by simp [openerAt, nextIs, apostrophe, doubleQuote, backtick])
    have upper : (c == 'E') = false := apart 69 (by simp [openerAt, nextIs, apostrophe, doubleQuote, backtick])
    have lower : (c == 'e') = false := apart 101 (by simp [openerAt, nextIs, apostrophe, doubleQuote, backtick])
    have sign : (c == '$') = false := apart 36 (by simp [openerAtDollar, dollarTagAt, tagName])
    simpa only [List.singleton_append, openerAt, dash, slash, upper, lower, sign, Bool.false_and, Bool.and_false,
      Bool.or_false, Bool.false_eq_true, if_false] using found
  | c :: d :: rest, found =>
    rw [← found]
    refine openerAppend (fun quoting sign => ?_) (fun _ _ => Or.inr (Or.inl off))
    have there : c :: d :: rest = 36 :: (d :: rest) := by rw [sign]; rfl
    rw [there, openerAtDollar, if_pos quoting] at found
    obtain ⟨tag, decided, -⟩ := Option.map_eq_some_iff.mp found
    rw [← there] at decided
    rw [decided]
    exact dollarTagSettles decided more

theorem walkWhite {lead : Text} (white : ∀ d ∈ lead, isSpace d = true) :
    ∀ {c : SplitConfig}, Walk rules c z → c.rest = lead ++ z.rest → z.state = c.state := by
  induction lead with
  | nil =>
    intro c walk same
    cases walk with
    | refl => rfl
    | step here tail =>
      obtain ⟨chunk, rest, -⟩ := tail.span
      have fits := splitProgress rules c.state c.before c.rest (staysNext here).1
      have long := List.length_pos_iff.mpr (staysNext here).1
      have size := congrArg List.length rest
      have whole := congrArg List.length same
      simp only [Config.next, List.length_drop, List.length_append, List.nil_append] at size whole
      omega
  | cons d lead ih =>
    intro c walk same
    obtain ⟨s, before, rest⟩ := c
    obtain rfl : rest = d :: (lead ++ z.rest) := same
    have next := walk.head (by simp only [List.length_cons, List.length_append]; omega)
    have walk' := next.2
    rw [staySpace (white d (by simp))] at walk'
    have later := ih (fun e member => white e (by simp [member])) walk' rfl
    exact later

structure Shares (rules : DialectRules) (z : SplitConfig) (ext : Text) (ct c : SplitConfig) : Prop where
  walk : Walk rules c z
  rest : c.rest = ct.rest ++ ext
  look : SameLook rules ct.before c.before
  delimiter : c.state.delimiter = .semicolon
  delimiter' : ct.state.delimiter = .semicolon
  saw : ct.state.sawContent = c.state.sawContent

theorem sharesEnd (whiteTrail : ∀ d ∈ trail, isSpace d = true) {c : SplitConfig} (walk : Walk rules c z)
    {n : Nat} (rest : c.rest = (trail ++ z.rest).drop n) : z.state = c.state := by
  obtain ⟨chunk, split, -⟩ := walk.span
  have size := congrArg List.length (split.symm.trans rest)
  simp only [List.length_append, List.length_drop] at size
  by_cases inside : n ≤ trail.length
  · rw [List.drop_append_of_le_length inside] at rest
    exact walkWhite (fun d member => whiteTrail d (List.mem_of_mem_drop member)) walk rest
  · have none : chunk = [] := List.length_eq_zero_iff.mp (by omega)
    rw [none, List.nil_append] at split
    exact walkWhite (show ∀ d ∈ ([] : Text), isSpace d = true by simp) walk split

theorem passedAll (c : SplitConfig) : (c.next (splitStep rules)).rest.reverse ++ (c.next (splitStep rules)).before
    = c.rest.reverse ++ c.before := by
  have same := congrArg List.reverse (Config.nextText (splitStep rules) c)
  simpa only [Config.text, List.reverse_append, List.reverse_reverse] using same

theorem contentPlain (plainRules : rules.executableComments = false) (text text' : Text) (opener : Opener) :
    countsAsContent rules text opener = countsAsContent rules text' opener := by
  cases opener <;> simp [countsAsContent, plainRules]

theorem sharesRun (off : rules.dashDashNeedsSpace = false) (quietRules : rules.delimiterCommand = false)
    (plainRules : rules.executableComments = false) (closed : Closed (trail ++ z.rest))
    (whiteTrail : ∀ d ∈ trail, isSpace d = true) (ct : SplitConfig) {c : SplitConfig}
    (shares : Shares rules z (trail ++ z.rest) ct c) :
    ∃ s, Walk rules ct ⟨s, ct.rest.reverse ++ ct.before, []⟩ ∧ s.sawContent = z.state.sawContent := by
  induction ct using passInduction (splitProgress rules) generalizing c with
  | stop s before =>
    have same := sharesEnd whiteTrail shares.walk (n := 0) (by simpa using shares.rest)
    exact ⟨s, .refl _, shares.saw.trans (by rw [same])⟩
  | turn ct some' ih =>
    obtain ⟨st, before, rest⟩ := ct
    obtain ⟨s, passed, text⟩ := c
    cases rest with
    | nil => exact absurd rfl some'
    | cons x more =>
      obtain rfl : text = x :: (more ++ (trail ++ z.rest)) := shares.rest
      have next := shares.walk.head (by simp only [List.length_cons, List.length_append]; omega)
      have quiet (s : SplitState) (before text : Text) : commandAt rules s before text = none := by
        simp [commandAt, quietRules]
      have onward {move : SplitMove} (here : splitMove rules st before x more = move)
          (stay : stays move = true) {c' : SplitConfig}
          (shares' : Shares rules z (trail ++ z.rest) (Config.next (splitStep rules) ⟨st, before, x :: more⟩) c') :
          ∃ s, Walk rules ⟨st, before, x :: more⟩ ⟨s, (x :: more).reverse ++ before, []⟩
            ∧ s.sawContent = z.state.sawContent := by
        obtain ⟨s', walk, saw⟩ := ih shares'
        rw [passedAll] at walk
        exact ⟨s', .step (.move (by rw [here]; exact stay)) walk, saw⟩
      have moves := splitMoves rules st before x more
      generalize named : splitMove rules st before x more = move at moves
      cases moves with
      | space white =>
        refine onward named rfl ⟨next.2, ?_, ?_, ?_, ?_, ?_⟩
        · rw [staySpace white, staySpace white]
        · rw [staySpace white, staySpace white]
          exact sameLookPush shares.look [x]
        · rw [staySpace white]
          exact shares.delimiter
        · rw [staySpace white]
          exact shares.delimiter'
        · rw [staySpace white, staySpace white]
          exact shares.saw
      | command cmd ink found =>
        rw [quiet] at found
        cases found
      | form opener ink _ found =>
        have also : openerAt rules passed (x :: (more ++ (trail ++ z.rest))) = some opener := by
          rw [← sameLookOpener shares.look]
          exact openerExtends off found _
        have move' : splitMove rules s passed x (more ++ (trail ++ z.rest)) = .form opener := by
          simp [splitMove, ink, quiet, also]
        have content := contentPlain plainRules (x :: more) (x :: (more ++ (trail ++ z.rest))) opener
        have saw : st.sawContent = s.sawContent := shares.saw
        by_cases inside : opener.scan rules (x :: more) < (x :: more).length
        · have scan := openerScanSettles (openerStands found) (trail ++ z.rest) inside
          rw [List.cons_append] at scan
          refine onward named rfl ⟨next.2, ?_, ?_, ?_, ?_, ?_⟩
          · simp only [Config.next, splitStep, named, move', scan]
            rw [← List.cons_append, List.drop_append_of_le_length inside.le]
          · simp only [Config.next, splitStep, named, move', scan]
            rw [← List.cons_append, List.take_append_of_le_length inside.le]
            exact sameLookPush shares.look _
          · simp only [Config.next, splitStep, move']
            exact shares.delimiter
          · simp only [Config.next, splitStep, named]
            exact shares.delimiter'
          · simp only [Config.next, splitStep, named, move', content, saw]
        · have whole : (x :: more).length ≤ opener.scan rules (x :: more) := by omega
          have grows := openerScanGrows rules (openerStands found) (trail ++ z.rest)
          have ended := sharesEnd whiteTrail next.2
            (n := opener.scan rules (x :: (more ++ (trail ++ z.rest))) - (x :: more).length) (by
              simp only [Config.next, splitStep, move']
              rw [← List.cons_append, List.drop_append]
              rw [List.drop_eq_nil_of_le (by exact whole.trans grows), List.nil_append])
          refine ⟨(Config.next (splitStep rules) ⟨st, before, x :: more⟩).state,
            .step (.move (by rw [named]; rfl)) ?_, ?_⟩
          · have done : (Config.next (splitStep rules) ⟨st, before, x :: more⟩).rest = [] := by
              simp only [Config.next, splitStep, named]
              exact List.drop_eq_nil_of_le whole
            have all := @passedAll rules ⟨st, before, x :: more⟩
            rw [done, List.reverse_nil, List.nil_append] at all
            rw [← all, ← done]
            exact .refl _
          · rw [ended]
            simp only [Config.next, splitStep, named, move', content, saw]
      | terminator ink _ plain ends =>
        have also : openerAt rules passed (x :: (more ++ (trail ++ z.rest))) = none := by
          rw [← sameLookOpener shares.look]
          exact closedNone closed plain
        obtain ⟨s', -, -, apart⟩ := stayUnit next.1 ink also
        have delimiter : s.delimiter = .semicolon := shares.delimiter
        have delimiter' : st.delimiter = .semicolon := shares.delimiter'
        rw [delimiter', ← delimiter] at ends
        exact absurd ((startsWithIff.mp ends).trans (List.prefix_append (x :: more) _)) apart
      | unit ink _ plain inside =>
        have also : openerAt rules passed (x :: (more ++ (trail ++ z.rest))) = none := by
          rw [← sameLookOpener shares.look]
          exact closedNone closed plain
        obtain ⟨s', -, -, apart⟩ := stayUnit next.1 ink also
        have move' : splitMove rules s passed x (more ++ (trail ++ z.rest)) = .unit := by
          have open' := eq_false_of_ne_true (fun stands => apart (startsWithIff.mp stands))
          simp [splitMove, ink, quiet, also, open']
        refine onward named rfl ⟨next.2, ?_, ?_, ?_, ?_, ?_⟩
        · simp [Config.next, splitStep, named, move']
        · simp only [Config.next, splitStep, named, move', List.take_succ_cons, List.take_zero]
          exact sameLookPush shares.look [x]
        · simp only [Config.next, splitStep, move']
          exact shares.delimiter
        · simp only [Config.next, splitStep, named]
          exact shares.delimiter'
        · simp only [Config.next, splitStep, named, move']

theorem closedAfter (whiteTrail : ∀ d ∈ trail, isSpace d = true)
    (ends : z.rest = [] ∨ Delimiter.semicolon.text <+: z.rest) : Closed (trail ++ z.rest) := by
  intro d head
  cases trail with
  | cons e trail =>
    cases head
    exact Or.inl (whiteTrail d (by simp))
  | nil =>
    rcases ends with empty | ⟨after, there⟩
    · simp [empty] at head
    · rw [List.nil_append, ← there] at head
      cases head
      exact Or.inr rfl

theorem pieceAlone (off : rules.dashDashNeedsSpace = false) (quietRules : rules.delimiterCommand = false)
    (plainRules : rules.executableComments = false) {sql : Text} {p : Piece}
    (member : p ∈ pieces rules .semicolon sql) :
    pieces rules .semicolon p.text = [⟨p.text, 0, p.text.length, .semicolon⟩]
      ∧ p.delimiter = .semicolon := by
  have plain : rules.escapeStringPrefix = true → rules.delimiterCommand = false := fun _ => quietRules
  obtain ⟨c0, z, reach, opens, walk, out, ends⟩ := pieceOrigin member
    (show OpensFresh rules _ from ⟨rfl, rfl, fun _ => rfl, fun _ => rfl⟩) (fun c reach some' leaves =>
      have opens := chunkOpensLater plain reach (fun _ => rfl) some' leaves
      ⟨opens.1, (leavesNext some' leaves).2, opens.2, fun _ =>
        (nextDelimiter quietRules c).trans (fixedDelimiter quietRules reach)⟩)
  have mark := opens.mark quietRules
  obtain ⟨lead, trail, rest, leadWhite, trailWhite, -, some', ink, named⟩ :=
    flushedChunk walk opens.start out
  obtain ⟨text, -, -, -, -, saw⟩ := flushMember out
  have long := List.length_pos_iff.mpr some'
  obtain ⟨c, walk', rest', before', state'⟩ := walkLead _ _ walk rest leadWhite
    (by simp only [List.length_append]; omega)
  rw [walk.state.2, mark] at ends
  have shares : Shares rules z (trail ++ z.rest) ⟨fresh .semicolon 0, [], p.text⟩ c :=
    ⟨walk', rest', by rw [before']; exact leadLook opens.look leadWhite, by rw [state', mark], rfl,
      by rw [state', opens.unseen]; rfl⟩
  obtain ⟨s, alone, saw'⟩ := sharesRun off quietRules plainRules (closedAfter trailWhite ends) trailWhite _ shares
  have run := runPath (splitProgress rules) flush alone.path
  rw [List.append_nil] at alone run
  have start : s.chunkStart = 0 := alone.state.1
  have mark' : s.delimiter = .semicolon := alone.state.2
  have whole : chunkOf s p.text.reverse = p.text := by
    rw [chunkOf, start, List.reverse_reverse]
    rfl
  have trimmed : trimBy isSpace p.text = p.text := by
    rw [text]
    exact trimByTwice isSpace _
  have lead' : p.text.takeWhile isSpace = [] := by
    cases there : p.text with
    | nil => rfl
    | cons d tail => simp [ink d (by rw [there]; rfl)]
  refine ⟨?_, named.trans mark⟩
  rw [pieces, run, runAtEnd, List.nil_append]
  simp only [flush, saw', saw, whole, trimmed, lead', start, mark', if_neg some', Bool.not_true,
    Bool.false_eq_true, if_false, List.length_nil, Nat.zero_add]

end Truncated

section Statements
variable {dialect : SqlDialect} {sql : Text}

structure Stands (sql : Text) (s : SqlStatement) : Prop where
  text : s.text = (sql.drop s.start).take (s.stop - s.start)
  some : s.start < s.stop
  inside : s.stop ≤ sql.length
  trimmed : Trimmed s.text
  line : s.line = (sql.take s.start).count newline + 1

theorem splitLosesNothing (dialect : SqlDialect) (sql : Text) :
    (∀ s ∈ splitStatements sql dialect, s.text ≠ [] ∧ Stands sql s)
    ∧ (splitStatements sql dialect).Pairwise (fun s t => s.stop ≤ t.start)
    ∧ (∀ (i : Nat) (c : CodeUnit), sql[i]? = some c → isSpace c = false →
      (∃ s ∈ splitStatements sql dialect, s.start ≤ i ∧ i < s.stop)
        ∨ ∃ r ∈ regions (rulesOf dialect) sql, r.start ≤ i ∧ i < r.stop)
    ∧ (∀ r ∈ regions (rulesOf dialect) sql, Reads (rulesOf dialect) sql r)
    ∧ (dialect = .postgres ∨ dialect = .sqlite → ∀ s ∈ splitStatements sql dialect,
      splitStatements s.text dialect = [⟨s.text, 0, s.text.length, 1, s.delimiter⟩]) := by
  let start : SplitConfig := ⟨fresh .semicolon 0, [], sql⟩
  have slices := @runSlices (rulesOf dialect) start (Nat.le_refl 0)
  refine ⟨fun s member => ?_, ?_, fun i c here ink => ?_, ?_, fun engine s member => ?_⟩
  · obtain ⟨p, out, rfl⟩ := List.mem_map.mp member
    have slice := (slices.1 p out).1
    refine ⟨fun empty => ?_, slice.text, slice.some, slice.inside, slice.trimmed, lineAtCounts _ sql⟩
    have size := congrArg List.length slice.text
    have some' := slice.some
    have inside : p.stop ≤ sql.length := slice.inside
    simp only [show p.text = [] from empty, List.length_nil, List.length_take, List.length_drop,
      show start.text = sql from rfl] at size
    omega
  · exact List.pairwise_map.mpr slices.2
  · rcases @coverFrom (rulesOf dialect) start (Nat.le_refl 0) _ _ here ink (Nat.zero_le i) with
      ⟨p, out, holds⟩ | region | ⟨early, -⟩
    · exact Or.inl ⟨_, List.mem_map.mpr ⟨p, out, rfl⟩, holds⟩
    · exact Or.inr region
    · exact absurd early (Nat.not_lt_zero i)
  · exact regionsRead start fun _ => rfl
  · obtain ⟨p, out, rfl⟩ := List.mem_map.mp member
    have alone := pieceAlone (by rcases engine with rfl | rfl <;> rfl) (by rcases engine with rfl | rfl <;> rfl)
      (by rcases engine with rfl | rfl <;> rfl) out
    have first : lineAt (lineStarts p.text) 0 = 1 := by
      rw [lineAtCounts]
      rfl
    simp only [splitStatements, alone.1, alone.2, List.map_cons, List.map_nil, first]

end Statements

end DatabaseAdmin
