import DatabaseAdmin.SplitWalk
import DatabaseAdmin.SqlTokens

/-! Splitter and tokenizer on one statement. -/
namespace DatabaseAdmin
open CodeUnits ScanLoop

def hiddenIn (rules : DialectRules) : Text → Nat → Text → List Nat
  | before, n+1, c :: rest =>
      (if (openerAt rules before (c :: rest)).isSome then [before.length] else []) ++
        hiddenIn rules (c :: before) n rest
  | _, _, _ => []

def hiddenHere (rules : DialectRules) (depth : Nat) (before rest : Text) : List Nat :=
  match rest with
  | [] => []
  | c :: more =>
      if isSpace c || (openerAt rules before (c :: more)).isSome then []
      else hiddenIn rules (c :: before) ((tokenStep rules depth before rest).width - 1) more

def hiddenOpeners (rules : DialectRules) (text : Text) : List Nat :=
  runAt (relabel (hiddenHere rules) (tokenStep rules)) (fun _ _ => []) ⟨0, [], text⟩

def isSemicolon (token : SqlToken) : Bool :=
  token.kind == .punct && token.text == [(';' : CodeUnit)]

def splitAndTokensAgree (dialect : SqlDialect) (sql : Text) : Prop :=
  ∀ s ∈ splitStatements sql dialect, s.delimiter = .semicolon →
    ∀ token ∈ tokenize s.text (rulesOf dialect), isSemicolon token = false

section Tokens
variable {rules : DialectRules} (depth : Nat) {before more : Text} {c : CodeUnit}

theorem tokenSpace (white : isSpace c = true) :
    tokenStep rules depth before (c :: more) = ⟨depth, 1, []⟩ := by
  simp [tokenStep, white]

theorem tokenForm (ink : isSpace c = false) {opener : Opener}
    (found : openerAt rules before (c :: more) = some opener) :
    (tokenStep rules depth before (c :: more)).width = opener.scan rules (c :: more) ∧
      ∀ token ∈ (tokenStep rules depth before (c :: more)).out, isSemicolon token = false := by
  simp only [tokenStep, ink, found, Bool.false_eq_true, if_false]
  cases opener <;> simp [openerKind, tokenOf, isSemicolon]

def isWordPart (c : CodeUnit) : Bool := isIdentPart c || isNumberPart c

theorem tokenPlain (ink : isSpace c = false) (plain : openerAt rules before (c :: more) = none) :
    ∃ tail rest, more = tail ++ rest ∧ (∀ d ∈ tail, isWordPart d = true) ∧
      (tokenStep rules depth before (c :: more)).width = tail.length + 1 ∧
      ∀ token ∈ (tokenStep rules depth before (c :: more)).out,
        isSemicolon token = true → c = ';' := by
  have taken (p : CodeUnit → Bool) (inside : ∀ d, p d = true → isWordPart d = true) :
      ∃ tail rest, more = tail ++ rest ∧ (∀ d ∈ tail, isWordPart d = true) ∧
        1 + (more.takeWhile p).length = tail.length + 1 :=
    ⟨more.takeWhile p, more.drop (more.takeWhile p).length, (takeWhileSplit p more).symm,
      fun d member => inside d (List.mem_takeWhile_imp member), Nat.add_comm _ _⟩
  simp only [tokenStep, ink, plain, Bool.false_eq_true, if_false]
  split
  · obtain ⟨tail, rest, split, parts, width⟩ := taken isIdentPart (by simp +contextual [isWordPart])
    exact ⟨tail, rest, split, parts, width, by simp [tokenOf, isSemicolon]⟩
  · split
    · obtain ⟨tail, rest, split, parts, width⟩ := taken isNumberPart (by simp +contextual [isWordPart])
      exact ⟨tail, rest, split, parts, width, by simp [tokenOf, isSemicolon]⟩
    · refine ⟨[], more, rfl, by simp, ?_⟩
      split
      · exact ⟨rfl, by simp [tokenOf, isSemicolon]⟩
      · split
        · exact ⟨rfl, by simp [tokenOf, isSemicolon]⟩
        · exact ⟨rfl, by simp [tokenOf, isSemicolon]⟩

theorem tokenNoSemicolon {c : Config CodeUnit Nat} (absent : (';' : CodeUnit) ∉ c.rest) :
    ∀ token ∈ runAt (tokenStep rules) (fun _ _ => []) c, isSemicolon token = false := by
  intro token member
  obtain ⟨outs, c', path, found⟩ := runMember (tokenProgress rules) member
  rcases found with ⟨_, out⟩ | ⟨_, out⟩
  · obtain ⟨kind, width, depth, rfl⟩ := tokenOut out
    by_contra semicolon
    rw [Bool.not_eq_false] at semicolon
    simp only [isSemicolon, tokenOf, Bool.and_eq_true, beq_iff_eq] at semicolon
    have inside : (';' : CodeUnit) ∈ c'.rest.take width := by rw [semicolon.2]; simp
    exact absent (path.restSuffix.subset (List.mem_of_mem_take inside))
  · simp at out

end Tokens

section Lookbehind
variable {rules : DialectRules}

def Closed (ext : Text) : Prop := ∀ d ∈ ext.head?, isSpace d = true ∨ d = ';'

theorem closedTag {d : CodeUnit} (closed : isSpace d = true ∨ d = ';') :
    isTagPart d = false ∧ d ≠ '$' := by
  rcases closed with white | rfl
  · simp only [isSpace, Bool.or_eq_true, beq_iff_eq] at white
    rcases white with ((((rfl | rfl) | rfl) | rfl) | rfl) | rfl <;> decide
  · decide

theorem closedNone {ext before : Text} (closed : Closed ext) {c : CodeUnit} {more : Text}
    (plain : openerAt rules before (c :: more) = none) :
    openerAt rules before (c :: more ++ ext) = none := by
  cases more with
  | cons d rest =>
    exact openerMisses plain (fun _ _ => Or.inr (fun e head => closedTag (closed e head)))
  | nil =>
    cases ext with
    | nil => exact plain
    | cons d ext =>
      have stop := closed d rfl
      have tag : dollarTagAt (c :: d :: ext) = none := by
        have parts := closedTag stop
        simp only [isTagPart, Bool.or_eq_false_iff] at parts
        have other : d ≠ 36 := parts.2
        simp [dollarTagAt, tagName, isTagStart, parts.1.1, other]
      have apart : d ≠ '-' ∧ d ≠ '*' ∧ d ≠ apostrophe := by
        rcases stop with white | rfl
        · simp only [isSpace, Bool.or_eq_true, beq_iff_eq] at white
          rcases white with ((((rfl | rfl) | rfl) | rfl) | rfl) | rfl <;> decide
        · decide
      have dash : nextIs '-' (d :: ext) = false := by simpa [nextIsCons] using apart.1
      have star : nextIs '*' (d :: ext) = false := by simpa [nextIsCons] using apart.2.1
      have tick : nextIs apostrophe (d :: ext) = false := by simpa [nextIsCons] using apart.2.2
      have alone (e : CodeUnit) : nextIs e [] = false := rfl
      have bare : dollarTagAt [c] = none := rfl
      simp only [openerAt, List.cons_append, List.nil_append, dash, star, tick, tag, alone, bare,
        Option.map_none, Bool.and_false, Bool.false_and] at plain ⊢
      exact plain

end Lookbehind

theorem wordPartInk {d : CodeUnit} (part : isWordPart d = true) : isSpace d = false := by
  by_contra white
  rw [Bool.not_eq_false] at white
  simp only [isSpace, Bool.or_eq_true, beq_iff_eq] at white
  rcases white with ((((rfl | rfl) | rfl) | rfl) | rfl) | rfl <;> contradiction

section Simulation
variable {rules : DialectRules} {c1 : SplitConfig} {ext : Text}

theorem walkInside (closed : Closed ext) (short : c1.rest.length ≤ ext.length) (tail rest : Text) :
    ∀ {before : Text} {c : SplitConfig}, Walk rules c c1 → c.rest = tail ++ (rest ++ ext) →
      SameLook rules before c.before → hiddenIn rules before tail.length (tail ++ rest) = [] →
      (∀ d ∈ tail, isWordPart d = true) →
      ∃ c', Walk rules c' c1 ∧ c'.rest = rest ++ ext ∧ c'.before = tail.reverse ++ c.before ∧
        c'.state.delimiter = c.state.delimiter := by
  induction tail with
  | nil => exact fun {_ c} walk same _ _ _ => ⟨c, walk, same, rfl, rfl⟩
  | cons d tail ih =>
    intro before c walk same look hidden parts
    obtain ⟨s, passed, text⟩ := c
    obtain rfl : text = d :: (tail ++ (rest ++ ext)) := same
    simp only [List.cons_append, List.length_cons, hiddenIn, List.append_eq_nil_iff] at hidden
    have plainHere : openerAt rules before (d :: (tail ++ rest)) = none := by
      have absent := hidden.1
      split at absent
      · contradiction
      · rename_i none
        simpa using none
    have plain : openerAt rules passed (d :: (tail ++ (rest ++ ext))) = none := by
      rw [← sameLookOpener look, ← List.append_assoc, ← List.cons_append]
      exact closedNone closed plainHere
    have next := walk.head (by simp only [List.length_cons, List.length_append]; omega)
    obtain ⟨s', moved, delimiter, _⟩ := stayUnit next.1 (wordPartInk (parts d (by simp))) plain
    have walk' := next.2
    rw [moved] at walk'
    obtain ⟨c', there, rest', before', delimiter'⟩ := ih walk' rfl (sameLookPush look [d])
      hidden.2 (fun e member => parts e (by simp [member]))
    refine ⟨c', there, rest', ?_, delimiter'.trans delimiter⟩
    rw [before']
    simp

structure Tracks (rules : DialectRules) (c1 : SplitConfig) (ext : Text)
    (ct : Config CodeUnit Nat) (c : SplitConfig) : Prop where
  walk : Walk rules c c1
  rest : c.rest = ct.rest ++ ext
  look : SameLook rules ct.before c.before
  delimiter : c.state.delimiter = .semicolon

theorem trackForm {depth : Nat} {before more : Text} {x : CodeUnit} {c : SplitConfig}
    (tracks : Tracks rules c1 ext ⟨depth, before, x :: more⟩ c)
    (short : c1.rest.length ≤ ext.length) (ink : isSpace x = false) {opener : Opener}
    (found : openerAt rules before (x :: more) = some opener) :
    (Config.next (tokenStep rules) ⟨depth, before, x :: more⟩).rest = [] ∨
      ∃ c', Tracks rules c1 ext (Config.next (tokenStep rules) ⟨depth, before, x :: more⟩) c' := by
  obtain ⟨walk, rest, look, delimiter⟩ := tracks
  obtain ⟨s, passed, text⟩ := c
  obtain rfl : text = x :: (more ++ ext) := rest
  have next := walk.head (by simp only [List.length_cons, List.length_append]; omega)
  have width := (tokenForm depth ink found).1
  have fits := openerFits found
  have taken : Config.next (tokenStep rules) ⟨depth, before, x :: more⟩ =
      ⟨(tokenStep rules depth before (x :: more)).state,
        ((x :: more).take (opener.scan rules (x :: more))).reverse ++ before,
        (x :: more).drop (opener.scan rules (x :: more))⟩ := by simp only [Config.next, width]
  rw [taken]
  by_cases inside : opener.scan rules (x :: more) < (x :: more).length
  · refine Or.inr ?_
    have also := openerSettles found ext inside
    have scan := openerScanSettles (openerStands found) ext inside
    rw [sameLookOpener look, List.cons_append] at also
    rw [List.cons_append] at scan
    obtain ⟨s', moved, same⟩ := stayForm next.1 ink also
    refine ⟨_, ⟨next.2, ?_, ?_, ?_⟩⟩
    · rw [moved, scan, ← List.cons_append, List.drop_append_of_le_length fits]
    · rw [moved, scan, ← List.cons_append, List.take_append_of_le_length fits]
      exact sameLookPush look _
    · rw [moved]
      exact same.trans delimiter
  · exact Or.inl (List.drop_eq_nil_of_le (by omega))

theorem trackPlain {depth : Nat} {before more : Text} {x : CodeUnit} {c : SplitConfig}
    (tracks : Tracks rules c1 ext ⟨depth, before, x :: more⟩ c)
    (short : c1.rest.length ≤ ext.length) (closed : Closed ext) (ink : isSpace x = false)
    (plain : openerAt rules before (x :: more) = none) :
    (∀ token ∈ Config.out (tokenStep rules) ⟨depth, before, x :: more⟩, isSemicolon token = false) ∧
    (hiddenHere rules depth before (x :: more) = [] →
      ∃ c', Tracks rules c1 ext (Config.next (tokenStep rules) ⟨depth, before, x :: more⟩) c') := by
  obtain ⟨walk, rest, look, delimiter⟩ := tracks
  obtain ⟨s, passed, text⟩ := c
  obtain rfl : text = x :: (more ++ ext) := rest
  have next := walk.head (by simp only [List.length_cons, List.length_append]; omega)
  have plain' : openerAt rules passed (x :: (more ++ ext)) = none := by
    rw [← sameLookOpener look]
    exact closedNone closed plain
  obtain ⟨s', moved, same, open_⟩ := stayUnit next.1 ink plain'
  obtain ⟨tail, rest, rfl, parts, width, out⟩ := tokenPlain depth ink plain
  have walk' := next.2
  rw [moved] at walk'
  refine ⟨fun token member => ?_, fun hidden => ?_⟩
  · by_contra semicolon
    rw [Bool.not_eq_false] at semicolon
    have here : x = ';' := out token member semicolon
    apply open_
    have mark : s.delimiter = .semicolon := delimiter
    rw [mark, here]
    exact List.prefix_append [_] _
  · have none : hiddenIn rules (x :: before) tail.length (tail ++ rest) = [] := by
      simpa [hiddenHere, ink, plain, width] using hidden
    have split : tail ++ rest ++ ext = tail ++ (rest ++ ext) := List.append_assoc _ _ _
    obtain ⟨c', there, rest', before', delimiter'⟩ := walkInside closed short tail rest walk'
      split (sameLookPush look [x]) none parts
    have taken : Config.next (tokenStep rules) ⟨depth, before, x :: (tail ++ rest)⟩ =
        ⟨(tokenStep rules depth before (x :: (tail ++ rest))).state, tail.reverse ++ x :: before,
          rest⟩ := by simp [Config.next, width]
    refine ⟨c', ⟨there, ?_, ?_, ?_⟩⟩
    · rw [taken, rest']
    · rw [taken, before']
      exact sameLookPush (sameLookPush look [x]) tail
    · exact delimiter'.trans (same.trans delimiter)

theorem trackStep {ct : Config CodeUnit Nat} {c : SplitConfig} (tracks : Tracks rules c1 ext ct c)
    (short : c1.rest.length ≤ ext.length) (closed : Closed ext) (some : ct.rest ≠ []) :
    (∀ token ∈ ct.out (tokenStep rules), isSemicolon token = false) ∧
    (hiddenHere rules ct.state ct.before ct.rest = [] →
      (ct.next (tokenStep rules)).rest = [] ∨
        ∃ c', Tracks rules c1 ext (ct.next (tokenStep rules)) c') := by
  obtain ⟨depth, before, rest⟩ := ct
  cases rest with
  | nil => exact absurd rfl some
  | cons x more =>
    cases white : isSpace x with
    | true =>
      refine ⟨by simp [Config.out, tokenSpace depth white], fun _ => Or.inr ?_⟩
      obtain ⟨walk, rest, look, delimiter⟩ := tracks
      obtain ⟨s, passed, text⟩ := c
      obtain rfl : text = x :: (more ++ ext) := rest
      have next := walk.head (by simp only [List.length_cons, List.length_append]; omega)
      have walk' := next.2
      rw [staySpace white] at walk'
      have taken : Config.next (tokenStep rules) ⟨depth, before, x :: more⟩ =
          ⟨depth, x :: before, more⟩ := by simp [Config.next, tokenSpace depth white]
      rw [taken]
      exact ⟨_, ⟨walk', rfl, sameLookPush look [x], delimiter⟩⟩
    | false =>
      cases found : openerAt rules before (x :: more) with
      | some opener =>
        exact ⟨(tokenForm depth white found).2, fun _ => trackForm tracks short white found⟩
      | none =>
        have facts := trackPlain tracks short closed white found
        exact ⟨facts.1, fun hidden => Or.inr (facts.2 hidden)⟩

theorem hiddenBelow {before text : Text} {n k : Nat} (member : k ∈ hiddenIn rules before n text) :
    k < before.length + n := by
  fun_induction hiddenIn rules before n text with
  | case1 before n c rest ih =>
    rcases List.mem_append.mp member with here | there
    · split at here
      · rw [List.mem_singleton] at here
        omega
      · simp at here
    · have below := ih there
      simp only [List.length_cons] at below
      omega
  | case2 => simp at member

theorem hiddenCovers {ct : Config CodeUnit Nat} {k : Nat} (some : ct.rest ≠ [])
    (member : k ∈ hiddenHere rules ct.state ct.before ct.rest) :
    (ct.next (tokenStep rules)).rest <:+ ct.text.drop k := by
  have positive := tokenProgress rules ct.state ct.before ct.rest some
  have below : k ≤ ct.before.length + ct.width (tokenStep rules) := by
    obtain ⟨depth, before, rest⟩ := ct
    cases rest with
    | nil => exact absurd rfl some
    | cons c more =>
      simp only [hiddenHere] at member
      split at member
      · simp at member
      · have bound := hiddenBelow member
        simp only [List.length_cons, Config.width] at bound positive ⊢
        omega
  have there : (ct.next (tokenStep rules)).rest =
      ct.text.drop (ct.before.length + ct.width (tokenStep rules)) := by
    have size : ct.before.length = ct.before.reverse.length := (List.length_reverse).symm
    rw [Config.text, ← List.drop_drop, size, List.drop_left]
    rfl
  rw [there]
  exact List.drop_suffix_drop_left _ below

theorem trackRun (short : c1.rest.length ≤ ext.length) (closed : Closed ext)
    (ct : Config CodeUnit Nat) (start : ct.rest = [] ∨ ∃ c, Tracks rules c1 ext ct c)
    (hidden : ∀ k ∈ runAt (relabel (hiddenHere rules) (tokenStep rules)) (fun _ _ => []) ct,
      (';' : CodeUnit) ∉ ct.text.drop k) :
    ∀ token ∈ runAt (tokenStep rules) (fun _ _ => []) ct, isSemicolon token = false := by
  induction ct using passInduction (tokenProgress rules) with
  | stop depth before => simp [runAtEnd]
  | turn ct some ih =>
    rcases start with empty | ⟨c, tracks⟩
    · exact absurd empty some
    · have step := trackStep tracks short closed some
      rw [runAtNext (relabelProgress _ (tokenProgress rules)) _ some, relabelNext] at hidden
      intro token member
      rw [runAtNext (tokenProgress rules) _ some, List.mem_append] at member
      rcases member with here | later
      · exact step.1 token here
      · cases covered : hiddenHere rules ct.state ct.before ct.rest with
        | nil =>
          refine ih (step.2 covered) (fun k inside => ?_) token later
          rw [Config.nextText]
          exact hidden k (List.mem_append_right _ inside)
        | cons k others =>
          have inside : k ∈ hiddenHere rules ct.state ct.before ct.rest := by simp [covered]
          have absent := hidden k (List.mem_append_left _ inside)
          exact tokenNoSemicolon (fun there =>
            absent ((hiddenCovers some inside).subset there)) token later

end Simulation

section Statements
variable {rules : DialectRules}

theorem pieceTracked (plain : rules.escapeStringPrefix = true → rules.delimiterCommand = false)
    {sql : Text} {p : Piece} (member : p ∈ pieces rules .semicolon sql)
    (delimiter : p.delimiter = .semicolon) :
    ∃ c1 ext c, c1.rest.length ≤ ext.length ∧ Closed ext ∧
      Tracks rules c1 ext ⟨0, [], p.text⟩ c := by
  obtain ⟨c0, c1, reach, opens, walk, out, ends⟩ := pieceOrigin member
    (show ChunkOpens rules _ from ⟨rfl, fun _ => rfl⟩) (fun c reach some leaves => chunkOpensLater plain reach (fun _ => rfl) some leaves)
  obtain ⟨lead, trail, rest, leadWhite, trailWhite, _, some, _, mark⟩ :=
    flushedChunk walk opens.1 out
  have long := List.length_pos_iff.mpr some
  obtain ⟨c, walk', rest', before', state'⟩ := walkLead _ _ walk rest leadWhite
    (by simp only [List.length_append]; omega)
  refine ⟨c1, trail ++ c1.rest, c, by simp, ?_, walk', rest', ?_, ?_⟩
  · intro d head
    cases trail with
    | cons e trail =>
      cases head
      exact Or.inl (trailWhite d (by simp))
    | nil =>
      rcases ends with empty | stands
      · rw [empty] at head
        contradiction
      · rw [walk.state.2, ← mark, delimiter] at stands
        obtain ⟨after, there⟩ := stands
        rw [List.nil_append, ← there] at head
        cases head
        exact Or.inr rfl
  · rw [before']
    exact leadLook opens.2 leadWhite
  · rw [state', ← mark, delimiter]

theorem hiddenInNone (noEscape : rules.escapeStringPrefix = false)
    (noDollar : rules.dollarQuoting = false) (tail rest : Text) : ∀ before : Text,
    (∀ d ∈ tail, isWordPart d = true) → hiddenIn rules before tail.length (tail ++ rest) = [] := by
  induction tail with
  | nil => exact fun before _ => by cases rest <;> rfl
  | cons d tail ih =>
    intro before parts
    have part := parts d (by simp)
    have apart (e : CodeUnit) (not : isWordPart e = false) : (d == e) = false := by
      rw [beq_eq_false_iff_ne]
      rintro rfl
      rw [not] at part
      contradiction
    have plain : openerAt rules before (d :: (tail ++ rest)) = none := by
      simp only [openerAt, noEscape, noDollar, apart '-' rfl, apart '#' rfl, apart '/' rfl,
        apart apostrophe rfl, apart doubleQuote rfl, apart backtick rfl, apart '[' rfl,
        Bool.false_and, Bool.and_false, Bool.false_eq_true, if_false]
    simp only [List.cons_append, List.length_cons, hiddenIn, plain]
    exact ih _ (fun e member => parts e (by simp [member]))

theorem hiddenNone (noEscape : rules.escapeStringPrefix = false)
    (noDollar : rules.dollarQuoting = false) (ct : Config CodeUnit Nat) :
    runAt (relabel (hiddenHere rules) (tokenStep rules)) (fun _ _ => []) ct = [] := by
  induction ct using passInduction (relabelProgress (hiddenHere rules) (tokenProgress rules)) with
  | stop depth before => rfl
  | turn ct some ih =>
    rw [runAtNext (relabelProgress _ (tokenProgress rules)) _ some, ih, List.append_nil]
    obtain ⟨depth, before, rest⟩ := ct
    cases rest with
    | nil => rfl
    | cons x more =>
      simp only [Config.out, relabel, hiddenHere]
      split
      · rfl
      · rename_i test
        simp only [Bool.or_eq_true, not_or, Bool.not_eq_true, Option.isSome_eq_false_iff,
          Option.isNone_iff_eq_none] at test
        obtain ⟨tail, rest, rfl, parts, width, _⟩ := tokenPlain depth test.1 test.2
        rw [width, Nat.add_sub_cancel]
        exact hiddenInNone noEscape noDollar tail rest _ parts

theorem statementAgrees {dialect : SqlDialect} {sql : Text} {s : SqlStatement}
    (member : s ∈ splitStatements sql dialect) (delimiter : s.delimiter = .semicolon)
    (hidden : ∀ k ∈ hiddenOpeners (rulesOf dialect) s.text, (';' : CodeUnit) ∉ s.text.drop k) :
    ∀ token ∈ tokenize s.text (rulesOf dialect), isSemicolon token = false := by
  obtain ⟨p, inside, text, mark, _⟩ := splitMember member
  rw [← mark] at delimiter
  obtain ⟨c1, ext, c, short, closed, tracks⟩ :=
    pieceTracked (dialectPlain dialect) inside delimiter
  rw [text] at tracks
  exact trackRun short closed _ (Or.inr ⟨c, tracks⟩) hidden

end Statements

def HidesNoSemicolon (dialect : SqlDialect) (sql : Text) : Prop :=
  ∀ s ∈ splitStatements sql dialect, s.delimiter = .semicolon →
    ∀ k ∈ hiddenOpeners (rulesOf dialect) s.text, (';' : CodeUnit) ∉ s.text.drop k

instance (dialect : SqlDialect) (sql : Text) : Decidable (HidesNoSemicolon dialect sql) := by
  unfold HidesNoSemicolon
  infer_instance

theorem splitTokensDisagreeInDollarWord :
    ¬ splitAndTokensAgree .postgres (units "a$b$ ; x $b$") := by
  intro agree
  have one := agree ((splitStatements (units "a$b$ ; x $b$") .postgres).head (by decide))
    (List.head_mem _) (by decide)
  revert one
  decide

theorem splitTokensAgreeWhenNothingHides (dialect : SqlDialect) :
    (∀ sql, HidesNoSemicolon dialect sql → splitAndTokensAgree dialect sql) ∧
      ((∀ sql, splitAndTokensAgree dialect sql) ↔ dialect ≠ .postgres) := by
  have enough (sql : Text) (hidden : HidesNoSemicolon dialect sql) :
      splitAndTokensAgree dialect sql :=
    fun s member delimiter => statementAgrees member delimiter (hidden s member delimiter)
  refine ⟨enough, ?_, fun other sql => ?_⟩
  · rintro agree rfl
    have one := agree (units "1.E'a\\';b'")
      ((splitStatements (units "1.E'a\\';b'") .postgres).head (by decide))
      (List.head_mem _) (by decide)
    revert one
    decide
  · have none : hiddenOpeners (rulesOf dialect) = fun _ => [] := by
      funext text
      cases dialect with
      | postgres => exact absurd rfl other
      | mysql => exact hiddenNone rfl rfl _
      | sqlite => exact hiddenNone rfl rfl _
    refine enough sql (fun s member delimiter k inside => ?_)
    rw [none] at inside
    simp at inside

theorem splitTokensAgreeInDollarScript :
    splitAndTokensAgree .postgres (units "select $a$;$a$, x$1; -- ;\nselect 2") :=
  (splitTokensAgreeWhenNothingHides .postgres).1 _ (by decide)

end DatabaseAdmin
