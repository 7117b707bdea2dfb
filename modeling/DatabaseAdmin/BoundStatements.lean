import DatabaseAdmin.NameSwaps
import DatabaseAdmin.RowFilters

/-! Named placeholders rewritten to the engine's own. -/
namespace DatabaseAdmin.BoundStatements
open CodeUnits ScanLoop Templates Placeholders NameSwaps RowFilters

variable {α : Type}

structure BoundStatement (α : Type) where
  sql : Text
  params : List α
  deriving DecidableEq, Repr

def paramStyleFor (engine : EngineKind) : ParamStyle := if engine = .postgres then .dollar else .qmark

structure Rewriting (α : Type) where
  params : List α
  slotOf : List (Text × Nat)
  out : Text
  cursor : Nat

def slice (sql : Text) (start stop : Nat) : Text := (sql.drop start).take (stop - start)

def bindName (style : ParamStyle) (sql : Text) (values : Text → Option α) (s : Rewriting α) (p : SqlPlaceholder) :
    Except Text (Rewriting α) :=
  let name := p.name.getD []
  match values name with
  | none => .error (units "No value was given for the parameter \"" ++ name ++ units "\".")
  | some value =>
      let before := s.out ++ slice sql s.cursor p.start
      match style with
      | .dollar => match s.slotOf.lookup name with
          | some slot => .ok ⟨s.params, s.slotOf, before ++ dollar slot, p.stop⟩
          | none =>
              let slot := s.params.length + 1
              .ok ⟨s.params ++ [value], s.slotOf ++ [(name, slot)], before ++ dollar slot, p.stop⟩
      | .qmark => .ok ⟨s.params ++ [value], s.slotOf, before ++ units "?", p.stop⟩

def bindNames (style : ParamStyle) (sql : Text) (values : Text → Option α) :
    List SqlPlaceholder → Rewriting α → Except Text (Rewriting α)
  | [], s => .ok s
  | p :: rest, s => do bindNames style sql values rest (← bindName style sql values s p)

def bindStatement (sql : Text) (dialect : SqlDialect) (engine : EngineKind) (values : Text → Option α)
    (positional : List α) : Except Text (BoundStatement α) :=
  let found := findPlaceholders sql dialect
  if found = [] then .ok ⟨sql, []⟩
  else
    let named := found.filter fun p => p.style = .named
    let rest := found.filter fun p => p.style ≠ .named
    if named ≠ [] ∧ rest ≠ [] then
      .error (units ("This statement mixes named (:name) and positional (? or $1) placeholders. " ++
        "Use one style so the order is unambiguous."))
    else if named = [] then
      if positional = [] then .ok ⟨sql, []⟩
      else
        let wanted := (rest.map SqlPlaceholder.ordinal).dedup.length
        if positional.length ≠ wanted then
          .error (units ("This statement has " ++ toString wanted ++ " parameter(s) but " ++
            toString positional.length ++ " value(s) were supplied."))
        else .ok ⟨sql, positional⟩
    else do
      let s ← bindNames (paramStyleFor engine) sql values named ⟨[], [], [], 0⟩
      return ⟨s.out ++ sql.drop s.cursor, s.params⟩

section Holes

def pieceHere (dialect : SqlDialect) (n : Nat) (before rest : Text) : Template Text :=
  match (placeholderStep dialect n before rest).out with
  | [⟨some name, _, _, _, _⟩] => hole name
  | _ => raw (rest.take (placeholderStep dialect n before rest).width)

def templateFrom (dialect : SqlDialect) (c : Config CodeUnit Nat) : Template Text :=
  runAt (relabel (pieceHere dialect) (placeholderStep dialect)) (fun _ _ => []) c

def templateOf (sql : Text) (dialect : SqlDialect) : Template Text := templateFrom dialect ⟨0, [], sql⟩

def spots (write : Text → Text) (make : Nat → Text → Nat → Nat → SqlPlaceholder) : Nat → Nat → Template Text →
    List SqlPlaceholder
  | _, _, [] => []
  | n, start, .unit _ :: rest => spots write make n (start + 1) rest
  | n, start, .hole name :: rest =>
      make (n + 1) name start (start + (write name).length) ::
        spots write make (n + 1) (start + (write name).length) rest

def named (name : Text) : Text := 58 :: name

def namedSpot (n : Nat) (name : Text) (start stop : Nat) : SqlPlaceholder := ⟨some name, some n, start, stop, .named⟩

def distinct (names : List Text) : List Text := names.foldl (fun seen name => if name ∈ seen then seen else seen ++ [name]) []

def slotIn (names : List Text) (name : Text) : Nat := (distinct names).idxOf name + 1

def mark (style : ParamStyle) (names : List Text) (name : Text) : Text :=
  match style with
  | .dollar => dollar (slotIn names name)
  | .qmark => units "?"

def markSpot (style : ParamStyle) (names : List Text) (n : Nat) (name : Text) (start stop : Nat) : SqlPlaceholder :=
  match style with
  | .dollar => ⟨none, numberOf (units (toString (slotIn names name))), start, stop, .dollar⟩
  | .qmark => ⟨none, some n, start, stop, .qmark⟩

def boundNames (style : ParamStyle) (names : List Text) : List Text :=
  match style with
  | .dollar => distinct names
  | .qmark => names

def Glued (rest : Text) : Bool :=
  nextIs '|' rest || nextIs '&' rest || (nextIs ':' rest && (rest.drop 1).head?.any isIdentStart)

end Holes

section Template
variable {dialect : SqlDialect}

def AllNamed (dialect : SqlDialect) (c : Config CodeUnit Nat) : Prop :=
  ∀ p ∈ runAt (placeholderStep dialect) (fun _ _ => []) c, p.style = .named

theorem templateTurn {c : Config CodeUnit Nat} (some : c.rest ≠ []) : templateFrom dialect c =
    pieceHere dialect c.state c.before c.rest ++ templateFrom dialect (c.next (placeholderStep dialect)) :=
  runAtNext (relabelProgress _ (placeholderProgress dialect)) _ some

theorem namedLater {c : Config CodeUnit Nat} (some : c.rest ≠ []) (all : AllNamed dialect c) :
    (∀ p ∈ c.out (placeholderStep dialect), p.style = .named) ∧
      AllNamed dialect (c.next (placeholderStep dialect)) := by
  unfold AllNamed at all
  rw [runAtNext (placeholderProgress dialect) _ some] at all
  exact ⟨fun p member => all p (List.mem_append_left _ member), fun p member => all p (List.mem_append_right _ member)⟩

inductive Reads (dialect : SqlDialect) (n : Nat) (before : Text) : Text → Turn Nat SqlPlaceholder → Template Text →
    Prop where
  | name (name more : Text) (begins : beginsName before (name ++ more) = true)
      (ident : ∀ d ∈ name, isIdentPart d = true) (stop : ∀ d ∈ more.head?, isIdentPart d = false) :
      Reads dialect n before (58 :: (name ++ more)) ⟨n + 1, 1 + name.length, [⟨some name, some (n + 1), before.length,
        before.length + (1 + name.length), .named⟩]⟩ (hole name)
  | form (f more : Text) (full : f ≠ []) (opener : Opener)
      (found : openerAt (rulesOf dialect) before (f ++ more) = some opener)
      (whole : opener.scan (rulesOf dialect) (f ++ more) = f.length) :
      Reads dialect n before (f ++ more) ⟨n, f.length, []⟩ (raw f)
  | pair (d : CodeUnit) (more : Text) (mark : d = ':' ∨ d = '=') :
      Reads dialect n before (58 :: d :: more) ⟨n, 2, []⟩ (raw [58, d])
  | operator (d : CodeUnit) (more : Text) (mark : d = '|' ∨ d = '&') :
      Reads dialect n before (63 :: d :: more) ⟨n, 2, []⟩ (raw [63, d])
  | colon (more : Text) (single : nextIs ':' more = false) (assign : nextIs '=' more = false)
      (begins : beginsName before more = false) : Reads dialect n before (58 :: more) ⟨n, 1, []⟩ (raw [58])
  | unit (c : CodeUnit) (more : Text) (other : c ≠ 58) (plain : openerAt (rulesOf dialect) before (c :: more) = none)
      (bare : (rulesOf dialect).dollarQuoting = true → c = 36 → more.takeWhile isDigit = [])
      (quiet : c = 63 → dialect = .postgres ∧ nextIs '|' more = false ∧ nextIs '&' more = false) :
      Reads dialect n before (c :: more) ⟨n, 1, []⟩ (raw [c])

theorem readsStep {n : Nat} {before rest : Text} (some : rest ≠ [])
    (all : ∀ p ∈ (placeholderStep dialect n before rest).out, p.style = .named) :
    Reads dialect n before rest (placeholderStep dialect n before rest) (pieceHere dialect n before rest) := by
  cases rest with
  | nil => exact absurd rfl some
  | cons c more =>
    unfold pieceHere
    cases found : openerAt (rulesOf dialect) before (c :: more) with
    | some opener =>
      rw [placeholderForm found]
      have fits := openerFits found
      have positive := openerPositive found
      have split := List.take_append_drop (opener.scan (rulesOf dialect) (c :: more)) (c :: more)
      have long : ((c :: more).take (opener.scan (rulesOf dialect) (c :: more))).length =
          opener.scan (rulesOf dialect) (c :: more) := by
        rw [List.length_take]
        omega
      have reads : Reads dialect n before ((c :: more).take (opener.scan (rulesOf dialect) (c :: more)) ++
          (c :: more).drop (opener.scan (rulesOf dialect) (c :: more))) _ _ :=
        .form _ _ (by rw [← List.length_pos_iff, long]; exact positive) opener (by rw [split]; exact found)
          (by rw [split, long])
      rw [split, long] at reads
      exact reads
    | none =>
      have jumps := placeholderJumps (n := n) found
      generalize placeholderStep dialect n before (c :: more) = turn at jumps all ⊢
      cases jumps with
      | name begins =>
        have split := List.takeWhile_append_dropWhile (p := isIdentPart) (l := more)
        have stop : ∀ d ∈ (more.dropWhile isIdentPart).head?, isIdentPart d = false := by
          intro d head
          have first := List.head?_dropWhile_not isIdentPart more
          rw [Option.mem_def.mp head] at first
          exact first
        have reads : Reads dialect n before (58 :: (more.takeWhile isIdentPart ++ more.dropWhile isIdentPart)) _ _ :=
          .name (more.takeWhile isIdentPart) (more.dropWhile isIdentPart) (by rw [split]; exact begins)
            (fun d member => List.mem_takeWhile_imp member) stop
        rw [split] at reads
        exact reads
      | number => cases all _ (List.mem_singleton_self _)
      | mark binds => cases all _ (List.mem_singleton_self _)
      | pair d rest split mark =>
        subst split
        exact .pair d rest mark
      | operator d rest split mark =>
        subst split
        exact .operator d rest mark
      | colon single assign begins => exact .colon more single assign begins
      | unit c other bare quiet => exact .unit c more other found bare quiet

theorem spotsRaw (write : Text → Text) (make : Nat → Text → Nat → Nat → SqlPlaceholder) (n : Nat) (text : Text)
    (t : Template Text) : ∀ start, spots write make n start (raw text ++ t) = spots write make n (start + text.length) t := by
  induction text with
  | nil => exact fun start => rfl
  | cons c text ih =>
    intro start
    have tail := ih (start + 1)
    rw [Nat.add_assoc, Nat.add_comm 1] at tail
    exact tail

theorem nextText {c : Config CodeUnit Nat} {f more : Text} (rest : c.rest = f ++ more)
    (width : (placeholderStep dialect c.state c.before c.rest).width = f.length) :
    c.next (placeholderStep dialect) =
      ⟨(placeholderStep dialect c.state c.before c.rest).state, f.reverse ++ c.before, more⟩ := by
  simp only [Config.next, width]
  rw [rest, List.take_left, List.drop_left]

theorem swapUnits {write : Text → Text} (p : Text) {rest rest' : Text} : ∀ {before : Text},
    Swap write (p.reverse ++ before) rest rest' → Swap write before (p ++ rest) (p ++ rest') := by
  induction p with
  | nil => exact fun swap => swap
  | cons c p ih =>
    intro before swap
    refine .unit c (ih ?_)
    simpa using swap

def Alike (dialect : SqlDialect) (before before' rest : Text) : Prop :=
  before'.head?.any isIdentPart = before.head?.any isIdentPart ∨
    (dialect ≠ .postgres ∧ before'.head?.any isIdentPart = false ∧
      (nextIs ':' rest && (rest.drop 1).head?.any isIdentStart) = false)

theorem Alike.look {before before' rest : Text} (alike : Alike dialect before before' rest) :
    SameLook (rulesOf dialect) before before' := by
  intro prefixed
  rcases alike with same | ⟨other, -⟩
  · exact same.symm
  · cases dialect with
    | postgres => exact absurd rfl other
    | mysql => cases prefixed
    | sqlite => cases prefixed

theorem alikePast {before before' f rest : Text} (some : f ≠ []) :
    Alike dialect (f.reverse ++ before) (f.reverse ++ before') rest := by
  left
  obtain ⟨c, tail, last⟩ := List.exists_cons_of_ne_nil (mt List.reverse_eq_nil_iff.mp some)
  rw [last]
  rfl

def Kept (dialect : SqlDialect) (before f more : Text) : Prop :=
  ∀ (write : Text → Text) (m : Nat) (before' more' : Text), Writes write → Alike dialect before before' (f ++ more) →
    Swap write (f.reverse ++ before) more more' →
    placeholderStep dialect m before' (f ++ more') = ⟨m, f.length, []⟩

theorem openerKept {write : Text → Text} (writes : Writes write) {before before' more more' : Text} {c : CodeUnit}
    (alike : Alike dialect before before' (c :: more)) (swap : Swap write (c :: before) more more') :
    openerAt (rulesOf dialect) before' (c :: more') = openerAt (rulesOf dialect) before (c :: more) := by
  rw [← sameLookOpener alike.look, swapOpener writes swap]

theorem formKept {before f more : Text} {opener : Opener} (full : f ≠ [])
    (found : openerAt (rulesOf dialect) before (f ++ more) = some opener)
    (whole : opener.scan (rulesOf dialect) (f ++ more) = f.length) : Kept dialect before f more := by
  intro write m before' more' writes alike swap
  obtain ⟨c, f, rfl⟩ := List.exists_cons_of_ne_nil full
  have inner : Swap write (c :: before) (f ++ more) (f ++ more') := swapUnits f (by simpa using swap)
  have again : openerAt (rulesOf dialect) before' (c :: f ++ more') = some opener := by
    rw [List.cons_append] at found alike ⊢
    rw [openerKept writes alike inner, found]
  rw [placeholderForm again]
  congr 1
  cases more with
  | nil =>
    rw [swapNil swap]
    exact whole
  | cons d u =>
    rcases swapHead writes swap with same | ⟨colon, -, e, head, mark⟩
    · cases more' with
      | nil => cases same
      | cons d' u' =>
        obtain rfl : d' = d := Option.some.inj same
        exact scanKept (.inl rfl) whole
    · cases more' with
      | nil => cases head
      | cons d' u' =>
        obtain rfl : d' = e := Option.some.inj head
        exact scanKept (.inr ⟨Option.some.inj colon, mark⟩) whole

theorem colonKept {before more : Text} (single : nextIs ':' more = false) (assign : nextIs '=' more = false)
    (begins : beginsName before more = false) : Kept dialect before [58] more := by
  intro write m before' more' writes alike swap
  have plain : openerAt (rulesOf dialect) before' (58 :: more') = none := SqlFragments.jointOpens rfl _ _
  have head : more'.head? = more.head? := by
    rcases swapHead writes swap with same | ⟨colon, -⟩
    · exact same
    · simp [nextIs, colon] at single
  have none : beginsName before' more' = false := by
    rcases alike with same | ⟨-, free, unnamed⟩
    · rw [beginsName, same, head]
      exact begins
    · have unstarted : more.head?.any isIdentStart = false := by simpa [nextIs] using unnamed
      rw [beginsName, head, unstarted, Bool.and_false]
  have jumps := placeholderJumps (n := m) plain
  rw [List.singleton_append]
  generalize placeholderStep dialect m before' (58 :: more') = turn at jumps ⊢
  cases jumps with
  | name starts =>
    rw [none] at starts
    cases starts
  | pair d rest split mark =>
    rw [split] at head
    rcases mark with rfl | rfl
    · simp [nextIs, ← head] at single
    · simp [nextIs, ← head] at assign
  | colon => rfl
  | unit c other => exact absurd rfl other

theorem unitKept {before more : Text} {c : CodeUnit} (other : c ≠ 58)
    (plain : openerAt (rulesOf dialect) before (c :: more) = none)
    (bare : (rulesOf dialect).dollarQuoting = true → c = 36 → more.takeWhile isDigit = [])
    (quiet : c = 63 → dialect = .postgres ∧ nextIs '|' more = false ∧ nextIs '&' more = false) :
    Kept dialect before [c] more := by
  intro write m before' more' writes alike swap
  have found : openerAt (rulesOf dialect) before' (c :: more') = none := (openerKept writes alike swap).trans plain
  have jumps := placeholderJumps (n := m) found
  have bar := swapNext writes swap (d := ('|' : CodeUnit)) (by decide)
  have amp := swapNext writes swap (d := ('&' : CodeUnit)) (by decide)
  rw [List.singleton_append]
  generalize turned : placeholderStep dialect m before' (c :: more') = turn at jumps ⊢
  cases jumps with
  | name => exact absurd rfl other
  | pair => exact absurd rfl other
  | colon => exact absurd rfl other
  | unit => rfl
  | number quoting some =>
    have head : more'.head? = more.head? := swapAfter writes swap rfl
    have none := bare quoting rfl
    cases more' with
    | nil => exact absurd rfl some
    | cons d more' =>
      obtain ⟨more, rfl⟩ : ∃ tail, more = d :: tail := by
        cases more with
        | nil => cases head
        | cons e more =>
          obtain rfl : d = e := Option.some.inj head
          exact ⟨more, rfl⟩
      by_cases digit : isDigit d = true
      · rw [List.takeWhile_cons_of_pos digit] at none
        cases none
      · rw [List.takeWhile_cons_of_neg digit] at some
        exact absurd rfl some
  | operator d rest split mark =>
    obtain ⟨-, left, right⟩ := quiet rfl
    rw [split] at bar amp
    rcases mark with rfl | rfl
    · rw [left] at bar
      simp [nextIs] at bar
    · rw [right] at amp
      simp [nextIs] at amp
  | mark binds => exact absurd (quiet rfl).1 binds

theorem runWritten {n m : Nat} {before f rest : Text} {out : List SqlPlaceholder} (full : f ≠ [])
    (step : placeholderStep dialect n before (f ++ rest) = ⟨m, f.length, out⟩) :
    runAt (placeholderStep dialect) (fun _ _ => []) ⟨n, before, f ++ rest⟩ =
      out ++ runAt (placeholderStep dialect) (fun _ _ => []) ⟨m, f.reverse ++ before, rest⟩ := by
  have turn := runAtNext (placeholderProgress dialect) (fun _ _ => []) (c := ⟨n, before, f ++ rest⟩) (by simp [full])
  simpa only [Config.out, Config.next, step, List.take_left, List.drop_left] using turn

theorem readsText {c : Config CodeUnit Nat} (full : c.rest ≠ [])
    (all : ∀ p ∈ c.out (placeholderStep dialect), p.style = .named) :
    (∃ f more, c.rest = f ++ more ∧ f ≠ [] ∧ pieceHere dialect c.state c.before c.rest = raw f ∧
      c.next (placeholderStep dialect) = ⟨c.state, f.reverse ++ c.before, more⟩ ∧
      c.out (placeholderStep dialect) = [] ∧ Kept dialect c.before f more) ∨
    ∃ name more, c.rest = 58 :: (name ++ more) ∧ beginsName c.before (name ++ more) = true ∧
      (∀ d ∈ name, isIdentPart d = true) ∧ (∀ d ∈ more.head?, isIdentPart d = false) ∧
      pieceHere dialect c.state c.before c.rest = hole name ∧
      c.next (placeholderStep dialect) = ⟨c.state + 1, (58 :: name).reverse ++ c.before, more⟩ ∧
      c.out (placeholderStep dialect) =
        [namedSpot (c.state + 1) name c.before.length (c.before.length + (named name).length)] := by
  have next := @nextText dialect c
  have reads := readsStep full all
  obtain ⟨n, before, rest⟩ := c
  dsimp only at next reads ⊢
  simp only [Config.out] at next ⊢
  generalize placeholderStep dialect n before rest = turn at next reads ⊢
  generalize pieceHere dialect n before rest = piece at reads ⊢
  cases reads with
  | name name more begins ident stop =>
    right
    refine ⟨name, more, rfl, begins, ident, stop, rfl, ?_, ?_⟩
    · exact next (f := 58 :: name) rfl (by simp [Nat.add_comm])
    · simp [namedSpot, named, Nat.add_comm]
  | form f more some opener found whole =>
    exact .inl ⟨f, more, rfl, some, rfl, next rfl rfl, rfl, formKept some found whole⟩
  | pair d more mark =>
    refine .inl ⟨[58, d], more, rfl, by simp, rfl, next (f := [58, d]) rfl rfl, rfl, ?_⟩
    intro write m before' more' writes alike swap
    rcases mark with rfl | rfl <;> simp [placeholderStep, openerAt, apostrophe, doubleQuote, backtick, nextIs]
  | operator d more mark =>
    refine .inl ⟨[63, d], more, rfl, by simp, rfl, next (f := [63, d]) rfl rfl, rfl, ?_⟩
    intro write m before' more' writes alike swap
    rcases mark with rfl | rfl <;> simp [placeholderStep, openerAt, apostrophe, doubleQuote, backtick, nextIs]
  | colon more single assign begins =>
    exact .inl ⟨[58], more, rfl, by simp, rfl, next (f := [58]) rfl rfl, rfl, colonKept single assign begins⟩
  | unit x more other plain bare quiet =>
    exact .inl ⟨[x], more, rfl, by simp, rfl, next (f := [x]) rfl rfl, rfl, unitKept other plain bare quiet⟩

theorem templateWritten (c : Config CodeUnit Nat) (all : AllNamed dialect c) :
    shown named (templateFrom dialect c) = c.rest ∧
    runAt (placeholderStep dialect) (fun _ _ => []) c =
      spots named namedSpot c.state c.before.length (templateFrom dialect c) ∧
    ∀ write, Swap write c.before c.rest (shown write (templateFrom dialect c)) := by
  induction c using passInduction (placeholderProgress dialect) with
  | stop n before =>
    refine ⟨by simp [templateFrom, runAtEnd, shown], by simp [templateFrom, runAtEnd, spots], fun write => ?_⟩
    simp only [templateFrom, runAtEnd, shown]
    exact .done before
  | turn c full ih =>
    obtain ⟨here, later⟩ := namedLater full all
    obtain ⟨text, found, swap⟩ := ih later
    rw [templateTurn full, runAtNext (placeholderProgress dialect) _ full]
    rcases readsText full here with ⟨f, more, rest, -, piece, next, out, -⟩ |
      ⟨name, more, rest, begins, -, -, piece, next, out⟩
    · rw [next] at text found swap ⊢
      rw [piece, out]
      refine ⟨by simp [text, rest], ?_, fun write => ?_⟩
      · rw [spotsRaw, List.nil_append, found]
        simp [Nat.add_comm]
      · rw [shownAppend, shownRaw, rest]
        exact swapUnits f (swap write)
    · rw [next] at text found swap ⊢
      rw [piece, out]
      refine ⟨?_, ?_, fun write => ?_⟩
      · rw [shownAppend, shownHole, text, rest]
        rfl
      · rw [found]
        simp [spots, hole, Nat.add_left_comm, named]
      · rw [shownAppend, shownHole, rest]
        refine .name begins ?_
        simpa using swap write

end Template

section Scan
variable {names : List Text}

theorem digitNotStart {d : Nat} (digit : isDigit d = true) : isTagStart d = false ∧ d ≠ 36 := by
  have range : 48 ≤ d ∧ d ≤ 57 := by simpa [isDigit] using digit
  refine ⟨?_, by omega⟩
  by_contra starts
  rw [Bool.not_eq_false] at starts
  have range' : ((65 ≤ d ∧ d ≤ 90 ∨ 97 ≤ d ∧ d ≤ 122) ∨ d = 95) ∨ 128 ≤ d := by simpa [isTagStart, isIdentStart] using starts
  omega

theorem dollarOpens {before digits more : Text} (some : digits ≠ []) (all : ∀ d ∈ digits, isDigit d = true) :
    openerAt (rulesOf .postgres) before (36 :: (digits ++ more)) = none := by
  obtain ⟨d, rest, rfl⟩ := List.exists_cons_of_ne_nil some
  have first := digitNotStart (all d (by simp))
  have tag : dollarTagAt (36 :: (d :: rest ++ more)) = none := by
    simp [dollarTagAt, tagName, first.1, first.2]
  rw [openerAtDollar, tag]
  rfl

theorem digitsTaken {digits more : Text} (all : ∀ d ∈ digits, isDigit d = true)
    (stop : ∀ d ∈ more.head?, isIdentPart d = false) : (digits ++ more).takeWhile isDigit = digits := by
  refine takeWhileStops all fun d head => ?_
  have ident := stop d head
  simp only [isIdentPart, Bool.or_eq_false_iff] at ident
  exact ident.1.2

theorem dollarStep {digits more : Text} (m : Nat) (before : Text) (some : digits ≠ [])
    (digit : ∀ d ∈ digits, isDigit d = true) (stop : ∀ d ∈ more.head?, isIdentPart d = false) :
    placeholderStep .postgres m before (36 :: digits ++ more) = ⟨m, (36 :: digits).length,
      [⟨none, numberOf digits, before.length, before.length + (36 :: digits).length, .dollar⟩]⟩ := by
  have width : (36 :: digits).length = 1 + digits.length := by simp [Nat.add_comm]
  rw [List.cons_append, width]
  have plain : openerAt (rulesOf .postgres) before (36 :: (digits ++ more)) = none := dollarOpens some digit
  have sign : ((rulesOf .postgres).dollarQuoting && (36 : Nat) == ('$' : CodeUnit)) = true := rfl
  simp only [placeholderStep, plain, sign, if_true, digitsTaken digit stop, if_neg some]

theorem digitsBehind {digits before : Text} (some : digits ≠ []) (digit : ∀ d ∈ digits, isDigit d = true) :
    ((36 :: digits).reverse ++ before).head?.any isIdentPart = true := by
  obtain ⟨d, tail, last⟩ := List.exists_cons_of_ne_nil (mt List.reverse_eq_nil_iff.mp some)
  have ident : 48 ≤ d ∧ d ≤ 57 := by simpa [isDigit] using digit d (List.mem_reverse.mp (by simp [last]))
  simp [last, isIdentPart, ident]

theorem markWrites (style : ParamStyle) (names : List Text) : Writes (mark style names) := by
  intro name
  cases style with
  | dollar => exact ⟨36, _, rfl, rfl⟩
  | qmark => exact ⟨63, [], rfl, rfl⟩

theorem nameFull {before name more : Text} (begins : beginsName before (name ++ more) = true)
    (stop : ∀ d ∈ more.head?, isIdentPart d = false) : name ≠ [] := by
  rintro rfl
  cases more with
  | nil => simp [beginsName] at begins
  | cons d more =>
    have plain := stop d rfl
    simp only [beginsName, List.nil_append, List.head?_cons, Option.any_some, Bool.and_eq_true] at begins
    simp [isIdentPart, begins.2] at plain

theorem nameBehind {before name : Text} (ident : ∀ d ∈ name, isIdentPart d = true) (full : name ≠ []) :
    ((58 :: name).reverse ++ before).head?.any isIdentPart = true := by
  obtain ⟨c, tail, last⟩ := List.exists_cons_of_ne_nil (mt List.reverse_eq_nil_iff.mp full)
  have member : c ∈ name := List.mem_reverse.mp (by simp [last])
  simp [last, ident c member]

theorem dollarScan (c : Config CodeUnit Nat) (all : AllNamed .postgres c) : ∀ (m n : Nat) (before' : Text),
    Alike .postgres c.before before' c.rest →
    runAt (placeholderStep .postgres) (fun _ _ => []) ⟨m, before', shown (mark .dollar names) (templateFrom .postgres c)⟩ =
      spots (mark .dollar names) (markSpot .dollar names) n before'.length (templateFrom .postgres c) := by
  have writes := markWrites .dollar names
  induction c using passInduction (placeholderProgress .postgres) with
  | stop k before =>
    intro m n before' _
    simp [templateFrom, runAtEnd, shown, spots]
  | turn c full ih =>
    intro m n before' alike
    obtain ⟨here, later⟩ := namedLater full all
    have swap := (templateWritten _ later).2.2 (mark .dollar names)
    have again := ih later
    rw [templateTurn full]
    rcases readsText full here with ⟨f, more, rest, some, piece, next, out, kept⟩ |
      ⟨name, more, rest, begins, ident, stop, piece, next, out⟩
    · rw [next] at swap again ⊢
      rw [rest] at alike
      have step := kept _ m before' _ writes alike swap
      rw [piece, shownAppend, shownRaw, spotsRaw]
      generalize templateFrom .postgres ⟨c.state, f.reverse ++ c.before, more⟩ = t at again step ⊢
      rw [runWritten some step, again m n (f.reverse ++ before') (alikePast some)]
      simp [Nat.add_comm]
    · rw [next] at swap again ⊢
      have full' := nameFull begins stop
      obtain ⟨some', digit⟩ := shownDigits (slotIn names name)
      have behind : ((58 :: name).reverse ++ c.before).head?.any isIdentPart = true := nameBehind ident full'
      have head := swapAfter writes swap behind
      rw [piece, shownAppend, shownHole]
      generalize templateFrom .postgres ⟨c.state + 1, (58 :: name).reverse ++ c.before, more⟩ = t at again head ⊢
      generalize written : units (toString (slotIn names name)) = digits at some' digit
      have text : mark .dollar names name = 36 :: digits := by rw [← written]; rfl
      have step := dollarStep m before' some' digit (by rw [head]; exact stop)
      have look : Alike .postgres ((58 :: name).reverse ++ c.before) ((36 :: digits).reverse ++ before') more := by
        left
        rw [behind, digitsBehind some' digit]
      have place : ((36 :: digits).reverse ++ before').length = before'.length + (36 :: digits).length := by
        rw [List.length_append, List.length_reverse, Nat.add_comm]
      rw [text, runWritten (by simp) step, again m (n + 1) _ look, place]
      simp only [spots, hole, markSpot, text, written, List.singleton_append]

def Loose (dialect : SqlDialect) (c : Config CodeUnit Nat) : Prop :=
  ∀ p ∈ runAt (placeholderStep dialect) (fun _ _ => []) c, Glued (c.text.drop p.stop) = false

variable {dialect : SqlDialect}

theorem looseTurn {c : Config CodeUnit Nat} (full : c.rest ≠ []) : Loose dialect c ↔
    (∀ p ∈ c.out (placeholderStep dialect), Glued (c.text.drop p.stop) = false) ∧
      Loose dialect (c.next (placeholderStep dialect)) := by
  unfold Loose
  rw [runAtNext (placeholderProgress dialect) _ full, Config.nextText]
  simp only [List.mem_append, or_imp, forall_and]

theorem textBehind {c : Config CodeUnit Nat} {name more : Text} (rest : c.rest = 58 :: (name ++ more)) :
    c.text.drop (c.before.length + (named name).length) = more := by
  have split : c.text = (c.before.reverse ++ named name) ++ more := by simp [Config.text, rest, named]
  have long : c.before.length + (named name).length = (c.before.reverse ++ named name).length := by simp
  rw [split, long, List.drop_left]

theorem questionPlain {before rest : Text} : openerAt (rulesOf dialect) before (63 :: rest) = none := by
  simp [openerAt, apostrophe, doubleQuote, backtick]

theorem qmarkStep (other : dialect ≠ .postgres) (m : Nat) (before : Text) {rest : Text}
    (bar : nextIs '|' rest = false) (amp : nextIs '&' rest = false) :
    placeholderStep dialect m before (units "?" ++ rest) =
      ⟨m + 1, (units "?").length, [⟨none, some (m + 1), before.length, before.length + (units "?").length, .qmark⟩]⟩ := by
  have plain : openerAt (rulesOf dialect) before (63 :: rest) = none := questionPlain
  have jumps := placeholderJumps (n := m) plain
  change placeholderStep dialect m before (63 :: rest) = _
  generalize placeholderStep dialect m before (63 :: rest) = turn at jumps ⊢
  cases jumps with
  | mark => rfl
  | operator d tail split mark =>
    subst split
    rcases mark with rfl | rfl
    · simp [nextIs] at bar
    · simp [nextIs] at amp
  | unit _ _ _ quiet => exact absurd (quiet rfl).1 other

theorem operatorStep (m : Nat) (before : Text) {rest : Text} (operator : nextIs '|' rest = true ∨ nextIs '&' rest = true) :
    ∃ d tail, rest = d :: tail ∧ placeholderStep dialect m before ([63, d] ++ tail) = ⟨m, [63, d].length, []⟩ := by
  cases rest with
  | nil => simp [nextIs] at operator
  | cons d tail =>
    refine ⟨d, tail, rfl, ?_⟩
    have mark : d = '|' ∨ d = '&' := by simpa [nextIs] using operator
    rcases mark with rfl | rfl <;> simp [placeholderStep, openerAt, apostrophe, doubleQuote, backtick, nextIs]

theorem spotsMade (write : Text → Text) (make : Nat → Text → Nat → Nat → SqlPlaceholder) (t : Template Text) :
    ∀ n start, ∀ p ∈ spots write make n start t, ∃ n name start stop, p = make n name start stop := by
  induction t with
  | nil => simp [spots]
  | cons piece t ih =>
    intro n start p member
    cases piece with
    | unit => exact ih _ _ p member
    | hole name =>
      rcases List.mem_cons.mp member with rfl | later
      · exact ⟨_, _, _, _, rfl⟩
      · exact ih _ _ p later

theorem freedName {write : Text → Text} (writes : Writes write) {behind before more rest : Text} (m : Nat)
    (ident : behind.head?.any isIdentPart = true) (swap : Swap write behind more rest)
    (colon : nextIs ':' more = true) (start : (more.drop 1).head?.any isIdentStart = true) :
    ∃ p ∈ runAt (placeholderStep dialect) (fun _ _ => []) ⟨m, 63 :: before, rest⟩, p.style = .named := by
  obtain ⟨more, rfl⟩ : ∃ tail, more = 58 :: tail := by
    cases more with
    | nil => simp [nextIs] at colon
    | cons d more =>
      obtain rfl : d = 58 := by simpa [nextIs] using colon
      exact ⟨more, rfl⟩
  cases swap with
  | name begins => simp [beginsName, ident] at begins
  | unit _ tail =>
    rename_i rest
    have head : rest.head? = more.head? := by
      rcases swapHead writes tail with same | ⟨other, -⟩
      · exact same
      · simp [other, isIdentStart] at start
    have begins : beginsName (63 :: before) rest = true := by
      rw [beginsName, head]
      simpa [isIdentPart, isIdentStart] using start
    have plain : openerAt (rulesOf dialect) (63 :: before) (58 :: rest) = none := SqlFragments.jointOpens rfl _ _
    have jumps := placeholderJumps (n := m) plain
    rw [runAtNext (placeholderProgress dialect) _ (by simp)]
    simp only [Config.out]
    generalize placeholderStep dialect m (63 :: before) (58 :: rest) = turn at jumps ⊢
    cases jumps with
    | name => exact ⟨_, List.mem_append_left _ (List.mem_singleton_self _), rfl⟩
    | pair d tail split mark =>
      have first : more.head?.any isIdentStart = true := start
      rw [← head, split] at first
      rcases mark with rfl | rfl <;> simp [isIdentStart] at first
    | colon _ _ none =>
      rw [begins] at none
      cases none
    | unit _ other => exact absurd rfl other

theorem qmarkScan (other : dialect ≠ .postgres) (c : Config CodeUnit Nat) (all : AllNamed dialect c) :
    ∀ (m : Nat) (before' : Text), Alike dialect c.before before' c.rest →
    (runAt (placeholderStep dialect) (fun _ _ => []) ⟨m, before', shown (mark .qmark names) (templateFrom dialect c)⟩ =
      spots (mark .qmark names) (markSpot .qmark names) m before'.length (templateFrom dialect c) ↔ Loose dialect c) := by
  have writes := markWrites .qmark names
  induction c using passInduction (placeholderProgress dialect) with
  | stop k before =>
    intro m before' _
    simp [templateFrom, runAtEnd, shown, spots, Loose]
  | turn c full ih =>
    intro m before' alike
    obtain ⟨here, later⟩ := namedLater full all
    have swap := (templateWritten _ later).2.2 (mark .qmark names)
    have again := ih later
    rw [templateTurn full, looseTurn full]
    rcases readsText full here with ⟨f, more, rest, some, piece, next, out, kept⟩ |
      ⟨name, more, rest, begins, ident, stop, piece, next, out⟩
    · rw [next] at swap again ⊢
      rw [rest] at alike
      have step := kept _ m before' _ writes alike swap
      have place : (f.reverse ++ before').length = before'.length + f.length := by simp [Nat.add_comm]
      rw [piece, shownAppend, shownRaw, spotsRaw, runWritten some step, out, ← place, List.nil_append,
        again m (f.reverse ++ before') (alikePast some)]
      simp
    · rw [out]
      simp only [List.mem_singleton, forall_eq, namedSpot, textBehind rest]
      rw [next] at swap again ⊢
      have behind : ((58 :: name).reverse ++ c.before).head?.any isIdentPart = true :=
        nameBehind ident (nameFull begins stop)
      have head := swapAfter writes swap behind
      have same (d : CodeUnit) : nextIs d (shown (mark .qmark names)
          (templateFrom dialect ⟨c.state + 1, (58 :: name).reverse ++ c.before, more⟩)) = nextIs d more := by
        simp only [nextIs, head]
      rw [piece, shownAppend, shownHole]
      generalize templateFrom dialect ⟨c.state + 1, (58 :: name).reverse ++ c.before, more⟩ = t at again swap same ⊢
      have place : ((units "?").reverse ++ before').length = before'.length + (units "?").length := by
        rw [List.length_append, List.length_reverse, Nat.add_comm]
      have spots : spots (mark .qmark names) (markSpot .qmark names) m before'.length (hole name ++ t) =
          markSpot .qmark names (m + 1) name before'.length (before'.length + (units "?").length) ::
            spots (mark .qmark names) (markSpot .qmark names) (m + 1) (before'.length + (units "?").length) t := rfl
      have written : mark .qmark names name = units "?" := rfl
      rw [spots, written]
      cases glued : Glued more with
      | false =>
        simp only [Glued, Bool.or_eq_false_iff] at glued
        have step := qmarkStep other m before' ((same _).trans glued.1.1) ((same _).trans glued.1.2)
        have look : Alike dialect ((58 :: name).reverse ++ c.before) ((units "?").reverse ++ before') more :=
          .inr ⟨other, rfl, glued.2⟩
        rw [runWritten (by decide) step, List.singleton_append, ← place, ← again (m + 1) _ look]
        simp [markSpot]
      | true =>
        refine iff_of_false (fun scans => ?_) (by simp)
        simp only [Glued, Bool.or_eq_true, Bool.and_eq_true] at glued
        rcases glued with operator | ⟨colon, start⟩
        · rw [← same, ← same] at operator
          obtain ⟨d, tail, split, step⟩ := @operatorStep dialect m before' _ operator
          rw [split] at scans
          have run := runWritten (by simp) step
          have member : markSpot .qmark names (m + 1) name before'.length (before'.length + (units "?").length) ∈
              runAt (placeholderStep dialect) (fun _ _ => []) ⟨m, before', [63, d] ++ tail⟩ := by
            change _ ∈ runAt _ _ ⟨m, before', units "?" ++ d :: tail⟩
            rw [scans]
            simp
          rw [run] at member
          have start := (@spansApart dialect ⟨m, [63, d].reverse ++ before', tail⟩).1 _ (by simpa using member)
          have past := start.1
          simp only [markSpot, List.length_append, List.length_reverse, List.length_cons, List.length_nil] at past
          omega
        · have only {d : CodeUnit} (other : d ≠ 58) : nextIs d more = false := by
            simp only [nextIs, beq_iff_eq] at colon
            simp [nextIs, colon, other.symm]
          have step := qmarkStep other m before' ((same _).trans (only (by decide))) ((same _).trans (only (by decide)))
          rw [runWritten (by decide) step] at scans
          obtain ⟨p, member, style⟩ := @freedName dialect _ writes _ before' _ _ (m + 1) behind swap colon start
          have listed := List.mem_append_right [⟨none, some (m + 1), before'.length,
            before'.length + (units "?").length, .qmark⟩] member
          rw [show 63 :: before' = (units "?").reverse ++ before' from rfl, scans] at listed
          rcases List.mem_cons.mp listed with rfl | later
          · cases style
          · obtain ⟨n, name, start, stop, rfl⟩ := spotsMade _ _ _ _ _ p later
            cases style

def regionHere (rules : DialectRules) (before rest : Text) : List (Opener × Text) :=
  match openerAt rules before rest with
  | some opener => [(opener, rest.take (opener.scan rules rest))]
  | none => []

def regionStep (dialect : SqlDialect) : Step CodeUnit Nat (Opener × Text) :=
  relabel (fun _ before rest => regionHere (rulesOf dialect) before rest) (placeholderStep dialect)

def regionsOf (sql : Text) (dialect : SqlDialect) : List (Opener × Text) :=
  runAt (regionStep dialect) (fun _ _ => []) ⟨0, [], sql⟩

theorem regionProgress (dialect : SqlDialect) : Progress (regionStep dialect) :=
  relabelProgress _ (placeholderProgress dialect)

theorem regionsWritten {n m : Nat} {before f rest : Text} {out : List SqlPlaceholder} (full : f ≠ [])
    (step : placeholderStep dialect n before (f ++ rest) = ⟨m, f.length, out⟩) :
    runAt (regionStep dialect) (fun _ _ => []) ⟨n, before, f ++ rest⟩ = regionHere (rulesOf dialect) before (f ++ rest) ++
      runAt (regionStep dialect) (fun _ _ => []) ⟨m, f.reverse ++ before, rest⟩ := by
  have turn := runAtNext (regionProgress dialect) (fun _ _ => []) (c := ⟨n, before, f ++ rest⟩) (by simp [full])
  have next : Config.next (regionStep dialect) ⟨n, before, f ++ rest⟩ = ⟨m, f.reverse ++ before, rest⟩ := by
    refine (relabelNext _ _ _).trans ?_
    simp only [Config.next, step, List.take_left, List.drop_left]
  rw [turn, next]
  rfl

theorem rawRegion {n m : Nat} {before f rest : Text} {out : List SqlPlaceholder}
    (step : placeholderStep dialect n before (f ++ rest) = ⟨m, f.length, out⟩) :
    regionHere (rulesOf dialect) before (f ++ rest) = ((openerAt (rulesOf dialect) before (f ++ rest)).map (·, f)).toList := by
  cases found : openerAt (rulesOf dialect) before (f ++ rest) with
  | none => simp [regionHere, found]
  | some opener =>
    rw [placeholderForm found] at step
    have width : opener.scan (rulesOf dialect) (f ++ rest) = f.length := congrArg Turn.width step
    simp [regionHere, found, width]

theorem swapSame (write : Text → Text) (text : Text) : ∀ before, Swap write before text text := by
  induction text with
  | nil => exact fun before => .done before
  | cons c text ih => exact fun before => .unit c (ih _)

theorem markRead {style : ParamStyle} (fits : style = .dollar ↔ dialect = .postgres) {before name more rest : Text}
    (m : Nat) (before' : Text) (behind : before.head?.any isIdentPart = true) (head : rest.head? = more.head?)
    (stop : ∀ d ∈ more.head?, isIdentPart d = false) (free : style = .qmark → Glued more = false) :
    ∃ m' out, placeholderStep dialect m before' (mark style names name ++ rest) = ⟨m', (mark style names name).length, out⟩ ∧
      openerAt (rulesOf dialect) before' (mark style names name ++ rest) = none ∧
      Alike dialect before ((mark style names name).reverse ++ before') more := by
  cases style with
  | dollar =>
    obtain rfl := fits.mp rfl
    obtain ⟨some, digit⟩ := shownDigits (slotIn names name)
    refine ⟨_, _, dollarStep m before' some digit (by rw [head]; exact stop), dollarOpens some digit, .inl ?_⟩
    rw [behind]
    exact digitsBehind some digit
  | qmark =>
    have other : dialect ≠ .postgres := fun postgres => by cases fits.mpr postgres
    have loose := free rfl
    simp only [Glued, Bool.or_eq_false_iff] at loose
    have same (d : CodeUnit) : nextIs d rest = nextIs d more := by simp only [nextIs, head]
    exact ⟨_, _, qmarkStep other m before' ((same _).trans loose.1.1) ((same _).trans loose.1.2), questionPlain,
      .inr ⟨other, rfl, loose.2⟩⟩

theorem regionsKept {style : ParamStyle} (fits : style = .dollar ↔ dialect = .postgres) (c : Config CodeUnit Nat)
    (all : AllNamed dialect c) (loose : style = .qmark → Loose dialect c) : ∀ (m : Nat) (before' : Text),
    Alike dialect c.before before' c.rest →
    runAt (regionStep dialect) (fun _ _ => []) ⟨m, before', shown (mark style names) (templateFrom dialect c)⟩ =
      runAt (regionStep dialect) (fun _ _ => []) c := by
  have writes := markWrites style names
  induction c using passInduction (placeholderProgress dialect) with
  | stop k before =>
    intro m before' _
    simp [templateFrom, runAtEnd, shown]
  | turn c full ih =>
    intro m before' alike
    obtain ⟨here, later⟩ := namedLater full all
    have swap := (templateWritten _ later).2.2 (mark style names)
    have again := ih later fun question => ((looseTurn full).mp (loose question)).2
    have turn := runAtNext (regionProgress dialect) (fun _ _ => []) full
    rw [show c.next (regionStep dialect) = c.next (placeholderStep dialect) from relabelNext _ _ _] at turn
    rw [templateTurn full, turn]
    rcases readsText full here with ⟨f, more, rest, some, piece, next, out, kept⟩ |
      ⟨name, more, rest, begins, ident, stop, piece, next, out⟩
    · rw [next] at swap again ⊢
      rw [rest] at alike
      have step := kept _ m before' _ writes alike swap
      have same := kept _ c.state c.before _ writes (.inl rfl) (swapSame (mark style names) more _)
      have opener : openerAt (rulesOf dialect) before' (f ++ shown (mark style names)
          (templateFrom dialect ⟨c.state, f.reverse ++ c.before, more⟩)) = openerAt (rulesOf dialect) c.before (f ++ more) := by
        obtain ⟨x, f, rfl⟩ := List.exists_cons_of_ne_nil some
        exact openerKept writes alike (swapUnits f (by simpa using swap))
      have region := rawRegion same
      rw [piece, shownAppend, shownRaw, regionsWritten some step, rawRegion step, opener, again m _ (alikePast some),
        ← region, ← rest]
      rfl
    · have free : style = .qmark → Glued more = false := by
        intro question
        have apart := ((looseTurn full).mp (loose question)).1
        rw [out] at apart
        simpa only [List.mem_singleton, forall_eq, namedSpot, textBehind rest] using apart
      have behind : ((58 :: name).reverse ++ c.before).head?.any isIdentPart = true :=
        nameBehind ident (nameFull begins stop)
      have head := swapAfter writes swap (by rw [next]; exact behind)
      rw [next] at head again ⊢
      obtain ⟨m', spot, step, plain, look⟩ := markRead fits m before' behind head stop free
      have none : openerAt (rulesOf dialect) c.before c.rest = none := by
        rw [rest]
        exact SqlFragments.jointOpens rfl _ _
      have first : Config.out (regionStep dialect) c = [] := by
        simp only [Config.out, regionStep, relabel, regionHere, none]
      have written : mark style names name ≠ [] := by
        obtain ⟨d, tail, text, -⟩ := writes name
        simp [text]
      rw [piece, shownAppend, shownHole, regionsWritten written step, again m' _ look, regionHere, plain, first]

end Scan

section Loop

theorem distinctAppend (names : List Text) (name : Text) :
    distinct (names ++ [name]) = if name ∈ distinct names then distinct names else distinct names ++ [name] := by
  rw [distinct, List.foldl_append]
  rfl

theorem distinctGrows (names more : List Text) : distinct names <+: distinct (names ++ more) := by
  induction more using List.reverseRecOn with
  | nil => simp
  | append_singleton more name ih =>
    rw [← List.append_assoc, distinctAppend]
    split
    · exact ih
    · exact ih.trans (List.prefix_append _ _)

theorem distinctMember (names : List Text) : ∀ name ∈ names, name ∈ distinct names := by
  induction names using List.reverseRecOn with
  | nil => nofun
  | append_singleton names last ih =>
    intro name member
    rw [distinctAppend]
    rcases List.mem_append.mp member with before | here
    · split
      · exact ih name before
      · exact List.mem_append_left _ (ih name before)
    · obtain rfl := List.mem_singleton.mp here
      split
      · assumption
      · simp

theorem slotKept {names more : List Text} {name : Text} (member : name ∈ distinct names) :
    slotIn (names ++ more) name = slotIn names name := by
  rw [slotIn, slotIn, (distinctGrows names more).idxOf_eq_of_mem member]

theorem lookupNumbered (names : List Text) (name : Text) : ∀ n, (names.zipIdx n).lookup name =
    if name ∈ names then some (n + names.idxOf name) else none := by
  induction names with
  | nil => exact fun n => rfl
  | cons first names ih =>
    intro n
    rw [List.zipIdx_cons, List.lookup_cons]
    by_cases same : name = first
    · simp [same]
    · rw [beq_false_of_ne same]
      simp only [ih, List.mem_cons, same, false_or]
      split
      · rw [List.idxOf_cons_ne _ (Ne.symm same), Nat.succ_eq_add_one, Nat.add_assoc, Nat.add_comm 1]
      · rfl

variable {style : ParamStyle} {sql : Text} {values : Text → Option α}

structure Bound (style : ParamStyle) (values : Text → Option α) (seen : List Text) (s : Rewriting α) : Prop where
  params : s.params.map some = (boundNames style seen).map values
  slots : style = .dollar → s.slotOf = (distinct seen).zipIdx 1

theorem bindStep {seen : List Text} {s : Rewriting α} (bound : Bound style values seen s) {name : Text} {value : α}
    (given : values name = some value) (n start stop : Nat) :
    ∃ s', bindName style sql values s (namedSpot n name start stop) = .ok s' ∧ Bound style values (seen ++ [name]) s' ∧
      s'.cursor = stop ∧ s'.out = s.out ++ slice sql s.cursor start ++ mark style (seen ++ [name]) name := by
  obtain ⟨params, slots⟩ := bound
  cases style with
  | qmark =>
    refine ⟨⟨s.params ++ [value], s.slotOf, _, stop⟩, ?_, ⟨?_, nofun⟩, rfl, rfl⟩
    · simp [bindName, namedSpot, given, mark]
    · simp [params, boundNames, given]
  | dollar =>
    have size : s.params.length = (distinct seen).length := by
      have same := congrArg List.length params
      simpa [boundNames] using same
    have found := lookupNumbered (distinct seen) name 1
    rw [← slots rfl] at found
    by_cases member : name ∈ distinct seen
    · have slot : slotIn (seen ++ [name]) name = 1 + (distinct seen).idxOf name := by
        rw [slotKept member, slotIn, Nat.add_comm]
      rw [if_pos member, ← slot] at found
      have same : distinct (seen ++ [name]) = distinct seen := by rw [distinctAppend, if_pos member]
      refine ⟨⟨s.params, s.slotOf, _, stop⟩, ?_, ⟨?_, ?_⟩, rfl, rfl⟩
      · simp [bindName, namedSpot, given, found, mark]
      · rw [boundNames, same]
        exact params
      · rw [same]
        exact slots
    · rw [if_neg member] at found
      have more : distinct (seen ++ [name]) = distinct seen ++ [name] := by rw [distinctAppend, if_neg member]
      have slot : slotIn (seen ++ [name]) name = s.params.length + 1 := by
        rw [slotIn, more, size, List.idxOf_append_of_notMem member]
        simp
      refine ⟨⟨s.params ++ [value], s.slotOf ++ [(name, s.params.length + 1)], _, stop⟩, ?_, ⟨?_, ?_⟩, rfl, rfl⟩
      · simp [bindName, namedSpot, given, found, mark, slot]
      · rw [boundNames, more, List.map_append, List.map_append]
        exact congrArg₂ _ params (by simp [given])
      · intro numbered
        rw [more, List.zipIdx_append, slots numbered, size]
        simp [Nat.add_comm]

theorem markKept (style : ParamStyle) {names more : List Text} {name : Text} (member : name ∈ names) :
    mark style (names ++ more) name = mark style names name := by
  cases style with
  | qmark => rfl
  | dollar => rw [mark, mark, slotKept (distinctMember names name member)]

theorem sliceOn {sql before more : Text} (text : sql = before ++ more) {cursor : Nat} (behind : cursor ≤ before.length) :
    slice sql cursor before.length = before.drop cursor := by
  have long : before.length - cursor = (before.drop cursor).length := by simp
  rw [slice, text, List.drop_append_of_le_length behind, long, List.take_left]

theorem bindRun (t : Template Text) : ∀ (seen : List Text) (n : Nat) (before : Text) (s : Rewriting α),
    Bound style values seen s → s.cursor ≤ before.length → sql = before ++ shown named t →
    (∀ name ∈ Templates.values t, (values name).isSome) →
    ∃ s', bindNames style sql values (spots named namedSpot n before.length t) s = .ok s' ∧
      Bound style values (seen ++ Templates.values t) s' ∧ s'.out ++ sql.drop s'.cursor =
        s.out ++ slice sql s.cursor before.length ++ shown (mark style (seen ++ Templates.values t)) t := by
  induction t with
  | nil =>
    intro seen n before s bound behind text _
    refine ⟨s, rfl, by simpa [Templates.values] using bound, ?_⟩
    rw [sliceOn text behind, text]
    simp [shown]
  | cons piece t ih =>
    intro seen n before s bound behind text given
    cases piece with
    | unit c =>
      have text' : sql = (before ++ [c]) ++ shown named t := by simp [text, shown]
      obtain ⟨s', ran, kept, out⟩ := ih seen n (before ++ [c]) s bound (by simp; omega) text' given
      rw [List.length_append] at ran
      refine ⟨s', ran, kept, ?_⟩
      rw [out, sliceOn text' (by simp; omega), sliceOn text behind,
        List.drop_append_of_le_length behind]
      simp [shown, Templates.values]
    | hole name =>
      have text' : sql = (before ++ named name) ++ shown named t := by simp [text, shown]
      obtain ⟨value, here⟩ := Option.isSome_iff_exists.mp (given name List.mem_cons_self)
      have step : ∃ s', bindName style sql values s (namedSpot (n + 1) name before.length (before.length + (named name).length)) =
          .ok s' ∧ _ := bindStep bound here _ _ _
      obtain ⟨s₁, bind, bound', cursor, out₁⟩ := step
      have place : s₁.cursor = (before ++ named name).length := by rw [cursor, List.length_append]
      obtain ⟨s', ran, kept, out⟩ := ih (seen ++ [name]) (n + 1) (before ++ named name) s₁ bound' place.le text'
        fun other member => given other (List.mem_cons_of_mem _ member)
      have names : seen ++ [name] ++ Templates.values t = seen ++ Templates.values (.hole name :: t) := by
        simp [Templates.values]
      rw [names] at kept out
      refine ⟨s', ?_, kept, ?_⟩
      · simp only [spots, bindNames, bind]
        rw [List.length_append] at ran
        exact ran
      · have nothing : slice sql s₁.cursor (before ++ named name).length = [] := by simp [slice, place]
        have same : mark style (seen ++ Templates.values (.hole name :: t)) name = mark style (seen ++ [name]) name := by
          rw [← names]
          exact markKept style (by simp)
        rw [out, nothing, out₁, List.append_nil]
        simp [shown, same]

end Loop

section Binding
variable {sql : Text} {dialect : SqlDialect} {engine : EngineKind} {given : Text → Option α}

def BindsApart (sql : Text) (dialect : SqlDialect) (engine : EngineKind) (given : Text → Option α)
    (positional : List α) : Prop :=
  let t := templateOf sql dialect
  let style := paramStyleFor engine
  let names := Templates.values t
  shown named t = sql ∧ findPlaceholders sql dialect = spots named namedSpot 0 0 t ∧
  ∃ bound, bindStatement sql dialect engine given positional = .ok bound ∧
    bound.sql = shown (mark style names) t ∧
    findPlaceholders bound.sql dialect = spots (mark style names) (markSpot style names) 0 0 t ∧
    regionsOf bound.sql dialect = regionsOf sql dialect ∧
    bound.params.map some = (boundNames style names).map given ∧
    (style = .dollar → ∀ name ∈ names, bound.params[slotIn names name - 1]? = given name)

theorem spotNames (write : Text → Text) (t : Template Text) : ∀ n start,
    (spots write namedSpot n start t).map SqlPlaceholder.name = (Templates.values t).map some := by
  induction t with
  | nil => exact fun n start => rfl
  | cons piece t ih =>
    intro n start
    cases piece with
    | unit c => exact ih n (start + 1)
    | hole name => exact congrArg (some name :: ·) (ih _ _)

theorem engineStyle (fits : dialectForEngine engine = .ok dialect) : paramStyleFor engine = .dollar ↔ dialect = .postgres := by
  cases engine <;> simp_all [dialectForEngine, paramStyleFor] <;> cases fits <;> simp

theorem bindNamed (named : ∀ p ∈ findPlaceholders sql dialect, p.style = .named) (positional : List α) :
    bindStatement sql dialect engine given positional =
      (bindNames (paramStyleFor engine) sql given (findPlaceholders sql dialect) ⟨[], [], [], 0⟩).map
        fun s => ⟨s.out ++ sql.drop s.cursor, s.params⟩ := by
  rw [bindStatement]
  by_cases none : findPlaceholders sql dialect = []
  · rw [if_pos none, none]
    rfl
  · have all : (findPlaceholders sql dialect).filter (fun p => p.style = .named) = findPlaceholders sql dialect :=
      List.filter_eq_self.mpr fun p member => by simpa using named p member
    have rest : (findPlaceholders sql dialect).filter (fun p => p.style ≠ .named) = [] :=
      List.filter_eq_nil_iff.mpr fun p member => by simpa using named p member
    rw [if_neg none, all, rest, if_neg (by simp), if_neg none]
    cases bindNames (paramStyleFor engine) sql given (findPlaceholders sql dialect) ⟨[], [], [], 0⟩ <;> rfl

end Binding

end DatabaseAdmin.BoundStatements
