import DatabaseAdmin.FilterMeaning

/-! SQLite's own translation of the grid's filters beside the one the other connectors share. -/
namespace DatabaseAdmin.SqliteFilters
open CodeUnits Templates LikePatterns RowFilters FilterMeaning

def quoteIdent (name : Text) : Text :=
  doubleQuote :: replaceUnit doubleQuote [doubleQuote, doubleQuote] name ++ [doubleQuote]

def escapeLike (v : Text) : Text :=
  v.flatMap fun c => if c = backslash ∨ c = ('%' : CodeUnit) ∨ c = ('_' : CodeUnit) then [backslash, c] else [c]

def likeTail : Text := units " LIKE ? ESCAPE '\\'"

def filterSql (f : ColumnFilter) (params : List (Option Text)) : Text × List (Option Text) :=
  let col := quoteIdent f.column
  let v := f.value
  match f.op with
  | .comparison .eq =>
      match v with
      | none => (col ++ units " IS NULL", params)
      | some v => (col ++ units " = ?", params ++ [some v])
  | .comparison .ne =>
      match v with
      | none => (col ++ units " IS NOT NULL", params)
      | some v => (units "(" ++ col ++ units " IS NULL OR " ++ col ++ units " <> ?)", params ++ [some v])
  | .comparison .lt => (col ++ units " < ?", params ++ [v])
  | .comparison .lte => (col ++ units " <= ?", params ++ [v])
  | .comparison .gt => (col ++ units " > ?", params ++ [v])
  | .comparison .gte => (col ++ units " >= ?", params ++ [v])
  | .text .contains => (col ++ likeTail, params ++ [some (units "%" ++ escapeLike (v.getD []) ++ units "%")])
  | .text .startsWith => (col ++ likeTail, params ++ [some (escapeLike (v.getD []) ++ units "%")])
  | .text .endsWith => (col ++ likeTail, params ++ [some (units "%" ++ escapeLike (v.getD []))])
  | .isNull => (col ++ units " IS NULL", params)
  | .isNotNull => (col ++ units " IS NOT NULL", params)
  | .within =>
      let values := f.values.getD []
      if values.length = 0 then (units "0 = 1", params)
      else (col ++ units " IN (" ++ List.intercalate (units ", ") (values.map fun _ => units "?") ++ units ")",
        params ++ values.map some)
  | .between => (col ++ units " BETWEEN ? AND ?", params ++ [v, f.value2])

def filterConditions : List ColumnFilter → List (Option Text) → List Text × List (Option Text)
  | [], params => ([], params)
  | f :: rest, params =>
      let (condition, params) := filterSql f params
      let (conditions, params) := filterConditions rest params
      (condition :: conditions, params)

section Meaning
variable {κ : Type} (m : Meaning κ) (row : Cells κ)

def ReadAlike (fs : List ColumnFilter) : Prop :=
  ∃ built, buildConditions fs .sqlite .qmark 1 = .ok built ∧
    (Satisfies m row (filterConditions fs []).1 (filterConditions fs []).2 ↔
      Satisfies m row built.conditions (built.params.map some))

def Complete (f : ColumnFilter) : Prop := f.column ≠ [] ∧ 0 ∉ f.column ∧ none ∉ demanded f

def Accepts (f : ColumnFilter) : Prop :=
  match f.op with
  | .isNull => row f.column = none
  | .isNotNull => row f.column ≠ none
  | .comparison op => ∃ x v, row f.column = some x ∧ f.value = some v ∧ m.compares op x v = true
  | .text op => ∃ x v, row f.column = some x ∧ f.value = some v ∧
      m.like likeEscape x (likePattern op (escapeLikePattern v)) = true
  | .between => ∃ x lo hi, row f.column = some x ∧ f.value = some lo ∧ f.value2 = some hi ∧
      m.compares .gte x lo = true ∧ m.compares .lte x hi = true
  | .within => ∃ x, row f.column = some x ∧ ∃ v, some v ∈ demanded f ∧ m.compares .eq x v = true

def OtherThanNull (f : ColumnFilter) : Prop := f.op = .comparison .ne ∧ row f.column = none

def AmongOne (f : ColumnFilter) : Prop :=
  f.op = .within ∧ f.values = none ∧ ∃ x v, row f.column = some x ∧ f.value = some v ∧ m.compares .eq x v = true

end Meaning

section Texts

theorem quoteIdentIs (name : Text) :
    quoteIdent name = doubleQuote :: (encode doubleQuote false name ++ [doubleQuote]) := by
  rw [quoteIdent, encodeDoubled, List.cons_append]

theorem sharedIdent {name : Text} (some : name ≠ []) (nulFree : 0 ∉ name) :
    DatabaseAdmin.quoteIdent name .sqlite = .ok (quoteIdent name) := by
  rw [quoteIdentIs]
  have named : styleFor .sqlite = .ok .double := rfl
  exact quoteIdentText named some nulFree

theorem sharedRefuses {name : Text} (bad : ¬ (name ≠ [] ∧ 0 ∉ name)) :
    ∃ e, DatabaseAdmin.quoteIdent name .sqlite = .error e := by
  by_cases empty : name.length = 0
  · refine ⟨"quoteIdent: identifier must be a non-empty string", ?_⟩
    simp [DatabaseAdmin.quoteIdent, styleFor, bind, Except.bind, empty, throw, throwThe, MonadExceptOf.throw]
  · have nul : name.contains 0 = true := by
      have some : name ≠ [] := by
        rintro rfl
        exact empty rfl
      simpa [some] using bad
    refine ⟨"quoteIdent: identifiers cannot contain NUL bytes", ?_⟩
    simp only [DatabaseAdmin.quoteIdent, styleFor, bind, Except.bind, if_neg empty, nul, if_true, throw, throwThe,
      MonadExceptOf.throw, pure, Except.pure]

theorem escapesAlike (v : Text) : escapeLike v = escapeLikePattern v := by
  rw [escapesLiterally]
  rfl

theorem spaceApart (rest : Text) : ∀ c ∈ ((32 :: rest) : Text).head?, isQuote c = false := by
  intro c head
  cases head
  rfl

theorem readNamed {name tail : Text} (apart : ∀ c ∈ tail.head?, isQuote c = false) :
    readCondition (quoteIdent name ++ tail) = tailOf name tail := by
  have first : ∀ c rest, c ≠ doubleQuote → quoteIdent name ++ tail ≠ c :: rest := by
    intro c rest other same
    exact other (List.cons.inj same).1.symm
  have other : ¬ (quoteIdent name ++ tail = units "1 = 0" ∨ quoteIdent name ++ tail = units "0 = 1") := by
    rintro (same | same)
    · exact first 49 _ (by decide) same
    · exact first 48 _ (by decide) same
  rw [readCondition, if_neg other, quoteIdentIs, quotedNameRead apart]

theorem tailCounts (count : Nat) :
    (List.intercalate (units ", ") (List.replicate count (units "?"))).count ('?' : CodeUnit) = count := by
  induction count with
  | zero => rfl
  | succ count ih =>
    cases count with
    | zero => rfl
    | succ count =>
      have split : List.intercalate (units ", ") (List.replicate (count + 1 + 1) (units "?")) =
          units "?" ++ (units ", " ++ List.intercalate (units ", ") (List.replicate (count + 1) (units "?"))) := by
        simp [List.intercalate, List.replicate_succ]
      rw [split, List.count_append, List.count_append, ih]
      simp [units]
      omega

theorem withinRead (name : Text) (count : Nat) : tailOf name (withinTail count) = some (.within count name) := by
  have counts : (withinTail count).count ('?' : CodeUnit) = count := by
    rw [withinTail, List.count_append, List.count_append, tailCounts]
    simp [units]
  have head : withinTail count = 32 :: 73 :: 78 :: 32 :: (withinTail count).drop 4 := rfl
  have compares : comparisonTail (withinTail count) = none := by
    rw [head]
    simp [comparisonTail, comparison, units]
  have others : withinTail count ≠ units " IS NULL" ∧ withinTail count ≠ units " IS NOT NULL" ∧
      withinTail count ≠ units " BETWEEN ? AND ?" := by
    rw [head]
    simp [units]
  rw [tailOf, compares]
  simp only [if_neg others.1, if_neg others.2.1, if_neg others.2.2, counts, if_true]

theorem withinText (name : Text) (values : List Text) :
    quoteIdent name ++ units " IN (" ++ List.intercalate (units ", ") (values.map fun _ => units "?") ++ units ")" =
      quoteIdent name ++ withinTail values.length := by
  have same : values.map (fun _ => units "?") = List.replicate values.length (units "?") := List.map_const' ..
  simp [withinTail, same]

theorem comparedRead (name : Text) (op : ComparisonOp) :
    tailOf name (units (" " ++ comparison op ++ " ?")) = some (.compared op name) := by
  cases op <;> rfl

theorem likeRead (name : Text) : tailOf name likeTail = some (.like likeEscape name) := rfl

theorem otherRead (name : Text) :
    readCondition (units "(" ++ quoteIdent name ++ units " IS NULL OR " ++ quoteIdent name ++ units " <> ?)") =
      some (.nullOr name (.compared .ne name)) := by
  have inner : units "(" ++ quoteIdent name ++ units " IS NULL OR " ++ quoteIdent name ++ units " <> ?)" =
      40 :: (quoteIdent name ++ (units " IS NULL OR " ++ (quoteIdent name ++ units " <> ?)"))) := by
    simp [units]
  have column : ∀ tail : Text, (∀ c ∈ tail.head?, isQuote c = false) →
      quotedName (quoteIdent name ++ tail) = some (name, tail) := by
    intro tail apart
    rw [quoteIdentIs, quotedNameRead apart]
  have first := column (units " IS NULL OR " ++ (quoteIdent name ++ units " <> ?)")) (spaceApart _)
  have second := column (units " <> ?)") (spaceApart _)
  have opens : startsWith (units " IS NULL OR ") (units " IS NULL OR " ++ (quoteIdent name ++ units " <> ?)")) = true :=
    startsWithIff.mpr (List.prefix_append _ _)
  have tail : tailOf name (units " <> ?)").dropLast = some (.compared .ne name) := comparedRead name .ne
  have closes : (units " <> ?)").getLast? = some (')' : CodeUnit) := rfl
  have bare : ¬ ((40 :: (quoteIdent name ++ (units " IS NULL OR " ++ (quoteIdent name ++ units " <> ?)"))) : Text) =
      units "1 = 0" ∨ (40 :: (quoteIdent name ++ (units " IS NULL OR " ++ (quoteIdent name ++ units " <> ?)")))) =
      units "0 = 1") := by
    simp [units]
  rw [inner, readCondition, if_neg bare]
  have unquoted : quotedName (40 :: (quoteIdent name ++ (units " IS NULL OR " ++
      (quoteIdent name ++ units " <> ?)")))) = none := rfl
  rw [unquoted]
  simp only [nextIs, List.head?_cons, List.drop_one, List.tail_cons]
  simp only [bind, Option.bind, first, opens, List.drop_left, second, closes, tail]
  rfl

end Texts

section Filters
variable {κ : Type} {m : Meaning κ} {row : Cells κ}

theorem tellsTail {name tail : Text} {c : Condition} {bound : List (Option Text)} {means : Prop}
    (apart : ∀ c ∈ tail.head?, isQuote c = false) (read : tailOf name tail = some c) (count : c.count = bound.length)
    (truth : c.truth m row bound = some true ↔ means) : Tells m row (quoteIdent name ++ tail) bound means :=
  ⟨c, (readNamed apart).trans read, count, truth⟩

theorem againstTrue {test : κ → Text → Bool} {cell : Option κ} {bound : Option Text} :
    against test cell bound = some true ↔ ∃ x v, cell = some x ∧ bound = some v ∧ test x v = true := by
  cases cell <;> cases bound <;> simp [against]

theorem tellsCompared (name : Text) (op : ComparisonOp) (v : Option Text) :
    Tells m row (quoteIdent name ++ units (" " ++ comparison op ++ " ?")) [v]
      (∃ x w, row name = some x ∧ v = some w ∧ m.compares op x w = true) :=
  tellsTail (by cases op <;> exact spaceApart _) (comparedRead name op) rfl againstTrue

theorem tellsLike (name pattern : Text) :
    Tells m row (quoteIdent name ++ likeTail) [some pattern]
      (∃ x, row name = some x ∧ m.like likeEscape x pattern = true) :=
  tellsTail (spaceApart _) (likeRead name) rfl (by simp [Condition.truth, againstTrue])

theorem tellsBetween (name : Text) (lo hi : Option Text) :
    Tells m row (quoteIdent name ++ units " BETWEEN ? AND ?") [lo, hi]
      (∃ x v w, row name = some x ∧ lo = some v ∧ hi = some w ∧ m.compares .gte x v = true ∧
        m.compares .lte x w = true) := by
  refine tellsTail (c := .between name) (spaceApart _) rfl rfl ?_
  simp only [Condition.truth, bothTrue, againstTrue]
  constructor
  · rintro ⟨⟨x, v, cell, rfl, above⟩, y, w, again, rfl, below⟩
    rw [cell] at again
    cases again
    exact ⟨x, v, w, cell, rfl, rfl, above, below⟩
  · rintro ⟨x, v, w, cell, rfl, rfl, above, below⟩
    exact ⟨⟨x, v, cell, rfl, above⟩, x, w, cell, rfl, below⟩

theorem tellsWithin (name : Text) (values : List Text) :
    Tells m row (quoteIdent name ++ withinTail values.length) (values.map some)
      (∃ x, row name = some x ∧ ∃ v ∈ values, m.compares .eq x v = true) := by
  refine tellsTail (c := .within values.length name) (spaceApart _) (withinRead name _) (by simp [Condition.count]) ?_
  simp only [Condition.truth, anyOfTrue, List.map_map, List.mem_map, Function.comp_apply, againstTrue]
  constructor
  · rintro ⟨v, member, x, w, cell, same, equal⟩
    cases same
    exact ⟨x, cell, v, member, equal⟩
  · rintro ⟨x, cell, v, member, equal⟩
    exact ⟨v, member, x, v, cell, rfl, equal⟩

theorem tellsAs {text : Text} {bound : List (Option Text)} {p q : Prop} (tells : Tells m row text bound p)
    (same : p ↔ q) : Tells m row text bound q :=
  let ⟨c, read, count, truth⟩ := tells
  ⟨c, read, count, truth.trans same⟩

theorem sharedTells {f : ColumnFilter} {t : Template Text} (made : conditionOf .sqlite f = .ok t) :
    Complete f ∧ Tells m row (holes t) ((values t).map some) (Accepts m row f) := by
  by_cases named : f.column ≠ [] ∧ 0 ∉ f.column
  swap
  · obtain ⟨e, refused⟩ := sharedRefuses named
    simp only [conditionOf, refused, quoting, Except.mapError, bind, Except.bind] at made
    cases made
  have name := sharedIdent named.1 named.2
  unfold conditionOf at made
  simp only [name, quoting, Except.mapError, bind, Except.bind] at made
  cases kind : f.op with
  | comparison op =>
    simp only [kind] at made
    cases value : requireValue f .value with
    | error e =>
      rw [value] at made
      cases made
    | ok v =>
      rw [value] at made
      cases Except.ok.inj made
      have given : f.value = some v := requireGives value
      refine ⟨⟨named.1, named.2, by simp [demanded, kind, given]⟩, ?_⟩
      have tells : Tells m row _ _ _ := tellsCompared f.column op (some v)
      simpa [Accepts, kind, given, units] using tells
  | isNull =>
    simp only [kind] at made
    cases Except.ok.inj made
    refine ⟨⟨named.1, named.2, by simp [demanded, kind]⟩, ?_⟩
    have tells : Tells m row (quoteIdent f.column ++ units " IS NULL") [] (row f.column = none) :=
      tellsTail (c := .isNull f.column) (spaceApart _) rfl rfl (by simp [Condition.truth])
    simpa [Accepts, kind] using tells
  | isNotNull =>
    simp only [kind] at made
    cases Except.ok.inj made
    refine ⟨⟨named.1, named.2, by simp [demanded, kind]⟩, ?_⟩
    have tells : Tells m row (quoteIdent f.column ++ units " IS NOT NULL") [] (row f.column ≠ none) :=
      tellsTail (c := .isNotNull f.column) (spaceApart _) rfl rfl
        (by simp [Condition.truth, Option.isSome_iff_ne_none])
    simpa [Accepts, kind] using tells
  | between =>
    simp only [kind] at made
    cases value : requireValue f .value with
    | error e =>
      rw [value] at made
      cases made
    | ok lo =>
      rw [value] at made
      cases value2 : requireValue f .value2 with
      | error e =>
        rw [value2] at made
        cases made
      | ok hi =>
        rw [value2] at made
        cases Except.ok.inj made
        have first : f.value = some lo := requireGives value
        have last : f.value2 = some hi := requireGives value2
        refine ⟨⟨named.1, named.2, by simp [demanded, kind, first, last]⟩, ?_⟩
        have tells : Tells m row _ _ _ := tellsBetween f.column (some lo) (some hi)
        simpa [Accepts, kind, first, last, units] using tells
  | within =>
    simp only [kind] at made
    have asked : demanded f = (f.values.getD (f.value.elim [] fun v => [v])).map some := by simp [demanded, kind]
    have member : ∀ v, some v ∈ demanded f ↔ v ∈ f.values.getD (f.value.elim [] fun v => [v]) := by simp [asked]
    have complete : Complete f := ⟨named.1, named.2, by simp [asked]⟩
    simp only [Accepts, kind, member]
    generalize f.values.getD (f.value.elim [] fun v => [v]) = vs at made
    split at made
    next empty =>
      cases Except.ok.inj made
      refine ⟨complete, tellsNever _ _ _ (by simp) (by simp) ?_⟩
      simp [List.eq_nil_of_length_eq_zero empty]
    next =>
      cases Except.ok.inj made
      refine ⟨complete, ?_⟩
      have tells : Tells m row _ _ _ := tellsWithin f.column vs
      have bound : values (joined (units ", ") (vs.map hole)) = vs := by
        rw [valuesJoined, List.flatMap_map]
        simp
      have text : holes (joined (units ", ") (vs.map hole)) =
          List.intercalate (units ", ") (List.replicate vs.length (units "?")) := by
        rw [holesJoined, List.map_map, ← List.map_const']
        rfl
      simpa [withinTail, bound, text] using tells
  | text op =>
    simp only [kind] at made
    cases value : requireValue f .value with
    | error e =>
      rw [value] at made
      cases made
    | ok v =>
      rw [value] at made
      have given : f.value = some v := requireGives value
      cases Except.ok.inj made
      refine ⟨⟨named.1, named.2, by simp [demanded, kind, given]⟩, ?_⟩
      have tells : Tells m row _ _ _ := tellsLike f.column (likePattern op (escapeLikePattern v))
      have same : (∃ x, row f.column = some x ∧
          m.like likeEscape x (likePattern op (escapeLikePattern v)) = true) ↔ Accepts m row f := by
        simp [Accepts, kind, given]
      have declared : (apostrophe :: (escapedQuotes [likeEscape] ++ [apostrophe]) : Text) = units "'\\'" := rfl
      simpa [declared, likeTail, units] using tellsAs tells same

theorem completeMade {f : ColumnFilter} (complete : Complete f) : ∃ t, conditionOf .sqlite f = .ok t := by
  obtain ⟨some, nulFree, asked⟩ := complete
  have name := sharedIdent some nulFree
  unfold conditionOf
  simp only [name, quoting, Except.mapError, bind, Except.bind]
  have given : ∀ which, f.get which ≠ none → ∃ v, requireValue f which = .ok v := by
    intro which there
    unfold requireValue
    cases read : f.get which with
    | none => exact absurd read there
    | some v => exact ⟨v, rfl⟩
  cases kind : f.op with
  | comparison op =>
    obtain ⟨v, read⟩ := given .value (by simpa [demanded, kind, ColumnFilter.get, eq_comm] using asked)
    exact ⟨_, by simp only [read]; rfl⟩
  | isNull => exact ⟨_, rfl⟩
  | isNotNull => exact ⟨_, rfl⟩
  | between =>
    simp only [demanded, kind, List.mem_cons, List.not_mem_nil, or_false, not_or] at asked
    obtain ⟨lo, first⟩ := given .value (Ne.symm asked.1)
    obtain ⟨hi, last⟩ := given .value2 (Ne.symm asked.2)
    exact ⟨_, by simp only [first, last]; rfl⟩
  | within =>
    dsimp only
    split
    · exact ⟨_, rfl⟩
    · exact ⟨_, rfl⟩
  | text op =>
    obtain ⟨v, read⟩ := given .value (by simpa [demanded, kind, ColumnFilter.get, eq_comm] using asked)
    exact ⟨_, by simp only [read]; rfl⟩

theorem sqliteTells {f : ColumnFilter} (complete : Complete f) :
    Tells m row (filterSql f []).1 (filterSql f []).2
      ((Accepts m row f ∧ ¬ AmongOne m row f) ∨ OtherThanNull row f) := by
  obtain ⟨-, -, asked⟩ := complete
  obtain ⟨column, op, value, value2, vs⟩ := f
  cases op with
  | comparison op =>
    obtain ⟨v, rfl⟩ : ∃ v, value = some v := by
      cases value with
      | none => simp [demanded] at asked
      | some v => exact ⟨v, rfl⟩
    have plain : Tells m row _ _ _ := tellsCompared column op (some v)
    cases op with
    | ne =>
      refine ⟨.nullOr column (.compared .ne column), otherRead column, rfl, ?_⟩
      simp [Condition.truth, againstTrue, Accepts, AmongOne, OtherThanNull, filterSql, or_comm]
    | _ =>
      refine tellsAs plain ?_
      simp [Accepts, AmongOne, OtherThanNull]
  | isNull =>
    exact tellsTail (c := .isNull column) (spaceApart _) rfl rfl
      (by simp [Condition.truth, Accepts, AmongOne, OtherThanNull])
  | isNotNull =>
    exact tellsTail (c := .isNotNull column) (spaceApart _) rfl rfl
      (by simp [Condition.truth, Accepts, AmongOne, OtherThanNull, Option.isSome_iff_ne_none])
  | between =>
    refine tellsAs (tellsBetween column value value2) ?_
    simp [Accepts, AmongOne, OtherThanNull]
  | within =>
    cases vs with
    | none =>
      refine tellsNever _ _ _ (by simp [filterSql]) rfl ?_
      rintro (⟨⟨x, cell, v, member, equal⟩, other⟩ | ⟨compared, -⟩)
      · refine other ⟨rfl, rfl, x, v, cell, ?_, equal⟩
        cases value with
        | none => simp [demanded] at member
        | some w => simpa [demanded, eq_comm] using member
      · cases compared
    | some vs =>
      by_cases empty : vs.length = 0
      · refine tellsNever _ _ _ (by simp [filterSql, empty]) (by simp [filterSql, empty]) ?_
        simp [Accepts, OtherThanNull, demanded, List.eq_nil_of_length_eq_zero empty]
      · have tells : Tells m row _ _ _ := tellsWithin column vs
        have text : (filterSql ⟨column, .within, value, value2, some vs⟩ []).1 =
            quoteIdent column ++ withinTail vs.length := by
          rw [← withinText]
          simp only [filterSql, Option.getD_some, if_neg empty]
        have bound : (filterSql ⟨column, .within, value, value2, some vs⟩ []).2 = vs.map some := by
          simp only [filterSql, Option.getD_some, if_neg empty, List.nil_append]
        rw [text, bound]
        exact tellsAs tells (by simp [Accepts, AmongOne, OtherThanNull, demanded])
  | text op =>
    obtain ⟨v, rfl⟩ : ∃ v, value = some v := by
      cases value with
      | none => simp [demanded] at asked
      | some v => exact ⟨v, rfl⟩
    refine tellsAs (p := ∃ x, row column = some x ∧
      m.like likeEscape x (likePattern op (escapeLikePattern v)) = true) ?_
      (by simp [Accepts, AmongOne, OtherThanNull])
    have like : Tells m row _ _ _ := tellsLike column (likePattern op (escapeLikePattern v))
    cases op <;> simpa [filterSql, escapesAlike, likePattern] using like

end Filters

section Lists
variable {κ : Type}

theorem filterSqlBag (f : ColumnFilter) (params : List (Option Text)) :
    filterSql f params = ((filterSql f []).1, params ++ (filterSql f []).2) := by
  obtain ⟨column, op, value, value2, vs⟩ := f
  cases op with
  | comparison op => cases op <;> cases value <;> simp [filterSql]
  | text op => cases op <;> simp [filterSql]
  | within =>
    simp only [filterSql]
    split <;> simp
  | _ => simp [filterSql]

theorem filterConditionsAre (fs : List ColumnFilter) (params : List (Option Text)) :
    filterConditions fs params =
      (fs.map fun f => (filterSql f []).1, params ++ fs.flatMap fun f => (filterSql f []).2) := by
  induction fs generalizing params with
  | nil => simp [filterConditions]
  | cons f fs ih =>
    rw [filterConditions, filterSqlBag]
    simp [ih]

def made (f : ColumnFilter) : Template Text :=
  match conditionOf .sqlite f with
  | .ok t => t
  | .error _ => []

theorem mapMMade {fs : List ColumnFilter} {ts : List (Template Text)} :
    fs.mapM (conditionOf .sqlite) = .ok ts ↔
      (∀ f ∈ fs, conditionOf .sqlite f = .ok (made f)) ∧ ts = fs.map made := by
  rw [mapMForall₂]
  constructor
  · intro each
    induction each with
    | nil => simp
    | @cons f t fs ts first rest ih =>
      have here : made f = t := by simp [made, first]
      obtain ⟨all, rfl⟩ := ih
      refine ⟨List.forall_mem_cons.mpr ⟨by rw [here, first], all⟩, by rw [List.map_cons, here]⟩
  · rintro ⟨each, rfl⟩
    induction fs with
    | nil => exact .nil
    | cons f fs ih =>
      obtain ⟨first, rest⟩ := List.forall_mem_cons.mp each
      exact .cons first (ih rest)

theorem allComplete {fs : List ColumnFilter} :
    (∀ f ∈ fs, Complete f) ↔ ∃ built, buildConditions fs .sqlite .qmark 1 = .ok built := by
  constructor
  · intro complete
    have each : ∀ f ∈ fs, conditionOf .sqlite f = .ok (made f) := by
      intro f member
      obtain ⟨t, found⟩ := completeMade (complete f member)
      simp [made, found]
    rw [conditionsAre, mapMMade.mpr ⟨each, rfl⟩]
    exact ⟨_, rfl⟩
  · rintro ⟨built, done⟩ f member
    rw [conditionsAre] at done
    cases found : fs.mapM (conditionOf .sqlite) with
    | error e =>
      rw [found] at done
      cases done
    | ok ts =>
      have sound : Meaning Unit := ⟨fun _ _ _ => true, fun _ _ _ => true⟩
      have told : Complete f ∧ Tells sound (fun _ => none) _ _ _ := sharedTells ((mapMMade.mp found).1 f member)
      exact told.1

theorem sharedSatisfied {m : Meaning κ} {row : Cells κ} {fs : List ColumnFilter} {built : ConditionList}
    (done : buildConditions fs .sqlite .qmark 1 = .ok built) :
    Satisfies m row built.conditions (built.params.map some) ↔ ∀ f ∈ fs, Accepts m row f := by
  rw [conditionsAre] at done
  cases found : fs.mapM (conditionOf .sqlite) with
  | error e =>
    rw [found] at done
    cases done
  | ok ts =>
    rw [found] at done
    cases Except.ok.inj done
    obtain ⟨each, rfl⟩ := mapMMade.mp found
    have tells : ∀ f ∈ fs, Tells m row (holes (made f)) ((values (made f)).map some) (Accepts m row f) :=
      fun f member => (sharedTells (each f member)).2
    have satisfied := satisfiesEach tells
    simpa [shownFrom, List.flatMap_map, List.map_flatMap, Function.comp_def] using satisfied

theorem sqliteSatisfied {m : Meaning κ} {row : Cells κ} {fs : List ColumnFilter}
    (complete : ∀ f ∈ fs, Complete f) :
    Satisfies m row (filterConditions fs []).1 (filterConditions fs []).2 ↔
      ∀ f ∈ fs, (Accepts m row f ∧ ¬ AmongOne m row f) ∨ OtherThanNull row f := by
  rw [filterConditionsAre]
  exact satisfiesEach fun f member => sqliteTells (complete f member)

theorem otherNotAccepted {m : Meaning κ} {row : Cells κ} {f : ColumnFilter} (other : OtherThanNull row f) :
    ¬ Accepts m row f := by
  obtain ⟨kind, null⟩ := other
  simp [Accepts, kind, null]

theorem amongAccepted {m : Meaning κ} {row : Cells κ} {f : ColumnFilter} (among : AmongOne m row f) :
    Accepts m row f ∧ ¬ OtherThanNull row f := by
  obtain ⟨kind, absent, x, v, cell, given, equal⟩ := among
  constructor
  · simp only [Accepts, kind]
    exact ⟨x, cell, v, by simp [demanded, kind, absent, given], equal⟩
  · rintro ⟨other, -⟩
    rw [kind] at other
    cases other

theorem sqliteFilterDriftsFromShared :
    (¬ ReadAlike ⟨fun _ _ _ => true, fun _ _ _ => true⟩ (fun _ => (none : Option Text))
      [⟨units "note", .comparison .ne, some (units "x"), none, none⟩]) ∧
    ¬ ReadAlike ⟨fun _ _ _ => true, fun _ _ _ => true⟩ (fun _ => some (units "a"))
      [⟨units "note", .text .contains, none, none, none⟩] := by
  constructor
  · rintro ⟨built, done, same⟩
    have there : built = ⟨[units "\"note\" <> ?"], [units "x"]⟩ := Except.ok.inj (done.symm.trans rfl)
    subst there
    obtain ⟨found, read, all⟩ := same.mp ⟨[some true], rfl, rfl⟩
    cases Option.some.inj ((rfl : truths _ _ _ _ = some [none]).symm.trans read)
    cases all
  · rintro ⟨built, done, -⟩
    cases done

theorem sqliteFiltersReadAlikeWhen (m : Meaning κ) (row : Cells κ) (fs : List ColumnFilter) :
    ReadAlike m row fs ↔ (∀ f ∈ fs, Complete f) ∧
      ((∀ f ∈ fs, ¬ OtherThanNull row f ∧ ¬ AmongOne m row f) ∨
        (∃ f ∈ fs, ¬ Accepts m row f ∧ ¬ OtherThanNull row f) ∨
        ((∃ f ∈ fs, OtherThanNull row f) ∧ ∃ f ∈ fs, AmongOne m row f)) := by
  have readings : ∀ {built}, buildConditions fs .sqlite .qmark 1 = .ok built → ((Satisfies m row
      (filterConditions fs []).1 (filterConditions fs []).2 ↔ Satisfies m row built.conditions
        (built.params.map some)) ↔
      ((∀ f ∈ fs, (Accepts m row f ∧ ¬ AmongOne m row f) ∨ OtherThanNull row f) ↔ ∀ f ∈ fs, Accepts m row f)) := by
    intro built done
    rw [sharedSatisfied done, sqliteSatisfied (allComplete.mpr ⟨built, done⟩)]
  constructor
  · rintro ⟨built, done, same⟩
    refine ⟨allComplete.mpr ⟨built, done⟩, ?_⟩
    rw [readings done] at same
    by_cases other : ∃ f ∈ fs, OtherThanNull row f
    · obtain ⟨f, member, null⟩ := other
      have missed : ¬ ∀ g ∈ fs, (Accepts m row g ∧ ¬ AmongOne m row g) ∨ OtherThanNull row g :=
        fun all => otherNotAccepted null (same.mp all f member)
      simp only [not_forall, not_or, not_and, not_not] at missed
      obtain ⟨g, inside, reads, apart⟩ := missed
      by_cases accepted : Accepts m row g
      · exact .inr (.inr ⟨⟨f, member, null⟩, g, inside, reads accepted⟩)
      · exact .inr (.inl ⟨g, inside, accepted, apart⟩)
    · by_cases among : ∃ f ∈ fs, AmongOne m row f
      · obtain ⟨f, member, one⟩ := among
        have missed : ¬ ∀ g ∈ fs, Accepts m row g := by
          intro all
          rcases same.mpr all f member with ⟨-, apart⟩ | null
          · exact apart one
          · exact (amongAccepted one).2 null
        simp only [not_forall] at missed
        obtain ⟨g, inside, refused⟩ := missed
        exact .inr (.inl ⟨g, inside, refused, fun null => other ⟨g, inside, null⟩⟩)
      · exact .inl fun f member => ⟨fun null => other ⟨f, member, null⟩, fun one => among ⟨f, member, one⟩⟩
  · rintro ⟨complete, cases⟩
    obtain ⟨built, done⟩ := allComplete.mp complete
    refine ⟨built, done, (readings done).mpr ?_⟩
    rcases cases with plain | ⟨f, member, refused, apart⟩ | ⟨⟨f, member, null⟩, g, inside, one⟩
    · constructor
      · intro all f member
        rcases all f member with ⟨accepted, -⟩ | null
        · exact accepted
        · exact absurd null (plain f member).1
      · intro all f member
        exact .inl ⟨all f member, (plain f member).2⟩
    · constructor
      · intro all
        rcases all f member with ⟨accepted, -⟩ | null
        · exact absurd accepted refused
        · exact absurd null apart
      · intro all
        exact absurd (all f member) refused
    · constructor
      · intro all
        rcases all g inside with ⟨-, apart⟩ | null
        · exact absurd one apart
        · exact absurd null (amongAccepted one).2
      · intro all
        exact absurd (all f member) (otherNotAccepted null)

end Lists

end DatabaseAdmin.SqliteFilters
