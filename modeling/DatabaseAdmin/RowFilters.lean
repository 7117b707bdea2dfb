import DatabaseAdmin.LikePatterns
import DatabaseAdmin.SqlQuote
import DatabaseAdmin.Templates

/-! The grid's filters as a WHERE clause. The values a filter binds are kept apart from its text;
a condition is a text with holes for them. -/
namespace DatabaseAdmin.RowFilters
open CodeUnits Templates LikePatterns

inductive ComparisonOp where
  | eq | ne | lt | lte | gt | gte
  deriving DecidableEq, Repr

inductive TextOp where
  | contains | startsWith | endsWith
  deriving DecidableEq, Repr

inductive FilterOperator where
  | comparison (op : ComparisonOp)
  | text (op : TextOp)
  | isNull | isNotNull | within | between
  deriving DecidableEq, Repr

def FilterOperator.name : FilterOperator → String
  | .comparison .eq => "eq"
  | .comparison .ne => "ne"
  | .comparison .lt => "lt"
  | .comparison .lte => "lte"
  | .comparison .gt => "gt"
  | .comparison .gte => "gte"
  | .text .contains => "contains"
  | .text .startsWith => "startsWith"
  | .text .endsWith => "endsWith"
  | .isNull => "isNull"
  | .isNotNull => "isNotNull"
  | .within => "in"
  | .between => "between"

structure ColumnFilter where
  column : Text
  op : FilterOperator
  value : Option Text
  value2 : Option Text
  values : Option (List Text)
  deriving DecidableEq, Repr

inductive ParamStyle where
  | qmark | dollar
  deriving DecidableEq, Repr

structure WhereClause where
  sql : Text
  params : List Text
  deriving DecidableEq, Repr

structure ConditionList where
  conditions : List Text
  params : List Text
  deriving DecidableEq, Repr

def likeEscape : CodeUnit := backslash

def escapeLikePattern (value : Text) : Text :=
  replaceUnit '_' [likeEscape, ('_' : CodeUnit)]
    (replaceUnit '%' [likeEscape, ('%' : CodeUnit)] (replaceUnit likeEscape [likeEscape, likeEscape] value))

def comparison : ComparisonOp → String
  | .eq => "="
  | .ne => "<>"
  | .lt => "<"
  | .lte => "<="
  | .gt => ">"
  | .gte => ">="

structure ParamBag where
  style : ParamStyle
  startIndex : Nat
  values : List Text

def ParamBag.next (bag : ParamBag) (value : Text) : Text × ParamBag :=
  let values := bag.values ++ [value]
  (match bag.style with
    | .dollar => dollar (bag.startIndex + values.length - 1)
    | .qmark => units "?", { bag with values := values })

def ParamBag.nextAll (bag : ParamBag) : List Text → List Text × ParamBag
  | [] => ([], bag)
  | v :: rest =>
      let (hole, bag) := bag.next v
      let (holes, bag) := bag.nextAll rest
      (hole :: holes, bag)

inductive Which where
  | value | value2
  deriving DecidableEq, Repr

def Which.name : Which → String
  | .value => "value"
  | .value2 => "value2"

def ColumnFilter.get (f : ColumnFilter) : Which → Option Text
  | .value => f.value
  | .value2 => f.value2

def requireValue (f : ColumnFilter) (which : Which) : Except Text Text :=
  match f.get which with
  | some v => .ok v
  | none => .error (units "Filter on \"" ++ f.column ++ units ("\" with operator \"" ++ f.op.name ++
      "\" is missing " ++ which.name))

def quoting (quoted : Except String Text) : Except Text Text := quoted.mapError units

def likePattern (op : TextOp) (raw : Text) : Text :=
  match op with
  | .contains => units "%" ++ raw ++ units "%"
  | .startsWith => raw ++ units "%"
  | .endsWith => units "%" ++ raw

def pushCondition (engine : EngineKind) (f : ColumnFilter) (bag : ParamBag) : Except Text (Text × ParamBag) := do
  let col ← quoting (quoteIdent f.column engine)
  match f.op with
  | .comparison op =>
      let v ← requireValue f .value
      let (hole, bag) := bag.next v
      return (col ++ units (" " ++ comparison op ++ " ") ++ hole, bag)
  | .isNull => return (col ++ units " IS NULL", bag)
  | .isNotNull => return (col ++ units " IS NOT NULL", bag)
  | .between =>
      let lo ← requireValue f .value
      let hi ← requireValue f .value2
      let (first, bag) := bag.next lo
      let (last, bag) := bag.next hi
      return (col ++ units " BETWEEN " ++ first ++ units " AND " ++ last, bag)
  | .within =>
      let values := f.values.getD (f.value.elim [] fun v => [v])
      if values.length = 0 then return (units "1 = 0", bag)
      else
        let (holes, bag) := bag.nextAll values
        return (col ++ units " IN (" ++ List.intercalate (units ", ") holes ++ units ")", bag)
  | .text op =>
      let v ← requireValue f .value
      let (hole, bag) := bag.next (likePattern op (escapeLikePattern v))
      let declared ← quoting (quoteLiteral (.string [likeEscape]) engine)
      return (col ++ units " LIKE " ++ hole ++ units " ESCAPE " ++ declared, bag)

def pushConditions (engine : EngineKind) : List ColumnFilter → ParamBag → Except Text (List Text × ParamBag)
  | [], bag => .ok ([], bag)
  | f :: rest, bag => do
      let (condition, bag) ← pushCondition engine f bag
      let (conditions, bag) ← pushConditions engine rest bag
      return (condition :: conditions, bag)

def buildConditions (filters : List ColumnFilter) (engine : EngineKind) (paramStyle : ParamStyle)
    (startIndex : Nat) : Except Text ConditionList := do
  let (conditions, bag) ← pushConditions engine filters ⟨paramStyle, startIndex, []⟩
  return ⟨conditions, bag.values⟩

def buildWhere (filters : List ColumnFilter) (engine : EngineKind) (paramStyle : ParamStyle)
    (startIndex : Nat) : Except Text WhereClause := do
  let built ← buildConditions filters engine paramStyle startIndex
  return ⟨if built.conditions.length = 0 then []
    else units "WHERE " ++ List.intercalate (units " AND ") built.conditions, built.params⟩

section Reading

def demanded (f : ColumnFilter) : List (Option Text) :=
  match f.op with
  | .comparison _ | .text _ => [f.value]
  | .isNull | .isNotNull => []
  | .between => [f.value, f.value2]
  | .within => (f.values.getD (f.value.elim [] fun v => [v])).map some

def boundAs (f : ColumnFilter) (v : Text) : Text :=
  match f.op with
  | .text op => likePattern op (escapeLikePattern v)
  | _ => v

def boundValues (f : ColumnFilter) : List Text := ((demanded f).filterMap id).map (boundAs f)

def Alike (f g : ColumnFilter) : Prop :=
  f.column = g.column ∧ f.op = g.op ∧ (demanded f).map Option.isSome = (demanded g).map Option.isSome

def shownFrom : ParamStyle → Nat → List (Template Text) → List Text
  | .dollar, start, ts => numberedEach start ts
  | .qmark, _, ts => ts.map holes

def shownAt : ParamStyle → Nat → Template Text → Text
  | .dollar, start, t => numbered start t
  | .qmark, _, t => holes t

def conditionOf (engine : EngineKind) (f : ColumnFilter) : Except Text (Template Text) := do
  let col ← quoting (quoteIdent f.column engine)
  match f.op with
  | .comparison op => do
      let v ← requireValue f .value
      return raw (col ++ units (" " ++ comparison op ++ " ")) ++ hole v
  | .isNull => return raw (col ++ units " IS NULL")
  | .isNotNull => return raw (col ++ units " IS NOT NULL")
  | .between => do
      let lo ← requireValue f .value
      let hi ← requireValue f .value2
      return raw (col ++ units " BETWEEN ") ++ (hole lo ++ (raw (units " AND ") ++ hole hi))
  | .within =>
      let values := f.values.getD (f.value.elim [] fun v => [v])
      if values.length = 0 then return raw (units "1 = 0")
      else return raw (col ++ units " IN (") ++ (joined (units ", ") (values.map hole) ++ raw (units ")"))
  | .text op => do
      let v ← requireValue f .value
      let declared ← quoting (quoteLiteral (.string [likeEscape]) engine)
      return raw (col ++ units " LIKE ") ++
        (hole (likePattern op (escapeLikePattern v)) ++ raw (units " ESCAPE " ++ declared))

end Reading

section Bag

def ParamBag.nextIndex (bag : ParamBag) : Nat := bag.startIndex + bag.values.length

def ParamBag.holding (bag : ParamBag) (more : List Text) : ParamBag := { bag with values := bag.values ++ more }

theorem nextIs (bag : ParamBag) (v : Text) : bag.next v = (shownAt bag.style bag.nextIndex (hole v), bag.holding [v]) := by
  obtain ⟨style, start, values⟩ := bag
  cases style <;> simp [ParamBag.next, ParamBag.nextIndex, ParamBag.holding, shownAt, ← Nat.add_assoc]

theorem nextAllIs (bag : ParamBag) (vs : List Text) :
    bag.nextAll vs = (shownFrom bag.style bag.nextIndex (vs.map hole), bag.holding vs) := by
  induction vs generalizing bag with
  | nil =>
    obtain ⟨style, start, values⟩ := bag
    cases style <;> simp [ParamBag.nextAll, shownFrom, numberedEach, ParamBag.holding]
  | cons v vs ih =>
    rw [ParamBag.nextAll, nextIs]
    dsimp only
    rw [ih]
    obtain ⟨style, start, values⟩ := bag
    cases style <;>
      simp [shownFrom, shownAt, numberedEach, ParamBag.holding, ParamBag.nextIndex, Nat.add_assoc]

theorem shownAtJoined (style : ParamStyle) (n : Nat) (sep : Text) (ts : List (Template Text)) :
    shownAt style n (joined sep ts) = List.intercalate sep (shownFrom style n ts) := by
  cases style with
  | qmark => exact holesJoined sep ts
  | dollar => exact numberedJoined n sep ts

@[simp] theorem shownAtRaw (style : ParamStyle) (n : Nat) (text : Text) : shownAt style n (raw text) = text := by
  cases style <;> simp [shownAt]

theorem shownAtAppend (style : ParamStyle) (n : Nat) (s t : Template Text) :
    shownAt style n (s ++ t) = shownAt style n s ++ shownAt style (n + (values s).length) t := by
  cases style <;> simp [shownAt, numberedAppend]

theorem shownFromCons (style : ParamStyle) (n : Nat) (t : Template Text) (ts : List (Template Text)) :
    shownFrom style n (t :: ts) = shownAt style n t :: shownFrom style (n + (values t).length) ts := by
  cases style <;> rfl

def told (bag : ParamBag) (t : Template Text) : Text × ParamBag :=
  (shownAt bag.style bag.nextIndex t, bag.holding (values t))

theorem pushConditionIs (engine : EngineKind) (f : ColumnFilter) (bag : ParamBag) :
    pushCondition engine f bag = (conditionOf engine f).map (told bag) := by
  unfold pushCondition conditionOf
  cases quoting (quoteIdent f.column engine) with
  | error e => rfl
  | ok col =>
    simp only [bind, Except.bind]
    cases f.op with
    | comparison op =>
      cases requireValue f .value with
      | error e => rfl
      | ok v => simp [nextIs, told, shownAtAppend, Except.map, pure, Except.pure]
    | isNull => simp [told, Except.map, pure, Except.pure, ParamBag.holding]
    | isNotNull => simp [told, Except.map, pure, Except.pure, ParamBag.holding]
    | between =>
      cases requireValue f .value with
      | error e => rfl
      | ok lo =>
        cases requireValue f .value2 with
        | error e => rfl
        | ok hi =>
          simp [nextIs, told, shownAtAppend, Except.map, pure, Except.pure, ParamBag.holding, ParamBag.nextIndex,
            Nat.add_assoc]
    | within =>
      dsimp only
      split
      · simp [told, Except.map, pure, Except.pure, ParamBag.holding]
      · have bound : ∀ vs : List Text, values (joined (units ", ") (vs.map hole)) = vs := by
          intro vs
          rw [valuesJoined, List.flatMap_map]
          simp
        simp [nextAllIs, told, shownAtAppend, shownAtJoined, Except.map, pure, Except.pure, bound]
    | text op =>
      cases requireValue f .value with
      | error e => rfl
      | ok v =>
        cases quoting (quoteLiteral (.string [likeEscape]) engine) with
        | error e => rfl
        | ok declared => simp [nextIs, told, shownAtAppend, Except.map, pure, Except.pure]

theorem pushConditionsAre (engine : EngineKind) (fs : List ColumnFilter) (bag : ParamBag) :
    pushConditions engine fs bag = (fs.mapM (conditionOf engine)).map fun ts =>
      (shownFrom bag.style bag.nextIndex ts, bag.holding (ts.flatMap values)) := by
  induction fs generalizing bag with
  | nil =>
    obtain ⟨style, start, values⟩ := bag
    cases style <;> simp [pushConditions, shownFrom, numberedEach, ParamBag.holding, pure, Except.pure, Except.map]
  | cons f fs ih =>
    rw [pushConditions, pushConditionIs, List.mapM_cons]
    cases conditionOf engine f with
    | error e => rfl
    | ok t =>
      simp only [bind, Except.bind, Except.map, told]
      rw [ih]
      cases fs.mapM (conditionOf engine) with
      | error e => rfl
      | ok ts =>
        simp [Except.map, pure, Except.pure, shownFromCons, ParamBag.holding, ParamBag.nextIndex, Nat.add_assoc]

theorem conditionsAre (engine : EngineKind) (fs : List ColumnFilter) (style : ParamStyle) (start : Nat) :
    buildConditions fs engine style start = (fs.mapM (conditionOf engine)).map fun ts =>
      ⟨shownFrom style start ts, ts.flatMap values⟩ := by
  rw [buildConditions, pushConditionsAre]
  cases fs.mapM (conditionOf engine) <;> rfl

end Bag

section Values

def hollow (t : Template Text) : Template Unit := t.map fun
  | .unit c => .unit c
  | .hole _ => .hole ()

theorem holesHollow (t : Template Text) : holes (hollow t) = holes t := by
  induction t with
  | nil => rfl
  | cons p t ih => cases p <;> simpa [holes, hollow] using ih

theorem numberedHollow (n : Nat) (t : Template Text) : numbered n (hollow t) = numbered n t := by
  induction t generalizing n with
  | nil => rfl
  | cons p t ih => cases p <;> simpa [numbered, hollow] using ih _

theorem valuesHollow (t : Template Text) : (values (hollow t)).length = (values t).length := by
  induction t with
  | nil => rfl
  | cons p t ih => cases p <;> simpa [values, hollow] using ih

theorem shownHollow {t u : Template Text} (same : hollow t = hollow u) (style : ParamStyle) (n : Nat) :
    shownAt style n t = shownAt style n u := by
  cases style with
  | qmark => simpa [shownAt, holesHollow] using congrArg holes same
  | dollar => simpa [shownAt, numberedHollow] using congrArg (numbered n) same

theorem shownFromHollow {ts us : List (Template Text)} (same : ts.map hollow = us.map hollow)
    (style : ParamStyle) (n : Nat) : shownFrom style n ts = shownFrom style n us := by
  induction ts generalizing us n with
  | nil =>
    cases us with
    | nil => rfl
    | cons u us => cases same
  | cons t ts ih =>
    cases us with
    | nil => cases same
    | cons u us =>
      obtain ⟨first, rest⟩ := List.cons.inj same
      have long : (values t).length = (values u).length := by
        rw [← valuesHollow, first, valuesHollow]
      rw [shownFromCons, shownFromCons, shownHollow first, long, ih rest]

theorem requireAlike {f g : ColumnFilter} (column : f.column = g.column) (op : f.op = g.op) (which : Which)
    (told : (f.get which).isSome = (g.get which).isSome) :
    (∃ e, requireValue f which = .error e ∧ requireValue g which = .error e) ∨
      ∃ v w, requireValue f which = .ok v ∧ requireValue g which = .ok w := by
  unfold requireValue
  rw [column, op]
  revert told
  generalize f.get which = left
  generalize g.get which = right
  intro told
  cases left with
  | none =>
    cases right with
    | none => exact .inl ⟨_, rfl, rfl⟩
    | some w => cases told
  | some v =>
    cases right with
    | none => cases told
    | some w => exact .inr ⟨v, w, rfl, rfl⟩

theorem hollowJoined (sep : Text) (ts : List (Template Text)) :
    hollow (joined sep ts) = joined sep (ts.map hollow) := by
  have read := joinedRead hollow (fun s t => List.map_append) rfl sep ts
  have plain : hollow (raw sep) = raw sep := by simp [hollow, raw, Function.comp_def]
  rw [read, plain]
  rfl

theorem hollowHoles {vs ws : List Text} (long : vs.length = ws.length) :
    (vs.map hole).map hollow = (ws.map hole).map hollow := by
  have blank : ∀ vs : List Text, (vs.map hole).map hollow = List.replicate vs.length (hole ()) := by
    intro vs
    rw [List.map_map, List.eq_replicate_iff]
    simp only [List.length_map, List.mem_map, Function.comp_apply, true_and]
    rintro b ⟨v, -, rfl⟩
    rfl
  rw [blank, blank, long]

@[simp] theorem hollowAppend (s t : Template Text) : hollow (s ++ t) = hollow s ++ hollow t := List.map_append

@[simp] theorem hollowHole (v : Text) : hollow (hole v) = hole () := rfl

theorem conditionAlike (engine : EngineKind) {f g : ColumnFilter} (alike : Alike f g) :
    (conditionOf engine f).map hollow = (conditionOf engine g).map hollow := by
  obtain ⟨column, op, told⟩ := alike
  unfold conditionOf
  rw [← op, ← column]
  cases quoting (quoteIdent f.column engine) with
  | error e => rfl
  | ok col =>
    simp only [bind, Except.bind]
    simp only [demanded, ← op] at told
    have value := requireAlike column op .value
    have value2 := requireAlike column op .value2
    cases kind : f.op with
    | comparison c =>
      simp only [kind, List.map_cons, List.map_nil, List.cons.injEq, and_true] at told
      obtain ⟨e, left, right⟩ | ⟨v, w, left, right⟩ := value told
      · rw [left, right]
      · rw [left, right]
        simp [Except.map, pure, Except.pure]
    | isNull => rfl
    | isNotNull => rfl
    | between =>
      simp only [kind, List.map_cons, List.map_nil, List.cons.injEq, and_true] at told
      obtain ⟨e, left, right⟩ | ⟨v, w, left, right⟩ := value told.1
      · rw [left, right]
      · rw [left, right]
        obtain ⟨e, left, right⟩ | ⟨v, w, left, right⟩ := value2 told.2
        · simp only [left, right]
        · simp [left, right, Except.map, pure, Except.pure]
    | within =>
      simp only [kind] at told
      have long := congrArg List.length told
      simp only [List.length_map] at long
      simp only [long]
      split
      · rfl
      · simp [Except.map, pure, Except.pure, hollowJoined, hollowHoles long]
    | text c =>
      simp only [kind, List.map_cons, List.map_nil, List.cons.injEq, and_true] at told
      obtain ⟨e, left, right⟩ | ⟨v, w, left, right⟩ := value told
      · rw [left, right]
      · rw [left, right]
        cases quoting (quoteLiteral (.string [likeEscape]) engine) with
        | error e => rfl
        | ok declared => simp [Except.map, pure, Except.pure]

theorem conditionsAlike (engine : EngineKind) {fs gs : List ColumnFilter} (alike : List.Forall₂ Alike fs gs) :
    (fs.mapM (conditionOf engine)).map (List.map hollow) = (gs.mapM (conditionOf engine)).map (List.map hollow) := by
  induction alike with
  | nil => rfl
  | cons first rest ih =>
    have here := conditionAlike engine first
    rw [List.mapM_cons, List.mapM_cons]
    revert here ih
    generalize List.mapM (conditionOf engine) _ = left
    generalize List.mapM (conditionOf engine) _ = right
    generalize conditionOf engine _ = a
    generalize conditionOf engine _ = b
    intro rest first
    cases a with
    | error e =>
      cases b with
      | error d =>
        obtain rfl : e = d := Except.error.inj first
        rfl
      | ok u => cases first
    | ok t =>
      cases b with
      | error d => cases first
      | ok u =>
        cases left with
        | error e =>
          cases right with
          | error d =>
            obtain rfl : e = d := Except.error.inj rest
            rfl
          | ok us => cases rest
        | ok ts =>
          cases right with
          | error d => cases rest
          | ok us =>
            have head := Except.ok.inj first
            have tail := Except.ok.inj rest
            simp [bind, Except.bind, pure, Except.pure, Except.map, head, tail]

theorem requireGives {f : ColumnFilter} {which : Which} {v : Text} (given : requireValue f which = .ok v) :
    f.get which = some v := by
  unfold requireValue at given
  cases read : f.get which with
  | none =>
    rw [read] at given
    cases given
  | some w =>
    rw [read] at given
    obtain rfl : w = v := Except.ok.inj given
    rfl

theorem conditionBinds {engine : EngineKind} {f : ColumnFilter} {t : Template Text}
    (found : conditionOf engine f = .ok t) : values t = boundValues f := by
  unfold conditionOf at found
  cases name : quoting (quoteIdent f.column engine) with
  | error e =>
    rw [name] at found
    cases found
  | ok col =>
    rw [name] at found
    simp only [bind, Except.bind] at found
    cases kind : f.op with
    | comparison op =>
      simp only [kind] at found
      cases value : requireValue f .value with
      | error e =>
        rw [value] at found
        cases found
      | ok v =>
        rw [value] at found
        cases Except.ok.inj found
        have given := requireGives value
        simp only [ColumnFilter.get] at given
        simp [boundValues, demanded, boundAs, kind, given]
    | isNull =>
      simp only [kind] at found
      cases Except.ok.inj found
      simp [boundValues, demanded, kind]
    | isNotNull =>
      simp only [kind] at found
      cases Except.ok.inj found
      simp [boundValues, demanded, kind]
    | between =>
      simp only [kind] at found
      cases value : requireValue f .value with
      | error e =>
        rw [value] at found
        cases found
      | ok lo =>
        rw [value] at found
        cases value2 : requireValue f .value2 with
        | error e =>
          rw [value2] at found
          cases found
        | ok hi =>
          rw [value2] at found
          cases Except.ok.inj found
          have first := requireGives value
          have last := requireGives value2
          simp only [ColumnFilter.get] at first last
          simp [boundValues, demanded, boundAs, kind, first, last]
    | within =>
      simp only [kind] at found
      split at found
      next empty =>
        cases Except.ok.inj found
        simp [boundValues, demanded, kind, List.eq_nil_of_length_eq_zero empty]
      next =>
        cases Except.ok.inj found
        have bound : ∀ vs : List Text, values (joined (units ", ") (vs.map hole)) = vs := by
          intro vs
          rw [valuesJoined, List.flatMap_map]
          simp
        have kept : boundAs f = id := by
          funext v
          simp [boundAs, kind]
        simp [boundValues, demanded, kept, kind, bound, List.filterMap_map]
    | text op =>
      simp only [kind] at found
      cases value : requireValue f .value with
      | error e =>
        rw [value] at found
        cases found
      | ok v =>
        rw [value] at found
        cases declared : quoting (quoteLiteral (.string [likeEscape]) engine) with
        | error e =>
          rw [declared] at found
          cases found
        | ok text =>
          rw [declared] at found
          cases Except.ok.inj found
          have given := requireGives value
          simp only [ColumnFilter.get] at given
          simp [boundValues, demanded, boundAs, kind, given]

theorem mapMBinds {engine : EngineKind} {fs : List ColumnFilter} {ts : List (Template Text)}
    (found : fs.mapM (conditionOf engine) = .ok ts) : ts.map values = fs.map boundValues :=
  mapMSame (fun _ _ made => conditionBinds made) found

theorem valuesStayOutOfText (engine : EngineKind) (style : ParamStyle) (start : Nat) :
    (∀ fs gs, List.Forall₂ Alike fs gs →
      (buildConditions fs engine style start).map ConditionList.conditions =
        (buildConditions gs engine style start).map ConditionList.conditions ∧
      (buildWhere fs engine style start).map WhereClause.sql =
        (buildWhere gs engine style start).map WhereClause.sql) ∧
    (∀ fs built, buildConditions fs engine style start = .ok built →
      ∃ ts, fs.mapM (conditionOf engine) = .ok ts ∧ built.conditions = shownFrom style start ts ∧
        ts.map values = fs.map boundValues ∧ built.params = fs.flatMap boundValues) ∧
    (∀ fs clause, buildWhere fs engine style start = .ok clause →
      ∃ t, clause.sql = shownAt style start t ∧ values t = clause.params ∧
        clause.params = fs.flatMap boundValues) := by
  have bound : ∀ {fs : List ColumnFilter} {ts : List (Template Text)}, fs.mapM (conditionOf engine) = .ok ts →
      ts.flatMap values = fs.flatMap boundValues := by
    intro fs ts found
    rw [List.flatMap, mapMBinds found, List.flatMap]
  refine ⟨?_, ?_, ?_⟩
  · intro fs gs alike
    have same := conditionsAlike engine alike
    simp only [buildWhere, conditionsAre]
    cases left : fs.mapM (conditionOf engine) with
    | error e =>
      cases right : gs.mapM (conditionOf engine) with
      | error d =>
        rw [left, right] at same
        obtain rfl : e = d := Except.error.inj same
        exact ⟨rfl, rfl⟩
      | ok us =>
        rw [left, right] at same
        cases same
    | ok ts =>
      cases right : gs.mapM (conditionOf engine) with
      | error d =>
        rw [left, right] at same
        cases same
      | ok us =>
        rw [left, right] at same
        have shown := shownFromHollow (Except.ok.inj same) style start
        simp [Except.map, bind, Except.bind, pure, Except.pure, shown]
  · intro fs built done
    rw [conditionsAre] at done
    cases found : fs.mapM (conditionOf engine) with
    | error e =>
      rw [found] at done
      cases done
    | ok ts =>
      rw [found] at done
      cases Except.ok.inj done
      exact ⟨ts, rfl, rfl, mapMBinds found, bound found⟩
  · intro fs clause done
    rw [buildWhere, conditionsAre] at done
    cases found : fs.mapM (conditionOf engine) with
    | error e =>
      rw [found] at done
      cases done
    | ok ts =>
      rw [found] at done
      cases Except.ok.inj done
      dsimp only
      split
      next none =>
        have empty : ts = [] := by
          cases ts with
          | nil => rfl
          | cons t ts =>
            rw [shownFromCons] at none
            cases none
        exact ⟨raw [], by simp, by simp [empty], bound found⟩
      next =>
        refine ⟨raw (units "WHERE ") ++ joined (units " AND ") ts, ?_, ?_, bound found⟩
        · simp [shownAtAppend, shownAtJoined]
        · simp [valuesJoined]

theorem valuesStayOutOfTextOfTwo :
    let list : List ColumnFilter := [⟨units "a", .within, none, none, some [units "1", units "2"]⟩,
      ⟨units "b$1", .text .contains, some (units "%'"), none, none⟩]
    let other : List ColumnFilter := [⟨units "a", .within, none, none, some [units "x'; --", units "$1"]⟩,
      ⟨units "b$1", .text .contains, some (units ""), some (units "9"), none⟩]
    List.Forall₂ Alike list other ∧
    (buildConditions list .postgres .dollar 3).map ConditionList.conditions =
      (buildConditions other .postgres .dollar 3).map ConditionList.conditions := by
  intro list other
  have alike : List.Forall₂ Alike list other := by
    refine .cons ⟨rfl, rfl, rfl⟩ (.cons ⟨rfl, rfl, rfl⟩ .nil)
  exact ⟨alike, ((valuesStayOutOfText .postgres .dollar 3).1 list other alike).1⟩

end Values

section Patterns

def filterMarks : Marks CodeUnit where
  escape := likeEscape
  any := '%'
  one := '_'
  anyApart := by decide
  oneApart := by decide
  onesApart := by decide

def Found : TextOp → Text → Text → Prop
  | .contains, v, t => v <:+: t
  | .startsWith, v, t => v <+: t
  | .endsWith, v, t => v <:+ t

theorem escapesLiterally (v : Text) : escapeLikePattern v = literally filterMarks v := by
  simp only [escapeLikePattern, replaceUnit, literally, List.flatMap_assoc]
  congr 1
  funext c
  by_cases slash : c = likeEscape
  · subst slash
    decide
  by_cases any : c = ('%' : CodeUnit)
  · subst any
    decide
  by_cases one : c = ('_' : CodeUnit)
  · subst one
    decide
  · have plain : ¬ filterMarks.IsMark c := by
      rintro (mark | mark | mark)
      · exact slash mark
      · exact any mark
      · exact one mark
    simp only [if_neg slash, if_neg plain, List.flatMap_cons, List.flatMap_nil, if_neg any, if_neg one,
      List.append_nil]

theorem patternMatches (op : TextOp) (v t : Text) :
    Like filterMarks (likePattern op (escapeLikePattern v)) t ↔ Found op v t := by
  rw [escapesLiterally]
  cases op with
  | contains => exact likeContains v
  | startsWith => exact likeStarts v
  | endsWith => exact likeEnds v

theorem escapeIsDeclared {engine : EngineKind} {text : Text}
    (quoted : quoting (quoteLiteral (.string [likeEscape]) engine) = .ok text) :
    ∃ dialect, dialectForEngine engine = .ok dialect ∧ undoLiteral dialect text = some [likeEscape] := by
  have clean : 0 ∉ [likeEscape] := by decide
  obtain ⟨dialect, sql⟩ : ∃ dialect, dialectForEngine engine = .ok dialect := by
    cases engine with
    | redis => cases quoted
    | mongodb => cases quoted
    | _ => exact ⟨_, rfl⟩
  obtain ⟨written, wrote, back, -⟩ := literalIsOneToken (t := []) sql clean (by simp)
  rw [wrote] at quoted
  obtain rfl : written = text := Except.ok.inj quoted
  exact ⟨dialect, sql, back⟩

theorem shownFromAppend (style : ParamStyle) (n : Nat) (ts us : List (Template Text)) :
    shownFrom style n (ts ++ us) = shownFrom style n ts ++ shownFrom style (n + (ts.flatMap values).length) us := by
  induction ts generalizing n with
  | nil =>
    cases style <;> simp [shownFrom, numberedEach]
  | cons t ts ih =>
    rw [List.cons_append, shownFromCons, ih, shownFromCons]
    simp [Nat.add_assoc]

theorem shownFromLength (style : ParamStyle) (n : Nat) (ts : List (Template Text)) :
    (shownFrom style n ts).length = ts.length := by
  induction ts generalizing n with
  | nil => cases style <;> rfl
  | cons t ts ih => rw [shownFromCons, List.length_cons, List.length_cons, ih]

theorem textConditionIs {engine : EngineKind} {f : ColumnFilter} {op : TextOp} {v : Text} {t : Template Text}
    (kind : f.op = .text op) (given : f.value = some v) (found : conditionOf engine f = .ok t) :
    ∃ col declared, quoteIdent f.column engine = .ok col ∧
      quoting (quoteLiteral (.string [likeEscape]) engine) = .ok declared ∧
      t = raw (col ++ units " LIKE ") ++
        (hole (likePattern op (escapeLikePattern v)) ++ raw (units " ESCAPE " ++ declared)) := by
  unfold conditionOf at found
  cases name : quoteIdent f.column engine with
  | error e =>
    rw [name] at found
    cases found
  | ok col =>
    have value : requireValue f .value = .ok v := by
      simp [requireValue, ColumnFilter.get, given]
    rw [name] at found
    simp only [quoting, Except.mapError, bind, Except.bind, kind, value] at found
    cases declared : quoting (quoteLiteral (.string [likeEscape]) engine) with
    | error e =>
      simp only [quoting, Except.mapError] at declared
      rw [declared] at found
      cases found
    | ok text =>
      have kept := declared
      simp only [quoting, Except.mapError] at declared
      rw [declared] at found
      exact ⟨col, text, rfl, rfl, (Except.ok.inj found).symm⟩

theorem textFiltersMatchLiterally (engine : EngineKind) (style : ParamStyle) (start : Nat)
    (before after : List ColumnFilter) (f : ColumnFilter) (op : TextOp) (v : Text) (built : ConditionList)
    (kind : f.op = .text op) (given : f.value = some v)
    (done : buildConditions (before ++ f :: after) engine style start = .ok built) :
    ∃ dialect col declared pattern, dialectForEngine engine = .ok dialect ∧
      quoteIdent f.column engine = .ok col ∧
      built.params[(before.flatMap boundValues).length]? = some pattern ∧
      built.conditions[before.length]? = some (col ++ (units " LIKE " ++
        (shownAt style (start + (before.flatMap boundValues).length) (hole pattern) ++
          (units " ESCAPE " ++ declared)))) ∧
      undoLiteral dialect declared = some [filterMarks.escape] ∧
      ∀ t, Like filterMarks pattern t ↔ Found op v t := by
  rw [conditionsAre] at done
  cases found : (before ++ f :: after).mapM (conditionOf engine) with
  | error e =>
    rw [found] at done
    cases done
  | ok ts =>
    rw [found] at done
    cases Except.ok.inj done
    obtain ⟨us, vs, first, second, rfl⟩ := mapMAppend found
    have apart : ([f] ++ after).mapM (conditionOf engine) = .ok vs := second
    obtain ⟨here, rest, one, -, rfl⟩ := mapMAppend apart
    obtain ⟨t, others, made, none, rfl⟩ := List.forall₂_cons_left_iff.mp (mapMForall₂.mp one)
    obtain rfl := List.forall₂_nil_left_iff.mp none
    obtain ⟨col, declared, name, quoted, rfl⟩ := textConditionIs kind given made
    obtain ⟨dialect, sql, back⟩ := escapeIsDeclared quoted
    have long : us.length = before.length := (mapMForall₂.mp first).length_eq.symm
    have bound : us.flatMap values = before.flatMap boundValues := by
      rw [List.flatMap, mapMBinds first, List.flatMap]
    refine ⟨dialect, col, declared, _, sql, name, ?_, ?_, back, patternMatches op v⟩
    · simp [bound]
    · dsimp only
      rw [shownFromAppend, List.getElem?_append_right (by simp [shownFromLength, long])]
      simp [shownFromLength, long, shownFromCons, shownAtAppend, bound]

theorem textFiltersMatchLiterallyAtPercent :
    ∃ dialect col declared pattern, dialectForEngine .postgres = .ok dialect ∧
      quoteIdent (units "note") .postgres = .ok col ∧
      [units "3", units "%50\\\\\\%%"][([⟨units "id", .comparison .gt, some (units "3"), none, none⟩].flatMap
        boundValues).length]? = some pattern ∧
      [units "\"id\" > $1", units "\"note\" LIKE $2 ESCAPE E'\\\\'"][1]? = some (col ++ (units " LIKE " ++
        (shownAt .dollar (1 + ([⟨units "id", .comparison .gt, some (units "3"), none, none⟩].flatMap
          boundValues).length) (hole pattern) ++ (units " ESCAPE " ++ declared)))) ∧
      undoLiteral dialect declared = some [filterMarks.escape] ∧
      ∀ t, Like filterMarks pattern t ↔ Found .contains (units "50\\%") t :=
  textFiltersMatchLiterally .postgres .dollar 1 [⟨units "id", .comparison .gt, some (units "3"), none, none⟩] []
    ⟨units "note", .text .contains, some (units "50\\%"), none, none⟩ .contains (units "50\\%")
    ⟨[units "\"id\" > $1", units "\"note\" LIKE $2 ESCAPE E'\\\\'"], [units "3", units "%50\\\\\\%%"]⟩ rfl rfl
    (by decide)

end Patterns

end DatabaseAdmin.RowFilters
