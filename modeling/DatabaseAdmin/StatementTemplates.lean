import Mathlib.Data.List.Dedup
import DatabaseAdmin.BoundStatements
import DatabaseAdmin.PreviewRendering
import DatabaseAdmin.SchemaModels

/-! The INSERT, UPDATE and DELETE that are generated from a table, with a placeholder for each
column's value. -/
namespace DatabaseAdmin.StatementTemplates
open CodeUnits ScanLoop Templates Placeholders RowFilters BoundStatements ChangeStatements SchemaModels

def safeStart (c : CodeUnit) : Bool := (65 ≤ c && c ≤ 90) || (97 ≤ c && c ≤ 122) || c == 95

def safePlaceholder (column : Text) : Bool :=
  column.head?.any safeStart && column.all fun c => safeStart c || isDigit c

def placeholderFor (column : Text) : Text := if safePlaceholder column then units ":" ++ column else units "?"

def qualifyTable (t : TableModel) (engine : EngineKind) : Except Text Text :=
  quoting (quoteQualified engine [t.schema, some t.name])

def insertableColumns (t : TableModel) : List Text :=
  (t.columns.filter fun c => !c.autoIncrement && c.generated.isNone).map ColumnModel.name

def requirePrimaryKey (t : TableModel) (what : String) : Except Text (List Text) :=
  if t.primaryKey = [] then
    .error (units ("Cannot generate " ++ what ++ " for \"") ++ t.name ++
      units ("\": it has no primary key, and an unkeyed " ++ what ++ " would match every row. Add a WHERE clause by hand."))
  else .ok t.primaryKey

def renderInsertTemplate (t : TableModel) (engine : EngineKind) : Except Text Text := do
  let cols := insertableColumns t
  if cols = [] then throw (units "Cannot generate INSERT for \"" ++ t.name ++ units "\": every column is generated.")
  let names ← cols.mapM fun c => quoting (quoteIdent c engine)
  let values := cols.map placeholderFor
  let table ← qualifyTable t engine
  return units "INSERT INTO " ++ table ++ units " (" ++ join ", " names ++ units ")\nVALUES (" ++ join ", " values ++ units ");"

def assignment (engine : EngineKind) (c : Text) : Except Text Text := do
  let ident ← quoting (quoteIdent c engine)
  return ident ++ units " = " ++ placeholderFor c

def renderUpdateTemplate (t : TableModel) (engine : EngineKind) : Except Text Text := do
  let key ← requirePrimaryKey t "UPDATE"
  let sets ← ((insertableColumns t).filter fun c => !key.contains c).mapM (assignment engine)
  if sets = [] then throw (units "Cannot generate UPDATE for \"" ++ t.name ++ units "\": every column is part of the key.")
  let wanted ← key.mapM (assignment engine)
  let table ← qualifyTable t engine
  return units "UPDATE " ++ table ++ units "\nSET " ++ join ",\n    " sets ++ units "\nWHERE " ++ join " AND " wanted ++ units ";"

def renderDeleteTemplate (t : TableModel) (engine : EngineKind) : Except Text Text := do
  let key ← requirePrimaryKey t "DELETE"
  let wanted ← key.mapM (assignment engine)
  let table ← qualifyTable t engine
  return units "DELETE FROM " ++ table ++ units "\nWHERE " ++ join " AND " wanted ++ units ";"

inductive TemplateKind where
  | insert | update | delete
  deriving DecidableEq

def TemplateKind.render : TemplateKind → TableModel → EngineKind → Except Text Text
  | .insert => renderInsertTemplate
  | .update => renderUpdateTemplate
  | .delete => renderDeleteTemplate

section Slots

def insertSlots (t : TableModel) (engine : EngineKind) : Except Text (Template Text) := do
  let cols := insertableColumns t
  if cols = [] then throw (units "Cannot generate INSERT for \"" ++ t.name ++ units "\": every column is generated.")
  let names ← cols.mapM fun c => quoting (quoteIdent c engine)
  let table ← qualifyTable t engine
  return raw (units "INSERT INTO " ++ table ++ units " (" ++ join ", " names ++ units ")\nVALUES (") ++
    joined (units ", ") (cols.map hole) ++ raw (units ");")

def assignmentSlot (engine : EngineKind) (c : Text) : Except Text (Template Text) := do
  let ident ← quoting (quoteIdent c engine)
  return raw (ident ++ units " = ") ++ hole c

def updateSlots (t : TableModel) (engine : EngineKind) : Except Text (Template Text) := do
  let key ← requirePrimaryKey t "UPDATE"
  let sets ← ((insertableColumns t).filter fun c => !key.contains c).mapM (assignmentSlot engine)
  if sets = [] then throw (units "Cannot generate UPDATE for \"" ++ t.name ++ units "\": every column is part of the key.")
  let wanted ← key.mapM (assignmentSlot engine)
  let table ← qualifyTable t engine
  return raw (units "UPDATE " ++ table ++ units "\nSET ") ++ joined (units ",\n    ") sets ++ raw (units "\nWHERE ") ++
    joined (units " AND ") wanted ++ raw (units ";")

def deleteSlots (t : TableModel) (engine : EngineKind) : Except Text (Template Text) := do
  let key ← requirePrimaryKey t "DELETE"
  let wanted ← key.mapM (assignmentSlot engine)
  let table ← qualifyTable t engine
  return raw (units "DELETE FROM " ++ table ++ units "\nWHERE ") ++ joined (units " AND ") wanted ++ raw (units ";")

def TemplateKind.slots : TemplateKind → TableModel → EngineKind → Except Text (Template Text)
  | .insert => insertSlots
  | .update => updateSlots
  | .delete => deleteSlots

def TemplateKind.columns (kind : TemplateKind) (t : TableModel) : List Text :=
  match kind with
  | .insert => insertableColumns t
  | .update => (insertableColumns t).filter (fun c => !t.primaryKey.contains c) ++ t.primaryKey
  | .delete => t.primaryKey

theorem mapMMap {β γ δ : Type} (f : β → Except Text γ) (g : γ → δ) (xs : List β) :
    xs.mapM (fun x => (f x).map g) = (xs.mapM f).map (List.map g) := by
  induction xs with
  | nil => rfl
  | cons x xs ih =>
    rw [List.mapM_cons, List.mapM_cons, ih]
    cases f x with
    | error message => rfl
    | ok y => cases xs.mapM f <;> rfl

theorem assignmentShown (engine : EngineKind) :
    assignment engine = fun c => (assignmentSlot engine c).map (shown placeholderFor) := by
  funext c
  simp only [assignment, assignmentSlot]
  cases quoting (quoteIdent c engine) with
  | error message => rfl
  | ok ident => simp [bind, Except.bind, pure, Except.pure, Except.map]

theorem slotsShown (kind : TemplateKind) (t : TableModel) (engine : EngineKind) :
    kind.render t engine = (kind.slots t engine).map (shown placeholderFor) := by
  cases kind with
  | insert =>
    have values : (insertableColumns t).map placeholderFor =
        ((insertableColumns t).map hole).map (shown placeholderFor) := by simp
    simp only [TemplateKind.render, TemplateKind.slots, renderInsertTemplate, insertSlots, values]
    split
    · rfl
    · cases (insertableColumns t).mapM fun c => quoting (quoteIdent c engine) with
      | error message => rfl
      | ok names =>
        cases qualifyTable t engine with
        | error message => rfl
        | ok table => simp [bind, Except.bind, pure, Except.pure, Except.map, join, shownJoined]
  | update =>
    simp only [TemplateKind.render, TemplateKind.slots, renderUpdateTemplate, updateSlots, assignmentShown, mapMMap]
    cases requirePrimaryKey t "UPDATE" with
    | error message => rfl
    | ok key =>
      simp only [bind, Except.bind]
      cases ((insertableColumns t).filter fun c => !key.contains c).mapM (assignmentSlot engine) with
      | error message => rfl
      | ok sets =>
        simp only [Except.map, List.map_eq_nil_iff]
        split
        · rfl
        · cases key.mapM (assignmentSlot engine) with
          | error message => rfl
          | ok wanted =>
            cases qualifyTable t engine with
            | error message => rfl
            | ok table => simp [pure, Except.pure, join, shownJoined]
  | delete =>
    simp only [TemplateKind.render, TemplateKind.slots, renderDeleteTemplate, deleteSlots, assignmentShown, mapMMap]
    cases requirePrimaryKey t "DELETE" with
    | error message => rfl
    | ok key =>
      simp only [bind, Except.bind]
      cases key.mapM (assignmentSlot engine) with
      | error message => rfl
      | ok wanted =>
        cases qualifyTable t engine with
        | error message => rfl
        | ok table => simp [Except.map, pure, Except.pure, join, shownJoined]

end Slots

section Scan
variable {dialect : SqlDialect} {engine : EngineKind}

def slotSpot (n : Nat) (column : Text) (start stop : Nat) : SqlPlaceholder :=
  if safePlaceholder column then ⟨some column, some n, start, stop, .named⟩ else ⟨none, some n, start, stop, .qmark⟩

def foundSpots (dialect : SqlDialect) : Nat → Nat → Template Text → List SqlPlaceholder
  | _, _, [] => []
  | n, start, .unit _ :: rest => foundSpots dialect n (start + 1) rest
  | n, start, .hole column :: rest =>
      if safePlaceholder column ∨ dialect ≠ .postgres then
        slotSpot (n + 1) column start (start + (placeholderFor column).length) ::
          foundSpots dialect (n + 1) (start + (placeholderFor column).length) rest
      else foundSpots dialect n (start + (placeholderFor column).length) rest

theorem foundAppend (s t : Template Text) : ∀ n start, foundSpots dialect n start (s ++ t) = foundSpots dialect n start s ++
    foundSpots dialect (n + (foundSpots dialect n start s).length) (start + (shown placeholderFor s).length) t := by
  induction s with
  | nil => exact fun n start => rfl
  | cons piece s ih =>
    intro n start
    cases piece with
    | unit c =>
      simp only [List.cons_append, foundSpots, ih]
      simp [shown, Nat.add_assoc, Nat.add_comm 1]
    | hole column =>
      simp only [List.cons_append, foundSpots, ih]
      split <;> simp [shown, Nat.add_assoc, Nat.add_comm 1]

theorem foundRaw (text : Text) : ∀ n start, foundSpots dialect n start (raw text) = [] := by
  induction text with
  | nil => exact fun n start => rfl
  | cons c text ih => exact fun n start => ih n (start + 1)

def Passes (dialect : SqlDialect) (t : Template Text) : Prop :=
  ∀ (n : Nat) (before rest : Text), (∀ c ∈ before.head?, SqlFragments.joint c = true) → SqlFragments.Loose rest →
    runAt (placeholderStep dialect) (fun _ _ => []) ⟨n, before, shown placeholderFor t ++ rest⟩ =
      foundSpots dialect n before.length t ++ runAt (placeholderStep dialect) (fun _ _ => [])
        ⟨n + (foundSpots dialect n before.length t).length, (shown placeholderFor t).reverse ++ before, rest⟩

def wordUnit (c : CodeUnit) : Bool := (65 ≤ c && c ≤ 90) || (SqlFragments.joint c && c != ':')

def word (w : Text) : Bool := w.all wordUnit && w.getLast?.any SqlFragments.joint

theorem wordOpens {rules : DialectRules} {before more : Text} {c : Nat} (spelled : wordUnit c = true)
    (even : SqlFragments.joint c = true ∨ nextIs apostrophe more = false) : openerAt rules before (c :: more) = none := by
  simp only [wordUnit, Bool.or_eq_true, Bool.and_eq_true, decide_eq_true_eq] at spelled
  rcases even with joined | even
  · exact SqlFragments.jointOpens joined _ _
  · rcases spelled with letter | joined
    · have apart (d : Nat) (other : d < 65 ∨ 90 < d) : (c == d) = false := by
        rw [beq_eq_false_iff_ne]
        rintro rfl
        have range : 65 ≤ c ∧ c ≤ 90 := letter
        omega
      simp only [openerAt, even, apart ('-' : CodeUnit) (by decide), apart ('#' : CodeUnit) (by decide),
        apart ('/' : CodeUnit) (by decide), apart apostrophe (by decide), apart doubleQuote (by decide),
        apart backtick (by decide), apart ('[' : CodeUnit) (by decide), apart ('$' : CodeUnit) (by decide), Bool.and_false,
        Bool.false_and, Bool.false_eq_true, if_false]
    · exact SqlFragments.jointOpens joined.1 _ _

theorem wordStep {n : Nat} {before more : Text} {c : Nat} (spelled : wordUnit c = true)
    (even : SqlFragments.joint c = true ∨ nextIs apostrophe more = false) :
    placeholderStep dialect n before ([c] ++ more) = ⟨n, [c].length, []⟩ := by
  have plain : openerAt (rulesOf dialect) before (c :: more) = none := wordOpens spelled even
  have jumps := placeholderJumps (n := n) plain
  change placeholderStep dialect n before (c :: more) = _
  generalize placeholderStep dialect n before (c :: more) = turn at jumps ⊢
  cases jumps with
  | unit => rfl
  | name => cases spelled
  | pair => cases spelled
  | number => cases spelled
  | operator => cases spelled
  | mark => cases spelled
  | colon => cases spelled

theorem wordRun {w : Text} (spelled : word w = true) : ∀ (n : Nat) (before rest : Text),
    runAt (placeholderStep dialect) (fun _ _ => []) ⟨n, before, w ++ rest⟩ =
      runAt (placeholderStep dialect) (fun _ _ => []) ⟨n, w.reverse ++ before, rest⟩ := by
  induction w with
  | nil => exact fun n before rest => rfl
  | cons c w ih =>
    intro n before rest
    simp only [word, List.all_cons, Bool.and_eq_true] at spelled
    obtain ⟨⟨here, all⟩, last⟩ := spelled
    have even : SqlFragments.joint c = true ∨ nextIs apostrophe (w ++ rest) = false := by
      cases w with
      | nil => exact .inl (by simpa using last)
      | cons d w =>
        refine .inr ?_
        simp only [List.all_cons, Bool.and_eq_true] at all
        rw [List.cons_append, nextIsCons, beq_eq_false_iff_ne]
        rintro rfl
        cases all.1
    have step : placeholderStep dialect n before ([c] ++ (w ++ rest)) = ⟨n, [c].length, []⟩ := wordStep here even
    have turn := runWritten (by simp) step
    rw [← List.singleton_append, List.append_assoc, turn]
    cases w with
    | nil => rfl
    | cons d w =>
      rw [List.nil_append, ih (by simpa [word, all] using last)]
      simp

theorem passesIdent (fits : dialectForEngine engine = .ok dialect) {name text : Text}
    (ok : quoteIdent name engine = .ok text) : Passes dialect (raw text) := by
  obtain ⟨style, styled, rfl⟩ := SqlFragments.identShape ok
  intro n before rest _ loose
  rw [shownRaw, foundRaw, List.nil_append, List.length_nil, Nat.add_zero]
  generalize body : encode style.mark false name ++ [style.mark] = text
  have found : openerAt (rulesOf dialect) before (style.mark :: text ++ rest) = some (styleOpener style) := by
    rw [List.cons_append]
    cases engine <;> cases fits <;> cases styled <;> rfl
  have whole : (styleOpener style).scan (rulesOf dialect) (style.mark :: text ++ rest) = (style.mark :: text).length := by
    rw [List.cons_append, (styleOpens fits styled (text ++ rest)).2, ← List.cons_append, ← body]
    refine quotedScan style.mark (by cases style <;> decide) false name (fun c head => ?_) (by cases style <;> rfl)
    exact (SqlFragments.jointUnits (loose c head)).2.2.1
  have step : placeholderStep dialect n before (style.mark :: text ++ rest) = ⟨n, (style.mark :: text).length, []⟩ := by
    rw [placeholderForm found, whole]
  exact runWritten (by simp) step

theorem safeParts {column : Text} (safe : safePlaceholder column = true) :
    (∃ c tail, column = c :: tail ∧ isIdentStart c = true ∧ c ≠ 58 ∧ c ≠ 61) ∧ ∀ c ∈ column, isIdentPart c = true := by
  simp only [safePlaceholder, Bool.and_eq_true, List.all_eq_true] at safe
  obtain ⟨first, all⟩ := safe
  constructor
  · cases column with
    | nil => cases first
    | cons c tail =>
      have start : (65 ≤ c ∧ c ≤ 90 ∨ 97 ≤ c ∧ c ≤ 122) ∨ c = 95 := by simpa [safeStart] using first
      refine ⟨c, tail, rfl, ?_, ?_, ?_⟩
      · simp only [isIdentStart, Bool.or_eq_true, Bool.and_eq_true, decide_eq_true_eq, beq_iff_eq]
        exact .inl start
      · rintro rfl
        revert start
        decide
      · rintro rfl
        revert start
        decide
  · intro c member
    have part : ((65 ≤ c ∧ c ≤ 90 ∨ 97 ≤ c ∧ c ≤ 122) ∨ c = 95) ∨ 48 ≤ c ∧ c ≤ 57 := by
      simpa [safeStart, isDigit] using all c member
    simp only [isIdentPart, isIdentStart, Bool.or_eq_true, Bool.and_eq_true, decide_eq_true_eq, beq_iff_eq]
    rcases part with start | digit
    · exact .inl (.inl (.inl start))
    · exact .inl (.inr digit)

theorem slotNamed {n : Nat} {before rest column : Text} (safe : safePlaceholder column = true)
    (opened : ∀ c ∈ before.head?, SqlFragments.joint c = true) (loose : SqlFragments.Loose rest) :
    placeholderStep dialect n before (named column ++ rest) = ⟨n + 1, (named column).length,
      [⟨some column, some (n + 1), before.length, before.length + (named column).length, .named⟩]⟩ := by
  obtain ⟨⟨c, tail, rfl, start, colon, equals⟩, parts⟩ := safeParts safe
  have free : before.head?.any isIdentPart = false := by
    cases head : before.head? with
    | none => rfl
    | some d => exact (SqlFragments.jointUnits (opened d head)).1
  have plain : openerAt (rulesOf dialect) before (58 :: (c :: tail ++ rest)) = none := SqlFragments.jointOpens rfl _ _
  have jumps := placeholderJumps (n := n) plain
  have taken : (c :: tail ++ rest).takeWhile isIdentPart = c :: tail :=
    takeWhileStops parts fun d head => (SqlFragments.jointUnits (loose d head)).1
  rw [named, List.cons_append]
  generalize placeholderStep dialect n before (58 :: (c :: tail ++ rest)) = turn at jumps ⊢
  cases jumps with
  | name begins =>
    rw [taken]
    simp [Nat.add_comm]
  | pair d other split mark =>
    obtain rfl : c = d := by simpa using congrArg List.head? split
    rcases mark with rfl | rfl
    · exact absurd rfl colon
    · exact absurd rfl equals
  | colon _ _ none => simp [beginsName, free, start] at none
  | unit _ other => exact absurd rfl other

theorem slotPlain {n : Nat} {before rest : Text} (loose : SqlFragments.Loose rest) :
    placeholderStep .postgres n before (units "?" ++ rest) = ⟨n, (units "?").length, []⟩ := by
  have plain : openerAt (rulesOf .postgres) before (63 :: rest) = none := questionPlain
  have jumps := placeholderJumps (n := n) plain
  change placeholderStep .postgres n before (63 :: rest) = _
  generalize placeholderStep .postgres n before (63 :: rest) = turn at jumps ⊢
  cases jumps with
  | unit => rfl
  | mark binds => exact absurd rfl binds
  | operator d tail split mark =>
    subst split
    have joined := loose d rfl
    rcases mark with rfl | rfl <;> cases joined

theorem foundSlot {column : Text} (binds : safePlaceholder column = true ∨ dialect ≠ .postgres) (n start : Nat) :
    foundSpots dialect n start (hole column) =
      [slotSpot (n + 1) column start (start + (placeholderFor column).length)] := by
  simp only [hole, foundSpots]
  rw [if_pos binds]

theorem passesSlot (column : Text) : Passes dialect (hole column) := by
  intro n before rest opened loose
  rw [shownHole]
  cases safe : safePlaceholder column with
  | true =>
    have text : placeholderFor column = named column := by
      rw [placeholderFor, safe]
      rfl
    rw [foundSlot (.inl safe), slotSpot, safe, if_pos rfl, text, runWritten (by simp [named]) (slotNamed safe opened loose)]
    rfl
  | false =>
    have text : placeholderFor column = units "?" := by
      rw [placeholderFor, safe]
      rfl
    by_cases postgres : dialect = .postgres
    · subst postgres
      have none : foundSpots .postgres n before.length (hole column) = [] := by simp [hole, foundSpots, safe]
      rw [none, text, runWritten (by decide) (slotPlain loose)]
      rfl
    · have bar : nextIs '|' rest = false := SqlFragments.looseNext loose rfl
      have amp : nextIs '&' rest = false := SqlFragments.looseNext loose rfl
      rw [foundSlot (.inr postgres), slotSpot, safe, text, runWritten (by decide) (qmarkStep postgres n before bar amp)]
      rfl

theorem looseWord {w rest : Text} (head : w.head?.any SqlFragments.joint = true) : SqlFragments.Loose (w ++ rest) := by
  cases w with
  | nil => cases head
  | cons c w => simpa [SqlFragments.Loose] using head

theorem behindWord {w before : Text} (spelled : word w = true) :
    ∀ c ∈ (w.reverse ++ before).head?, SqlFragments.joint c = true := by
  intro c head
  simp only [word, Bool.and_eq_true] at spelled
  cases last : w.getLast? with
  | none =>
    rw [last] at spelled
    cases spelled.2
  | some d =>
    rw [last] at spelled
    rw [List.head?_append, List.head?_reverse, last] at head
    obtain rfl : d = c := Option.some.inj head
    exact spelled.2

theorem passesAfter {w : Text} {t : Template Text} (spelled : word w = true) (last : Passes dialect t) :
    Passes dialect (raw w ++ t) := by
  intro n before rest _ loose
  rw [shownAppend, shownRaw, List.append_assoc, wordRun spelled, last n _ rest (behindWord spelled) loose, foundAppend, foundRaw]
  simp [Nat.add_comm]

theorem passesBefore {w : Text} {t : Template Text} (spelled : (word w && w.head?.any SqlFragments.joint) = true)
    (first : Passes dialect t) : Passes dialect (t ++ raw w) := by
  intro n before rest opened loose
  simp only [Bool.and_eq_true] at spelled
  rw [shownAppend, shownRaw, List.append_assoc, first n before _ opened (looseWord spelled.2), wordRun spelled.1, foundAppend,
    foundRaw]
  simp

theorem passesPaste {w : Text} {s t : Template Text} (spelled : (word w && w.head?.any SqlFragments.joint) = true)
    (first : Passes dialect s) (last : Passes dialect t) : Passes dialect (s ++ (raw w ++ t)) := by
  intro n before rest opened loose
  simp only [Bool.and_eq_true] at spelled
  rw [shownAppend, shownAppend, shownRaw, List.append_assoc, List.append_assoc, first n before _ opened (looseWord spelled.2),
    wordRun spelled.1, last _ _ rest (behindWord spelled.1) loose, foundAppend, foundAppend, foundRaw]
  simp [Nat.add_assoc, Nat.add_comm]

theorem passesJoined {sep : Text} (spelled : (word sep && sep.head?.any SqlFragments.joint) = true) :
    ∀ parts : List (Template Text), parts ≠ [] → (∀ part ∈ parts, Passes dialect part) → Passes dialect (joined sep parts)
  | [], full, _ => absurd rfl full
  | [part], _, each => by
    rw [joined, List.intercalate_singleton]
    exact each part (by simp)
  | part :: next :: parts, _, each => by
    rw [joinedCons]
    exact passesPaste spelled (each part (by simp)) (passesJoined spelled (next :: parts) (by simp)
      fun other member => each other (List.mem_cons_of_mem _ member))

theorem joinPasses (fits : dialectForEngine engine = .ok dialect) {sep : String}
    (spelled : (word (units sep) && (units sep).head?.any SqlFragments.joint) = true) {texts : List Text} (full : texts ≠ [])
    (each : ∀ text ∈ texts, ∃ name, quoteIdent name engine = .ok text) : Passes dialect (raw (join sep texts)) := by
  rw [join, rawJoined]
  refine passesJoined spelled _ (by simpa using full) fun part member => ?_
  obtain ⟨text, listed, rfl⟩ := List.mem_map.mp member
  obtain ⟨name, quoted⟩ := each text listed
  exact passesIdent fits quoted

theorem quotingOk {quoted : Except String Text} {text : Text} (ok : quoting quoted = .ok text) : quoted = .ok text := by
  cases quoted with
  | error message => cases ok
  | ok read => exact congrArg _ (Except.ok.inj ok)

theorem fullMapM {ε β γ : Type} {f : β → Except ε γ} {xs : List β} {ys : List γ} (full : xs ≠ []) (ok : xs.mapM f = .ok ys) :
    ys ≠ [] := by
  rintro rfl
  exact full (List.length_eq_zero_iff.mp (mapMLength ok).symm)

theorem qualifyPasses (fits : dialectForEngine engine = .ok dialect) {t : TableModel} {table : Text}
    (ok : qualifyTable t engine = .ok table) : Passes dialect (raw table) := by
  have quoted := quotingOk ok
  simp only [quoteQualified] at quoted
  split at quoted
  · cases quoted
  · rename_i full
    obtain ⟨idents, read, quoted⟩ := bindOk quoted
    cases quoted
    exact joinPasses fits (by decide) (fullMapM full read) fun text member =>
      (mapMMember read text member).imp fun name named => named.2

theorem assignmentsPass (fits : dialectForEngine engine = .ok dialect) {columns : List Text} {parts : List (Template Text)}
    (ok : columns.mapM (assignmentSlot engine) = .ok parts) :
    (∀ part ∈ parts, Passes dialect part) ∧ parts.flatMap Templates.values = columns := by
  induction mapMForall₂.mp ok with
  | nil => simp
  | @cons column first columns rest made more ih =>
    obtain ⟨ident, quoted, made⟩ := bindOk made
    cases made
    obtain ⟨each, columns⟩ := ih (mapMForall₂.mpr more)
    refine ⟨?_, by simp [columns]⟩
    rintro part (member | member)
    · rw [rawAppend, List.append_assoc]
      exact passesPaste (by decide) (passesIdent fits (quotingOk quoted)) (passesSlot column)
    · exact each part (by assumption)

theorem slotsPass (fits : dialectForEngine engine = .ok dialect) {kind : TemplateKind} {t : TableModel}
    {template : Template Text} (ok : kind.slots t engine = .ok template) :
    Passes dialect template ∧ Templates.values template = kind.columns t := by
  cases kind with
  | insert =>
    simp only [TemplateKind.slots, insertSlots] at ok
    split at ok
    · cases ok
    · rename_i full
      obtain ⟨names, quoted, ok⟩ := bindOk ok
      obtain ⟨table, qualified, ok⟩ := bindOk ok
      cases ok
      have named : Passes dialect (raw (join ", " names)) := joinPasses fits (by decide) (fullMapM full quoted)
        fun text member => (mapMMember quoted text member).imp fun name ok => quotingOk ok.2
      have slots : Passes dialect (joined (units ", ") ((insertableColumns t).map hole)) := by
        refine passesJoined (by decide) _ (by simpa using full) fun part member => ?_
        obtain ⟨column, -, rfl⟩ := List.mem_map.mp member
        exact passesSlot column
      have body := passesPaste (w := units " (") (by decide) (qualifyPasses fits qualified)
        (passesPaste (w := units ")\nVALUES (") (by decide) named slots)
      have whole := passesAfter (w := units "INSERT INTO ") (by decide) (passesBefore (w := units ");") (by decide) body)
      refine ⟨by simpa [rawAppend] using whole, ?_⟩
      simp [valuesJoined, List.flatMap_map, TemplateKind.columns]
  | update =>
    obtain ⟨key, keyed, ok⟩ := bindOk ok
    obtain ⟨sets, made, ok⟩ := bindOk ok
    simp only [requirePrimaryKey] at keyed
    split at keyed
    · cases keyed
    · rename_i full
      cases keyed
      dsimp only at ok
      split at ok
      · cases ok
      · rename_i some
        obtain ⟨wanted, asked, ok⟩ := bindOk ok
        obtain ⟨table, qualified, ok⟩ := bindOk ok
        cases ok
        obtain ⟨eachSet, setColumns⟩ := assignmentsPass fits made
        obtain ⟨eachKey, keyColumns⟩ := assignmentsPass fits asked
        have assigned : Passes dialect (joined (units ",\n    ") sets) := passesJoined (by decide) sets some eachSet
        have matched : Passes dialect (joined (units " AND ") wanted) :=
          passesJoined (by decide) wanted (fullMapM full asked) eachKey
        have body := passesPaste (w := units "\nSET ") (by decide) (qualifyPasses fits qualified)
          (passesPaste (w := units "\nWHERE ") (by decide) assigned matched)
        have whole := passesAfter (w := units "UPDATE ") (by decide) (passesBefore (w := units ";") (by decide) body)
        refine ⟨by simpa [rawAppend] using whole, ?_⟩
        simp [valuesJoined, setColumns, keyColumns, TemplateKind.columns]
  | delete =>
    obtain ⟨key, keyed, ok⟩ := bindOk ok
    simp only [requirePrimaryKey] at keyed
    split at keyed
    · cases keyed
    · rename_i full
      cases keyed
      obtain ⟨wanted, asked, ok⟩ := bindOk ok
      obtain ⟨table, qualified, ok⟩ := bindOk ok
      cases ok
      obtain ⟨eachKey, keyColumns⟩ := assignmentsPass fits asked
      have matched : Passes dialect (joined (units " AND ") wanted) :=
        passesJoined (by decide) wanted (fullMapM full asked) eachKey
      have body := passesPaste (w := units "\nWHERE ") (by decide) (qualifyPasses fits qualified) matched
      have whole := passesAfter (w := units "DELETE FROM ") (by decide) (passesBefore (w := units ";") (by decide) body)
      refine ⟨by simpa [rawAppend] using whole, ?_⟩
      simp [valuesJoined, keyColumns, TemplateKind.columns]

end Scan

section Binding
variable {dialect : SqlDialect} {engine : EngineKind}

def styleOf (column : Text) : PlaceholderStyle := if safePlaceholder column then .named else .qmark

theorem foundStyles (t : Template Text) : ∀ n start, (foundSpots dialect n start t).map SqlPlaceholder.style =
    ((Templates.values t).filter fun c => safePlaceholder c ∨ dialect ≠ .postgres).map styleOf := by
  induction t with
  | nil => exact fun n start => rfl
  | cons piece t ih =>
    intro n start
    cases piece with
    | unit c => exact ih n (start + 1)
    | hole column =>
      simp only [foundSpots, Templates.values, List.filterMap_cons] at ih ⊢
      rw [List.filter_cons]
      split
      · rename_i binds
        rw [if_pos (by simpa using binds), List.map_cons, List.map_cons, ih]
        congr 1
        simp only [slotSpot, styleOf]
        split <;> rfl
      · rename_i none
        rw [if_neg (by simpa using none), ih]

theorem foundStyle {t : Template Text} {n start : Nat} {p : SqlPlaceholder} (member : p ∈ foundSpots dialect n start t) :
    ∃ c ∈ Templates.values t, p.style = styleOf c := by
  have listed := List.mem_map_of_mem (f := SqlPlaceholder.style) member
  rw [foundStyles] at listed
  obtain ⟨c, inside, same⟩ := List.mem_map.mp listed
  exact ⟨c, List.mem_of_mem_filter inside, same.symm⟩

theorem foundOrdinals (t : Template Text) : ∀ n start, (foundSpots dialect n start t).map SqlPlaceholder.ordinal =
    (List.range' (n + 1) (foundSpots dialect n start t).length).map some := by
  induction t with
  | nil => exact fun n start => rfl
  | cons piece t ih =>
    intro n start
    cases piece with
    | unit c => exact ih n (start + 1)
    | hole column =>
      simp only [foundSpots]
      split
      · rw [List.map_cons, ih, List.length_cons, List.range'_succ, List.map_cons]
        congr 1
        simp only [slotSpot]
        split <;> rfl
      · exact ih n _

theorem foundAll (t : Template Text) (binds : ∀ c ∈ Templates.values t, safePlaceholder c = true ∨ dialect ≠ .postgres) :
    ∀ n start, foundSpots dialect n start t = spots placeholderFor slotSpot n start t := by
  induction t with
  | nil => exact fun n start => rfl
  | cons piece t ih =>
    intro n start
    cases piece with
    | unit c => exact ih binds n (start + 1)
    | hole column =>
      have here : safePlaceholder column = true ∨ dialect ≠ .postgres := binds column List.mem_cons_self
      simp only [foundSpots, spots, if_pos here]
      rw [ih fun c member => binds c (List.mem_cons_of_mem _ member)]

theorem spotsLength (write : Text → Text) (make : Nat → Text → Nat → Nat → SqlPlaceholder) (t : Template Text) :
    ∀ n start, (spots write make n start t).length = (Templates.values t).length := by
  induction t with
  | nil => exact fun n start => rfl
  | cons piece t ih =>
    intro n start
    cases piece with
    | unit c => exact ih n (start + 1)
    | hole column => exact congrArg (· + 1) (ih _ _)

theorem columnsSome {kind : TemplateKind} {t : TableModel} {template : Template Text} (ok : kind.slots t engine = .ok template) :
    kind.columns t ≠ [] := by
  cases kind with
  | insert =>
    simp only [TemplateKind.slots, insertSlots] at ok
    split at ok
    · cases ok
    · assumption
  | update =>
    obtain ⟨key, keyed, -⟩ := bindOk ok
    simp only [requirePrimaryKey] at keyed
    split at keyed
    · cases keyed
    · simp [TemplateKind.columns, *]
  | delete =>
    obtain ⟨key, keyed, -⟩ := bindOk ok
    simp only [requirePrimaryKey] at keyed
    split at keyed
    · cases keyed
    · assumption

def byName {α : Type} (columns : List Text) (cell : Text → α) (name : Text) : Option α :=
  if name ∈ columns ∧ safePlaceholder name = true then some (cell name) else none

def byPlace {α : Type} (columns : List Text) (cell : Text → α) : List α :=
  (columns.filter fun c => !safePlaceholder c).map cell

def TakesValues (kind : TemplateKind) (t : TableModel) (engine : EngineKind) (dialect : SqlDialect) (text : Text) : Prop :=
  let columns := kind.columns t
  let style := paramStyleFor engine
  ∃ template, kind.slots t engine = .ok template ∧ Templates.values template = columns ∧
    shown placeholderFor template = text ∧ findPlaceholders text dialect = spots placeholderFor slotSpot 0 0 template ∧
    ∀ (α : Type) (cell : Text → α), ∃ bound,
      bindStatement text dialect engine (byName columns cell) (byPlace columns cell) = .ok bound ∧
      bound.sql = shown (mark style columns) template ∧ bound.params = (boundNames style columns).map cell

theorem shownAs {write write' : Text → Text} (t : Template Text) (same : ∀ c ∈ Templates.values t, write c = write' c) :
    shown write t = shown write' t := by
  induction t with
  | nil => rfl
  | cons piece t ih =>
    cases piece with
    | unit c => exact congrArg (c :: ·) (ih same)
    | hole column =>
      have here := same column List.mem_cons_self
      have rest := ih fun c member => same c (List.mem_cons_of_mem _ member)
      simp only [shown, List.flatMap_cons] at rest ⊢
      rw [here, rest]

theorem templateFound (fits : dialectForEngine engine = .ok dialect) {kind : TemplateKind} {t : TableModel}
    {template : Template Text} (ok : kind.slots t engine = .ok template) :
    findPlaceholders (shown placeholderFor template) dialect = foundSpots dialect 0 0 template := by
  have passed := (slotsPass fits ok).1 0 [] [] nofun nofun
  rw [List.append_nil] at passed
  rw [findPlaceholders, passed, runAtEnd, List.append_nil]
  rfl

theorem distinctFrom (names : List Text) : ∀ name ∈ distinct names, name ∈ names := by
  induction names using List.reverseRecOn with
  | nil => nofun
  | append_singleton names last ih =>
    intro name member
    rw [distinctAppend] at member
    split at member
    · exact List.mem_append_left _ (ih name member)
    · rcases List.mem_append.mp member with before | here
      · exact List.mem_append_left _ (ih name before)
      · exact List.mem_append_right _ here

theorem boundFrom (style : ParamStyle) (names : List Text) : ∀ name ∈ boundNames style names, name ∈ names := by
  cases style with
  | dollar => exact distinctFrom names
  | qmark => exact fun name member => member

theorem safeNamed {column : Text} (safe : safePlaceholder column = true) : placeholderFor column = named column := by
  rw [placeholderFor, if_pos safe]
  rfl

theorem safeSpots (t : Template Text) (safe : ∀ c ∈ Templates.values t, safePlaceholder c = true) :
    ∀ n start, spots placeholderFor slotSpot n start t = spots named namedSpot n start t := by
  induction t with
  | nil => exact fun n start => rfl
  | cons piece t ih =>
    intro n start
    cases piece with
    | unit c => exact ih safe n (start + 1)
    | hole column =>
      have here : safePlaceholder column = true := safe column List.mem_cons_self
      simp only [spots, safeNamed here, slotSpot, here, if_true, namedSpot]
      rw [ih fun c member => safe c (List.mem_cons_of_mem _ member)]

theorem namedBinds {columns : List Text} {template : Template Text} {text : Text} (values : Templates.values template = columns)
    (safe : ∀ c ∈ columns, safePlaceholder c = true) (written : shown placeholderFor template = text)
    (found : findPlaceholders text dialect = spots placeholderFor slotSpot 0 0 template) {α : Type} (cell : Text → α) :
    ∃ bound, bindStatement text dialect engine (byName columns cell) (byPlace columns cell) = .ok bound ∧
      bound.sql = shown (mark (paramStyleFor engine) columns) template ∧
      bound.params = (boundNames (paramStyleFor engine) columns).map cell := by
  subst values
  have text' : shown named template = text := by
    rw [← written]
    exact (shownAs template fun c member => safeNamed (safe c member)).symm
  have found' : findPlaceholders text dialect = spots named namedSpot 0 0 template := by
    rw [found]
    exact safeSpots template safe 0 0
  have only : ∀ p ∈ findPlaceholders text dialect, p.style = .named := by
    intro p member
    rw [found'] at member
    obtain ⟨n, name, start, stop, rfl⟩ := spotsMade _ _ _ _ _ p member
    rfl
  have given : ∀ c ∈ Templates.values template, byName (Templates.values template) cell c = some (cell c) :=
    fun c member => if_pos ⟨member, safe c member⟩
  obtain ⟨s, ran, bound, out⟩ := @bindRun α (paramStyleFor engine) text (byName (Templates.values template) cell) template [] 0 [] ⟨[], [], [], 0⟩
    ⟨by cases paramStyleFor engine <;> rfl, fun _ => rfl⟩ (Nat.le_refl 0) text'.symm fun c member => by rw [given c member]; rfl
  have out' : s.out ++ text.drop s.cursor = shown (mark (paramStyleFor engine) (Templates.values template)) template := out
  refine ⟨⟨shown (mark (paramStyleFor engine) (Templates.values template)) template, s.params⟩, ?_, rfl, ?_⟩
  · rw [bindNamed only, found']
    rw [List.length_nil] at ran
    rw [ran, ← out']
    rfl
  · have params := bound.params
    rw [List.nil_append] at params
    have same : s.params.map some = ((boundNames (paramStyleFor engine) (Templates.values template)).map cell).map some := by
      rw [params, List.map_map]
      exact List.map_congr_left fun c member => given c (boundFrom _ _ c member)
    exact List.map_injective_iff.mpr (Option.some_injective α) same

theorem placedBinds {columns : List Text} {template : Template Text} {text : Text} (values : Templates.values template = columns)
    (full' : columns ≠ []) (unsafe' : ∀ c ∈ columns, safePlaceholder c = false) (other : dialect ≠ .postgres)
    (fits : dialectForEngine engine = .ok dialect) (written : shown placeholderFor template = text)
    (found : findPlaceholders text dialect = foundSpots dialect 0 0 template) {α : Type} (cell : Text → α) :
    ∃ bound, bindStatement text dialect engine (byName columns cell) (byPlace columns cell) = .ok bound ∧
      bound.sql = shown (mark (paramStyleFor engine) columns) template ∧
      bound.params = (boundNames (paramStyleFor engine) columns).map cell := by
  subst values
  have question : paramStyleFor engine = .qmark := by
    cases style : paramStyleFor engine with
    | qmark => rfl
    | dollar => exact absurd ((engineStyle fits).mp style) other
  have marks : shown (mark .qmark (Templates.values template)) template = text := by
    rw [← written]
    refine shownAs template fun c member => ?_
    rw [placeholderFor, unsafe' c member]
    rfl
  have all : foundSpots dialect 0 0 template = spots placeholderFor slotSpot 0 0 template :=
    foundAll template (fun c _ => .inr other) 0 0
  have size : (findPlaceholders text dialect).length = (Templates.values template).length := by
    rw [found, all, spotsLength]
  have full : findPlaceholders text dialect ≠ [] := by
    intro none
    rw [none] at size
    exact full' (List.length_eq_zero_iff.mp size.symm)
  have styles : ∀ p ∈ findPlaceholders text dialect, p.style = .qmark := by
    intro p member
    rw [found] at member
    obtain ⟨c, listed, style⟩ := foundStyle member
    rw [style, styleOf, unsafe' c listed]
    rfl
  have named : (findPlaceholders text dialect).filter (fun p => p.style = .named) = [] :=
    List.filter_eq_nil_iff.mpr fun p member => by simp [styles p member]
  have rest : (findPlaceholders text dialect).filter (fun p => p.style ≠ .named) = findPlaceholders text dialect :=
    List.filter_eq_self.mpr fun p member => by simp [styles p member]
  have placed : byPlace (Templates.values template) cell = (Templates.values template).map cell := by
    rw [byPlace, List.filter_eq_self.mpr fun c member => by simp [unsafe' c member]]
  have wanted : ((findPlaceholders text dialect).map SqlPlaceholder.ordinal).dedup.length =
      ((Templates.values template).map cell).length := by
    have apart : ((List.range' (0 + 1) (foundSpots dialect 0 0 template).length).map some).Nodup :=
      (List.nodup_range' 1).map (Option.some_injective Nat)
    rw [found, foundOrdinals, List.dedup_eq_self.mpr apart, List.length_map, List.length_range', List.length_map, ← found, size]
  refine ⟨⟨text, (Templates.values template).map cell⟩, ?_, by rw [question, marks], by rw [question]; rfl⟩
  rw [bindStatement, if_neg full]
  simp only [named, rest, ne_eq, not_true_eq_false, false_and, if_false, if_true, placed, wanted]
  rw [if_neg (by simpa using full')]

theorem renderedSlots {kind : TemplateKind} {t : TableModel} {text : Text} (rendered : kind.render t engine = .ok text) :
    ∃ template, kind.slots t engine = .ok template ∧ shown placeholderFor template = text := by
  rw [slotsShown] at rendered
  cases slots : kind.slots t engine with
  | error message =>
    rw [slots] at rendered
    cases rendered
  | ok template =>
    rw [slots] at rendered
    exact ⟨template, rfl, Except.ok.inj rendered⟩

theorem styleFound {t : Template Text} {n start : Nat} {c : Text} (member : c ∈ Templates.values t)
    (binds : safePlaceholder c = true ∨ dialect ≠ .postgres) : ∃ p ∈ foundSpots dialect n start t, p.style = styleOf c := by
  have listed : styleOf c ∈ (foundSpots dialect n start t).map SqlPlaceholder.style := by
    rw [foundStyles]
    exact List.mem_map_of_mem (List.mem_filter.mpr ⟨member, by simpa using binds⟩)
  exact List.mem_map.mp listed

theorem postgresMisses {t : Template Text} {c : Text} (member : c ∈ Templates.values t) (unsafe' : safePlaceholder c = false)
    (n start : Nat) : (foundSpots .postgres n start t).length < (Templates.values t).length := by
  have size := congrArg List.length (@foundStyles .postgres t n start)
  rw [List.length_map, List.length_map] at size
  rw [size]
  exact List.length_filter_lt_length_iff_exists.mpr ⟨c, member, by simp [unsafe']⟩

theorem mixedRefused {sql : Text} {α : Type} {given : Text → Option α} {positional : List α} {p q : SqlPlaceholder}
    (byName : p ∈ findPlaceholders sql dialect) (first : p.style = .named) (byMark : q ∈ findPlaceholders sql dialect)
    (other : q.style ≠ .named) {bound : BoundStatement α} : bindStatement sql dialect engine given positional ≠ .ok bound := by
  have full : findPlaceholders sql dialect ≠ [] := List.ne_nil_of_mem byName
  have named : (findPlaceholders sql dialect).filter (fun p => p.style = .named) ≠ [] :=
    List.ne_nil_of_mem (List.mem_filter.mpr ⟨byName, by simpa using first⟩)
  have rest : (findPlaceholders sql dialect).filter (fun p => p.style ≠ .named) ≠ [] :=
    List.ne_nil_of_mem (List.mem_filter.mpr ⟨byMark, by simpa using other⟩)
  rw [bindStatement, if_neg full]
  dsimp only
  rw [if_pos ⟨named, rest⟩]
  rintro ⟨⟩

def orders (dated : String) : TableModel :=
  let type : TypeDescriptor := ⟨units "integer", .integer, none, none, none, false, false, []⟩
  let column (name : String) : ColumnModel := ⟨units name, 1, type, true, none, false, none, none, none, none, none⟩
  ⟨units "orders", none, .table, [column "id", column dated], [], [], [], [units "id"], none, none, none, none, none, none⟩

theorem mixedTemplate : ¬ ∀ (kind : TemplateKind) (t : TableModel) (engine : EngineKind) (dialect : SqlDialect) (text : Text),
    dialectForEngine engine = .ok dialect → kind.render t engine = .ok text → TakesValues kind t engine dialect text := by
  intro takes
  have rendered : TemplateKind.insert.render (orders "order date") .mysql =
      .ok (units "INSERT INTO `orders` (`id`, `order date`)\nVALUES (:id, ?);") := by decide +kernel
  obtain ⟨template, -, -, -, -, binds⟩ := takes _ _ .mysql .mysql _ rfl rendered
  obtain ⟨bound, ok, -⟩ := binds Unit fun _ => ()
  have refused : (bindStatement (units "INSERT INTO `orders` (`id`, `order date`)\nVALUES (:id, ?);") .mysql .mysql
      (byName [units "id", units "order date"] fun _ => ()) (byPlace [units "id", units "order date"] fun _ => ())).toOption =
        none := by decide +kernel
  have accepted := congrArg Except.toOption ok
  rw [show TemplateKind.insert.columns (orders "order date") = [units "id", units "order date"] from rfl, refused] at accepted
  cases accepted

theorem templateTakesWhen (fits : dialectForEngine engine = .ok dialect) {kind : TemplateKind} {t : TableModel} {text : Text}
    (rendered : kind.render t engine = .ok text) : TakesValues kind t engine dialect text ↔
      (∀ c ∈ kind.columns t, safePlaceholder c = true) ∨
        (dialect ≠ .postgres ∧ ∀ c ∈ kind.columns t, safePlaceholder c = false) := by
  obtain ⟨template, slots, written⟩ := renderedSlots rendered
  have columns := (slotsPass fits slots).2
  have found : findPlaceholders text dialect = foundSpots dialect 0 0 template := by
    rw [← written]
    exact templateFound fits slots
  constructor
  · rintro ⟨again, slots', -, -, spotted, binds⟩
    obtain rfl : template = again := Except.ok.inj (slots.symm.trans slots')
    by_contra neither
    rw [not_or] at neither
    obtain ⟨unsafe', mixed⟩ := neither
    obtain ⟨u, member, bad⟩ : ∃ u ∈ kind.columns t, safePlaceholder u = false := by
      by_contra none
      exact unsafe' fun c inside => by_contra fun bad => none ⟨c, inside, by simpa using bad⟩
    rw [← columns] at member
    by_cases postgres : dialect = .postgres
    · subst postgres
      have short := postgresMisses member bad 0 0
      rw [← found, spotted, spotsLength] at short
      exact Nat.lt_irrefl _ short
    · obtain ⟨s, named, safe⟩ : ∃ s ∈ kind.columns t, safePlaceholder s = true := by
        by_contra none
        exact mixed ⟨postgres, fun c inside => by_contra fun safe => none ⟨c, inside, by simpa using safe⟩⟩
      rw [← columns] at named
      obtain ⟨p, byName, first⟩ := @styleFound dialect _ 0 0 _ named (.inr postgres)
      obtain ⟨q, byMark, other⟩ := @styleFound dialect _ 0 0 _ member (.inr postgres)
      rw [← found] at byName byMark
      rw [styleOf, safe] at first
      rw [styleOf, bad] at other
      obtain ⟨bound, ok, -⟩ := binds Unit fun _ => ()
      exact mixedRefused byName first byMark (by rw [other]; nofun) ok
  · rintro (safe | ⟨other, bad⟩)
    · have spotted : findPlaceholders text dialect = spots placeholderFor slotSpot 0 0 template := by
        rw [found]
        exact foundAll template (fun c member => .inl (safe c (columns ▸ member))) 0 0
      exact ⟨template, slots, columns, written, spotted, fun α cell => namedBinds columns safe written spotted cell⟩
    · have spotted : findPlaceholders text dialect = spots placeholderFor slotSpot 0 0 template := by
        rw [found]
        exact foundAll template (fun _ _ => .inr other) 0 0
      exact ⟨template, slots, columns, written, spotted,
        fun α cell => placedBinds columns (columnsSome slots) bad other fits written found cell⟩

theorem datedTakes : TakesValues .update (orders "ordered_at") .postgres .postgres
    (units "UPDATE \"orders\"\nSET \"ordered_at\" = :ordered_at\nWHERE \"id\" = :id;") :=
  (templateTakesWhen rfl (by decide +kernel)).mpr (.inl (by decide +kernel))

end Binding

end DatabaseAdmin.StatementTemplates