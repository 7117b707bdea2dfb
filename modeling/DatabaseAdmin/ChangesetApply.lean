import DatabaseAdmin.PreviewRendering
import DatabaseAdmin.Batches

/-! `applyChangeset` in PostgreSQL and MySQL against the preview of the same changeset: all of the
statements shown, or nothing, whatever the server answers. -/
namespace DatabaseAdmin.ChangesetApply
open CodeUnits Templates ChangeStatements Transactions Connection Batches

abbrev Table := List (List Cell)
abbrev Session := Connection Table Text

inductive Failure where
  | dbError (message : Text) (code : Option String)
  | driver
  | thrown (message : String)

structure ApplyResult where
  applied : Nat
  statements : Nat

def stay {σ : Type} (c : Session) (result : Except Failure ApplyResult) : Progress σ Table Text Failure ApplyResult :=
  ⟨c, [], result⟩

def finish {σ : Type} (statements : List σ) (p : Progress σ Table Text Failure Nat) :
    Progress σ Table Text Failure ApplyResult :=
  ⟨p.connection, p.executed, p.result.map fun applied => ⟨applied, statements.length⟩⟩

section Postgres
variable {π : Type}

def pgCheck : Check (PgChangeStatement π) Failure where
  expected := PgChangeStatement.expected
  failure := .driver
  mismatch s affected := .dbError (units "Expected " ++ units (toString s.expected) ++ units " row(s) but " ++
    units (toString affected) ++ units " matched — rolled back.\n" ++ s.display) none

-- BEGIN inside an open transaction is only a warning; an aborted one refuses it.
def pgBegin (begins : Bool) (c : Session) : Option Session :=
  if begins && !c.isAborted then some (if c.transaction.isSome then c else c.start) else none

def pgApply (bound : Cell → Except String (PgBound π)) (readOnly : Bool) (backend : Backend (PgChangeStatement π) Table)
    (c : Session) (cs : Changeset) : Progress (PgChangeStatement π) Table Text Failure ApplyResult :=
  if readOnly then
    stay c (.error (.dbError (units "This connection is read-only (§8.5): edits are not allowed.") none))
  else match buildPgChangeStatements bound cs with
    | .error message => stay c (.error (.thrown message))
    | .ok (statements, _) =>
        if statements.isEmpty then stay c (.ok ⟨0, 0⟩)
        else finish statements (runBatch (pgBegin backend.begins c) c backend pgCheck statements)

end Postgres

section Mysql

def mysqlCheck : Check PreparedStatement Failure where
  expected := PreparedStatement.expected
  failure := .driver
  mismatch s affected := .dbError (units "Expected " ++ units (toString s.expected) ++ units " row(s) to change but " ++
    units (toString affected) ++ units " did — rolled back. Statement: " ++ s.sql) (some "DBADMIN_AFFECTED_MISMATCH")

-- START TRANSACTION commits what was open. No transaction holds a table of an engine without them.
def mysqlBegin (transactional begins : Bool) (c : Session) : Option Session :=
  if begins then some (if transactional then c.keep.start else c.keep) else none

def mysqlApply (engine : EngineKind) (base64 : Text → List Nat) (transactional readOnly ready : Bool)
    (backend : Backend PreparedStatement Table) (c : Session) (cs : Changeset) :
    Progress PreparedStatement Table Text Failure ApplyResult :=
  if readOnly then stay c (.error (.dbError (units "This connection is read-only") (some "DBADMIN_READ_ONLY")))
  else
    let (changeset, warnings) := selectApplicableChanges cs
    match buildChangesetStatements engine base64 changeset with
    | .error message => stay c (.error (.thrown message))
    | .ok statements =>
        if statements.isEmpty then
          if warnings.isEmpty then stay c (.ok ⟨0, 0⟩)
          else stay c (.error (.dbError (join " " warnings) (some "DBADMIN_NO_KEY")))
        else finish statements
          (runBatch (if ready then mysqlBegin transactional backend.begins c else none) c backend mysqlCheck statements)

end Mysql

structure Listing (α σ : Type) where
  templates : Except String (List (Template α))
  form : Template α → σ
  display : Template α → Except String Text
  expected : σ → Nat
  preview : Except String ChangePreview

def pgListing {π : Type} (bound : Cell → Except String (PgBound π)) (readOnly : Bool) (cs : Changeset) :
    Listing (PgBound π) (PgChangeStatement π) where
  templates := pgTemplates bound cs
  form := pgBoundForm
  display t := .ok (pgShown t)
  expected := PgChangeStatement.expected
  preview := pgPreview bound readOnly cs

def mysqlListing (engine : EngineKind) (base64 : Text → List Nat) (cs : Changeset) :
    Listing Param PreparedStatement where
  templates := mysqlTemplates engine base64 (selectApplicableChanges cs).1
  form := prepared
  display := written (writtenLiteral engine)
  expected := PreparedStatement.expected
  preview := previewChangesetSql engine base64 cs

variable {α σ : Type}

def Whole (l : Listing α σ) (exec : Nat → σ → Table → Reply Table) (c : Session)
    (a : Progress σ Table Text Failure ApplyResult) : Prop :=
  ∃ ts p, l.templates = .ok ts ∧ l.preview = .ok p ∧ ts.mapM l.display = .ok p.statements ∧
    p.expectedAffected = ts.map (fun t => l.expected (l.form t)) ∧
    a.executed = ts.map (fun t => (l.form t, l.expected (l.form t))) ∧
    (ts ≠ [] → Executes exec l.expected 0 (ts.map l.form) c.seen a.connection.committed)

def AllOrNothing (l : Listing α σ) (exec : Nat → σ → Table → Reply Table) (c : Session)
    (a : Progress σ Table Text Failure ApplyResult) : Prop :=
  (Whole l exec c a ∨ a.connection.committed = c.committed) ∧ ((∃ r, a.result = .ok r) → Whole l exec c a)

def Lists (l : Listing α σ) (ts : List (Template α)) : Prop :=
  l.templates = .ok ts ∧ ∃ p, l.preview = .ok p ∧ ts.mapM l.display = .ok p.statements ∧
    p.expectedAffected = ts.map (fun t => l.expected (l.form t))

theorem stayKeeps (l : Listing α σ) (exec : Nat → σ → Table → Reply Table) (c : Session) (failure : Failure) :
    AllOrNothing l exec c (stay c (.error failure)) := ⟨Or.inr rfl, nofun⟩

theorem nothingListed {l : Listing α σ} (lists : Lists l []) (exec : Nat → σ → Table → Reply Table) (c : Session)
    (result : Except Failure ApplyResult) : AllOrNothing l exec c (stay c result) := by
  obtain ⟨listed, p, previewed, shown, counted⟩ := lists
  have whole : Whole l exec c (stay c result) := ⟨[], p, listed, previewed, shown, counted, rfl, fun some => absurd rfl some⟩
  exact ⟨Or.inl whole, fun _ => whole⟩

theorem mapOk {ε β γ : Type} {f : β → γ} {x : Except ε β} {r : γ} (ok : x.map f = .ok r) :
    ∃ b, x = .ok b ∧ f b = r := by
  cases x with
  | error e => simp [Except.map] at ok
  | ok b => exact ⟨b, rfl, by simpa [Except.map] using ok⟩

theorem batchListed {l : Listing α σ} {ts : List (Template α)} (lists : Lists l ts) {backend : Backend σ Table}
    {c : Session} {begun : Option Session} (kept : ∀ b ∈ begun, InTransaction b c.committed ∧ b.seen = c.seen)
    (failure : Failure) (mismatch : σ → Nat → Failure) :
    AllOrNothing l backend.exec c (finish (ts.map l.form)
      (runBatch begun c backend ⟨l.expected, failure, mismatch⟩ (ts.map l.form))) := by
  obtain ⟨listed, p, previewed, shown, counted⟩ := lists
  cases begun with
  | none => exact ⟨Or.inr rfl, nofun⟩
  | some b =>
    obtain ⟨inside, seen⟩ := kept b rfl
    obtain ⟨either, success⟩ := batchWhole inside c backend ⟨l.expected, failure, mismatch⟩ (ts.map l.form)
    rw [List.map_map] at either success
    have whole := fun executed ran => (⟨ts, p, listed, previewed, shown, counted, executed, fun _ => seen ▸ ran⟩ :
      Whole l backend.exec c (finish (ts.map l.form)
        (runBatch (some b) c backend ⟨l.expected, failure, mismatch⟩ (ts.map l.form))))
    refine ⟨either.imp (fun ⟨executed, ran⟩ => whole executed ran) id, fun ⟨r, ok⟩ => ?_⟩
    obtain ⟨n, counted', -⟩ := mapOk ok
    obtain ⟨executed, ran⟩ := success ⟨n, counted'⟩
    exact whole executed ran

theorem mapMTotal {β γ : Type} (f : β → γ) (xs : List β) :
    xs.mapM (fun x => (.ok (f x) : Except String γ)) = .ok (xs.map f) := by
  induction xs with
  | nil => rfl
  | cons x xs ih => simp [ih, bind, Except.bind, pure, Except.pure]

theorem pgBegun {begins : Bool} {c b : Session} (begun : b ∈ pgBegin begins c) :
    InTransaction b c.committed ∧ b.seen = c.seen := by
  simp only [pgBegin] at begun
  split at begun
  · cases begun
    obtain ⟨committed, transaction⟩ := c
    cases transaction <;> exact ⟨⟨rfl, rfl⟩, rfl⟩
  · simp at begun

theorem pgLists {π : Type} {bound : Cell → Except String (PgBound π)} {cs : Changeset} (readOnly : Bool)
    {statements : List (PgChangeStatement π)} {warnings : List Text}
    (built : buildPgChangeStatements bound cs = .ok (statements, warnings)) :
    ∃ ts, Lists (pgListing bound readOnly cs) ts ∧ statements = ts.map pgBoundForm := by
  have shapes := pgBuiltOf bound cs
  rw [built] at shapes
  obtain ⟨ts, listed, rfl⟩ := mapOk shapes.symm
  refine ⟨ts, ⟨listed, _, by simp only [pgListing, pgPreview, built]; rfl, ?_, ?_⟩, rfl⟩
  · simp [pgListing, mapMTotal, pgBoundForm]
  · simp [pgListing]

theorem pgAllOrNothing {π : Type} (bound : Cell → Except String (PgBound π)) (readOnly : Bool)
    (backend : Backend (PgChangeStatement π) Table) (c : Session) (cs : Changeset) :
    AllOrNothing (pgListing bound readOnly cs) backend.exec c (pgApply bound readOnly backend c cs) := by
  simp only [pgApply]
  split
  · exact stayKeeps _ _ _ _
  · split
    · exact stayKeeps _ _ _ _
    · rename_i statements warnings built
      obtain ⟨ts, lists, rfl⟩ := pgLists readOnly built
      split
      · rename_i empty
        have none : ts = [] := by simpa using empty
        subst none
        exact nothingListed lists _ _ _
      · exact batchListed lists (fun b begun => pgBegun begun) _ _

section Mysql
variable {engine : EngineKind} {base64 : Text → List Nat} {transactional readOnly : Bool} {c : Session} {cs : Changeset}

def ReadRight (engine : EngineKind) (t : Template Param) : Prop :=
  aligned none t = true ∧ ∀ v ∈ values t, Writable engine v

def MysqlKept (engine : EngineKind) (base64 : Text → List Nat) (transactional readOnly : Bool) (c : Session)
    (cs : Changeset) : Prop :=
  readOnly = true ∨ ∀ ts, mysqlTemplates engine base64 (selectApplicableChanges cs).1 = .ok ts → ts ≠ [] →
    transactional = true ∧ c.committed = c.seen ∧ ∀ t ∈ ts, ReadRight engine t

theorem previewOf (cs : Changeset) {ts : List (Template Param)}
    (built : mysqlTemplates engine base64 (selectApplicableChanges cs).1 = .ok ts) :
    previewChangesetSql engine base64 cs =
      (ts.mapM fun t => renderFrom engine none (holes t) (values t)).map fun statements =>
        ⟨statements, ts.map fun _ => 1, (selectApplicableChanges cs).2⟩ := by
  simp only [previewChangesetSql, builtOf, built, Except.map, bind, Except.bind, List.mapM_map, List.map_map, pure,
    Except.pure]
  rfl

theorem mapMAgrees {β γ : Type} {f g : β → Except String γ} {xs : List β} :
    (∃ ys, xs.mapM f = .ok ys ∧ xs.mapM g = .ok ys) ↔ ∀ x ∈ xs, ∃ y, f x = .ok y ∧ g x = .ok y := by
  induction xs with
  | nil => simp [pure, Except.pure]
  | cons x xs ih =>
    rw [List.forall_mem_cons, ← ih]
    simp only [List.mapM_cons]
    cases f x <;> cases g x <;> cases xs.mapM f <;> cases xs.mapM g <;>
      simp [bind, Except.bind, pure, Except.pure]

theorem mysqlLists {ts : List (Template Param)}
    (built : mysqlTemplates engine base64 (selectApplicableChanges cs).1 = .ok ts) :
    Lists (mysqlListing engine base64 cs) ts ↔ ∀ t ∈ ts, ReadRight engine t := by
  have each : (∀ t ∈ ts, ReadRight engine t) ↔ ∀ t ∈ ts, ∃ text,
      renderFrom engine none (holes t) (values t) = .ok text ∧ written (writtenLiteral engine) t = .ok text :=
    forall₂_congr fun t _ => (renderedIff none t).symm
  rw [each, ← mapMAgrees]
  constructor
  · rintro ⟨-, p, previewed, shown, -⟩
    simp only [mysqlListing, previewOf cs built] at previewed shown
    obtain ⟨statements, rendered, rfl⟩ := mapOk previewed
    exact ⟨statements, rendered, shown⟩
  · rintro ⟨statements, rendered, shown⟩
    refine ⟨built, ⟨statements, ts.map fun _ => 1, (selectApplicableChanges cs).2⟩, ?_, shown, rfl⟩
    simp only [mysqlListing, previewOf cs built, rendered, Except.map]

theorem mysqlBegun {begins : Bool} {b : Session} (settled : c.committed = c.seen)
    (begun : b ∈ mysqlBegin true begins c) : InTransaction b c.committed ∧ b.seen = c.seen := by
  simp only [mysqlBegin, if_true] at begun
  split at begun
  · cases begun
    exact ⟨⟨settled.symm, rfl⟩, rfl⟩
  · simp at begun

theorem mysqlKeeps (kept : MysqlKept engine base64 transactional readOnly c cs) (ready : Bool)
    (backend : Backend PreparedStatement Table) :
    AllOrNothing (mysqlListing engine base64 cs) backend.exec c
      (mysqlApply engine base64 transactional readOnly ready backend c cs) := by
  simp only [mysqlApply]
  split
  · exact stayKeeps _ _ _ _
  · rename_i writes
    split
    · exact stayKeeps _ _ _ _
    · rename_i statements built
      rw [builtOf] at built
      obtain ⟨ts, listed, rfl⟩ := mapOk built
      split
      · rename_i empty
        have none : ts = [] := by simpa using empty
        subst none
        split
        · exact nothingListed ((mysqlLists listed).mpr (by simp)) _ _ _
        · exact stayKeeps _ _ _ _
      · rename_i some
        obtain ⟨rfl, settled, read⟩ := (kept.resolve_left writes) ts listed (by simpa using some)
        refine batchListed ((mysqlLists listed).mpr read) (fun b begun => ?_) _ _
        cases ready with
        | false => simp at begun
        | true => exact mysqlBegun settled begun

def failing (d : Table) : Backend PreparedStatement Table := ⟨true, fun _ _ _ => .failed d, .done⟩

def succeeding : Backend PreparedStatement Table := ⟨true, fun _ _ d => .done (some 1) d, .done⟩

theorem mysqlRuns {ts : List (Template Param)} (writes : readOnly = false) (some : ts ≠ [])
    (listed : mysqlTemplates engine base64 (selectApplicableChanges cs).1 = .ok ts)
    (backend : Backend PreparedStatement Table) :
    mysqlApply engine base64 transactional readOnly true backend c cs = finish (ts.map prepared)
      (runBatch (mysqlBegin transactional backend.begins c) c backend mysqlCheck (ts.map prepared)) := by
  simp [mysqlApply, writes, builtOf, listed, Except.map, some]

theorem allSucceed (i applied : Nat) (b : Session) (ts : List (Template Param)) :
    ∃ n, (runStatements succeeding.exec mysqlCheck i applied (ts.map prepared) b).result = .ok n := by
  induction ts generalizing i applied b with
  | nil => exact ⟨applied, rfl⟩
  | cons t ts ih =>
    obtain ⟨n, ok⟩ := ih (i + 1) (applied + 1) (b.write b.seen)
    exact ⟨n, by simpa [runStatements, succeeding, mysqlCheck, prepared, Progress.after] using ok⟩

theorem succeedingRun (transactional : Bool) (c : Session) (ts : List (Template Param)) :
    ∃ n, (runBatch (mysqlBegin transactional succeeding.begins c) c succeeding mysqlCheck (ts.map prepared)).result = .ok n := by
  obtain ⟨n, ok⟩ := allSucceed 0 0 (if transactional then c.keep.start else c.keep) ts
  refine ⟨n, ?_⟩
  simp only [runBatch, mysqlBegin, succeeding, if_true]
  simp only [succeeding] at ok
  rw [ok]

theorem failingRun (transactional : Bool) (c : Session) (d : Table) {ts : List (Template Param)} (some : ts ≠ []) :
    runBatch (mysqlBegin transactional (failing d).begins c) c (failing d) mysqlCheck (ts.map prepared) =
      ⟨((if transactional then c.keep.start else c.keep).write d).discard, [], .error .driver⟩ := by
  cases ts with
  | nil => exact absurd rfl some
  | cons t ts => rfl

theorem readFromSuccess (writes : readOnly = false) {ts : List (Template Param)} (some : ts ≠ [])
    (listed : mysqlTemplates engine base64 (selectApplicableChanges cs).1 = .ok ts)
    (kept : AllOrNothing (mysqlListing engine base64 cs) succeeding.exec c
      (mysqlApply engine base64 transactional readOnly true succeeding c cs)) :
    ∀ t ∈ ts, ReadRight engine t := by
  have succeeded := kept.2
  rw [mysqlRuns writes some listed] at succeeded
  obtain ⟨n, ok⟩ := succeedingRun transactional c ts
  obtain ⟨ts', p, listed', previewed, shown, counted, -⟩ := succeeded ⟨⟨n, _⟩, congrArg (Except.map _) ok⟩
  obtain rfl : ts = ts' := Except.ok.inj (listed.symm.trans listed')
  exact (mysqlLists listed).mp ⟨listed, p, previewed, shown, counted⟩

theorem keptFromRuns (writes : readOnly = false) {ts : List (Template Param)} (some : ts ≠ [])
    (listed : mysqlTemplates engine base64 (selectApplicableChanges cs).1 = .ok ts)
    (keeps : ∀ backend, AllOrNothing (mysqlListing engine base64 cs) backend.exec c
      (mysqlApply engine base64 transactional readOnly true backend c cs)) :
    transactional = true ∧ c.committed = c.seen ∧ ∀ t ∈ ts, ReadRight engine t := by
  have read := readFromSuccess writes some listed (keeps succeeding)
  have unchanged : (((if transactional then c.keep.start else c.keep).write ([] :: c.committed)).discard).committed =
      c.committed := by
    have failed := (keeps (failing ([] :: c.committed))).1
    rw [mysqlRuns writes some listed, failingRun transactional c _ some] at failed
    refine failed.resolve_left fun ⟨ts', p, listed', _, _, _, executed, _⟩ => ?_
    obtain rfl : ts = ts' := Except.ok.inj (listed.symm.trans listed')
    exact some (List.map_eq_nil_iff.mp executed.symm)
  cases transactional with
  | true => exact ⟨rfl, unchanged.symm, read⟩
  | false => exact absurd unchanged (by simp [keep, write, Connection.discard])

theorem mysqlAllOrNothing : (∀ ready backend, AllOrNothing (mysqlListing engine base64 cs) backend.exec c
      (mysqlApply engine base64 transactional readOnly ready backend c cs)) ↔
    MysqlKept engine base64 transactional readOnly c cs := by
  constructor
  · intro keeps
    cases writes : readOnly with
    | true => exact Or.inl rfl
    | false =>
      subst writes
      exact Or.inr fun ts listed some => keptFromRuns rfl some listed (keeps true)
  · exact mysqlKeeps

end Mysql

theorem applyDoesWhatPreviewShows (readOnly : Bool) (c : Session) (cs : Changeset) :
    (∀ (π : Type) (bound : Cell → Except String (PgBound π)) (backend : Backend (PgChangeStatement π) Table),
      AllOrNothing (pgListing bound readOnly cs) backend.exec c (pgApply bound readOnly backend c cs)) ∧
    ∀ (engine : EngineKind) (base64 : Text → List Nat) (transactional : Bool),
      (∀ ready backend, AllOrNothing (mysqlListing engine base64 cs) backend.exec c
        (mysqlApply engine base64 transactional readOnly ready backend c cs)) ↔
      MysqlKept engine base64 transactional readOnly c cs :=
  ⟨fun _ bound backend => pgAllOrNothing bound readOnly backend c cs, fun _ _ _ => mysqlAllOrNothing⟩

def slashColumn : Changeset :=
  ⟨none, units "t", [units "id"], [.update [(units "id", .string (units "1"))] [(units "a\\", .string (units "x"))]]⟩

theorem slashColumnMisread :
    (previewChangesetSql .mysql (fun _ => []) slashColumn).toOption.map ChangePreview.statements =
      some [units "UPDATE `t` SET `a\\` = ? WHERE `id` = ?"] ∧
    ¬ AllOrNothing (mysqlListing .mysql (fun _ => []) slashColumn) succeeding.exec ⟨[], none⟩
      (mysqlApply .mysql (fun _ => []) true false true succeeding ⟨[], none⟩ slashColumn) := by
  have misread : (mysqlTemplates .mysql (fun _ => []) (selectApplicableChanges slashColumn).1).toOption.any
      (fun ts => ts.any fun t => !aligned none t) = true := by decide +kernel
  refine ⟨by decide +kernel, fun kept => ?_⟩
  cases listed : mysqlTemplates .mysql (fun _ => []) (selectApplicableChanges slashColumn).1 with
  | error message => simp [listed, Except.toOption] at misread
  | ok ts =>
    obtain ⟨t, inside, out⟩ : ∃ t ∈ ts, aligned none t = false := by simpa [listed, Except.toOption] using misread
    have read := readFromSuccess rfl (List.ne_nil_of_mem inside) listed kept t inside
    simp [read.1] at out

end DatabaseAdmin.ChangesetApply
