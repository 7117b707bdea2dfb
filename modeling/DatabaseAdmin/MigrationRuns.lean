import Mathlib.Data.List.Forall2
import DatabaseAdmin.MigrationText

/-! Which statements run when the rendered migration text is split and run. -/
namespace DatabaseAdmin.MigrationRuns
open CodeUnits ScanLoop MigrationScripts MigrationText

def chosen (script : MigrationScript Text) (includeDestructive : Bool) : List Text :=
  (if script.transactional then [units "BEGIN"] else []) ++ script.statements ++
    (if script.transactional then [units "COMMIT"] else []) ++
    (if includeDestructive then script.destructive else [])

def RunsExactly (script : MigrationScript Text) (includeDestructive : Bool) (dialect : SqlDialect) : Prop :=
  List.Forall₂ (fun read statement => Behind statement read.text)
    (splitStatements (renderMigrationScript script includeDestructive) dialect) (chosen script includeDestructive)

structure Clean (rules : DialectRules) (statement : Text) : Prop where
  whole : Whole rules statement
  steady : collapseBlank statement = statement

section Lines

theorem collapseSnoc (text : Text) {c : CodeUnit} (ink : c ≠ newline) (n : Nat) :
    collapseFrom n (text ++ [c]) = collapseFrom n text ++ [c] := by
  induction text generalizing n with
  | nil => simp [collapseFrom, ink]
  | cons d text ih =>
    simp only [List.cons_append, collapseFrom]
    split
    · split
      · rw [ih, List.cons_append]
      · exact ih n
    · rw [ih, List.cons_append]

theorem collapseInline {text : Text} (inline : newline ∉ text) (n : Nat) : collapseFrom n text = text := by
  induction text generalizing n with
  | nil => rfl
  | cons c text ih =>
    have ⟨ink, later⟩ := List.ne_and_not_mem_of_not_mem_cons inline
    simp only [collapseFrom, if_neg (Ne.symm ink), ih later]

theorem commentInked {line : Text} (comment : CommentLine line) : Inked line := by
  obtain ⟨inline, tail, rfl, -⟩ := comment
  refine ⟨by simp [units], fun c head => ?_, fun c last => ?_, collapseInline inline 0⟩
  · obtain rfl : 45 = c := by simpa [units] using head
    decide
  · rintro rfl
    exact inline (List.mem_of_mem_getLast? last)

theorem commentOf {body : Text} (inline : newline ∉ body) : CommentLine (units "-- " ++ body) := by
  refine ⟨fun broken => ?_, 32 :: body, rfl, ?_⟩
  · rcases List.mem_append.mp broken with lead | later
    · revert lead
      decide
    · exact inline later
  · rintro c ⟨⟩
    rfl

theorem squeezeInline (text : Text) (spaced : Bool) : newline ∉ squeeze spaced text := by
  induction text generalizing spaced with
  | nil => simp [squeeze]
  | cons c text ih =>
    simp only [squeeze]
    split
    · split
      · exact ih true
      · exact List.not_mem_cons_of_ne_of_not_mem (by decide) (ih true)
    · rename_i ink
      refine List.not_mem_cons_of_ne_of_not_mem ?_ (ih false)
      rintro rfl
      exact ink (by decide)

theorem titleComment (id : SectionId) : CommentLine (titleLine id) :=
  commentOf (by cases id <;> decide)

theorem commentText {line : Text} (lead : line.take 3 = units "-- ") (inline : newline ∉ line) : CommentLine line := by
  have split := List.take_append_drop 3 line
  rw [lead] at split
  exact split ▸ commentOf fun broken => inline (List.mem_of_mem_drop broken)

theorem bannerComment : ∀ line ∈ bannerLines, CommentLine line := by
  have rule : CommentLine (units "-- ===========================================================") :=
    commentText rfl (by decide)
  simp only [bannerLines, List.forall_mem_cons]
  exact ⟨rule, commentText rfl (by decide), commentText rfl (by decide), rule, by simp⟩

theorem headerComment (script : MigrationScript Text) : ∀ line ∈ headerLines script, CommentLine line := by
  have first : CommentLine (units "-- Migration for " ++ units script.engine.name ++
      units ", generated from a canonical schema diff (PLAN M8).") := by
    refine commentText rfl fun broken => ?_
    rcases List.mem_append.mp broken with (broken | later)
    · rcases List.mem_append.mp broken with lead | name
      · revert lead
        decide
      · revert name
        cases script.engine <;> decide
    · revert later
      decide
  have second : CommentLine (units "-- Review every statement before running it.") := commentText rfl (by decide)
  have blank : CommentLine (units "--") := ⟨by decide, [], rfl, by simp⟩
  have warned (w : Text) : CommentLine (units "-- WARNING: " ++ normalizeSpace w) := by
    refine commentText rfl fun broken => ?_
    rcases List.mem_append.mp broken with lead | later
    · revert lead
      decide
    · exact squeezeInline _ _ later
  intro line listed
  simp only [headerLines, List.mem_append, List.mem_cons, List.not_mem_nil, or_false] at listed
  rcases listed with (rfl | rfl) | listed
  · exact first
  · exact second
  · split at listed
    · contradiction
    · rcases List.mem_cons.mp listed with rfl | warning
      · exact blank
      · obtain ⟨w, -, rfl⟩ := List.mem_map.mp warning
        exact warned w

theorem commentedComment {statement : Text} (inline : newline ∉ statement) : CommentLine (commented statement) := by
  rw [commented, List.append_assoc]
  refine commentOf fun broken => ?_
  rcases List.mem_append.mp broken with inside | mark
  · exact inline inside
  · revert mark
    decide

variable {rules : DialectRules}

theorem statementInked {statement : Text} (clean : Clean rules statement) : Inked (terminated statement) := by
  obtain ⟨-, -, -, -, trimmed, some⟩ := wholeWalk clean.whole
  have ink : (59 : CodeUnit) ≠ newline := by decide
  refine ⟨by simp [terminated, units], fun c head => ?_, fun c last => ?_, ?_⟩
  · have first := trimByHead isSpace statement
    rw [trimmed] at first
    rw [terminated, List.head?_append_of_ne_nil _ some] at head
    rintro rfl
    have dark := first _ head
    contradiction
  · rw [terminated, List.getLast?_append_of_ne_nil _ (by simp [units])] at last
    obtain rfl : 59 = c := by simpa [units] using last
    exact ink
  · have steady : collapseFrom 0 statement = statement := clean.steady
    rw [collapseBlank, terminated, show units ";" = [59] from rfl, collapseSnoc statement ink, steady]

end Lines

section Parts

structure Laid (rules : DialectRules) (lines statements : List Text) : Prop where
  paragraphs : Paragraphs lines
  lays : Lays rules lines statements

variable {rules : DialectRules}

theorem laidNone : Laid rules [] [] := ⟨paragraphsNil, .nil⟩

theorem laidAppend {first last firsts lasts : List Text} (one : Laid rules first firsts) (two : Laid rules last lasts) :
    Laid rules (first ++ last) (firsts ++ lasts) :=
  ⟨paragraphsAppend one.paragraphs two.paragraphs, laysAppend one.lays two.lays⟩

theorem laidFlatMap {α : Type} {items : List α} {lines read : α → List Text}
    (each : ∀ x ∈ items, Laid rules (lines x) (read x)) : Laid rules (items.flatMap lines) (items.flatMap read) := by
  induction items with
  | nil => exact laidNone
  | cons x items ih =>
    obtain ⟨here, later⟩ := List.forall_mem_cons.mp each
    exact laidAppend here (ih later)

theorem commentsLay {lines : List Text} (comments : ∀ line ∈ lines, CommentLine line) : Lays rules lines [] := by
  induction lines with
  | nil => exact .nil
  | cons line lines ih =>
    obtain ⟨here, later⟩ := List.forall_mem_cons.mp comments
    exact .plain (Or.inr here) (ih later)

theorem statementsLay {statements : List Text} (clean : ∀ s ∈ statements, Clean rules s) :
    Lays rules (statements.map terminated) statements := by
  induction statements with
  | nil => exact .nil
  | cons s statements ih =>
    obtain ⟨here, later⟩ := List.forall_mem_cons.mp clean
    exact .statement here.whole (ih later)

theorem blankLays : Lays rules [[]] [] := .plain (Or.inl rfl) .nil

theorem laidComments {lines : List Text} (some : lines ≠ []) (comments : ∀ line ∈ lines, CommentLine line) :
    Laid rules (lines ++ [[]]) [] :=
  ⟨paragraph some fun line listed => commentInked (comments line listed), laysAppend (commentsLay comments) blankLays⟩

theorem laidStatement {statement : Text} (clean : Clean rules statement) : Laid rules [terminated statement, []] [statement] := by
  refine ⟨paragraph (List.cons_ne_nil (terminated statement) []) ?_, .statement clean.whole blankLays⟩
  simpa using statementInked clean

theorem laidSection {s : MigrationSection Text} (clean : ∀ statement ∈ s.statements, Clean rules statement) :
    Laid rules (sectionLines terminated s) s.statements := by
  constructor
  · refine paragraph (List.cons_ne_nil _ _) (List.forall_mem_cons.mpr ⟨commentInked (titleComment s.id), ?_⟩)
    simp only [List.forall_mem_map]
    exact fun statement listed => statementInked (clean statement listed)
  · have read := laysAppend (statementsLay clean) (@blankLays rules)
    rw [List.append_nil] at read
    exact .plain (Or.inr (titleComment s.id)) read

theorem laidCommented {s : MigrationSection Text} (inline : ∀ statement ∈ s.statements, newline ∉ statement) :
    Laid rules (sectionLines commented s) [] := by
  refine laidComments (List.cons_ne_nil _ _) (List.forall_mem_cons.mpr ⟨titleComment s.id, ?_⟩)
  simp only [List.forall_mem_map]
  exact fun statement listed => commentedComment (inline statement listed)

theorem laidBanner {lines read : List Text} (some : lines ≠ []) (laid : Laid rules lines read) :
    Laid rules (bannerLines ++ lines) read := by
  have inked : ∀ line ∈ bannerLines, Inked line := fun line listed => commentInked (bannerComment line listed)
  refine ⟨⟨spacedAppend (spacedInked inked) laid.paragraphs.spaced, ?_⟩, laysAppend (commentsLay bannerComment) laid.lays⟩
  obtain ⟨init, last, rfl, full⟩ := laid.paragraphs.ends.resolve_left some
  exact Or.inr ⟨bannerLines ++ init, last, by simp, full⟩

theorem keywordClean (dialect : SqlDialect) :
    Clean (rulesOf dialect) (units "BEGIN") ∧ Clean (rulesOf dialect) (units "COMMIT") := by
  cases dialect <;> exact ⟨⟨by decide, by decide⟩, ⟨by decide, by decide⟩⟩

end Parts

theorem scriptLaid {script : MigrationScript Text} {includeDestructive : Bool} {dialect : SqlDialect}
    (clean : ∀ statement ∈ script.statements, Clean (rulesOf dialect) statement)
    (opted : includeDestructive = true → ∀ statement ∈ script.destructive, Clean (rulesOf dialect) statement)
    (inline : includeDestructive = false → ∀ statement ∈ script.destructive, newline ∉ statement) :
    Laid (rulesOf dialect) (scriptLines script includeDestructive) (chosen script includeDestructive) := by
  have marker {word : String} (here : Clean (rulesOf dialect) (units word)) :
      Laid (rulesOf dialect) (if script.transactional then [terminated (units word), []] else [])
        (if script.transactional then [units word] else []) := by
    split
    · exact laidStatement here
    · exact laidNone
  have safe : Laid (rulesOf dialect) (script.safeSections.flatMap (sectionLines terminated)) script.statements := by
    exact laidFlatMap fun s listed => laidSection fun statement inside =>
      clean statement (List.mem_flatMap.mpr ⟨s, listed, inside⟩)
  have last : Laid (rulesOf dialect)
      (if script.destructiveSections.isEmpty then []
        else bannerLines ++
          script.destructiveSections.flatMap (sectionLines (if includeDestructive then terminated else commented)))
      (if includeDestructive then script.destructive else []) := by
    split
    · rename_i none
      have empty : script.destructive = [] := by simp [MigrationScript.destructive, List.isEmpty_iff.mp none]
      simpa [empty] using laidNone
    · rename_i some
      have full : script.destructiveSections.flatMap
          (sectionLines (if includeDestructive then terminated else commented)) ≠ [] := by
        obtain ⟨s, listed⟩ := List.exists_mem_of_ne_nil _ (fun none => some (List.isEmpty_iff.mpr none))
        exact List.ne_nil_of_mem (List.mem_flatMap.mpr ⟨s, listed, List.mem_cons_self⟩)
      refine laidBanner full ?_
      cases includeDestructive with
      | true =>
        exact laidFlatMap fun s listed => laidSection fun statement inside =>
          opted rfl statement (List.mem_flatMap.mpr ⟨s, listed, inside⟩)
      | false =>
        have read : Laid (rulesOf dialect) (script.destructiveSections.flatMap (sectionLines commented))
            (script.destructiveSections.flatMap fun _ => []) :=
          laidFlatMap fun s listed => laidCommented fun statement inside =>
            inline rfl statement (List.mem_flatMap.mpr ⟨s, listed, inside⟩)
        have silent : (script.destructiveSections.flatMap fun _ => ([] : List Text)) = [] := by simp
        rwa [silent] at read
  have header : Laid (rulesOf dialect) (headerLines script ++ [[]]) [] :=
    laidComments (by simp [headerLines]) (headerComment script)
  obtain ⟨begin, commit⟩ := keywordClean dialect
  exact laidAppend (laidAppend (laidAppend (laidAppend header (marker begin)) safe) (marker commit)) last

theorem renderedRunsExactly {script : MigrationScript Text} {includeDestructive : Bool} {dialect : SqlDialect}
    (clean : ∀ statement ∈ script.statements, Clean (rulesOf dialect) statement)
    (opted : includeDestructive = true → ∀ statement ∈ script.destructive, Clean (rulesOf dialect) statement)
    (inline : includeDestructive = false → ∀ statement ∈ script.destructive, newline ∉ statement) :
    RunsExactly script includeDestructive dialect := by
  have laid := scriptLaid clean opted inline
  obtain ⟨shown, text, lays⟩ := renderedLays (by simp [scriptLines, headerLines]) laid.paragraphs laid.lays
  have read := laysPieces (rulesCoherent dialect) lays
  rw [← text] at read
  exact List.forall₂_map_left_iff.mpr read

def ordersMigration : MigrationScript Text :=
  ⟨.postgres, [⟨.createTables, [units "CREATE TABLE \"orders\" (\n  \"id\" integer\n)"]⟩,
    ⟨.destructiveTables, [units "DROP TABLE \"old\""]⟩], [units "old is dropped"], true⟩

theorem ordersMigrationRunsExactly : RunsExactly ordersMigration false .postgres :=
  renderedRunsExactly (List.forall_mem_singleton.mpr ⟨by decide +kernel, by decide +kernel⟩) (by simp)
    (fun _ => List.forall_mem_singleton.mpr (by decide))

def brokenNameMigration : MigrationScript Text :=
  ⟨.postgres, [⟨.destructiveTables, [units "DROP TABLE \"a\nb\""]⟩], [], true⟩

theorem brokenNameRunsMore : dialectForEngine brokenNameMigration.engine = .ok .postgres ∧
    ¬ RunsExactly brokenNameMigration false .postgres := by
  refine ⟨rfl, fun exact => ?_⟩
  have sizes := exact.length_eq
  revert sizes
  decide +kernel

end DatabaseAdmin.MigrationRuns
