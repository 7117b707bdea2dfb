import DatabaseAdmin.SplitStability

/-! Migration scripts: statements in sections of a fixed order, and the text the reviewer gets. -/
namespace DatabaseAdmin.MigrationScripts
open CodeUnits

inductive SectionId where
  | dropTriggers
  | dropViews
  | dropForeignKeys
  | dropIndexes
  | dropConstraints
  | createNamespaces
  | types
  | sequences
  | createTables
  | alterTables
  | createIndexes
  | createConstraints
  | createForeignKeys
  | createViews
  | routines
  | createTriggers
  | comments
  | destructiveForeignKeys
  | destructiveColumns
  | destructiveTables
  | destructiveObjects
  deriving DecidableEq

namespace SectionId

def title : SectionId → String
  | dropTriggers => "Drop triggers"
  | dropViews => "Drop views"
  | dropForeignKeys => "Drop foreign keys"
  | dropIndexes => "Drop indexes"
  | dropConstraints => "Drop constraints"
  | createNamespaces => "Create schemas"
  | types => "Types and enums"
  | sequences => "Sequences"
  | createTables => "Create tables"
  | alterTables => "Alter tables"
  | createIndexes => "Create indexes"
  | createConstraints => "Create constraints"
  | createForeignKeys => "Create foreign keys"
  | createViews => "Create views"
  | routines => "Routines"
  | createTriggers => "Create triggers"
  | comments => "Comments"
  | destructiveForeignKeys => "DESTRUCTIVE — foreign keys blocking the drops below"
  | destructiveColumns => "DESTRUCTIVE — drop columns"
  | destructiveTables => "DESTRUCTIVE — drop tables"
  | destructiveObjects => "DESTRUCTIVE — drop sequences and schemas"

def destructive : SectionId → Bool
  | destructiveForeignKeys | destructiveColumns | destructiveTables | destructiveObjects => true
  | _ => false

end SectionId

def sectionOrder : List SectionId :=
  [.dropTriggers, .dropViews, .dropForeignKeys, .dropIndexes, .dropConstraints, .createNamespaces,
    .types, .sequences, .createTables, .alterTables, .createIndexes, .createConstraints,
    .createForeignKeys, .createViews, .routines, .createTriggers, .comments, .destructiveForeignKeys,
    .destructiveColumns, .destructiveTables, .destructiveObjects]

structure MigrationSection (σ : Type) where
  id : SectionId
  statements : List σ

structure MigrationScript (σ : Type) where
  engine : EngineKind
  sections : List (MigrationSection σ)
  warnings : List Text
  transactional : Bool

namespace MigrationScript
variable {σ : Type}

def safeSections (script : MigrationScript σ) : List (MigrationSection σ) :=
  script.sections.filter (!·.id.destructive)

def destructiveSections (script : MigrationScript σ) : List (MigrationSection σ) :=
  script.sections.filter (·.id.destructive)

def statements (script : MigrationScript σ) : List σ := script.safeSections.flatMap (·.statements)

def destructive (script : MigrationScript σ) : List σ := script.destructiveSections.flatMap (·.statements)

end MigrationScript

section Rendering

def squeeze : Bool → Text → Text
  | _, [] => []
  | spaced, c :: rest =>
      if isWhite c then if spaced then squeeze true rest else 32 :: squeeze true rest
      else c :: squeeze false rest

def normalizeSpace (text : Text) : Text := squeeze false (trim text)

def collapseFrom : Nat → Text → Text
  | _, [] => []
  | n, c :: rest =>
      if c = newline then if n < 2 then newline :: collapseFrom (n + 1) rest else collapseFrom n rest
      else c :: collapseFrom 0 rest

def collapseBlank (text : Text) : Text := collapseFrom 0 text

def terminated (statement : Text) : Text := statement ++ units ";"

def commented (statement : Text) : Text := units "-- " ++ statement ++ units ";"

def titleLine (id : SectionId) : Text := units "-- " ++ units id.title

def headerLines (script : MigrationScript Text) : List Text :=
  [units "-- Migration for " ++ units script.engine.name ++
      units ", generated from a canonical schema diff (PLAN M8).",
    units "-- Review every statement before running it."] ++
    if script.warnings.isEmpty then []
    else units "--" :: script.warnings.map fun w => units "-- WARNING: " ++ normalizeSpace w

def sectionLines (render : Text → Text) (s : MigrationSection Text) : List Text :=
  titleLine s.id :: s.statements.map render ++ [[]]

def bannerLines : List Text :=
  [units "-- ===========================================================",
    units "-- DESTRUCTIVE — these statements destroy data and are not",
    units "-- included unless you explicitly opt in.",
    units "-- ==========================================================="]

def scriptLines (script : MigrationScript Text) (includeDestructive : Bool) : List Text :=
  headerLines script ++ [[]] ++
    (if script.transactional then [units "BEGIN;", []] else []) ++
    script.safeSections.flatMap (sectionLines terminated) ++
    (if script.transactional then [units "COMMIT;", []] else []) ++
    if script.destructiveSections.isEmpty then []
    else bannerLines ++
      script.destructiveSections.flatMap (sectionLines (if includeDestructive then terminated else commented))

def renderMigrationScript (script : MigrationScript Text) (includeDestructive : Bool) : Text :=
  (collapseBlank ([newline].intercalate (scriptLines script includeDestructive))).rdropWhile isWhite ++ [newline]

end Rendering

end DatabaseAdmin.MigrationScripts
