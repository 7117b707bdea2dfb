import DatabaseAdmin.MigrationScripts
import DatabaseAdmin.SchemaModels

/-! What changed in a column, as the differ and the planners of the engines share it.
The lower-casing of the language is a parameter. -/
namespace DatabaseAdmin.DdlCommon
open CodeUnits SchemaModels MigrationScripts

variable (toLowerCase : Text → Text)

def isConstraintIndex (idx : IndexModel) : Bool :=
  idx.method = some (units "auto") ∨ startsWith (units "sqlite_autoindex") (toLowerCase idx.name)

def keywordDefaults : List Text :=
  ["null", "true", "false", "current_timestamp", "current_date", "current_time", "now()", "uuid()",
    "localtime", "localtimestamp"].map units

def isKeywordDefault (text : Text) : Bool :=
  let word := text.map lowerUnit
  keywordDefaults.contains word ||
    startsWith (units "current_timestamp(") word && word.getLast? == some 41 &&
      ((word.drop (units "current_timestamp(").length).dropLast).all isDigit

def normalizeExpression (v : Option Text) : Option Text :=
  (v.map normalizeSpace).filter (· ≠ [])

def sameDefault (a b : ColumnModel) : Bool :=
  match normalizeExpression a.defaultValue, normalizeExpression b.defaultValue with
  | none, none => true
  | some x, some y =>
      decide (x = y) || isKeywordDefault x && isKeywordDefault y && decide (toLowerCase x = toLowerCase y)
  | _, _ => false

def comma : Text := units ","

def sameType (a b : TypeDescriptor) : Bool :=
  let ra := toLowerCase (trim a.raw)
  let rb := toLowerCase (trim b.raw)
  if ra ≠ [] ∧ rb ≠ [] then ra = rb
  else a.base = b.base ∧ a.length = b.length ∧ a.precision = b.precision ∧ a.scale = b.scale ∧
    a.unsigned = b.unsigned ∧ a.withTimezone = b.withTimezone ∧
    comma.intercalate a.values = comma.intercalate b.values

inductive ColumnAspect where
  | type | nullable | default | autoIncrement | generated | collation | charset | comment
  deriving DecidableEq

def columnAspects (before after : ColumnModel) : List ColumnAspect :=
  (if sameType toLowerCase before.type after.type then [] else [.type]) ++
    (if before.nullable = after.nullable then [] else [.nullable]) ++
    (if sameDefault toLowerCase before after then [] else [.default]) ++
    (if before.autoIncrement = after.autoIncrement then [] else [.autoIncrement]) ++
    (if before.generated = after.generated ∧
        normalizeExpression before.generatedExpression = normalizeExpression after.generatedExpression
      then [] else [.generated]) ++
    (if before.collation = after.collation then [] else [.collation]) ++
    (if before.charset = after.charset then [] else [.charset]) ++
    (if before.comment.getD [] = after.comment.getD [] then [] else [.comment])

theorem sameTypeSelf (a : TypeDescriptor) : sameType toLowerCase a a = true := by
  unfold sameType
  simp

theorem sameDefaultSelf (c : ColumnModel) : sameDefault toLowerCase c c = true := by
  unfold sameDefault
  cases normalizeExpression c.defaultValue <;> simp

end DatabaseAdmin.DdlCommon
