import DatabaseAdmin.MigrationScripts
import DatabaseAdmin.NamedChanges
import DatabaseAdmin.SchemaModels

/-! How the planner of PostgreSQL tables reads the texts of a model. -/
namespace DatabaseAdmin.PgTablePlan
open CodeUnits SchemaModels MigrationScripts

def given (text : Option Text) : Option Text := text.filter (· ≠ [])

def checkClause (expression : Text) : Text :=
  let expr := trim expression
  if startsWith (units "(") expr ∧ expr.getLast? = some 41 then expr else units "(" ++ expr ++ units ")"

def serial (value : Option Text) : Bool := value.any (startsWith (units "nextval("))

def identity (c : ColumnModel) : Bool := c.autoIncrement && !serial c.defaultValue

def collationOf (c : ColumnModel) : Option Text := (given c.collation).filter (· ≠ units "default")

end DatabaseAdmin.PgTablePlan
