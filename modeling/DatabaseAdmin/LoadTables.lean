import DatabaseAdmin.WireCells

/-! What a loader is given: the table with its mapped columns, and rows of cells. -/
namespace DatabaseAdmin.LoadTables
open CodeUnits WireCells

structure LoadTable where
  schema : Option Text
  table : Text
  columns : List Text
  keyColumns : List Text
  binaryColumns : List Text
  mapped : columns ≠ []

def numberUnits : Text := units "0123456789+-.eInfityNa"

def Spelled : Cell → Prop
  | .number n => n.text ≠ [] ∧ ∀ c ∈ n.text, c ∈ numberUnits
  | _ => True

abbrev WireRow := List { cell : Cell // Spelled cell }

section Width
variable (table : LoadTable)

def checkWidth (rows : List WireRow) : Bool := rows.all fun row => row.length = table.columns.length

def Wide (rows : List WireRow) : Prop := ∀ row ∈ rows, row.length = table.columns.length

theorem wideChecked {rows : List WireRow} (wide : Wide table rows) : checkWidth table rows = true :=
  List.all_eq_true.mpr fun row member => decide_eq_true (wide row member)

theorem unwide {rows : List WireRow} (wide : ¬Wide table rows) : checkWidth table rows = false := by
  rw [Bool.eq_false_iff]
  intro checked
  exact wide fun row member => of_decide_eq_true (List.all_eq_true.mp checked row member)

end Width

end DatabaseAdmin.LoadTables
