import DatabaseAdmin.PreviewRendering
import DatabaseAdmin.SqlDumps
import DatabaseAdmin.SqlScripts

/-! The cells of a dump: numbers as numeric tokens, and literals and names that no text around them can open. -/
namespace DatabaseAdmin.DumpScripts
open CodeUnits BinaryText CellCoercion WireCells SchemaModels TextWriters SqlFragments SqlScripts SqlDumps
open ChangeStatements (quoteQualified join bindOk mapMMember mapMLength)

section Numbers

structure Numeral (v : Text) : Prop where
  spelled : ∀ c ∈ v, numeralUnit c = true
  single : v.IsChain (fun a b => ¬(a = 45 ∧ b = 45))

theorem numeralCons {c : CodeUnit} {v : Text} (unit : numeralUnit c = true) (apart : c = 45 → v.head? ≠ some 45)
    (tail : Numeral v) : Numeral (c :: v) := by
  refine ⟨by simpa [unit] using tail.spelled, ?_⟩
  cases v with
  | nil => exact .singleton c
  | cons d v =>
    refine List.isChain_cons_cons.mpr ⟨fun ⟨first, second⟩ => ?_, tail.single⟩
    exact apart first (congrArg some second)

theorem digitNumeral {c : CodeUnit} (digit : isDigit c = true) : numeralUnit c = true ∧ c ≠ 45 := by
  refine ⟨by simp [numeralUnit, digit], ?_⟩
  rintro rfl
  contradiction

theorem numeralDigits {v : Text} (tail : Numeral v) : ∀ ds : Text, (∀ d ∈ ds, isDigit d = true) → Numeral (ds ++ v)
  | [], _ => tail
  | d :: ds, each => by
      have digit := digitNumeral (each d (by simp))
      exact numeralCons digit.1 (fun same => absurd same digit.2) (numeralDigits tail ds fun e member => each e (by simp [member]))

theorem numeralNil : Numeral [] := ⟨by simp, .nil⟩

theorem digitsNumeral {v : Text} (spelled : digits v = true) : Numeral v ∧ v.head? ≠ some 45 := by
  simp only [digits, decide_eq_true_eq, List.all_eq_true] at spelled
  refine ⟨by simpa using numeralDigits numeralNil v spelled.2, fun head => ?_⟩
  exact (digitNumeral (spelled.2 45 (List.mem_of_mem_head? head))).2 rfl

theorem exponentNumeral {v : Text} (token : exponentToken v = true) : Numeral v := by
  cases v with
  | nil => exact numeralNil
  | cons e rest =>
    simp only [exponentToken, Bool.and_eq_true, Bool.or_eq_true, decide_eq_true_eq] at token
    have mark : numeralUnit e = true ∧ e ≠ 45 := by
      rcases token.1 with rfl | rfl <;> decide
    have body := digitsNumeral token.2
    refine numeralCons mark.1 (fun same => absurd same mark.2) ?_
    by_cases sign : rest.head? = some 43 ∨ rest.head? = some 45
    · rw [unsigned, if_pos sign] at body
      cases rest with
      | nil => exact numeralNil
      | cons c rest =>
        refine numeralCons ?_ (fun _ => body.2) body.1
        rcases sign with same | same <;> cases same <;> rfl
    · rw [unsigned, if_neg sign] at body
      exact body.1

end Numbers

def Spoken : Cell → Prop
  | .number n => n.finite = true → numericToken n.text = true
  | _ => True

abbrev DumpRow := List { cell : Cell // Spoken cell }

section Cells
variable {dialect : SqlDialect}

theorem quotedClosed {body : Text} (before : Text)
    (plain : ∀ c ∈ body, c ≠ apostrophe ∧ ((rulesOf dialect).backslashEscapes = true → c ≠ backslash)) :
    closedFrom (rulesOf dialect) 0 before (quoted body) = true := by
  have same := @literalClosed (rulesOf dialect) body before
  rwa [encodePlain plain] at same

theorem markedInert {mark : CodeUnit} (letter : mark ∈ [88, 98, 66]) {body : Text}
    (plain : ∀ c ∈ body, c ≠ apostrophe ∧ ((rulesOf dialect).backslashEscapes = true → c ≠ backslash)) :
    Inert (rulesOf dialect) (mark :: quoted body) := by
  refine closedInert (closedUnit ?_ (by rintro rfl; contradiction) (quotedClosed [mark] plain))
  simp only [List.mem_cons, List.not_mem_nil, or_false] at letter
  rcases letter with rfl | rfl | rfl <;> simp [openerAt, apostrophe, doubleQuote, backtick]

theorem hexRegular (bytes : List UInt8) : ∀ c ∈ hexText bytes, c ≠ apostrophe ∧ c ≠ backslash := by
  refine hexEach (fun n small => ?_) bytes
  unfold hexUnit apostrophe backslash
  grind

theorem hexLiteralInert (bytes : List UInt8) : Inert (rulesOf dialect) (hexLiteral (hexText bytes)) :=
  markedInert (by decide) fun c member => ⟨(hexRegular bytes c member).1, fun _ => (hexRegular bytes c member).2⟩

end Cells

section Statements
variable {engine : EngineKind} {dialect : SqlDialect} (sql : dialectForEngine engine = .ok dialect)

abbrev Contained (dialect : SqlDialect) (texts : List Text) : Prop := ∀ text ∈ texts, closed (rulesOf dialect) text = true

include sql in
theorem identsInert {names : List Text} {idents : List Text} (ok : names.mapM (quoteIdent · engine) = .ok idents) :
    ∀ ident ∈ idents, Inert (rulesOf dialect) ident := by
  intro ident member
  obtain ⟨name, -, quoted⟩ := mapMMember ok ident member
  exact identInert sql quoted

end Statements

def cells (row : DumpRow) : Row := row.map Subtype.val

end DatabaseAdmin.DumpScripts
