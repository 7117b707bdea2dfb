import DatabaseAdmin.CodeUnits

/-! The dialects of the hand-rolled SQL lexer, the constructs each of them has
and the character classes its scanners test. -/
namespace DatabaseAdmin

inductive EngineKind where
  | mysql | mariadb | postgres | sqlite | redis | mongodb
  deriving DecidableEq, Repr

namespace EngineKind

def name : EngineKind → String
  | mysql => "mysql"
  | mariadb => "mariadb"
  | postgres => "postgres"
  | sqlite => "sqlite"
  | redis => "redis"
  | mongodb => "mongodb"

end EngineKind

inductive SqlDialect where
  | mysql | postgres | sqlite
  deriving DecidableEq, Repr

def dialectForEngine : EngineKind → Except String SqlDialect
  | .mysql | .mariadb => .ok .mysql
  | .postgres => .ok .postgres
  | .sqlite => .ok .sqlite
  | engine => .error ("No SQL dialect for engine: " ++ engine.name)

structure DialectRules where
  backslashEscapes : Bool
  escapeStringPrefix : Bool
  dollarQuoting : Bool
  nestedBlockComments : Bool
  hashComments : Bool
  backtickIdent : Bool
  bracketIdent : Bool
  delimiterCommand : Bool
  dashDashNeedsSpace : Bool
  doubleQuoteIsString : Bool
  executableComments : Bool
  deriving DecidableEq, Repr

def rulesOf : SqlDialect → DialectRules
  | .mysql => {
      backslashEscapes := true
      escapeStringPrefix := false
      dollarQuoting := false
      nestedBlockComments := false
      hashComments := true
      backtickIdent := true
      bracketIdent := false
      delimiterCommand := true
      dashDashNeedsSpace := true
      doubleQuoteIsString := true
      executableComments := true }
  | .postgres => {
      backslashEscapes := false
      escapeStringPrefix := true
      dollarQuoting := true
      nestedBlockComments := true
      hashComments := false
      backtickIdent := false
      bracketIdent := false
      delimiterCommand := false
      dashDashNeedsSpace := false
      doubleQuoteIsString := false
      executableComments := false }
  | .sqlite => {
      backslashEscapes := false
      escapeStringPrefix := false
      dollarQuoting := false
      nestedBlockComments := false
      hashComments := false
      backtickIdent := true
      bracketIdent := true
      delimiterCommand := false
      dashDashNeedsSpace := false
      doubleQuoteIsString := false
      executableComments := false }

/-! A unit is tested by its number; the empty string of `at` is the absent unit,
of which no test holds. -/

def isIdentStart (c : CodeUnit) : Bool :=
  (65 ≤ c && c ≤ 90) || (97 ≤ c && c ≤ 122) || c == 95 || 128 ≤ c

def isIdentPart (c : CodeUnit) : Bool :=
  isIdentStart c || (48 ≤ c && c ≤ 57) || c == 36

def isTagStart (c : CodeUnit) : Bool := isIdentStart c

def isTagPart (c : CodeUnit) : Bool := isIdentStart c || (48 ≤ c && c ≤ 57)

def isSpace (c : CodeUnit) : Bool :=
  c == 32 || c == 9 || c == 10 || c == 13 || c == 12 || c == 11

def isDigit (c : CodeUnit) : Bool := 48 ≤ c && c ≤ 57

def isNumberPart (c : CodeUnit) : Bool :=
  isDigit c || (65 ≤ c && c ≤ 90) || (97 ≤ c && c ≤ 122) || c == 95 || c == 46

theorem spaceNotIdentPart {c : CodeUnit} (space : isSpace c = true) : isIdentPart c = false := by
  simp only [isSpace, Bool.or_eq_true, beq_iff_eq] at space
  rcases space with ((((rfl | rfl) | rfl) | rfl) | rfl) | rfl <;> rfl

end DatabaseAdmin
