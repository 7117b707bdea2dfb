import DatabaseAdmin.CopyLines
import DatabaseAdmin.StatementGuards

/-! PostgreSQL scripts with COPY blocks, as psql reads them, and the calls that such a script asks
for: each statement is executed and each block's lines go to `copyIn`. -/
namespace DatabaseAdmin.DumpRunner
open CodeUnits StatementGuards

section Statements

def postgres : DialectRules := rulesOf .postgres

def statementPieces (text : Text) : List Piece := pieces postgres .semicolon text

inductive Lead : Text → Prop where
  | nil : Lead []
  | space {c rest} (white : isSpace c = true) (tail : Lead rest) : Lead (c :: rest)
  | line {text rest} (opens : units "--" <+: text ∨ units "\\" <+: text) (bare : newline ∉ text) (tail : Lead rest) :
      Lead (text ++ newline :: rest)
  | block {text rest} (opens : units "/*" <+: text)
      (closes : ∀ more, scanBlockComment postgres.nestedBlockComments (text ++ more) = text.length)
      (tail : Lead rest) : Lead (text ++ rest)

def CopiesStdin (tokens : List SqlToken) : Prop :=
  startsWithWord "COPY" tokens = true ∧ ∃ before t u after, tokens = before ++ t :: u :: after ∧
    isTopLevel "FROM" t = true ∧ isTopLevel "STDIN" u = true

def CopyStatement (text : Text) : Prop :=
  ∃ lead statement, text = lead ++ statement ∧ Lead lead ∧ CopiesStdin (tokenize statement postgres)

end Statements

section Scripts

structure CopyBlock where
  before : List Text
  statement : Text
  gap : Text
  lines : List Text
  mark : Text
  close : Text
  gapBare : newline ∉ gap
  data : ∀ line ∈ lines, DataLine line
  ends : EndMark mark

def CopyBlock.texts (b : CopyBlock) : List Text := b.lines.map lineEnded

def CopyBlock.behind (b : CopyBlock) (after : Text) : Text :=
  b.gap ++ newline :: (b.texts.flatten ++ (b.mark ++ (b.close ++ after)))

inductive Script : Text → List CopyBlock → List Text → Prop where
  | last {text} (plain : ∀ p ∈ statementPieces text, ¬ CopyStatement p.text) :
      Script text [] ((statementPieces text).map Piece.text)
  | copy {text ps p garbage trail after blocks last} {b : CopyBlock}
      (split : statementPieces text = ps ++ p :: garbage)
      (before : ps.map Piece.text = b.before) (plain : ∀ t ∈ b.before, ¬ CopyStatement t)
      (statement : p.text = b.statement) (copies : CopyStatement b.statement)
      (white : ∀ c ∈ trail, isSpace c = true)
      (block : text.drop p.stop = trail ++ (';' : CodeUnit) :: b.behind after)
      (close : b.close = [newline] ∨ b.close = [] ∧ after = [])
      (rest : Script after blocks last) : Script text (b :: blocks) last

def statementCalls (text : Text) : List Call := if startsWith (units "\\") text then [] else [.exec text]

def callsOf (texts : List Text) : List Call := texts.flatMap statementCalls

def scriptCalls : List CopyBlock → List Text → List Call
  | [], last => callsOf last
  | b :: blocks, last => callsOf b.before ++ .copyIn b.statement b.texts :: scriptCalls blocks last

end Scripts

section Conditions

structure Tidy (executor : ScriptExecutor) (opts : RunScriptOptions) (b : CopyBlock) : Prop where
  others : ∀ t ∈ b.before, reCopyStdin t = false
  recognised : reCopyStdin b.statement = true
  gap : b.gap = [] ∨ b.gap = units "\r"
  close : b.close = [newline]
  asked : opts.continueOnError = true → executor.copyThrows b.statement b.texts = true →
    b.lines.length < executor.asks b.statement b.texts

structure TidyScript (executor : ScriptExecutor) (opts : RunScriptOptions) (blocks : List CopyBlock)
    (last : List Text) : Prop where
  blocks : ∀ b ∈ blocks, Tidy executor opts b
  last : ∀ t ∈ last, reCopyStdin t = false

end Conditions

end DatabaseAdmin.DumpRunner
