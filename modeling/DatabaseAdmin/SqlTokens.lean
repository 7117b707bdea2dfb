import DatabaseAdmin.ScanLoop
import DatabaseAdmin.SqlScanners

/-! The tokenizer behind the statement guards. Its state is the parenthesis depth;
`(` and `)` report the outer depth. -/
namespace DatabaseAdmin
open CodeUnits ScanLoop

inductive TokenKind where
  | word | quoted | string | number | punct
  deriving DecidableEq, Repr

structure SqlToken where
  kind : TokenKind
  text : Text
  upper : Text
  start : Nat
  depth : Nat
  deriving DecidableEq, Repr

def upperUnit (c : CodeUnit) : Text :=
  if 97 ≤ c ∧ c ≤ 122 then [c - 32]
  else if c = 0x131 then units "I"
  else if c = 0x17F then units "S"
  else if c = 0xDF then units "SS"
  else if c = 0xFB00 then units "FF"
  else if c = 0xFB01 then units "FI"
  else if c = 0xFB02 then units "FL"
  else if c = 0xFB03 then units "FFI"
  else if c = 0xFB04 then units "FFL"
  else if c = 0xFB05 then units "ST"
  else if c = 0xFB06 then units "ST"
  else [c]

def toUpperCase (text : Text) : Text := text.flatMap upperUnit

def tokenOf (kind : TokenKind) (before rest : Text) (width depth : Nat) : SqlToken :=
  let text := rest.take width
  ⟨kind, text, if kind = .word then toUpperCase text else [], before.length, depth⟩

def openerKind : Opener → Option TokenKind
  | .dashComment | .hashComment | .blockComment => none
  | .escapeString | .plainString | .dollarQuoted _ => some .string
  | .doubleQuoted | .backtickQuoted | .bracketed => some .quoted

def tokenStep (rules : DialectRules) : Step CodeUnit Nat SqlToken
  | depth, _, [] => ⟨depth, 0, []⟩
  | depth, before, c :: more =>
      let push (kind : TokenKind) (width : Nat) : Turn Nat SqlToken :=
        ⟨depth, width, [tokenOf kind before (c :: more) width depth]⟩
      if isSpace c then ⟨depth, 1, []⟩ else
      match openerAt rules before (c :: more) with
      | some opener =>
          let width := opener.scan rules (c :: more)
          match openerKind opener with
          | none => ⟨depth, width, []⟩
          | some kind => push kind width
      | none =>
          if isIdentStart c then push .word (1 + (more.takeWhile isIdentPart).length)
          else if isDigit c then push .number (1 + (more.takeWhile isNumberPart).length)
          else if c == '(' then ⟨depth + 1, 1, [tokenOf .punct before (c :: more) 1 depth]⟩
          else if c == ')' then
            ⟨depth - 1, 1, [tokenOf .punct before (c :: more) 1 (depth - 1)]⟩
          else push .punct 1

def tokenize (sql : Text) (rules : DialectRules) : List SqlToken :=
  run (tokenStep rules) (fun _ _ => []) 0 0 [] sql

def undouble (quote : CodeUnit) : Text → Text
  | [] => []
  | [c] => [c]
  | c :: d :: rest =>
      if c == quote && d == quote then quote :: undouble quote rest
      else c :: undouble quote (d :: rest)

def identText (token : SqlToken) : Text :=
  if token.kind ≠ .quoted then token.text else
  let quote := token.text.headD 0
  if quote == '[' then
    if token.text.getLast? = some (']' : CodeUnit) then (token.text.drop 1).dropLast
    else token.text.drop 1
  else
    let body := if token.text.getLast? = some quote ∧ 1 < token.text.length
      then (token.text.drop 1).dropLast else token.text.drop 1
    undouble quote body

theorem tokenProgress (rules : DialectRules) : Progress (tokenStep rules) := by
  intro depth before rest some
  cases rest with
  | nil => exact absurd rfl some
  | cons c more =>
    simp only [tokenStep]
    split
    · exact Nat.one_pos
    · split
      · rename_i opener found
        have positive := openerPositive found
        split <;> exact positive
      · split
        · show 0 < 1 + _; omega
        · split
          · show 0 < 1 + _; omega
          · split
            · exact Nat.one_pos
            · split <;> exact Nat.one_pos

theorem tokenOut {rules : DialectRules} {c : Config CodeUnit Nat} {token : SqlToken}
    (member : token ∈ c.out (tokenStep rules)) :
    ∃ kind width depth, token = tokenOf kind c.before c.rest width depth := by
  obtain ⟨depth, before, rest⟩ := c
  cases rest with
  | nil => simp [Config.out, tokenStep] at member
  | cons c more =>
    simp only [Config.out, tokenStep] at member
    repeat' split at member
    all_goals first
      | simp at member; done
      | exact ⟨_, _, _, List.mem_singleton.mp member⟩

theorem tokenUpper {sql : Text} {rules : DialectRules} {token : SqlToken} (member : token ∈ tokenize sql rules) :
    token.upper = if token.kind = .word then toUpperCase token.text else [] := by
  have here : token ∈ runAt (tokenStep rules) (fun _ _ => []) ⟨0, [], sql⟩ := member
  obtain ⟨outs, c, -, read | ended⟩ := runMember (tokenProgress rules) here
  · obtain ⟨kind, width, depth, rfl⟩ := tokenOut read.2
    rfl
  · exact absurd ended.2 List.not_mem_nil

end DatabaseAdmin
