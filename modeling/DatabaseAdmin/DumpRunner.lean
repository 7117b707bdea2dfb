import DatabaseAdmin.DumpDrain

/-! `runSqlScript`: statements are executed as they are drained, and the lines of a COPY block go
from the same buffer to the executor. -/
namespace DatabaseAdmin.DumpRunner
open CodeUnits

structure Reader where
  pending : Text
  eof : Bool
  chunks : List Text
  ending : Text
  deriving DecidableEq

def Reader.fill (r : Reader) : Reader :=
  match r.chunks with
  | chunk :: chunks => { r with pending := r.pending ++ chunk, chunks := chunks }
  | [] => { r with pending := r.pending ++ r.ending, eof := true }

def Reader.remaining (r : Reader) : Text := r.pending ++ (r.chunks.flatten ++ if r.eof then [] else r.ending)

def Reader.fills (r : Reader) : Nat := r.chunks.length + if r.eof then 0 else 1

theorem fillsLess {r : Reader} (more : r.eof = false) : r.fill.fills < r.fills := by
  obtain ⟨pending, eof, chunks, ending⟩ := r
  obtain rfl : eof = false := more
  cases chunks <;> simp [Reader.fill, Reader.fills]

def consume (n : Int) (text : Text) : Text := if n ≤ 0 then text else text.drop n.toNat

section Statements

def isWordUnit (c : CodeUnit) : Bool :=
  (48 ≤ c && c ≤ 57) || (65 ≤ c && c ≤ 90) || (97 ≤ c && c ≤ 122) || c == 95

def wordAt (word : String) (text : Text) : Bool :=
  startsWith (units word) (text.map lowerUnit) && (text.drop (units word).length).head?.all (fun c => !isWordUnit c)

def fromStdinAt (text : Text) : Bool :=
  wordAt "from" text && (text.drop 4).head?.any isWhite && wordAt "stdin" ((text.drop 4).dropWhile isWhite)

def fromStdinIn (before : CodeUnit) : Text → Bool
  | [] => false
  | c :: rest => (!isWordUnit before && fromStdinAt (c :: rest)) || fromStdinIn c rest

def reCopyStdin (text : Text) : Bool :=
  let text := text.dropWhile isWhite
  wordAt "copy" text && fromStdinIn 'y' (text.drop 4)

end Statements

section Copy

def copyTerminator : Text := units "\\."

def chomp (raw : Text) : Text := if raw.getLast? = some 13 then raw.dropLast else raw

def nextLine (r : Reader) : Option Text × Reader :=
  match indexOf (units "\n") r.pending with
  | some nl =>
      let rest := { r with pending := r.pending.drop (nl + 1) }
      if chomp (r.pending.take nl) = copyTerminator then (none, rest) else (some (r.pending.take (nl + 1)), rest)
  | none =>
      if _more : r.eof = false then nextLine r.fill
      else if r.pending = [] then (none, r)
      else (some r.pending, { r with pending := [] })
termination_by r.fills
decreasing_by exact fillsLess _more

def pull : Nat → Reader → List Text × Reader × Bool
  | 0, r => ([], r, false)
  | n + 1, r => match nextLine r with
    | (none, r) => ([], r, true)
    | (some line, r) =>
        let (lines, r, ended) := pull n r
        (line :: lines, r, ended)

def pullBlock (r : Reader) : List Text × Reader × Bool := pull (r.remaining.length + 1) r

structure ScriptExecutor where
  refuses : Text → Bool
  asks : Text → List Text → Nat
  copyThrows : Text → List Text → Bool

inductive Call where
  | exec (sql : Text)
  | copyIn (sql : Text) (lines : List Text)
  deriving DecidableEq

structure CopyOutcome where
  lines : List Text
  reader : Reader
  threw : Bool

def consumeCopyBlock (executor : ScriptExecutor) (sql : Text) (r : Reader) : CopyOutcome :=
  let offered := (pullBlock r).1
  let (_, after, ended) := pull (executor.asks sql offered) r
  if executor.copyThrows sql offered then ⟨offered, after, true⟩
  else ⟨offered, if ended then after else (pullBlock after).2.1, false⟩

end Copy

section Run

structure RunScriptOptions where
  continueOnError : Bool
  maxStatementBytes : Nat
  byteLength : Text → Nat

inductive Walked where
  | through (calls : List Call)
  | copy (calls : List Call) (sql : Text) (offset : Int)
  | threw (calls : List Call)

def Walked.after (call : Call) : Walked → Walked
  | .through calls => .through (call :: calls)
  | .copy calls sql offset => .copy (call :: calls) sql offset
  | .threw calls => .threw (call :: calls)

def walkStatements (executor : ScriptExecutor) (opts : RunScriptOptions) : List ParsedStatement → Walked
  | [] => .through []
  | stmt :: rest =>
      if startsWith (units "\\") stmt.text then walkStatements executor opts rest
      else if reCopyStdin stmt.text then .copy [] stmt.text stmt.afterTerminator
      else if executor.refuses stmt.text && !opts.continueOnError then .threw [.exec stmt.text]
      else (walkStatements executor opts rest).after (.exec stmt.text)

structure RunState where
  reader : Reader
  delimiter : Delimiter
  parseAt : Nat

inductive RunTurn where
  | stop (calls : List Call)
  | threw (calls : List Call)
  | next (state : RunState) (calls : List Call)

def pastLineBreak (text : Text) : Text :=
  if startsWith (units "\n") text then text.drop 1
  else if startsWith (units "\r\n") text then text.drop 2
  else text

def copyTurn (executor : ScriptExecutor) (opts : RunScriptOptions) (s : RunState) (calls : List Call) (sql : Text)
    (offset : Int) : RunTurn :=
  let block := consumeCopyBlock executor sql
    { s.reader with pending := pastLineBreak (consume offset s.reader.pending) }
  let calls := calls ++ [.copyIn sql block.lines]
  if block.threw && !opts.continueOnError then .threw calls else .next { s with reader := block.reader } calls

def walkedTurn (executor : ScriptExecutor) (opts : RunScriptOptions) (s : RunState) (parsed : DrainResult) : RunTurn :=
  match walkStatements executor opts parsed.statements with
  | .threw calls => .threw calls
  | .copy calls sql offset => copyTurn executor opts s calls sql offset
  | .through calls =>
      let rest := consume parsed.cut s.reader.pending
      if s.reader.eof && trim rest = [] then .stop calls
      else .next { s with delimiter := parsed.delimiter, reader := { s.reader with pending := rest } } calls

def runTurn (dialect : SqlDialect) (executor : ScriptExecutor) (opts : RunScriptOptions) (s : RunState) : RunTurn :=
  if !s.reader.eof && decide (s.reader.pending.length < s.parseAt) then .next { s with reader := s.reader.fill } []
  else
    let parsed := drain s.reader.pending s.delimiter dialect s.reader.eof
    if parsed.statements = [] then
      if s.reader.eof then .stop []
      else if opts.maxStatementBytes < opts.byteLength s.reader.pending then .threw []
      else .next { s with parseAt := max s.parseAt s.reader.pending.length * 2, reader := s.reader.fill } []
    else walkedTurn executor opts { s with parseAt := minParseChars } parsed

structure ScriptRun where
  calls : List Call
  threw : Bool
  deriving DecidableEq

def runLoop (dialect : SqlDialect) (executor : ScriptExecutor) (opts : RunScriptOptions) :
    Nat → RunState → Option ScriptRun
  | 0, _ => none
  | fuel + 1, s => match runTurn dialect executor opts s with
    | .stop calls => some ⟨calls, false⟩
    | .threw calls => some ⟨calls, true⟩
    | .next s calls => (runLoop dialect executor opts fuel s).map (fun run => { run with calls := calls ++ run.calls })

def byteOrderMark : CodeUnit := 0xFEFF

def fillFirst (r : Reader) : Reader :=
  if _more : r.eof = false ∧ r.pending = [] then fillFirst r.fill else r
termination_by r.fills
decreasing_by exact fillsLess _more.1

def unmark (r : Reader) : Reader :=
  { r with pending := if r.pending.head? = some byteOrderMark then r.pending.drop 1 else r.pending }

def runSqlScript (dialect : SqlDialect) (executor : ScriptExecutor) (opts : RunScriptOptions) (chunks : List Text)
    (ending : Text) (fuel : Nat) : Option ScriptRun :=
  runLoop dialect executor opts fuel ⟨unmark (fillFirst ⟨[], false, chunks, ending⟩), .semicolon, minParseChars⟩

end Run

end DatabaseAdmin.DumpRunner
