import DatabaseAdmin.ScanLoop
import DatabaseAdmin.DelimiterCommand

/-! The statement splitter. One move of its loop is named by `splitMove`, in the order in which the
source tests; `splitStep` is what the move does. -/
namespace DatabaseAdmin
open CodeUnits ScanLoop

structure SqlStatement where
  text : Text
  start : Nat
  stop : Nat
  line : Nat
  delimiter : Delimiter
  deriving DecidableEq

def lineStarts (sql : Text) : List Nat :=
  0 :: (sql.zipIdx.filter (fun unit : CodeUnit × Nat => unit.1 == '\n')).map (fun unit => unit.2 + 1)

def lineSearch (starts : List Nat) (offset : Nat) : Nat → Nat → Nat → Nat
  | 0, lo, _ => lo
  | fuel+1, lo, hi =>
      if lo < hi then
        let mid := (lo + hi + 1) / 2
        if starts.getD mid 0 ≤ offset then lineSearch starts offset fuel mid hi
        else lineSearch starts offset fuel lo (mid - 1)
      else lo

def lineAt (starts : List Nat) (offset : Nat) : Nat :=
  lineSearch starts offset starts.length 0 (starts.length - 1) + 1

structure SplitState where
  chunkStart : Nat
  delimiter : Delimiter
  sawContent : Bool
  deriving DecidableEq

structure Piece where
  text : Text
  start : Nat
  stop : Nat
  delimiter : Delimiter
  deriving DecidableEq

def chunkOf (s : SplitState) (before : Text) : Text := before.reverse.drop s.chunkStart

def flush (s : SplitState) (before : Text) : List Piece :=
  if !s.sawContent then [] else
  let chunk := chunkOf s before
  let start := s.chunkStart + (chunk.takeWhile isSpace).length
  let text := trimBy isSpace chunk
  if text = [] then [] else [⟨text, start, start + text.length, s.delimiter⟩]

inductive SplitMove where
  | space
  | command (cmd : DelimiterCommand)
  | form (opener : Opener)
  | terminator
  | unit
  deriving DecidableEq

def commandAt (rules : DialectRules) (s : SplitState) (before text : Text) :
    Option DelimiterCommand :=
  if rules.delimiterCommand && !s.sawContent && (nextIs 'd' text || nextIs 'D' text) &&
      atLineStart before then delimiterCommandAt text else none

def splitMove (rules : DialectRules) (s : SplitState) (before : Text) (c : CodeUnit)
    (more : Text) : SplitMove :=
  if isSpace c then .space else
  match commandAt rules s before (c :: more) with
  | some cmd => .command cmd
  | none => match openerAt rules before (c :: more) with
    | some opener => .form opener
    | none => if startsWith s.delimiter.text (c :: more) then .terminator else .unit

def countsAsContent (rules : DialectRules) (text : Text) : Opener → Bool
  | .dashComment | .hashComment => false
  | .blockComment => rules.executableComments && nextIs '!' (text.drop 2)
  | _ => true

def splitStep (rules : DialectRules) : Step CodeUnit SplitState Piece
  | s, _, [] => ⟨s, 0, []⟩
  | s, before, c :: more =>
      match splitMove rules s before c more with
      | .space => ⟨s, 1, []⟩
      | .command cmd =>
          ⟨{ s with delimiter := cmd.delimiter, chunkStart := before.length + cmd.next },
            cmd.next, []⟩
      | .form opener =>
          ⟨{ s with sawContent := s.sawContent || countsAsContent rules (c :: more) opener },
            opener.scan rules (c :: more), []⟩
      | .terminator =>
          ⟨{ s with chunkStart := before.length + s.delimiter.text.length, sawContent := false },
            s.delimiter.text.length, flush s before⟩
      | .unit => ⟨{ s with sawContent := true }, 1, []⟩

def fresh (delimiter : Delimiter) (at_ : Nat) : SplitState := ⟨at_, delimiter, false⟩

def pieces (rules : DialectRules) (delimiter : Delimiter) (sql : Text) : List Piece :=
  runAt (splitStep rules) flush ⟨fresh delimiter 0, [], sql⟩

def splitStatements (sql : Text) (dialect : SqlDialect) : List SqlStatement :=
  let starts := lineStarts sql
  (pieces (rulesOf dialect) .semicolon sql).map
    (fun p => ⟨p.text, p.start, p.stop, lineAt starts p.start, p.delimiter⟩)

abbrev SplitConfig := Config CodeUnit SplitState

section Moves
variable {rules : DialectRules}

theorem commandAtFound {s : SplitState} {before text : Text} {cmd : DelimiterCommand}
    (found : commandAt rules s before text = some cmd) :
    rules.delimiterCommand = true ∧ s.sawContent = false ∧ atLineStart before = true ∧
      delimiterCommandAt text = some cmd := by
  unfold commandAt at found
  split at found
  · rename_i test
    simp only [Bool.and_eq_true, Bool.not_eq_true'] at test
    exact ⟨test.1.1.1, test.1.1.2, test.2, found⟩
  · contradiction

inductive Moves (rules : DialectRules) (s : SplitState) (before : Text) (c : CodeUnit)
    (more : Text) : SplitMove → Prop where
  | space (white : isSpace c = true) : Moves rules s before c more .space
  | command (cmd : DelimiterCommand) (ink : isSpace c = false)
      (found : commandAt rules s before (c :: more) = some cmd) :
      Moves rules s before c more (.command cmd)
  | form (opener : Opener) (ink : isSpace c = false)
      (quiet : commandAt rules s before (c :: more) = none)
      (found : openerAt rules before (c :: more) = some opener) :
      Moves rules s before c more (.form opener)
  | terminator (ink : isSpace c = false) (quiet : commandAt rules s before (c :: more) = none)
      (plain : openerAt rules before (c :: more) = none)
      (ends : startsWith s.delimiter.text (c :: more) = true) :
      Moves rules s before c more .terminator
  | unit (ink : isSpace c = false) (quiet : commandAt rules s before (c :: more) = none)
      (plain : openerAt rules before (c :: more) = none)
      (inside : startsWith s.delimiter.text (c :: more) = false) :
      Moves rules s before c more .unit

theorem splitMoves (rules : DialectRules) (s : SplitState) (before : Text) (c : CodeUnit) (more : Text) :
    Moves rules s before c more (splitMove rules s before c more) := by
  unfold splitMove
  split
  · rename_i white
    exact .space white
  · rename_i ink
    have ink := eq_false_of_ne_true ink
    split
    · rename_i cmd found
      exact .command cmd ink found
    · rename_i quiet
      split
      · rename_i opener found
        exact .form opener ink quiet found
      · rename_i plain
        split
        · rename_i ends
          exact .terminator ink quiet plain ends
        · rename_i inside
          exact .unit ink quiet plain (eq_false_of_ne_true inside)

theorem splitProgress (rules : DialectRules) : Progress (splitStep rules) := by
  intro s before rest some
  cases rest with
  | nil => exact absurd rfl some
  | cons c more =>
    have moves := splitMoves rules s before c more
    simp only [splitStep]
    generalize splitMove rules s before c more = move at moves ⊢
    cases moves with
    | space white => exact Nat.one_pos
    | command cmd ink found => exact (commandNext (commandAtFound found).2.2.2).1
    | form opener ink quiet found => exact openerPositive found
    | terminator ink quiet plain ends => exact List.length_pos_iff.mpr s.delimiter.nonempty
    | unit ink quiet plain inside => exact Nat.one_pos

end Moves

end DatabaseAdmin
