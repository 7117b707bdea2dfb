import DatabaseAdmin.DefinerStripper
import DatabaseAdmin.SqlTokens
import Mathlib.Data.List.Nodup

/-! What the definer transform takes out of a dump, unit by unit, against the definer clauses the
tokenizer sees there. -/
namespace DatabaseAdmin.DefinerClauses

open CodeUnits ScanLoop Patterns DefinerStripper

abbrev Mark := CodeUnit × Option Nat

def tagged (text : Text) : List Mark := text.zipIdx.map fun x => (x.1, some x.2)

def onMarks (p : Pattern CodeUnit) : Pattern Mark := reading Prod.fst p

def commentsDropped (text : Text) : List Mark := replaceAll (onMarks definerCommentRe) [] (tagged text)

def clausesDropped (text : Text) : List Mark := replaceAll (onMarks definerRe) [] (commentsDropped text)

def tracked (text : Text) : List Mark :=
  replaceAll (onMarks securityRe) ((units "SQL SECURITY INVOKER").map fun u => (u, none)) (clausesDropped text)

def mysqlRules : DialectRules := rulesOf .mysql

def versionBody (comment : Text) : Option (Nat × Text) :=
  if startsWith (units "/*!") comment then
    let version := ((comment.drop 3).takeWhile isDigit).length
    let body := comment.drop (3 + version)
    some (3 + version, body.take (body.length - 2))
  else none

def commentAt (before rest : Text) : Option Text :=
  match openerAt mysqlRules before rest with
  | some .blockComment => some (rest.take (scanBlockComment mysqlRules.nestedBlockComments rest))
  | _ => none

def bodyTokens (at' : Nat) (comment : Text) : List SqlToken :=
  match versionBody comment with
  | some (lead, body) => (tokenize body mysqlRules).map fun t => { t with start := at' + lead + t.start }
  | none => []

def executed (text : Text) : List SqlToken :=
  run (relabel (fun depth before rest =>
    match commentAt before rest with
    | some comment => bodyTokens before.length comment
    | none => (tokenStep mysqlRules depth before rest).out) (tokenStep mysqlRules)) (fun _ _ => []) 0 0 [] text

def versionComments (text : Text) : List (Nat × Text) :=
  run (relabel (fun _ before rest => (commentAt before rest).toList.map (before.length, ·)) (tokenStep mysqlRules))
    (fun _ _ => []) 0 0 [] text

def isAccount (t : SqlToken) : Bool := t.kind = .word ∨ t.kind = .quoted ∨ t.kind = .string

def tokenEnd (t : SqlToken) : Nat := t.start + t.text.length

def definerEnd : List SqlToken → Option Nat
  | d :: e :: user :: a :: host :: _ =>
    if d.upper = definer ∧ e.text = units "=" ∧ isAccount user ∧ a.text = units "@" ∧ isAccount host
    then some (tokenEnd host) else none
  | _ => none

def securityEnd : List SqlToken → Option Nat
  | s :: y :: d :: _ =>
    if s.upper = units "SQL" ∧ y.upper = units "SECURITY" ∧ d.upper = definer then some (tokenEnd d) else none
  | _ => none

def createClauses (creating fresh : Bool) : List SqlToken → List (Nat × Nat)
  | [] => []
  | t :: rest =>
    if t.text = units ";" then createClauses false true rest
    else
      let creating := if fresh then t.upper == units "CREATE" else creating
      let here := if creating then (definerEnd (t :: rest) <|> securityEnd (t :: rest)).toList.map (t.start, ·) else []
      here ++ createClauses creating false rest

def clauseSpans (text : Text) : List (Nat × Nat) :=
  (createClauses false true (executed text)).map fun x => (x.1, x.2 + ((text.drop x.2).takeWhile isWhite).length)

def clauseComments (text : Text) : List (Nat × Nat) :=
  ((versionComments text).filter fun (at', comment) =>
    (bodyTokens at' comment).head?.any fun t => (clauseSpans text).any (·.1 = t.start)).map
    fun (at', comment) => (at', at' + comment.length)

def inClause (text : Text) (i : Nat) : Bool :=
  (clauseSpans text ++ clauseComments text).any fun x => decide (x.1 ≤ i ∧ i < x.2)

def KeepsRest (text : Text) : Prop :=
  ∀ x ∈ text.zipIdx, inClause text x.2 = false → (x.1, some x.2) ∈ tracked text

structure MatchesInClauses (text : Text) : Prop where
  comments : ∀ x ∈ taken (onMarks definerCommentRe) (tagged text), x.2.all (inClause text) = true
  clauses : ∀ x ∈ taken (onMarks definerRe) (commentsDropped text), x.2.all (inClause text) = true
  security : ∀ x ∈ taken (onMarks securityRe) (clausesDropped text), x.2.all (inClause text) = true

section Tracking

theorem trackedRewrite (text : Text) : (tracked text).map Prod.fst = rewrite text := by
  have start : (tagged text).map Prod.fst = text := by
    rw [tagged, List.map_map]
    exact List.zipIdx_map_fst 0 text
  have comments : (commentsDropped text).map Prod.fst = dropComments text := by
    rw [commentsDropped, replaceAll, onMarks, replaceReading, start]
    rfl
  have clauses : (clausesDropped text).map Prod.fst = dropClauses (dropComments text) := by
    rw [clausesDropped, replaceAll, onMarks, replaceReading, comments]
    rfl
  rw [tracked, replaceAll, onMarks, replaceReading, clauses, rewritePasses, List.map_map]
  exact congrArg (fun put => replaceFrom securityRe put 0 _) (List.map_id _)

theorem taggedOnce (text : Text) : (tagged text).Nodup := by
  refine List.Nodup.of_map Prod.snd ?_
  rw [tagged, List.map_map]
  have offsets : text.zipIdx.map (Prod.snd ∘ fun x => ((x.1, some x.2) : Mark)) = (List.range text.length).map some := by
    rw [List.range_eq_range', ← List.zipIdx_map_snd 0 text, List.map_map]
    rfl
  rw [offsets]
  exact List.Nodup.map (fun _ _ same => Option.some.inj same) List.nodup_range

theorem commentsOnce (text : Text) : (commentsDropped text).Nodup := (taggedOnce text).sublist (removedSublist 0 _)

theorem clausesOnce (text : Text) : (clausesDropped text).Nodup := (commentsOnce text).sublist (removedSublist 0 _)

theorem trackedIff {text : Text} {c : CodeUnit} {i : Nat} (stands : (c, i) ∈ text.zipIdx) :
    (c, some i) ∈ tracked text ↔ (c, some i) ∉ taken (onMarks definerCommentRe) (tagged text) ∧
      (c, some i) ∉ taken (onMarks definerRe) (commentsDropped text) ∧
      (c, some i) ∉ taken (onMarks securityRe) (clausesDropped text) := by
  have written : ((c, some i) : Mark) ∉ (units "SQL SECURITY INVOKER").map fun u => (u, none) := by simp
  have first : ((c, some i) : Mark) ∈ tagged text := List.mem_map.mpr ⟨(c, i), stands, rfl⟩
  have comments : (c, some i) ∈ commentsDropped text ↔ _ := survivorIff (taggedOnce text) List.not_mem_nil
  have clauses : (c, some i) ∈ clausesDropped text ↔ _ := survivorIff (commentsOnce text) List.not_mem_nil
  have security : (c, some i) ∈ tracked text ↔ _ := survivorIff (clausesOnce text) written
  rw [security, clauses, comments, and_iff_right first, and_assoc]
  rfl

theorem takenOrigin {text : Text} {p : Pattern Mark} {t : List Mark} {x : Mark} (inside : t.Sublist (tagged text))
    (mem : x ∈ taken p t) : ∃ i, x.2 = some i ∧ (x.1, i) ∈ text.zipIdx := by
  obtain ⟨y, stands, rfl⟩ := List.mem_map.mp (inside.subset (takenMem mem))
  exact ⟨y.2, rfl, stands⟩

def viewDump : Text := units
  "/*!50001 CREATE ALGORITHM=UNDEFINED */\n/*!50013 DEFINER=`root`@`%` SQL SECURITY DEFINER */\n/*!50001 VIEW `v` AS SELECT 1 */;\n"

def routineDump : Text := units "DELIMITER ;;\nCREATE DEFINER=`root`@`%` PROCEDURE `p`()\n    SQL SECURITY DEFINER\nSELECT 1 ;;"

def rowDump : Text := units "INSERT INTO `t` VALUES ('DEFINER=a@b');"

example : rewrite viewDump = units "/*!50001 CREATE ALGORITHM=UNDEFINED */\n\n/*!50001 VIEW `v` AS SELECT 1 */;\n" := by
  decide +kernel

example : viewDump.zipIdx.all (fun x => inClause viewDump x.2 || decide ((x.1, some x.2) ∈ tracked viewDump)) = true := by
  decide +kernel

example : routineDump.zipIdx.all (fun x => inClause routineDump x.2 || decide ((x.1, some x.2) ∈ tracked routineDump)) = true := by
  decide +kernel

end Tracking

end DatabaseAdmin.DefinerClauses
