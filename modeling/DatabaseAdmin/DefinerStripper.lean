import DatabaseAdmin.Patterns
import DatabaseAdmin.SqlDialect

/-! The transform that takes the definer clauses out of a MySQL dump. Bytes pass as Latin-1 code
units, and the last bytes seen so far wait for the next chunk. -/
namespace DatabaseAdmin.DefinerStripper

open CodeUnits Patterns

abbrev Bytes := List UInt8

def fromLatin1 (bytes : Bytes) : Text := bytes.map UInt8.toNat

def toLatin1 (text : Text) : Bytes := text.map UInt8.ofNat

def quoted (mark : CodeUnit) : Pattern CodeUnit :=
  all [exactly [mark], .many (.either (.one (decide <| · ≠ mark)) (exactly [mark, mark])), exactly [mark]]

def accountPart (bare : CodeUnit → Bool) : Pattern CodeUnit :=
  .either (quoted backtick) (.either (quoted apostrophe) (.either (quoted doubleQuote) (oneOrMore (.one bare))))

def whites : Pattern CodeUnit := .many (.one isWhite)

def definer : Text := units "DEFINER"

def definerRe : Pattern CodeUnit :=
  all [exactly definer, whites, exactly (units "="), whites,
    accountPart (fun c => !isWhite c && c != '@'), exactly (units "@"),
    accountPart (fun c => !isWhite c && c != '('), whites]

def definerCommentRe : Pattern CodeUnit :=
  all [exactly (units "/*!"), .one isDigit, .one isDigit, .one isDigit, .one isDigit, .one isDigit,
    exactly (units " DEFINER"), whites, exactly (units "="), .many (.one (decide <| · ≠ 42)), exactly (units "*/")]

def securityRe : Pattern CodeUnit := all [exactly (units "SQL SECURITY DEFINER")]

def dropComments (text : Text) : Text := replaceAll definerCommentRe [] text

def dropClauses (text : Text) : Text := replaceAll definerRe [] text

def invokeAll (text : Text) : Text := replaceAll securityRe (units "SQL SECURITY INVOKER") text

def includes (word text : Text) : Bool := (indexOf word text).isSome

def rewrite (text : Text) : Text :=
  if !includes definer text then text else invokeAll (dropClauses (dropComments text))

def rewriteBytes (bytes : Bytes) : Bytes := toLatin1 (rewrite (fromLatin1 bytes))

def definerCarryBytes : Nat := 1024

def transform (carry chunk : Bytes) : Bytes × List Bytes :=
  let buf := if carry.length = 0 then chunk else carry ++ chunk
  let keep := min definerCarryBytes buf.length
  let body := buf.take (buf.length - keep)
  (buf.drop (buf.length - keep), if body.length = 0 then [] else [rewriteBytes body])

def flush (carry : Bytes) : List Bytes := if carry.length ≠ 0 then [rewriteBytes carry] else []

def stripFrom (carry : Bytes) : List Bytes → List Bytes
  | [] => flush carry
  | chunk :: rest => (transform carry chunk).2 ++ stripFrom (transform carry chunk).1 rest

def strip (chunks : List Bytes) : Bytes := (stripFrom [] chunks).flatten

def piecesFrom (carry : Bytes) : List Bytes → List Bytes
  | [] => [carry]
  | chunk :: rest =>
    let buf := carry ++ chunk
    buf.take (buf.length - definerCarryBytes) :: piecesFrom (buf.drop (buf.length - definerCarryBytes)) rest

def pieces (chunks : List Bytes) : List Text := (piecesFrom [] chunks).map fromLatin1

structure ClausesWhole (texts : List Text) : Prop where
  comments : Uncut definerCommentRe texts
  clauses : Uncut definerRe (texts.map dropComments)
  security : Uncut securityRe ((texts.map dropComments).map dropClauses)

section Passes

theorem commentsConsuming : Consuming definerCommentRe := startsConsuming (by decide)

theorem clausesConsuming : Consuming definerRe := startsConsuming (by decide)

theorem securityConsuming : Consuming securityRe := startsConsuming (by decide)

theorem includesIff {word text : Text} : includes word text = true ↔ word <:+: text := by
  constructor
  · intro inside
    obtain ⟨n, start⟩ := Option.isSome_iff_exists.mp inside
    exact (indexOfFits start).1.isInfix.trans (List.drop_suffix n text).isInfix
  · intro inside
    induction text with
    | nil =>
      rw [List.infix_nil.mp inside]
      rfl
    | cons c rest ih =>
      by_cases head : startsWith word (c :: rest) = true
      · simp [includes, indexOf, head]
      · rcases List.infix_cons_iff.mp inside with start | later
        · exact absurd (startsWithIff.mpr start) head
        · simpa [includes, indexOf, head] using ih later

theorem definerInside {p : Pattern CodeUnit} {put : Text} {text : Text} (consuming : Consuming p)
    (needs : ∀ t n, n ∈ ends p t → definer <:+: t) (missing : ¬definer <:+: text) : replaceAll p put text = text := by
  refine replaceNowhere consuming fun s behind => ?_
  cases matched : found p s with
  | none => rfl
  | some n => exact absurd ((needs s n (foundMem matched)).trans behind.isInfix) missing

theorem passesSkip {text : Text} (missing : ¬definer <:+: text) : invokeAll (dropClauses (dropComments text)) = text := by
  have comments : dropComments text = text := by
    refine definerInside commentsConsuming (fun t n mem => ?_) missing
    have space : units " DEFINER" <:+: t := exactlyInside (by simp) mem
    exact List.IsInfix.trans (by decide) space
  have clauses : dropClauses text = text :=
    definerInside clausesConsuming (fun t n mem => (exactlyInside (by simp) mem)) missing
  have security : invokeAll text = text := by
    refine definerInside securityConsuming (fun t n mem => ?_) missing
    have phrase : units "SQL SECURITY DEFINER" <:+: t := exactlyInside (by simp) mem
    exact List.IsInfix.trans (by decide) phrase
  rw [comments, clauses, security]

theorem rewritePasses (text : Text) : rewrite text = invokeAll (dropClauses (dropComments text)) := by
  rw [rewrite]
  split
  · rename_i absent
    refine (passesSkip fun inside => ?_).symm
    rw [includesIff.mpr inside] at absent
    exact absurd absent (by decide)
  · rfl

theorem rewriteWhole {texts : List Text} (clear : ClausesWhole texts) :
    (texts.map rewrite).flatten = rewrite texts.flatten := by
  have comments : (texts.map dropComments).flatten = dropComments texts.flatten :=
    replaceUncut commentsConsuming clear.comments
  have clauses : ((texts.map dropComments).map dropClauses).flatten = dropClauses (texts.map dropComments).flatten :=
    replaceUncut clausesConsuming clear.clauses
  have security : (((texts.map dropComments).map dropClauses).map invokeAll).flatten =
      invokeAll ((texts.map dropComments).map dropClauses).flatten :=
    replaceUncut securityConsuming clear.security
  rw [rewritePasses, ← comments, ← clauses, ← security, List.map_map, List.map_map]
  exact congrArg List.flatten (List.map_congr_left fun t _ => rewritePasses t)

end Passes

section Stream

theorem piecesJoin (carry : Bytes) (chunks : List Bytes) : (piecesFrom carry chunks).flatten = carry ++ chunks.flatten := by
  induction chunks generalizing carry with
  | nil => simp [piecesFrom]
  | cons chunk rest ih =>
    rw [piecesFrom, List.flatten_cons, ih, ← List.append_assoc, List.take_append_drop, List.flatten_cons, List.append_assoc]

theorem rewriteNothing : rewriteBytes [] = [] := by decide

theorem transformParts (carry chunk : Bytes) :
    (transform carry chunk).1 = (carry ++ chunk).drop ((carry ++ chunk).length - definerCarryBytes) ∧
      (transform carry chunk).2.flatten = rewriteBytes ((carry ++ chunk).take ((carry ++ chunk).length - definerCarryBytes)) := by
  have joined : (if carry.length = 0 then chunk else carry ++ chunk) = carry ++ chunk := by
    split
    · rename_i none
      rw [List.eq_nil_of_length_eq_zero none, List.nil_append]
    · rfl
  have kept : ∀ buf : Bytes, buf.length - min definerCarryBytes buf.length = buf.length - definerCarryBytes := by
    intro buf
    omega
  simp only [transform, joined, kept, true_and]
  split
  · rename_i none
    rw [List.eq_nil_of_length_eq_zero none, rewriteNothing]
    rfl
  · exact List.append_nil _

theorem flushParts (carry : Bytes) : (flush carry).flatten = rewriteBytes carry := by
  rw [flush]
  split
  · exact List.append_nil _
  · rename_i none
    rw [List.eq_nil_of_length_eq_zero (not_not.mp none), rewriteNothing]
    rfl

theorem stripPieces (carry : Bytes) (chunks : List Bytes) :
    (stripFrom carry chunks).flatten = ((piecesFrom carry chunks).map rewriteBytes).flatten := by
  induction chunks generalizing carry with
  | nil =>
    rw [stripFrom, flushParts]
    exact (List.append_nil _).symm
  | cons chunk rest ih =>
    obtain ⟨held, out⟩ := transformParts carry chunk
    rw [stripFrom, List.flatten_append, ih, held, out]
    rfl

theorem stripCutFree (chunks : List Bytes) (clear : ClausesWhole (pieces chunks)) :
    strip chunks = rewriteBytes chunks.flatten := by
  have rewritten := rewriteWhole clear
  have whole : (pieces chunks).flatten = fromLatin1 chunks.flatten := by
    rw [pieces, fromLatin1, ← List.nil_append chunks.flatten, ← piecesJoin [] chunks, List.map_flatten]
    rfl
  rw [whole] at rewritten
  rw [strip, stripPieces, rewriteBytes, ← rewritten, toLatin1, List.map_flatten, pieces, List.map_map, List.map_map]
  rfl

end Stream

section Examples

def clauseBytes : Bytes := toLatin1 (units "DEFINER=a@b ")

def clauseBefore : List Bytes := [clauseBytes ++ List.replicate 1024 120]

def clauseAcross : List Bytes := [clauseBytes ++ List.replicate 1015 120]

theorem clauseBeforeStripped : strip clauseBefore = rewriteBytes clauseBefore.flatten :=
  stripCutFree clauseBefore ⟨by decide +kernel, by decide +kernel, by decide +kernel⟩

theorem clauseSurvives : ¬∀ chunks : List Bytes, strip chunks = rewriteBytes chunks.flatten := by
  intro same
  have kept := same clauseAcross
  have lengths : (strip clauseAcross).length = 1027 ∧ (rewriteBytes clauseAcross.flatten).length = 1015 := by
    decide +kernel
  rw [kept] at lengths
  omega

end Examples

end DatabaseAdmin.DefinerStripper
