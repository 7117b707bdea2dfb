import DatabaseAdmin.SqlScripts

/-! Definitions whose body is a block of statements. A segment is what stands between two of
the terminators that end the inner statements; the header belongs to the first one. -/
namespace DatabaseAdmin.CompoundBodies
open CodeUnits ScanLoop SqlFragments SqlScripts

inductive Kind where
  | trigger | atomicFunction
  deriving DecidableEq

namespace Kind

def dialect : Kind → SqlDialect
  | trigger => .sqlite
  | atomicFunction => .postgres

def noun : Kind → Text
  | trigger => units "trigger"
  | atomicFunction => units "function"

def opening : Kind → Text
  | trigger => units "begin"
  | atomicFunction => units "atomic"

end Kind

def lowered (text : Text) : Text := text.map lowerUnit

def segments (header : Text) (statements : List Text) (closing : Text) : List Text :=
  match statements with
  | [] => [header ++ closing]
  | first :: rest => (header ++ first) :: rest ++ [closing]

structure Compound where
  kind : Kind
  header : Text
  statements : List Text
  closing : Text
  creates : units "create" <+: lowered header
  names : kind.noun <:+: lowered header
  begins : kind.opening <:+ lowered header
  ends : units "end" <:+ lowered closing
  shut : ∀ segment ∈ segments header statements closing, closed (rulesOf kind.dialect) segment = true

def shown : SplitState := ⟨0, .semicolon, true⟩

def Compound.text (d : Compound) : Text :=
  d.header ++ d.statements.flatMap (· ++ [59]) ++ d.closing

namespace Compound
variable (d : Compound)

theorem dialectQuiet : (rulesOf d.kind.dialect).delimiterCommand = false := by
  cases d.kind <;> rfl

theorem headerStarts : ∃ c rest, d.header = c :: rest ∧ (c = 67 ∨ c = 99) := by
  have creates := d.creates
  cases header : d.header with
  | nil => simp [header, lowered, units] at creates
  | cons c rest =>
    refine ⟨c, rest, rfl, ?_⟩
    rw [header] at creates
    have first : 99 = lowerUnit c := (List.cons_prefix_cons.mp creates).1
    unfold lowerUnit at first
    split at first
    · exact Or.inl (Nat.add_right_cancel (show 67 + 32 = c + 32 from first)).symm
    · exact Or.inr first.symm

theorem closingEnds : ∃ lead c, d.closing = lead ++ [c] ∧ isSpace c = false := by
  obtain ⟨before, whole⟩ := d.ends
  cases closing : d.closing.reverse with
  | nil =>
    rw [List.reverse_eq_nil_iff] at closing
    simp [closing, lowered, units] at whole
  | cons c rest =>
    have split : d.closing = rest.reverse ++ [c] := by
      rw [← List.reverse_reverse d.closing, closing, List.reverse_cons]
    refine ⟨rest.reverse, c, split, ?_⟩
    have last := congrArg List.getLast? whole
    rw [split] at last
    simp only [lowered, List.map_append, List.map_cons, List.map_nil, List.getLast?_concat] at last
    have lower : lowerUnit c = 100 := by
      rw [List.getLast?_append_of_ne_nil _ (by decide)] at last
      exact (Option.some.inj last).symm
    by_contra white
    rw [Bool.not_eq_false] at white
    simp only [isSpace, Bool.or_eq_true, beq_iff_eq] at white
    rcases white with ((((rfl | rfl) | rfl) | rfl) | rfl) | rfl <;> cases lower

theorem textBody (first : Text) (rest : List Text) (body : d.statements = first :: rest) :
    d.text = (d.header ++ first) ++ 59 :: (rest.flatMap (· ++ [59]) ++ d.closing) := by
  simp [text, body]

theorem textBare (body : d.statements = []) : d.text = d.header ++ d.closing := by
  simp [text, body]

theorem headerWalk {f : Text} (shut : closed (rulesOf d.kind.dialect) (d.header ++ f) = true) {more : Text}
    (back : Seam (d.header ++ f) more) :
    Walk (rulesOf d.kind.dialect) ⟨fresh .semicolon 0, [], d.header ++ f ++ more⟩
      ⟨shown, (d.header ++ f).reverse, more⟩ := by
  obtain ⟨c, rest, header, letter⟩ := d.headerStarts
  have inert := closedInert shut
  rw [header, List.cons_append] at inert back ⊢
  have off := d.dialectQuiet
  have walk := @shownWalk (rulesOf d.kind.dialect) (fresh .semicolon 0) [] more (rest ++ f) c rfl
    (by rcases letter with rfl | rfl <;> rfl) (by rcases letter with rfl | rfl <;> decide)
    (fun s => by simp [commandAt, off])
    (by rcases letter with rfl | rfl <;> simp [openerAt, apostrophe, doubleQuote, backtick]) inert
    (fun e last => by simp at last) back
  rwa [List.append_nil] at walk

theorem headerText (f : Text) :
    (flush shown (d.header ++ f).reverse).map Piece.text = [trimBy isSpace (d.header ++ f)] := by
  obtain ⟨c, rest, header, letter⟩ := d.headerStarts
  have chunk : chunkOf shown (d.header ++ f).reverse = d.header ++ f := by simp [chunkOf, shown]
  have texts := @flushText shown (d.header ++ f).reverse rfl c (by rw [chunk, header]; simp)
    (by rcases letter with rfl | rfl <;> rfl)
  rwa [chunk] at texts

theorem wholeWhen (body : d.statements = []) :
    (pieces (rulesOf d.kind.dialect) .semicolon d.text).map Piece.text = [d.text] := by
  have text := d.textBare body
  have shut : closed (rulesOf d.kind.dialect) (d.header ++ d.closing) = true :=
    d.shut _ (by simp [segments, body])
  have walk := @headerWalk d d.closing shut [] (fun _ _ e head => by simp at head)
  have run := runPath (splitProgress (rulesOf d.kind.dialect)) flush walk.path
  rw [List.append_nil] at run
  obtain ⟨c, rest, header, letter⟩ := d.headerStarts
  obtain ⟨lead, e, closing, ink⟩ := d.closingEnds
  have trimmed : trimBy isSpace d.text = d.text := by
    rw [text, header, closing, List.cons_append, trimByOpen (by rcases letter with rfl | rfl <;> rfl),
      ← List.cons_append, ← List.append_assoc, List.rdropWhile_concat_neg _ _ _ (by simp [ink])]
  rw [pieces, text, run, runAtEnd, List.nil_append, d.headerText, ← text, trimmed]

theorem cutWhen {first : Text} {rest : List Text} (body : d.statements = first :: rest) :
    ∃ later, (pieces (rulesOf d.kind.dialect) .semicolon d.text).map Piece.text
      = trimBy isSpace (d.header ++ first) :: later := by
  have shut : closed (rulesOf d.kind.dialect) (d.header ++ first) = true :=
    d.shut _ (by simp [segments, body])
  have walk := d.headerWalk shut
    (seamLeads (by rfl : leads (59 :: (rest.flatMap (· ++ [59]) ++ d.closing)) = true))
  have run := runPath (splitProgress (rulesOf d.kind.dialect)) flush
    (walk.path.trans (terminated rfl rfl))
  rw [pieces, d.textBody first rest body, run, List.nil_append, List.map_append, d.headerText]
  exact ⟨_, rfl⟩

end Compound

theorem bodiesStayWhole (d : Compound) :
    (splitStatements d.text d.kind.dialect).map SqlStatement.text = [d.text] ↔ d.statements = [] := by
  have texts : (splitStatements d.text d.kind.dialect).map SqlStatement.text
      = (pieces (rulesOf d.kind.dialect) .semicolon d.text).map Piece.text := by
    simp [splitStatements]
  rw [texts]
  constructor
  · intro whole
    cases body : d.statements with
    | nil => rfl
    | cons first rest =>
      obtain ⟨later, cut⟩ := d.cutWhen body
      have same : trimBy isSpace (d.header ++ first) = d.text := (List.cons.inj (cut.symm.trans whole)).1
      have size := congrArg List.length same
      have short : (trimBy isSpace (d.header ++ first)).length ≤ (d.header ++ first).length := by
        obtain ⟨trail, split, -⟩ := trimBySplit isSpace (d.header ++ first)
        have parts := congrArg List.length split
        simp only [List.length_append] at parts ⊢
        omega
      rw [d.textBody first rest body] at size
      simp only [List.length_append, List.length_cons] at size short
      omega
  · exact d.wholeWhen

def purge : Compound where
  kind := .trigger
  header := units "CREATE TRIGGER purge AFTER DELETE ON a BEGIN"
  statements := [units " DELETE FROM b WHERE id = old.id", units " DELETE FROM c"]
  closing := units " END"
  creates := by decide
  names := by decide
  begins := by decide
  ends := by decide
  shut := by decide

theorem triggerIsCut : ¬ ∀ d : Compound, (splitStatements d.text d.kind.dialect).map SqlStatement.text = [d.text] := by
  intro claim
  have cut : (splitStatements purge.text .sqlite).map SqlStatement.text =
      [units "CREATE TRIGGER purge AFTER DELETE ON a BEGIN DELETE FROM b WHERE id = old.id",
        units "DELETE FROM c", units "END"] := by decide +kernel
  have size := congrArg List.length (cut.symm.trans (claim purge))
  simp at size

end DatabaseAdmin.CompoundBodies
