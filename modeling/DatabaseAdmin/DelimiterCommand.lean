import DatabaseAdmin.SqlScanners

/-! MySQL's client command `DELIMITER x`. Its argument is the first token of the line and the rest
of the line goes with it. -/
namespace DatabaseAdmin
open CodeUnits

def isBlank (c : CodeUnit) : Bool := c == ' ' || c == '\t'

def atLineStart (before : Text) : Bool :=
  match before.dropWhile isBlank with
  | [] => true
  | c :: _ => c == '\n' || c == '\r'

def delimiterKeyword : Text := units "delimiter"

structure Delimiter where
  text : Text
  nonempty : text ≠ []
  solid : text.all (fun c => !isSpace c) = true
  deriving DecidableEq

namespace Delimiter

def semicolon : Delimiter := ⟨[';'], by decide, by decide⟩

def ofToken (token : Text) : Option Delimiter :=
  if full : token ≠ [] ∧ token.all (fun c => !isSpace c) = true
  then some ⟨token, full.1, full.2⟩ else none

end Delimiter

structure DelimiterCommand where
  delimiter : Delimiter
  next : Nat
  deriving DecidableEq

def stripQuotePair (token : Text) : Text :=
  if 2 ≤ token.length ∧ (token.head? = some apostrophe ∨ token.head? = some doubleQuote ∨
      token.head? = some backtick) ∧ token.getLast? = token.head?
  then (token.drop 1).dropLast else token

def delimiterCommandAt (text : Text) : Option DelimiterCommand :=
  if (text.take delimiterKeyword.length).map lowerUnit ≠ delimiterKeyword then none else
  let line := text.drop delimiterKeyword.length
  let gap := line.takeWhile isBlank
  if gap = [] then none else
  let after := line.drop gap.length
  let argument := after.takeWhile (fun c => !isSpace c)
  match Delimiter.ofToken (stripQuotePair argument) with
  | none => none
  | some delimiter =>
      let remain := after.drop argument.length
      let tail := remain.takeWhile (fun c : CodeUnit => c != '\n')
      let rest := remain.drop tail.length
      some ⟨delimiter, delimiterKeyword.length + gap.length + argument.length + tail.length +
        (if rest = [] then 0 else 1)⟩

theorem blankIsSpace {c : CodeUnit} (blank : isBlank c = true) : isSpace c = true := by
  simp only [isBlank, Bool.or_eq_true, beq_iff_eq] at blank
  rcases blank with rfl | rfl <;> rfl

theorem ofTokenText {token : Text} {delimiter : Delimiter}
    (named : Delimiter.ofToken token = some delimiter) : delimiter.text = token := by
  unfold Delimiter.ofToken at named
  split at named
  · cases named
    rfl
  · contradiction

theorem ofTokenSolid {token : Text} (solid : ∀ c ∈ token, isSpace c = false)
    (absent : Delimiter.ofToken token = none) : token = [] := by
  unfold Delimiter.ofToken at absent
  split at absent
  · contradiction
  · rename_i full
    by_contra some
    exact full ⟨some, by simpa using solid⟩

theorem stripQuotePairMember {token : Text} {c : CodeUnit} (member : c ∈ stripQuotePair token) :
    c ∈ token := by
  unfold stripQuotePair at member
  split at member
  · exact List.mem_of_mem_drop (List.dropLast_subset _ member)
  · exact member

inductive CommandLine : Text → DelimiterCommand → Prop where
  | line (word gap argument tail rest : Text) (delimiter : Delimiter)
      (keyword : word.map lowerUnit = delimiterKeyword) (gapSome : gap ≠ [])
      (blank : ∀ c ∈ gap, isBlank c = true) (solid : ∀ c ∈ argument, isSpace c = false)
      (named : Delimiter.ofToken (stripQuotePair argument) = some delimiter)
      (inline : ∀ c ∈ tail, c ≠ '\n') (ends : ∀ c ∈ (tail ++ rest).head?, isSpace c = true)
      (broken : ∀ c ∈ rest.head?, c = '\n') :
      CommandLine (word ++ (gap ++ (argument ++ (tail ++ rest))))
        ⟨delimiter, word.length + gap.length + argument.length + tail.length +
          (if rest = [] then 0 else 1)⟩

theorem commandLineSound {text : Text} {cmd : DelimiterCommand}
    (found : delimiterCommandAt text = some cmd) : CommandLine text cmd := by
  unfold delimiterCommandAt at found
  split at found
  · contradiction
  · rename_i keyword
    rw [ne_eq, not_not] at keyword
    dsimp only at found
    split at found
    · contradiction
    · rename_i gapSome
      split at found
      · contradiction
      · rename_i delimiter named
        cases found
        have size : (text.take delimiterKeyword.length).length = delimiterKeyword.length := by
          rw [← List.length_map, keyword]
        have split := List.take_append_drop delimiterKeyword.length text
        generalize text.take delimiterKeyword.length = word at keyword size split
        generalize text.drop delimiterKeyword.length = line at split gapSome named ⊢
        have lineSplit := takeWhileSplit isBlank line
        generalize gapped : line.takeWhile isBlank = gap at lineSplit gapSome named ⊢
        generalize line.drop gap.length = after at lineSplit named ⊢
        have afterSplit := takeWhileSplit (fun c => !isSpace c) after
        have ends := takeWhileHead (fun c => !isSpace c) after
        generalize argued : after.takeWhile (fun c => !isSpace c) = argument
          at afterSplit ends named ⊢
        generalize after.drop argument.length = remain at afterSplit ends ⊢
        have remainSplit := takeWhileSplit (fun c : CodeUnit => c != '\n') remain
        have broken := takeWhileHead (fun c : CodeUnit => c != '\n') remain
        generalize tailed : remain.takeWhile (fun c : CodeUnit => c != '\n') = tail
          at remainSplit broken ⊢
        generalize remain.drop tail.length = rest at remainSplit broken ⊢
        rw [← split, ← lineSplit, ← afterSplit, ← remainSplit, ← size]
        refine .line word gap argument tail rest delimiter keyword gapSome ?_ ?_ named ?_ ?_ ?_
        · intro c member
          rw [← gapped] at member
          exact List.mem_takeWhile_imp member
        · intro c member
          rw [← argued] at member
          simpa using List.mem_takeWhile_imp member
        · intro c member
          rw [← tailed] at member
          simpa using List.mem_takeWhile_imp member
        · intro c head
          rw [remainSplit] at head
          simpa using ends c head
        · intro c head
          simpa using broken c head

theorem commandLineComplete {text : Text} {cmd : DelimiterCommand} (line : CommandLine text cmd) :
    delimiterCommandAt text = some cmd := by
  obtain ⟨word, gap, argument, tail, rest, delimiter, keyword, gapSome, blank, solid, named, inline,
    ends, broken⟩ := line
  have size : delimiterKeyword.length = word.length := by rw [← keyword, List.length_map]
  have argumentSome : argument ≠ [] := by
    intro empty
    subst empty
    exact delimiter.nonempty (ofTokenText named)
  have gapTaken : (gap ++ (argument ++ (tail ++ rest))).takeWhile isBlank = gap := by
    refine takeWhileStops blank (fun c head => ?_)
    cases argument with
    | nil => exact absurd rfl argumentSome
    | cons d argument =>
      cases head
      by_contra blank
      simp [blankIsSpace (by simpa using blank)] at solid
  have argumentTaken : (argument ++ (tail ++ rest)).takeWhile (fun c => !isSpace c) = argument := by
    refine takeWhileStops (fun c member => ?_) (fun c head => ?_)
    · simp [solid c member]
    · simp [ends c head]
  have tailTaken : (tail ++ rest).takeWhile (fun c : CodeUnit => c != '\n') = tail := by
    refine takeWhileStops (fun c member => ?_) (fun c head => ?_)
    · simpa using inline c member
    · simpa using broken c head
  unfold delimiterCommandAt
  simp only [size, List.take_left, List.drop_left, keyword, gapTaken, argumentTaken, tailTaken,
    ne_eq, not_true_eq_false, if_false, if_neg gapSome, named]

theorem commandNext {text : Text} {cmd : DelimiterCommand}
    (found : delimiterCommandAt text = some cmd) : 0 < cmd.next ∧ cmd.next ≤ text.length := by
  obtain ⟨word, gap, argument, tail, rest, delimiter, keyword, gapSome, blank, solid, named, inline,
    ends, broken⟩ := commandLineSound found
  have gapLong := List.length_pos_iff.mpr gapSome
  refine ⟨by dsimp only; omega, ?_⟩
  simp only [List.length_append]
  split
  · omega
  · rename_i some
    have restLong := List.length_pos_iff.mpr some
    omega

theorem ofTokenSelf (delimiter : Delimiter) : Delimiter.ofToken delimiter.text = some delimiter := by
  rw [Delimiter.ofToken, dif_pos ⟨delimiter.nonempty, delimiter.solid⟩]

def delimiterLine (delimiter : Delimiter) : Text := units "DELIMITER " ++ delimiter.text ++ [10]

theorem delimiterLineRead {delimiter : Delimiter} (bare : stripQuotePair delimiter.text = delimiter.text)
    (text : Text) : delimiterCommandAt (delimiterLine delimiter ++ text) =
      some ⟨delimiter, (delimiterLine delimiter).length⟩ := by
  have line := CommandLine.line (units "DELIMITER") [32] delimiter.text [] (10 :: text) delimiter
    (by decide) (by simp) (by simp [isBlank]) (by simpa using delimiter.solid)
    (by rw [bare, ofTokenSelf]) (by simp) (by rintro c ⟨⟩; rfl) (by rintro c ⟨⟩; rfl)
  have read := commandLineComplete line
  have whole : delimiterLine delimiter ++ text =
      units "DELIMITER" ++ ([32] ++ (delimiter.text ++ ([] ++ 10 :: text))) := by
    simp [delimiterLine, units]
  rw [whole, read]
  simp [delimiterLine, units]
  omega

theorem commandSettles {text : Text} {cmd : DelimiterCommand} (more : Text)
    (found : delimiterCommandAt text = some cmd) (short : cmd.next < text.length) :
    delimiterCommandAt (text ++ more) = some cmd := by
  obtain ⟨word, gap, argument, tail, rest, delimiter, keyword, gapSome, blank, solid, named, inline,
    ends, broken⟩ := commandLineSound found
  cases rest with
  | nil =>
    simp only [if_true, List.length_append, List.length_nil] at short
    omega
  | cons c rest =>
    have line := CommandLine.line word gap argument tail (c :: rest ++ more) delimiter keyword gapSome
      blank solid named inline (by cases tail <;> simpa using ends) (by simpa using broken)
    have whole : word ++ (gap ++ (argument ++ (tail ++ c :: rest))) ++ more =
        word ++ (gap ++ (argument ++ (tail ++ (c :: rest ++ more)))) := by
      simp only [List.append_assoc]
    rw [whole, commandLineComplete line]
    simp

theorem stripEmpty {token : Text} (empty : stripQuotePair token = []) :
    token = [] ∨ ∃ c, isQuote c = true ∧ token = [c, c] := by
  unfold stripQuotePair at empty
  split at empty
  · rename_i pair
    obtain ⟨long, marks, last⟩ := pair
    match token, long, marks, last, empty with
    | [c, d], _, marks, last, _ =>
      refine Or.inr ⟨c, ?_, ?_⟩
      · rcases marks with one | one | one <;> cases one <;> rfl
      · simp only [List.getLast?_cons_cons, List.getLast?_singleton, List.head?_cons,
          Option.some.injEq] at last
        rw [last]
    | c :: d :: e :: rest, _, _, _, empty => simp at empty
  · exact Or.inl empty

inductive PartialCommand : Text → Prop where
  | cut (word gap quotes : Text) (blank : ∀ c ∈ gap, isBlank c = true)
      (pair : quotes = [] ∨ gap ≠ [] ∧ ∃ c, isQuote c = true ∧ quotes = [c, c])
      (keyword : word.length ≤ delimiterKeyword.length) : PartialCommand (word ++ (gap ++ quotes))

theorem commandPartial {text more : Text} {cmd : DelimiterCommand}
    (absent : delimiterCommandAt text = none)
    (found : delimiterCommandAt (text ++ more) = some cmd) : PartialCommand text := by
  have line := commandLineSound found
  generalize whole : text ++ more = full at line
  obtain ⟨word, gap, argument, tail, rest, delimiter, keyword, gapSome, blank, solid, named, inline,
    ends, broken⟩ := line
  have size : word.length = delimiterKeyword.length := by rw [← keyword, List.length_map]
  rcases List.append_eq_append_iff.mp whole with ⟨word', split, _⟩ | ⟨text1, rfl, whole1⟩
  · have short : text.length ≤ delimiterKeyword.length := by
      rw [← size, split, List.length_append]
      omega
    simpa using PartialCommand.cut text [] [] (by simp) (Or.inl rfl) short
  · rcases List.append_eq_append_iff.mp whole1.symm with ⟨gap', split, _⟩ | ⟨text2, rfl, whole2⟩
    · have inside : ∀ c ∈ text1, isBlank c = true := fun c member =>
        blank c (by rw [split]; exact List.mem_append_left _ member)
      simpa using PartialCommand.cut word text1 [] inside (Or.inl rfl) size.le
    · rcases List.append_eq_append_iff.mp whole2.symm with ⟨argument', split, _⟩ | ⟨text3, rfl, whole3⟩
      · have inside : ∀ c ∈ text2, isSpace c = false := fun c member =>
          solid c (by rw [split]; exact List.mem_append_left _ member)
        have empty : stripQuotePair text2 = [] := by
          cases token : Delimiter.ofToken (stripQuotePair text2) with
          | none => exact ofTokenSolid (fun c member => inside c (stripQuotePairMember member)) token
          | some other =>
            have read := commandLineComplete (.line word gap text2 [] [] other keyword gapSome blank
              inside token (by simp) (by simp) (by simp))
            rw [List.append_nil, List.append_nil, absent] at read
            contradiction
        refine .cut word gap text2 blank ?_ size.le
        rcases stripEmpty empty with none | pair
        · exact Or.inl none
        · exact Or.inr ⟨gapSome, pair⟩
      · exfalso
        suffices line : ∃ cmd, CommandLine (word ++ (gap ++ (argument ++ text3))) cmd by
          obtain ⟨cmd, line⟩ := line
          rw [commandLineComplete line] at absent
          contradiction
        rcases List.append_eq_append_iff.mp whole3.symm with ⟨tail', rfl, _⟩ | ⟨text4, rfl, split⟩
        · have line := CommandLine.line word gap argument text3 [] delimiter keyword gapSome blank
            solid named (fun c member => inline c (by simp [member]))
            (fun c head => ends c (by cases text3 <;> simp_all)) (by simp)
          rw [List.append_nil] at line
          exact ⟨_, line⟩
        · exact ⟨_, .line word gap argument tail text4 delimiter keyword gapSome blank solid named
            inline (fun c head => ends c (by cases tail <;> cases text4 <;> simp_all))
            (fun c head => broken c (by cases text4 <;> simp_all))⟩

end DatabaseAdmin
