import DatabaseAdmin.SplitAgreement
import DatabaseAdmin.SplitStability
import DatabaseAdmin.SqlFragments
import Mathlib.Algebra.GroupWithZero.Nat

/-! The placeholders of a statement, and what their scan skips beside what the splitter skips. -/
namespace DatabaseAdmin.Placeholders
open CodeUnits ScanLoop

inductive PlaceholderStyle where
  | named | qmark | dollar
  deriving DecidableEq, Repr

structure SqlPlaceholder where
  name : Option Text
  ordinal : Option Nat
  start : Nat
  stop : Nat
  style : PlaceholderStyle
  deriving DecidableEq, Repr

def asDouble (n : Nat) : Option Nat :=
  let shift := n.log2 - 52
  let kept := n / 2 ^ shift
  let left := n % 2 ^ shift
  let up := 2 ^ shift < 2 * left ∨ (2 ^ shift = 2 * left ∧ kept % 2 = 1)
  let rounded := (if up then kept + 1 else kept) * 2 ^ shift
  if rounded < 2 ^ 1024 then some rounded else none

def numberOf (digits : Text) : Option Nat := asDouble (digits.foldl (fun n d => 10 * n + (d - 48)) 0)

def placeholderStep (dialect : SqlDialect) : Step CodeUnit Nat SqlPlaceholder
  | positional, _, [] => ⟨positional, 0, []⟩
  | positional, before, c :: more =>
      let start := before.length
      match openerAt (rulesOf dialect) before (c :: more) with
      | some opener => ⟨positional, opener.scan (rulesOf dialect) (c :: more), []⟩
      | none =>
          if (rulesOf dialect).dollarQuoting && c == '$' then
            let digits := more.takeWhile isDigit
            if digits = [] then ⟨positional, 1, []⟩
            else ⟨positional, 1 + digits.length,
              [⟨none, numberOf digits, start, start + (1 + digits.length), .dollar⟩]⟩
          else if c == '?' then
            if dialect = .postgres ∨ nextIs '|' more ∨ nextIs '&' more then
              ⟨positional, if nextIs '|' more ∨ nextIs '&' more then 2 else 1, []⟩
            else ⟨positional + 1, 1, [⟨none, some (positional + 1), start, start + 1, .qmark⟩]⟩
          else if c == ':' then
            if nextIs ':' more then ⟨positional, 2, []⟩
            else if nextIs '=' more then ⟨positional, 2, []⟩
            else if before.head?.any isIdentPart then ⟨positional, 1, []⟩
            else if more.head?.any isIdentStart then
              let name := more.takeWhile isIdentPart
              ⟨positional + 1, 1 + name.length,
                [⟨some name, some (positional + 1), start, start + (1 + name.length), .named⟩]⟩
            else ⟨positional, 1, []⟩
          else ⟨positional, 1, []⟩

def findPlaceholders (sql : Text) (dialect : SqlDialect) : List SqlPlaceholder :=
  runAt (placeholderStep dialect) (fun _ _ => []) ⟨0, [], sql⟩

section Forms

structure Form where
  opener : Opener
  start : Nat
  stop : Nat
  deriving DecidableEq, Repr

variable {rules : DialectRules} {σ ω : Type}

def formAt (rules : DialectRules) (before rest : Text) : List Form :=
  match openerAt rules before rest with
  | some opener => [⟨opener, before.length, before.length + opener.scan rules rest⟩]
  | none => []

def formStep (rules : DialectRules) : Step CodeUnit Unit Form
  | _, _, [] => ⟨(), 0, []⟩
  | _, before, c :: more =>
      match openerAt rules before (c :: more) with
      | some opener => ⟨(), opener.scan rules (c :: more), formAt rules before (c :: more)⟩
      | none => ⟨(), 1, []⟩

def formsFrom (rules : DialectRules) (before rest : Text) : List Form :=
  runAt (formStep rules) (fun _ _ => []) ⟨(), before, rest⟩

def TakesForms (rules : DialectRules) (step : Step CodeUnit σ ω) : Prop :=
  Progress step ∧ ∀ s before rest opener, openerAt rules before rest = some opener →
    (step s before rest).width = opener.scan rules rest

def skippedFrom (rules : DialectRules) (step : Step CodeUnit σ ω) (c : Config CodeUnit σ) : List Form :=
  runAt (relabel (fun _ before rest => formAt rules before rest) step) (fun _ _ => []) c

def coveredAt (rules : DialectRules) (width : Nat) (before : Text) : Text → List Nat
  | [] => []
  | c :: more => if (openerAt rules before (c :: more)).isSome then [] else hiddenIn rules (c :: before) (width - 1) more

def coveredFrom (rules : DialectRules) (step : Step CodeUnit σ ω) (c : Config CodeUnit σ) : List Nat :=
  runAt (relabel (fun s before rest => coveredAt rules (step s before rest).width before rest) step)
    (fun _ _ => []) c

theorem formProgress (rules : DialectRules) : Progress (formStep rules) := by
  intro s before rest some
  cases rest with
  | nil => exact absurd rfl some
  | cons c more =>
    simp only [formStep]
    split
    · rename_i opener found
      exact openerPositive found
    · exact Nat.one_pos

theorem formsForm {before rest : Text} {opener : Opener} (found : openerAt rules before rest = some opener) :
    formsFrom rules before rest = formAt rules before rest ++
      formsFrom rules ((rest.take (opener.scan rules rest)).reverse ++ before) (rest.drop (opener.scan rules rest)) := by
  cases rest with
  | nil => simp [openerAt] at found
  | cons c more =>
    have turn := runAtNext (formProgress rules) (fun _ _ => []) (c := ⟨(), before, c :: more⟩) (by simp)
    simp only [Config.out, Config.next, formStep, found] at turn
    exact turn

theorem formsUnit {before more : Text} {c : CodeUnit} (plain : openerAt rules before (c :: more) = none) :
    formsFrom rules before (c :: more) = formsFrom rules (c :: before) more := by
  have turn := runAtNext (formProgress rules) (fun _ _ => []) (c := ⟨(), before, c :: more⟩) (by simp)
  simp only [Config.out, Config.next, formStep, plain] at turn
  simpa [formsFrom] using turn

theorem formsUnits (n : Nat) (before rest : Text) (plain : hiddenIn rules before n rest = []) :
    formsFrom rules before rest = formsFrom rules ((rest.take n).reverse ++ before) (rest.drop n) := by
  induction n generalizing before rest with
  | zero => simp
  | succ n ih =>
    cases rest with
    | nil => simp
    | cons c more =>
      simp only [hiddenIn, List.append_eq_nil_iff] at plain
      have here : openerAt rules before (c :: more) = none := by
        have absent := plain.1
        split at absent
        · contradiction
        · rename_i none
          simpa using none
      rw [formsUnit here, ih _ _ plain.2]
      simp

theorem formsHidden (n : Nat) (before rest : Text) (hides : hiddenIn rules before n rest ≠ []) :
    ∃ f ∈ formsFrom rules before rest, f.start < before.length + n ∧ f.start < before.length + rest.length := by
  induction n generalizing before rest with
  | zero => simp [hiddenIn] at hides
  | succ n ih =>
    cases rest with
    | nil => simp [hiddenIn] at hides
    | cons c more =>
      cases found : openerAt rules before (c :: more) with
      | some opener =>
        rw [formsForm found]
        refine ⟨⟨opener, before.length, before.length + opener.scan rules (c :: more)⟩, ?_, ?_⟩
        · simp [formAt, found]
        · simp
      | none =>
        simp only [hiddenIn, found, Option.isSome_none, Bool.false_eq_true, if_false, List.nil_append] at hides
        obtain ⟨f, member, below, inside⟩ := ih _ _ hides
        rw [formsUnit found]
        simp only [List.length_cons] at below inside ⊢
        exact ⟨f, member, by omega, by omega⟩

theorem skippedStart {step : Step CodeUnit σ ω} (takes : TakesForms rules step) {c : Config CodeUnit σ} {f : Form}
    (member : f ∈ skippedFrom rules step c) : c.before.length ≤ f.start := by
  obtain ⟨outs, c', path, found⟩ := runMember (relabelProgress _ takes.1) member
  have long := (path.longer (relabelProgress _ takes.1)).1
  rcases found with ⟨-, out⟩ | ⟨-, out⟩
  · simp only [Config.out, relabel, formAt] at out
    split at out
    · rw [List.mem_singleton] at out
      subst out
      exact long
    · simp at out
  · simp at out

theorem skippedAgain {step : Step CodeUnit σ ω} (takes : TakesForms rules step) (c : Config CodeUnit σ) :
    skippedFrom rules step c = formsFrom rules c.before c.rest ↔ coveredFrom rules step c = [] := by
  induction c using passInduction takes.1 with
  | stop s before =>
    simp [skippedFrom, coveredFrom, formsFrom, runAtEnd]
  | turn c some ih =>
    obtain ⟨s, before, rest⟩ := c
    simp only [skippedFrom, coveredFrom] at ih ⊢
    rw [runAtNext (relabelProgress _ takes.1) _ some, runAtNext (relabelProgress _ takes.1) _ some,
      relabelNext, relabelNext]
    cases rest with
    | nil => exact absurd rfl some
    | cons c more =>
      cases found : openerAt rules before (c :: more) with
      | some opener =>
        have width := takes.2 s before (c :: more) opener found
        rw [formsForm found, ← width]
        simp only [Config.out, relabel, coveredAt, found, Option.isSome_some, if_true, List.nil_append,
          List.append_cancel_left_eq]
        exact ih
      | none =>
        simp only [Config.out, relabel, formAt, coveredAt, found, Option.isSome_none, Bool.false_eq_true, if_false,
          List.nil_append, List.append_eq_nil_iff]
        have positive := takes.1 s before (c :: more) (by simp)
        have next : Config.next step ⟨s, before, c :: more⟩ = ⟨(step s before (c :: more)).state,
            (more.take ((step s before (c :: more)).width - 1)).reverse ++ (c :: before),
            more.drop ((step s before (c :: more)).width - 1)⟩ := by
          obtain ⟨w, width⟩ : ∃ w, (step s before (c :: more)).width = w + 1 := ⟨_, (Nat.succ_pred_eq_of_pos positive).symm⟩
          simp [Config.next, width]
        by_cases hides : hiddenIn rules (c :: before) ((step s before (c :: more)).width - 1) more = []
        · rw [formsUnit found, formsUnits _ _ _ hides]
          simp only [hides, true_and]
          rw [next] at ih ⊢
          exact ih
        · refine iff_of_false ?_ fun covered => hides covered.1
          intro same
          obtain ⟨f, member, below, inside⟩ := formsHidden _ _ _ hides
          rw [formsUnit found] at same
          rw [← same] at member
          have start := skippedStart takes member
          rw [next] at start
          simp only [List.length_append, List.length_reverse, List.length_take, List.length_cons] at start below inside
          omega

end Forms

section Names
variable {rules : DialectRules}

def beginsName (before more : Text) : Bool := !before.head?.any isIdentPart && more.head?.any isIdentStart

def nameStep (rules : DialectRules) : Step CodeUnit Bool Nat
  | odd, _, [] => ⟨odd, 0, []⟩
  | odd, before, c :: more =>
      match openerAt rules before (c :: more) with
      | some opener => ⟨false, opener.scan rules (c :: more), []⟩
      | none => ⟨c == ':' && !odd, 1, if c == ':' && !odd && beginsName before more then
          hiddenIn rules (c :: before) (more.takeWhile isIdentPart).length more else []⟩

def namesFrom (rules : DialectRules) (odd : Bool) (before rest : Text) : List Nat :=
  runAt (nameStep rules) (fun _ _ => []) ⟨odd, before, rest⟩

def coveredByNames (dialect : SqlDialect) (sql : Text) : List Nat := namesFrom (rulesOf dialect) false [] sql

theorem nameProgress (rules : DialectRules) : Progress (nameStep rules) := by
  intro s before rest some
  cases rest with
  | nil => exact absurd rfl some
  | cons c more =>
    simp only [nameStep]
    split
    · rename_i opener found
      exact openerPositive found
    · exact Nat.one_pos

theorem namesForm {odd : Bool} {before rest : Text} {opener : Opener} (found : openerAt rules before rest = some opener) :
    namesFrom rules odd before rest = namesFrom rules false ((rest.take (opener.scan rules rest)).reverse ++ before)
      (rest.drop (opener.scan rules rest)) := by
  cases rest with
  | nil => simp [openerAt] at found
  | cons c more =>
    have turn := runAtNext (nameProgress rules) (fun _ _ => []) (c := ⟨odd, before, c :: more⟩) (by simp)
    simp only [Config.out, Config.next, nameStep, found, List.nil_append] at turn
    exact turn

theorem namesUnit {odd : Bool} {before more : Text} {c : CodeUnit} (plain : openerAt rules before (c :: more) = none) :
    namesFrom rules odd before (c :: more) = (if c == ':' && !odd && beginsName before more then
      hiddenIn rules (c :: before) (more.takeWhile isIdentPart).length more else []) ++
        namesFrom rules (c == ':' && !odd) (c :: before) more := by
  have turn := runAtNext (nameProgress rules) (fun _ _ => []) (c := ⟨odd, before, c :: more⟩) (by simp)
  simp only [Config.out, Config.next, nameStep, plain] at turn
  simpa [namesFrom] using turn

theorem namesUnits (tail rest : Text) (inner : ∀ d ∈ tail, d ≠ ':') : ∀ (odd : Bool) (before : Text),
    hiddenIn rules before tail.length (tail ++ rest) = [] → (tail = [] → odd = false) →
    namesFrom rules odd before (tail ++ rest) = namesFrom rules false (tail.reverse ++ before) rest := by
  induction tail with
  | nil =>
    intro odd before _ even
    rw [even rfl]
    rfl
  | cons d tail ih =>
    intro odd before plain _
    simp only [List.cons_append, List.length_cons, hiddenIn, List.append_eq_nil_iff] at plain ⊢
    have here : openerAt rules before (d :: (tail ++ rest)) = none := by
      have absent := plain.1
      split at absent
      · contradiction
      · rename_i none
        simpa using none
    have other : (d == ':') = false := by simpa using inner d (by simp)
    rw [namesUnit here, other]
    simp only [Bool.false_and, Bool.false_eq_true, if_false, List.nil_append]
    rw [ih (fun e member => inner e (by simp [member])) false (d :: before) plain.2 fun _ => rfl]
    simp

end Names

section Widths
variable {dialect : SqlDialect}

theorem placeholderForm {n : Nat} {before rest : Text} {opener : Opener}
    (found : openerAt (rulesOf dialect) before rest = some opener) :
    placeholderStep dialect n before rest = ⟨n, opener.scan (rulesOf dialect) rest, []⟩ := by
  cases rest with
  | nil => simp [openerAt] at found
  | cons c more => simp only [placeholderStep, found]

theorem placeholderProgress (dialect : SqlDialect) : Progress (placeholderStep dialect) := by
  intro n before rest some
  cases rest with
  | nil => exact absurd rfl some
  | cons c more =>
    cases found : openerAt (rulesOf dialect) before (c :: more) with
    | some opener =>
      rw [placeholderForm found]
      exact openerPositive found
    | none =>
      simp only [placeholderStep, found]
      repeat' split
      all_goals first | exact Nat.one_pos | exact Nat.two_pos | (show 0 < 1 + _; omega)

theorem placeholderTakes (dialect : SqlDialect) : TakesForms (rulesOf dialect) (placeholderStep dialect) :=
  ⟨placeholderProgress dialect, fun n before rest opener found => by rw [placeholderForm found]⟩

inductive Jumps (dialect : SqlDialect) (n : Nat) (before more : Text) : CodeUnit → Turn Nat SqlPlaceholder → Prop where
  | name (begins : beginsName before more = true) : Jumps dialect n before more 58
      ⟨n + 1, 1 + (more.takeWhile isIdentPart).length, [⟨some (more.takeWhile isIdentPart), some (n + 1), before.length,
        before.length + (1 + (more.takeWhile isIdentPart).length), .named⟩]⟩
  | pair (d : CodeUnit) (rest : Text) (split : more = d :: rest) (mark : d = ':' ∨ d = '=') :
      Jumps dialect n before more 58 ⟨n, 2, []⟩
  | number (quoting : (rulesOf dialect).dollarQuoting = true) (some : more.takeWhile isDigit ≠ []) : Jumps dialect n before more 36
      ⟨n, 1 + (more.takeWhile isDigit).length, [⟨none, numberOf (more.takeWhile isDigit), before.length,
        before.length + (1 + (more.takeWhile isDigit).length), .dollar⟩]⟩
  | operator (d : CodeUnit) (rest : Text) (split : more = d :: rest) (mark : d = '|' ∨ d = '&') :
      Jumps dialect n before more 63 ⟨n, 2, []⟩
  | mark (binds : dialect ≠ .postgres) : Jumps dialect n before more 63
      ⟨n + 1, 1, [⟨none, some (n + 1), before.length, before.length + 1, .qmark⟩]⟩
  | colon (single : nextIs ':' more = false) (assign : nextIs '=' more = false) (begins : beginsName before more = false) :
      Jumps dialect n before more 58 ⟨n, 1, []⟩
  | unit (c : CodeUnit) (other : c ≠ ':')
      (bare : (rulesOf dialect).dollarQuoting = true → c = 36 → more.takeWhile isDigit = [])
      (quiet : c = 63 → dialect = .postgres ∧ nextIs '|' more = false ∧ nextIs '&' more = false) :
      Jumps dialect n before more c ⟨n, 1, []⟩

theorem placeholderJumps {n : Nat} {before more : Text} {c : CodeUnit}
    (plain : openerAt (rulesOf dialect) before (c :: more) = none) :
    Jumps dialect n before more c (placeholderStep dialect n before (c :: more)) := by
  have next {d : CodeUnit} (there : nextIs d more = true) : ∃ rest, more = d :: rest := by
    cases more with
    | nil => simp [nextIs] at there
    | cons e rest =>
      rw [nextIsCons, beq_iff_eq] at there
      exact ⟨rest, by rw [there]⟩
  simp only [placeholderStep, plain]
  split
  · rename_i sign
    simp only [Bool.and_eq_true, beq_iff_eq] at sign
    obtain rfl : c = 36 := sign.2
    split
    · rename_i none
      exact .unit 36 (by decide) (fun _ _ => none) (fun mark => by cases mark)
    · rename_i some
      exact .number sign.1 some
  · split
    · rename_i mark
      obtain rfl : c = 63 := by simpa using mark
      split
      · rename_i reads
        split
        · rename_i operator
          rcases operator with bar | amp
          · obtain ⟨rest, split⟩ := next bar
            exact .operator _ rest split (.inl rfl)
          · obtain ⟨rest, split⟩ := next amp
            exact .operator _ rest split (.inr rfl)
        · rename_i plainMark
          have postgres := reads.resolve_right plainMark
          rw [not_or, Bool.not_eq_true, Bool.not_eq_true] at plainMark
          exact .unit 63 (by decide) (fun _ sign => by cases sign) fun _ => ⟨postgres, plainMark⟩
      · rename_i binds
        exact .mark fun postgres => binds (.inl postgres)
    · split
      · rename_i mark
        obtain rfl : c = 58 := by simpa using mark
        split
        · rename_i pair
          obtain ⟨rest, split⟩ := next pair
          exact .pair _ rest split (.inl rfl)
        · rename_i single
          split
          · rename_i assign
            obtain ⟨rest, split⟩ := next assign
            exact .pair _ rest split (.inr rfl)
          · rename_i unassigned
            have alone := eq_false_of_ne_true single
            have bare := eq_false_of_ne_true unassigned
            split
            · rename_i behind
              exact .colon alone bare (by simp [beginsName, behind])
            · rename_i free
              split
              · rename_i starts
                exact .name (by simp [beginsName, free, starts])
              · rename_i starts
                exact .colon alone bare (by simp [beginsName, starts])
      · rename_i sign question other
        refine .unit c (by simpa using other) (fun quoting dollar => ?_) (fun mark => ?_)
        · exact absurd (by simp [quoting, dollar]) sign
        · exact absurd (by simp [mark]) question

end Widths

section Agreement
variable {dialect : SqlDialect}

theorem plainUnits {before : Text} {tail rest : Text} (plain : ∀ d ∈ tail, ∀ before more : Text,
    openerAt (rulesOf dialect) before (d :: more) = none) :
    hiddenIn (rulesOf dialect) before tail.length (tail ++ rest) = [] := by
  induction tail generalizing before with
  | nil => cases rest <;> rfl
  | cons d tail ih =>
    simp only [List.cons_append, List.length_cons, hiddenIn, plain d (by simp), Option.isSome_none, Bool.false_eq_true,
      if_false, List.nil_append]
    exact ih fun e member => plain e (by simp [member])

theorem digitOpens {d : Nat} (digit : isDigit d = true) (before more : Text) :
    openerAt (rulesOf dialect) before (d :: more) = none ∧ d ≠ (':' : CodeUnit) := by
  have range : 48 ≤ d ∧ d ≤ 57 := by simpa [isDigit] using digit
  have apart (e : Nat) (out : e < 48 ∨ 57 < e) : (d == e) = false := by
    rw [beq_eq_false_iff_ne]
    omega
  refine ⟨?_, ne_of_beq_false (apart (':' : CodeUnit) (by decide))⟩
  simp only [openerAt, apart ('-' : CodeUnit) (by decide), apart ('#' : CodeUnit) (by decide),
    apart ('/' : CodeUnit) (by decide), apart ('E' : CodeUnit) (by decide), apart ('e' : CodeUnit) (by decide),
    apart apostrophe (by decide), apart doubleQuote (by decide), apart backtick (by decide),
    apart ('[' : CodeUnit) (by decide), apart ('$' : CodeUnit) (by decide), Bool.false_and, Bool.and_false,
    Bool.false_eq_true, if_false, Bool.or_false]

theorem identTail {d : CodeUnit} (part : isIdentPart d = true) : d ≠ ':' := by
  rintro rfl
  revert part
  decide

theorem nextAfter {n : Nat} {before more : Text} {c : CodeUnit} {w : Nat}
    (width : (placeholderStep dialect n before (c :: more)).width = 1 + w) :
    Config.next (placeholderStep dialect) ⟨n, before, c :: more⟩ =
      ⟨(placeholderStep dialect n before (c :: more)).state, (more.take w).reverse ++ (c :: before), more.drop w⟩ := by
  simp [Config.next, width, Nat.add_comm 1]

theorem namesTrack (c : Config CodeUnit Nat) : ∀ odd : Bool, (c.rest.head? = some (':' : CodeUnit) → odd = false) →
    (coveredFrom (rulesOf dialect) (placeholderStep dialect) c = [] ↔
      namesFrom (rulesOf dialect) odd c.before c.rest = []) := by
  induction c using passInduction (placeholderProgress dialect) with
  | stop s before =>
    intro odd _
    simp [coveredFrom, namesFrom, runAtEnd]
  | turn c some ih =>
    obtain ⟨n, before, rest⟩ := c
    intro odd even
    cases rest with
    | nil => exact absurd rfl some
    | cons x more =>
      have covered : coveredFrom (rulesOf dialect) (placeholderStep dialect) ⟨n, before, x :: more⟩ = _ :=
        runAtNext (relabelProgress _ (placeholderProgress dialect)) _ some
      rw [covered, relabelNext]
      simp only [Config.out, relabel, List.append_eq_nil_iff]
      change coveredAt _ _ _ _ = [] ∧ coveredFrom _ _ _ = [] ↔ _
      cases found : openerAt (rulesOf dialect) before (x :: more) with
      | some opener =>
        have here : coveredAt (rulesOf dialect) (placeholderStep dialect n before (x :: more)).width before (x :: more) =
            [] := by simp [coveredAt, found]
        simp only [here, true_and]
        rw [namesForm found]
        have next := ih false (fun _ => rfl)
        simpa only [Config.next, placeholderForm found] using next
      | none =>
        have here : ∀ w, coveredAt (rulesOf dialect) w before (x :: more) =
            hiddenIn (rulesOf dialect) (x :: before) (w - 1) more := by simp [coveredAt, found]
        rw [here]
        have jumps := placeholderJumps (n := n) found
        obtain ⟨w, width⟩ : ∃ w, (placeholderStep dialect n before (x :: more)).width = 1 + w :=
          ⟨_, (Nat.add_sub_of_le (placeholderProgress dialect n before _ some)).symm⟩
        rw [nextAfter width] at ih ⊢
        rw [width]
        simp only [Nat.add_sub_cancel_left]
        have alone : w = 0 → (x = ':' → nextIs ':' more = false ∧ beginsName before more = false) →
            (hiddenIn (rulesOf dialect) (x :: before) w more = [] ∧ coveredFrom (rulesOf dialect)
              (placeholderStep dialect) ⟨(placeholderStep dialect n before (x :: more)).state,
                (more.take w).reverse ++ (x :: before), more.drop w⟩ = [] ↔
              namesFrom (rulesOf dialect) odd before (x :: more) = []) := by
          rintro rfl colon
          rw [namesUnit found]
          have quiet : (x == ':' && !odd && beginsName before more) = false := by
            by_cases mark : x = ':'
            · rw [(colon mark).2, Bool.and_false]
            · rw [beq_false_of_ne mark]
              rfl
          simp only [hiddenIn, quiet, Bool.false_eq_true, if_false, List.nil_append, true_and]
          refine ih _ fun head => ?_
          by_cases mark : x = ':'
          · have single := (colon mark).1
            simp only [List.drop_zero] at head
            simp [nextIs, head] at single
          · rw [beq_false_of_ne mark]
            rfl
        have across : ∀ tail rest : Text, more = tail ++ rest → tail.length = w → (∀ d ∈ tail, d ≠ ':') →
            hiddenIn (rulesOf dialect) (x :: before) w more = [] → (tail = [] → (x == ':' && !odd) = false) →
            (coveredFrom (rulesOf dialect) (placeholderStep dialect)
              ⟨(placeholderStep dialect n before (x :: more)).state, (more.take w).reverse ++ (x :: before),
                more.drop w⟩ = [] ↔
              namesFrom (rulesOf dialect) (x == ':' && !odd) (x :: before) more = []) := by
          rintro tail rest rfl rfl inner plain bare
          rw [namesUnits tail rest inner _ _ plain bare]
          simp only [List.take_left, List.drop_left] at ih ⊢
          exact ih false fun _ => rfl
        have quiet : beginsName before more = false ∨ x ≠ ':' →
            namesFrom (rulesOf dialect) odd before (x :: more) =
              namesFrom (rulesOf dialect) (x == ':' && !odd) (x :: before) more := by
          intro plain
          rw [namesUnit found]
          have none : (x == ':' && !odd && beginsName before more) = false := by
            rcases plain with none | other
            · rw [none, Bool.and_false]
            · rw [beq_false_of_ne other]
              rfl
          rw [none]
          rfl
        generalize placeholderStep dialect n before (x :: more) = turn at jumps width alone across ih ⊢
        cases jumps with
        | name begins =>
          obtain rfl : w = (more.takeWhile isIdentPart).length := by simpa using width.symm
          obtain rfl : odd = false := even rfl
          have starts : (((58 : CodeUnit) == ':') && !false && beginsName before more) = true := by rw [begins]; rfl
          rw [namesUnit found, starts, if_pos rfl, List.append_eq_nil_iff]
          refine and_congr_right fun plain => ?_
          refine across _ _ (List.takeWhile_append_dropWhile).symm rfl ?_ plain ?_
          · exact fun d member => identTail (List.mem_takeWhile_imp member)
          · intro none
            cases more with
            | nil => simp [beginsName] at begins
            | cons d more =>
              have part : isIdentPart d = true := by
                simp only [beginsName, List.head?_cons, Option.any_some, Bool.and_eq_true] at begins
                simp [isIdentPart, begins.2]
              simp [part] at none
        | pair d rest split mark =>
          obtain rfl : w = 1 := Nat.add_left_cancel (n := 1) width.symm
          subst split
          have plain : hiddenIn (rulesOf dialect) (58 :: before) 1 (d :: rest) = [] := by
            rcases mark with rfl | rfl <;> simp [hiddenIn, openerAt, apostrophe, doubleQuote, backtick]
          have single : beginsName before (d :: rest) = false := by
            rcases mark with rfl | rfl <;> simp [beginsName, isIdentStart]
          rw [quiet (.inl single)]
          simp only [plain, true_and]
          rcases mark with rfl | rfl
          · obtain rfl : odd = false := even rfl
            have second : openerAt (rulesOf dialect) (58 :: before) (58 :: rest) = none := SqlFragments.jointOpens rfl _ _
            have again : namesFrom (rulesOf dialect) true (58 :: before) (58 :: rest) =
                namesFrom (rulesOf dialect) false (58 :: 58 :: before) rest := by
              rw [namesUnit second]
              rfl
            refine (ih false fun _ => rfl).trans ?_
            exact Eq.to_iff (congrArg (· = []) again.symm)
          · exact across [61] rest rfl rfl (by simp) plain (by simp)
        | number quoting some =>
          obtain rfl : w = (more.takeWhile isDigit).length := by simpa using width.symm
          have plain : hiddenIn (rulesOf dialect) (36 :: before) (more.takeWhile isDigit).length
              (more.takeWhile isDigit ++ more.dropWhile isDigit) = [] :=
            plainUnits fun d member before more => (digitOpens (List.mem_takeWhile_imp member) _ _).1
          rw [List.takeWhile_append_dropWhile] at plain
          rw [quiet (.inr (by decide))]
          simp only [plain, true_and]
          refine across _ _ (List.takeWhile_append_dropWhile).symm rfl ?_ plain fun _ => rfl
          exact fun d member => (@digitOpens dialect d (List.mem_takeWhile_imp member) [] []).2
        | operator d rest split mark =>
          obtain rfl : w = 1 := Nat.add_left_cancel (n := 1) width.symm
          subst split
          have plain : hiddenIn (rulesOf dialect) (63 :: before) 1 (d :: rest) = [] := by
            rcases mark with rfl | rfl <;> simp [hiddenIn, openerAt, apostrophe, doubleQuote, backtick]
          rw [quiet (.inr (by decide))]
          simp only [plain, true_and]
          refine across [d] rest rfl rfl ?_ plain (by simp)
          rcases mark with rfl | rfl <;> simp
        | mark binds => exact alone (by simpa using width.symm) fun mark => absurd mark (by decide)
        | colon single assign begins => exact alone (by simpa using width.symm) fun _ => ⟨single, begins⟩
        | unit c other => exact alone (by simpa using width.symm) fun mark => absurd mark other

def skippedForms (sql : Text) (dialect : SqlDialect) : List Form :=
  skippedFrom (rulesOf dialect) (placeholderStep dialect) ⟨0, [], sql⟩

def splitFormHere (rules : DialectRules) (s : SplitState) (before : Text) : Text → List Form
  | [] => []
  | c :: more => match splitMove rules s before c more with
    | .form opener => [⟨opener, before.length, before.length + opener.scan rules (c :: more)⟩]
    | _ => []

def splitForms (sql : Text) (dialect : SqlDialect) : List Form :=
  runAt (relabel (splitFormHere (rulesOf dialect)) (splitStep (rulesOf dialect))) (fun _ _ => [])
    ⟨fresh .semicolon 0, [], sql⟩

def coveredByDelimiters (dialect : SqlDialect) (sql : Text) : List Nat :=
  coveredFrom (rulesOf dialect) (splitStep (rulesOf dialect)) ⟨fresh .semicolon 0, [], sql⟩

theorem formInk {rules : DialectRules} {before more : Text} {c : CodeUnit} {opener : Opener}
    (found : openerAt rules before (c :: more) = some opener) : isSpace c = false := by
  by_contra white
  rw [Bool.not_eq_false] at white
  have joined : SqlFragments.joint c = true := by simp [SqlFragments.joint, white]
  rw [SqlFragments.jointOpens joined] at found
  cases found

theorem splitMoveForm {rules : DialectRules} {s : SplitState} {before more : Text} {c : CodeUnit} {opener : Opener}
    (found : openerAt rules before (c :: more) = some opener) : splitMove rules s before c more = .form opener := by
  obtain ⟨lower, upper⟩ := openerNotCommand found
  have quiet : commandAt rules s before (c :: more) = none := by
    simp only [commandAt, lower, upper, Bool.or_self, Bool.and_false, Bool.false_and, Bool.false_eq_true, if_false]
  simp only [splitMove, formInk found, quiet, found, Bool.false_eq_true, if_false]

theorem splitFormIs (rules : DialectRules) (s : SplitState) (before rest : Text) :
    splitFormHere rules s before rest = formAt rules before rest := by
  cases rest with
  | nil => rfl
  | cons c more =>
    cases found : openerAt rules before (c :: more) with
    | some opener => simp only [splitFormHere, splitMoveForm found, formAt, found]
    | none =>
      have moves := splitMoves rules s before c more
      simp only [splitFormHere, formAt, found]
      generalize splitMove rules s before c more = move at moves ⊢
      cases moves with
      | form opener ink quiet opens =>
        rw [found] at opens
        cases opens
      | _ => rfl

theorem splitTakes (rules : DialectRules) : TakesForms rules (splitStep rules) := by
  refine ⟨splitProgress rules, ?_⟩
  intro s before rest opener found
  cases rest with
  | nil => simp [openerAt] at found
  | cons c more => simp only [splitStep, splitMoveForm found]

theorem splitFormsAre (sql : Text) (dialect : SqlDialect) :
    splitForms sql dialect = skippedFrom (rulesOf dialect) (splitStep (rulesOf dialect)) ⟨fresh .semicolon 0, [], sql⟩ := by
  have same : splitFormHere (rulesOf dialect) = fun _ before rest => formAt (rulesOf dialect) before rest := by
    funext s before rest
    exact splitFormIs _ s before rest
  rw [splitForms, same]
  rfl

theorem hiddenZero (rules : DialectRules) (before rest : Text) : hiddenIn rules before 0 rest = [] := by
  cases rest <;> rfl

theorem namesCoverNone {rules : DialectRules} (noEscape : rules.escapeStringPrefix = false)
    (noDollar : rules.dollarQuoting = false) (c : Config CodeUnit Bool) :
    runAt (nameStep rules) (fun _ _ => []) c = [] := by
  induction c using passInduction (nameProgress rules) with
  | stop odd before => rfl
  | turn c some ih =>
    obtain ⟨odd, before, rest⟩ := c
    rw [runAtNext (nameProgress rules) _ some, ih, List.append_nil]
    cases rest with
    | nil => rfl
    | cons x more =>
      simp only [Config.out, nameStep]
      split
      · rfl
      · split
        · have parts : ∀ d ∈ more.takeWhile isIdentPart, isWordPart d = true := by
            intro d member
            have part : isIdentPart d = true := List.mem_takeWhile_imp member
            simp [isWordPart, part]
          have none := hiddenInNone noEscape noDollar _ (more.dropWhile isIdentPart) (x :: before) parts
          rwa [List.takeWhile_append_dropWhile] at none
        · rfl

theorem delimitersCoverNone {rules : DialectRules} (off : rules.delimiterCommand = false) (c : SplitConfig)
    (mark : c.state.delimiter = .semicolon) : coveredFrom rules (splitStep rules) c = [] := by
  induction c using passInduction (splitProgress rules) with
  | stop s before => rfl
  | turn c some ih =>
    have keep := (nextDelimiter off c).trans mark
    have turn : coveredFrom rules (splitStep rules) c = _ := runAtNext (relabelProgress _ (splitProgress rules)) _ some
    rw [turn, relabelNext, List.append_eq_nil_iff]
    refine ⟨?_, ih keep⟩
    obtain ⟨s, before, rest⟩ := c
    cases rest with
    | nil => rfl
    | cons x more =>
      simp only [Config.out, relabel, coveredAt]
      split
      · rfl
      · have moves := splitMoves rules s before x more
        simp only [splitStep]
        generalize splitMove rules s before x more = move at moves ⊢
        cases moves with
        | command cmd ink found =>
          have on := (commandAtFound found).1
          rw [off] at on
          cases on
        | form opener ink quiet found => simp_all
        | terminator =>
          have one : s.delimiter = .semicolon := mark
          rw [one]
          exact hiddenZero ..
        | space => exact hiddenZero ..
        | unit => exact hiddenZero ..

def ScansAgree (dialect : SqlDialect) (sql : Text) : Prop :=
  skippedForms sql dialect = splitForms sql dialect ∧
  (∀ p ∈ findPlaceholders sql dialect, ∀ f ∈ splitForms sql dialect, p.stop ≤ f.start ∨ f.stop ≤ p.start) ∧
  (∀ p ∈ findPlaceholders sql dialect, p.start < p.stop ∧ p.stop ≤ sql.length) ∧
  (findPlaceholders sql dialect).Pairwise fun p q => p.stop ≤ q.start

theorem skippedIffUncovered (dialect : SqlDialect) (sql : Text) : skippedForms sql dialect = splitForms sql dialect ↔
    coveredByNames dialect sql = [] ∧ coveredByDelimiters dialect sql = [] := by
  have finder : skippedForms sql dialect = formsFrom (rulesOf dialect) [] sql ↔ coveredByNames dialect sql = [] :=
    (skippedAgain (placeholderTakes dialect) ⟨0, [], sql⟩).trans (namesTrack ⟨0, [], sql⟩ false fun _ => rfl)
  have splitter : splitForms sql dialect = formsFrom (rulesOf dialect) [] sql ↔ coveredByDelimiters dialect sql = [] := by
    rw [splitFormsAre]
    exact skippedAgain (splitTakes (rulesOf dialect)) ⟨fresh .semicolon 0, [], sql⟩
  by_cases names : coveredByNames dialect sql = []
  · rw [← splitter, finder.mpr names]
    exact ⟨fun same => ⟨names, same.symm⟩, fun both => both.2.symm⟩
  · have delimiters : coveredByDelimiters dialect sql = [] := by
      cases dialect with
      | postgres => exact delimitersCoverNone rfl _ rfl
      | sqlite => exact delimitersCoverNone rfl _ rfl
      | mysql => exact absurd (namesCoverNone rfl rfl _) names
    refine iff_of_false ?_ fun both => names both.1
    rw [splitter.mpr delimiters]
    exact fun same => names (finder.mp same)

theorem placeholderOut {n : Nat} {before rest : Text} {p : SqlPlaceholder}
    (member : p ∈ (placeholderStep dialect n before rest).out) :
    (placeholderStep dialect n before rest).out = [p] ∧ openerAt (rulesOf dialect) before rest = none ∧
      p.start = before.length ∧ p.stop = before.length + (placeholderStep dialect n before rest).width ∧
      (placeholderStep dialect n before rest).width ≤ rest.length := by
  cases rest with
  | nil => simp [placeholderStep] at member
  | cons c more =>
    have ident := (List.takeWhile_prefix (p := isIdentPart) (l := more)).length_le
    have digit := (List.takeWhile_prefix (p := isDigit) (l := more)).length_le
    cases found : openerAt (rulesOf dialect) before (c :: more) with
    | some opener =>
      rw [placeholderForm found] at member
      cases member
    | none =>
      have jumps := placeholderJumps (n := n) found
      generalize placeholderStep dialect n before (c :: more) = turn at jumps member ⊢
      cases jumps with
      | name begins =>
        obtain rfl := List.mem_singleton.mp member
        exact ⟨rfl, rfl, rfl, rfl, by simp only [List.length_cons]; omega⟩
      | number quoting some =>
        obtain rfl := List.mem_singleton.mp member
        exact ⟨rfl, rfl, rfl, rfl, by simp only [List.length_cons]; omega⟩
      | mark binds =>
        obtain rfl := List.mem_singleton.mp member
        exact ⟨rfl, rfl, rfl, rfl, by simp only [List.length_cons]; omega⟩
      | pair => cases member
      | operator => cases member
      | colon => cases member
      | unit => cases member

theorem spansApart (c : Config CodeUnit Nat) :
    (∀ p ∈ runAt (placeholderStep dialect) (fun _ _ => []) c,
      c.before.length ≤ p.start ∧ p.start < p.stop ∧ p.stop ≤ c.text.length) ∧
    (∀ p ∈ runAt (placeholderStep dialect) (fun _ _ => []) c,
      ∀ f ∈ skippedFrom (rulesOf dialect) (placeholderStep dialect) c, p.stop ≤ f.start ∨ f.stop ≤ p.start) ∧
    (runAt (placeholderStep dialect) (fun _ _ => []) c).Pairwise fun p q => p.stop ≤ q.start := by
  induction c using passInduction (placeholderProgress dialect) with
  | stop n before => simp [runAtEnd]
  | turn c some ih =>
    obtain ⟨inside, apart, ordered⟩ := ih
    have later : ∀ f ∈ skippedFrom (rulesOf dialect) (placeholderStep dialect) (c.next (placeholderStep dialect)),
        (c.next (placeholderStep dialect)).before.length ≤ f.start := fun f => skippedStart (placeholderTakes dialect)
    have forms : skippedFrom (rulesOf dialect) (placeholderStep dialect) c = _ :=
      runAtNext (relabelProgress _ (placeholderProgress dialect)) _ some
    rw [relabelNext] at forms
    rw [runAtNext (placeholderProgress dialect) _ some, forms]
    rw [Config.nextText] at inside
    obtain ⟨n, before, rest⟩ := c
    have positive := placeholderProgress dialect n before rest some
    have long := List.length_pos_iff.mpr some
    have size : (Config.next (placeholderStep dialect) ⟨n, before, rest⟩).before.length =
        before.length + min (placeholderStep dialect n before rest).width rest.length := by
      simp [Config.next, Nat.add_comm]
    have here : ∀ p ∈ Config.out (placeholderStep dialect) ⟨n, before, rest⟩, p.start = before.length ∧
        p.start < p.stop ∧ p.stop = (Config.next (placeholderStep dialect) ⟨n, before, rest⟩).before.length ∧
        p.stop ≤ (⟨n, before, rest⟩ : Config CodeUnit Nat).text.length := by
      intro p member
      obtain ⟨-, -, start, stop, fits⟩ := placeholderOut member
      dsimp only at start stop fits
      simp only [Config.text, List.length_append, List.length_reverse]
      omega
    have form : ∀ f ∈ Config.out (relabel (fun _ before rest => formAt (rulesOf dialect) before rest)
        (placeholderStep dialect)) ⟨n, before, rest⟩,
        f.stop = (Config.next (placeholderStep dialect) ⟨n, before, rest⟩).before.length ∧
          Config.out (placeholderStep dialect) ⟨n, before, rest⟩ = [] := by
      intro f member
      simp only [Config.out, relabel, formAt] at member
      split at member
      · rename_i opener found
        obtain rfl := List.mem_singleton.mp member
        have fits := openerFits found
        rw [size]
        refine ⟨?_, by simp only [Config.out, placeholderForm found]⟩
        simp only [placeholderForm found]
        omega
      · cases member
    refine ⟨?_, ?_, ?_⟩
    · intro p member
      rcases List.mem_append.mp member with now | then'
      · have spans := here p now
        dsimp only at spans ⊢
        omega
      · have spans := inside p then'
        dsimp only at spans size ⊢
        omega
    · intro p member f skipped
      rcases List.mem_append.mp member with now | then'
      · rcases List.mem_append.mp skipped with first | rest'
        · rw [(form f first).2] at now
          cases now
        · have start := later f rest'
          have spans := here p now
          omega
      · rcases List.mem_append.mp skipped with first | rest'
        · have start := (inside p then').1
          have spans := form f first
          omega
        · exact apart p then' f rest'
    · refine List.pairwise_append.mpr ⟨?_, ordered, ?_⟩
      · cases out : Config.out (placeholderStep dialect) ⟨n, before, rest⟩ with
        | nil => exact .nil
        | cons p others =>
          have member : p ∈ (placeholderStep dialect n before rest).out := by
            change p ∈ Config.out (placeholderStep dialect) ⟨n, before, rest⟩
            rw [out]
            simp
          have one := (placeholderOut member).1
          change Config.out (placeholderStep dialect) ⟨n, before, rest⟩ = [p] at one
          rw [out] at one
          rw [one]
          exact List.pairwise_singleton _ _
      · intro p now q then'
        have first := here p now
        have second := inside q then'
        omega

theorem nameOpensString : ¬ ∀ (dialect : SqlDialect) (sql : Text), ScansAgree dialect sql := by
  intro agree
  have scans := (agree .postgres (units "SELECT :E'it\\'s :b'")).1
  revert scans
  decide +kernel

theorem placeholderScanAgreesWhen (dialect : SqlDialect) (sql : Text) :
    ScansAgree dialect sql ↔ coveredByNames dialect sql = [] ∧ coveredByDelimiters dialect sql = [] := by
  rw [← skippedIffUncovered]
  refine ⟨fun agree => agree.1, fun same => ⟨same, ?_⟩⟩
  obtain ⟨inside, apart, ordered⟩ := @spansApart dialect ⟨0, [], sql⟩
  rw [← same]
  refine ⟨apart, fun p member => ?_, ordered⟩
  have spans := inside p member
  exact ⟨spans.2.1, by simpa [Config.text] using spans.2.2⟩

end Agreement

end DatabaseAdmin.Placeholders
