import DatabaseAdmin.PreviewRendering
import DatabaseAdmin.WireCells
import Mathlib.Algebra.GroupWithZero.Nat
import Mathlib.Data.List.Forall2

/-! The MySQL preview against the statement that the driver runs: which question marks are placeholders to
the driver, and for which names and values the text shown is the statement with its values. -/
namespace DatabaseAdmin.MysqlPreviews
open CodeUnits BinaryText Templates ChangeStatements

section Scan

-- The driver's placeholders are outside quotes, and to it a backslash escapes nothing inside backticks.
def executed : Option CodeUnit → Text → List Param → Template Param
  | _, [], _ => []
  | some quote, c :: rest, params =>
      if c = backslash ∧ quote ≠ backtick then
        match rest with
        | [] => [.unit c]
        | d :: rest => .unit c :: .unit d :: executed (some quote) rest params
      else .unit c :: executed (if c = quote then none else some quote) rest params
  | none, c :: rest, params =>
      if isQuote c then .unit c :: executed (some c) rest params
      else if isPlaceholder c then .hole (params.headD .null) :: executed none rest params.tail
      else .unit c :: executed none rest params

def tick (name : Text) : Text := backtick :: (encode backtick false name ++ [backtick])

def isPlain (c : CodeUnit) : Bool := !isQuote c && !isPlaceholder c && c != backslash

inductive Spelled : List (Option Text) → Template Param → Prop where
  | nil : Spelled [] []
  | plain {text marks t} (plain : text.all isPlain = true) (rest : Spelled marks t) : Spelled marks (raw text ++ t)
  | name {name marks t} (rest : Spelled marks t) : Spelled (some name :: marks) (raw (tick name) ++ t)
  | hole {v marks t} (rest : Spelled marks t) : Spelled (none :: marks) (hole v ++ t)

theorem spelledAppend {a b : List (Option Text)} {s t : Template Param} (first : Spelled a s) (last : Spelled b t) :
    Spelled (a ++ b) (s ++ t) := by
  induction first with
  | nil => exact last
  | plain plain _ ih => rw [List.append_assoc]; exact .plain plain ih
  | name _ ih => rw [List.append_assoc]; exact .name ih
  | hole _ ih => rw [List.append_assoc]; exact .hole ih

theorem spelledRaw {text : Text} (plain : text.all isPlain = true) : Spelled [] (raw text) := by
  simpa using Spelled.plain plain .nil

theorem spelledName (name : Text) : Spelled [some name] (raw (tick name)) := by
  simpa using Spelled.name .nil

theorem spelledHole (v : Param) : Spelled [none] (hole v) := .hole .nil

theorem spelledJoined {β : Type} {sep : Text} (plain : sep.all isPlain = true) {marks : β → List (Option Text)}
    {part : β → Template Param} (each : ∀ x, Spelled (marks x) (part x)) :
    ∀ xs : List β, Spelled (xs.flatMap marks) (joined sep (xs.map part))
  | [] => .nil
  | [x] => by simpa [joined, List.intercalate] using each x
  | x :: y :: rest => by
    rw [List.map_cons, List.map_cons, joinedCons, List.flatMap_cons]
    exact spelledAppend (each x) (.plain plain (spelledJoined plain each (y :: rest)))

theorem plainParts {c : CodeUnit} (plain : isPlain c = true) : isQuote c = false ∧ isPlaceholder c = false ∧ c ≠ backslash := by
  simpa [isPlain, and_assoc] using plain

theorem executedPlain {text : Text} (plain : text.all isPlain = true) (more : Text) (params : List Param) :
    executed none (text ++ more) params = raw text ++ executed none more params := by
  induction text with
  | nil => rfl
  | cons c text ih =>
    obtain ⟨head, tail⟩ := List.forall_mem_cons.mp (List.all_eq_true.mp plain)
    obtain ⟨unquoted, unmarked, -⟩ := plainParts head
    rw [List.cons_append, executed, if_neg (Bool.eq_false_iff.mp unquoted), if_neg (Bool.eq_false_iff.mp unmarked),
      ih (List.all_eq_true.mpr tail)]
    rfl

theorem executedOpens (more : Text) (params : List Param) :
    executed none (backtick :: more) params = .unit backtick :: executed (some backtick) more params := by
  have mark : isQuote backtick = true := rfl
  rw [executed, if_pos mark]

theorem executedInside (name more : Text) (params : List Param) :
    executed (some backtick) (encode backtick false name ++ backtick :: more) params =
      raw (encode backtick false name ++ [backtick]) ++ executed none more params := by
  have step (c : CodeUnit) (rest : Text) : executed (some backtick) (c :: rest) params =
      .unit c :: executed (if c = backtick then none else some backtick) rest params := by
    have apart : ¬ (c = backslash ∧ backtick ≠ backtick) := fun both => both.2 rfl
    cases rest <;> simp only [executed, if_neg apart]
  induction name with
  | nil => exact (step _ _).trans rfl
  | cons c name ih =>
    by_cases same : c = backtick
    · subst same
      have whole : executed (some backtick) (backtick :: backtick :: (encode backtick false name ++ backtick :: more)) params =
          .unit backtick :: .unit backtick :: (raw (encode backtick false name ++ [backtick]) ++ executed none more params) := by
        rw [step, if_pos rfl, executedOpens, ih]
      exact whole
    · have single : encode backtick false (c :: name) = c :: encode backtick false name := by
        simp [encode, encodeUnit, same]
      rw [single, List.cons_append, step, if_neg same, ih]
      rfl

theorem executedSpelled {marks : List (Option Text)} {t : Template Param} (spelled : Spelled marks t) :
    executed none (holes t) (values t) = t := by
  induction spelled with
  | nil => rfl
  | plain plain _ ih => rw [holesAppend, holesRaw, valuesAppend, valuesRaw, List.nil_append, executedPlain plain, ih]
  | @name name marks t _ ih =>
    have spread : tick name ++ holes t = backtick :: (encode backtick false name ++ backtick :: holes t) := by
      simp [tick]
    rw [holesAppend, holesRaw, valuesAppend, valuesRaw, List.nil_append, spread, executedOpens, executedInside, ih]
    rfl
  | @hole v marks t _ ih =>
    have marked (more : Text) : executed none (('?' : Char).toNat :: more) (v :: values t) =
        .hole v :: executed none more (values t) := rfl
    exact (marked _).trans (congrArg (Piece.hole v :: ·) ih)

end Scan

section Alignment

def steady : Text → Bool
  | [] => true
  | c :: rest =>
      if c = backslash then
        match rest with
        | [] => false
        | d :: rest => d != backtick && steady rest
      else steady rest

def steadyBefore : List (Option Text) → Bool
  | [] => true
  | some name :: rest => (!rest.contains none || steady name) && steadyBefore rest
  | none :: rest => steadyBefore rest

def lastText : Template Param → Text
  | [] => []
  | .hole _ :: t => lastText t
  | .unit c :: t => if values t = [] then c :: lastText t else lastText t

def quiet (text : Text) : Bool := aligned none (raw text)

def closing (name : Text) (t : Template Param) : Template Param := raw (encode backtick false name ++ [backtick]) ++ t

theorem closingNil (t : Template Param) : closing [] t = .unit backtick :: t := rfl

theorem closingDoubled (name : Text) (t : Template Param) :
    closing (backtick :: name) t = .unit backtick :: .unit backtick :: closing name t := rfl

theorem closingOther {c : CodeUnit} (other : c ≠ backtick) (name : Text) (t : Template Param) :
    closing (c :: name) t = .unit c :: closing name t := by
  have single : encode backtick false (c :: name) = c :: encode backtick false name := by
    simp [encode, encodeUnit, other]
  rw [closing, single]
  rfl

theorem alignedOpens {c : CodeUnit} (mark : isQuote c = true) (t : Template Param) :
    aligned none (.unit c :: t) = aligned (some c) t := by
  rw [aligned, if_pos mark]

theorem alignedEscape (q d : CodeUnit) (t : Template Param) :
    aligned (some q) (.unit backslash :: .unit d :: t) = aligned (some q) t := by
  rw [aligned, if_pos rfl]

theorem tickRead (name : Text) (t : Template Param) : aligned none (raw (tick name) ++ t) = aligned (some backtick) (closing name t) :=
  alignedOpens rfl _

theorem steadyRead : ∀ {name : Text}, steady name = true → ∀ t, aligned (some backtick) (closing name t) = aligned none t
  | [], _, t => by rw [closingNil, alignedInside (by decide), if_pos rfl]
  | c :: rest, even, t => by
    by_cases slash : c = backslash
    · subst slash
      match rest with
      | [] => contradiction
      | d :: rest =>
        simp only [steady, if_true, Bool.and_eq_true, bne_iff_ne] at even
        rw [closingOther (by decide), closingOther even.1, alignedEscape]
        exact steadyRead even.2 t
    · have tail : steady rest = true := by
        cases rest with
        | nil => rfl
        | cons d rest => simpa only [steady, if_neg slash] using even
      by_cases same : c = backtick
      · subst same
        rw [closingDoubled, alignedInside (by decide), if_pos rfl, alignedOpens rfl]
        exact steadyRead tail t
      · rw [closingOther same, alignedInside slash, if_neg same]
        exact steadyRead tail t

def Inside (t : Template Param) : Prop := ∃ quote, isQuote quote = true ∧ aligned (some quote) t = true

theorem strayRead : ∀ (name : Text) (inString : Option CodeUnit) (t : Template Param),
    (∀ quote ∈ inString, isQuote quote = true ∧ quote ≠ backtick) → aligned inString (closing name t) = true → Inside t
  | [], none, t, _, read => ⟨backtick, rfl, (alignedOpens rfl t).symm.trans read⟩
  | [], some quote, t, other, read => by
    rw [closingNil, alignedInside (by decide), if_neg (other quote rfl).2.symm] at read
    exact ⟨quote, (other quote rfl).1, read⟩
  | c :: rest, none, t, other, read => by
    by_cases same : c = backtick
    · subst same
      rw [closingDoubled, alignedOpens rfl, alignedInside (by decide), if_pos rfl] at read
      exact strayRead rest none t other read
    · rw [closingOther same] at read
      by_cases mark : isQuote c = true
      · rw [alignedOpens mark] at read
        exact strayRead rest (some c) t (by rintro _ ⟨⟩; exact ⟨mark, same⟩) read
      · rw [aligned, if_neg mark, Bool.and_eq_true] at read
        exact strayRead rest none t other read.2
  | c :: rest, some quote, t, other, read => by
    have apart := (other quote rfl).2
    have kept : aligned (some quote) (closing rest t) = true → Inside t := strayRead rest (some quote) t other
    by_cases slash : c = backslash
    · subst slash
      rw [closingOther (by decide)] at read
      cases rest with
      | nil =>
        rw [closingNil, alignedEscape] at read
        exact ⟨quote, (other quote rfl).1, read⟩
      | cons d rest =>
        by_cases same : d = backtick
        · subst same
          rw [closingDoubled, alignedEscape, alignedInside (by decide), if_neg apart.symm] at read
          exact strayRead rest (some quote) t other read
        · rw [closingOther same, alignedEscape] at read
          exact strayRead rest (some quote) t other read
    · by_cases same : c = backtick
      · subst same
        rw [closingDoubled, alignedInside slash, if_neg apart.symm, alignedInside slash, if_neg apart.symm] at read
        exact kept read
      · rw [closingOther same, alignedInside slash] at read
        by_cases ends : c = quote
        · rw [if_pos ends] at read
          exact strayRead rest none t (by rintro _ ⟨⟩) read
        · rw [if_neg ends] at read
          exact kept read

theorem unsteadyRead : ∀ {name : Text}, steady name = false → ∀ t, aligned (some backtick) (closing name t) = true → Inside t
  | c :: rest, odd, t, read => by
    by_cases slash : c = backslash
    · subst slash
      rw [closingOther (by decide)] at read
      match rest with
      | [] =>
        rw [closingNil, alignedEscape] at read
        exact ⟨backtick, rfl, read⟩
      | d :: rest =>
        by_cases same : d = backtick
        · subst same
          rw [closingDoubled, alignedEscape, alignedInside (by decide), if_pos rfl] at read
          exact strayRead rest none t nofun read
        · rw [closingOther same, alignedEscape] at read
          simp only [steady, if_true, bne_iff_ne.mpr same, Bool.true_and] at odd
          exact unsteadyRead odd t read
    · have tail : steady rest = false := by
        cases rest with
        | nil => simp [steady, slash] at odd
        | cons d rest => simpa only [steady, if_neg slash] using odd
      by_cases same : c = backtick
      · subst same
        rw [closingDoubled, alignedInside (by decide), if_pos rfl, alignedOpens rfl] at read
        exact unsteadyRead tail t read
      · rw [closingOther same, alignedInside slash, if_neg same] at read
        exact unsteadyRead tail t read

theorem insidePlain {quote : CodeUnit} (mark : isQuote quote = true) {text : Text} (plain : text.all isPlain = true)
    (t : Template Param) : aligned (some quote) (raw text ++ t) = aligned (some quote) t := by
  induction text with
  | nil => rfl
  | cons c text ih =>
    obtain ⟨head, tail⟩ := List.forall_mem_cons.mp (List.all_eq_true.mp plain)
    obtain ⟨unquoted, -, regular⟩ := plainParts head
    have other : c ≠ quote := by
      rintro rfl
      exact absurd (mark.symm.trans unquoted) nofun
    have step : aligned (some quote) (.unit c :: (raw text ++ t)) = aligned (some quote) t := by
      rw [alignedInside regular, if_neg other, ih (List.all_eq_true.mpr tail)]
    exact step

theorem strayHoles {marks : List (Option Text)} {t : Template Param} (spelled : Spelled marks t) : Inside t → values t = [] := by
  induction spelled with
  | nil => exact fun _ => rfl
  | plain plain _ ih =>
    intro ⟨quote, mark, read⟩
    rw [valuesAppend, valuesRaw]
    exact ih ⟨quote, mark, (insidePlain mark plain _).symm.trans read⟩
  | @name name marks t _ ih =>
    intro ⟨quote, mark, read⟩
    rw [valuesAppend, valuesRaw]
    have opened : aligned (some quote) (raw (tick name) ++ t) =
        aligned (if backtick = quote then none else some quote) (closing name t) := alignedInside (by decide) _
    rw [opened] at read
    by_cases same : backtick = quote
    · rw [if_pos same] at read
      exact ih (strayRead name none t nofun read)
    · rw [if_neg same] at read
      exact ih (strayRead name (some quote) t (by rintro _ ⟨⟩; exact ⟨mark, Ne.symm same⟩) read)
  | hole _ _ =>
    intro ⟨quote, _, read⟩
    simp [hole, aligned] at read

theorem noneHoles {marks : List (Option Text)} {t : Template Param} (spelled : Spelled marks t) : none ∈ marks ↔ values t ≠ [] := by
  induction spelled with
  | nil => exact iff_of_false nofun fun some => some rfl
  | plain _ _ ih => rw [valuesAppend, valuesRaw, List.nil_append, ih]
  | name _ ih =>
    rw [valuesAppend, valuesRaw, List.nil_append, ← ih]
    simp
  | hole _ _ => exact iff_of_true List.mem_cons_self (List.cons_ne_nil _ _)

theorem steadyNames {marks : List (Option Text)} (unheld : none ∉ marks) : steadyBefore marks = true := by
  induction marks with
  | nil => rfl
  | cons mark rest ih =>
    obtain ⟨head, tail⟩ := not_or.mp (mt List.mem_cons.mpr unheld)
    cases mark with
    | none => contradiction
    | some name =>
      have clear : rest.contains none = false := by simpa using tail
      rw [steadyBefore, clear, ih tail]
      rfl

theorem lastWhole {t : Template Param} (unheld : values t = []) : raw (lastText t) = t := by
  induction t with
  | nil => rfl
  | cons p t ih =>
    cases p with
    | hole v => contradiction
    | unit c =>
      have rest : values t = [] := unheld
      rw [lastText, if_pos rest]
      exact congrArg (Piece.unit c :: ·) (ih rest)

theorem lastRaw {t : Template Param} (held : values t ≠ []) (text : Text) : lastText (raw text ++ t) = lastText t := by
  induction text with
  | nil => rfl
  | cons c text ih =>
    have still : values (raw text ++ t) ≠ [] := by rwa [valuesAppend, valuesRaw, List.nil_append]
    have step : lastText (.unit c :: (raw text ++ t)) = lastText t := by rw [lastText, if_neg still, ih]
    exact step

theorem calmPlain {text : Text} (plain : text.all isPlain = true) : Calm (raw text) :=
  calmRaw (List.all_eq_true.mpr fun c member => by
    have parts := plainParts (List.all_eq_true.mp plain c member)
    rw [isCalmUnit, parts.1, parts.2.1]
    rfl)

theorem alignedIff {marks : List (Option Text)} {t : Template Param} (spelled : Spelled marks t) :
    aligned none t = true ↔ steadyBefore marks = true ∧ quiet (lastText t) = true := by
  have whole {marks : List (Option Text)} {t : Template Param} (spelled : Spelled marks t) (unheld : values t = []) :
      aligned none t = true ↔ steadyBefore marks = true ∧ quiet (lastText t) = true := by
    rw [quiet, lastWhole unheld, and_iff_right (steadyNames fun held => (noneHoles spelled).mp held unheld)]
  induction spelled with
  | nil => exact whole .nil rfl
  | @plain text marks t plain rest ih =>
    by_cases unheld : values t = []
    · exact whole (.plain plain rest) (by rw [valuesAppend, valuesRaw, unheld]; rfl)
    · rw [calmPlain plain, lastRaw unheld]
      exact ih
  | @name name marks t rest ih =>
    by_cases unheld : values t = []
    · exact whole (.name rest) (by rw [valuesAppend, valuesRaw, unheld]; rfl)
    · have held : marks.contains none = true := List.contains_iff_mem.mpr ((noneHoles rest).mpr unheld)
      rw [tickRead, lastRaw unheld, steadyBefore, held, Bool.not_true, Bool.false_or, Bool.and_eq_true]
      cases even : steady name with
      | true =>
        rw [steadyRead even, and_iff_right rfl]
        exact ih
      | false =>
        refine iff_of_false (fun read => ?_) fun both => nomatch both.1.1
        exact unheld (strayHoles rest (unsteadyRead even t read))
  | @hole v marks t rest ih => exact ih

end Alignment

section Values

def nonFinite : List Text := [units "NaN", units "Infinity", units "-Infinity"]

def Denotes (literal : Text) : Param → Prop
  | .null => literal = units "NULL"
  | .number n => n.text ∉ nonFinite ∧ literal = n.text
  | .boolean value => literal = units (if value then "1" else "0")
  | .bytes content => ∃ body, literal = units "X'" ++ body ++ units "'" ∧ (body = [] ∨ hexPairs body = true) ∧
      (hexBytes body).map UInt8.toNat = content
  | .text v => undoLiteral .mysql literal = some v

def Plain : Param → Prop
  | .number n => n.text ∉ nonFinite
  | .text v => 0 ∉ v
  | _ => True

def Octets : Param → Prop
  | .bytes content => ∃ bytes : List UInt8, content = bytes.map UInt8.toNat
  | _ => True

variable {engine : EngineKind}

theorem hexByteText (b : UInt8) : hexByte b.toNat = [hexUnit (b.toNat / 16), hexUnit (b.toNat % 16)] := by
  have all : ∀ n < 256, hexByte n = [hexUnit (n / 16), hexUnit (n % 16)] := by decide +kernel
  exact all b.toNat b.toNat_lt

theorem hexContent (bytes : List UInt8) : (bytes.map UInt8.toNat).flatMap hexByte = hexText bytes := by
  rw [List.flatMap_map, hexText]
  exact List.flatMap_congr fun b _ => hexByteText b

theorem valueIff (sql : dialectForEngine engine = .ok .mysql) {v : Param} (octets : Octets v) :
    (∃ literal, writtenLiteral engine v = .ok literal ∧ Denotes literal v) ↔ Plain v := by
  cases v with
  | null => exact iff_of_true ⟨_, rfl, rfl⟩ trivial
  | boolean value => exact iff_of_true ⟨_, rfl, rfl⟩ trivial
  | number n =>
    constructor
    · rintro ⟨_, _, finite, _⟩
      exact finite
    · intro finite
      exact ⟨_, rfl, finite, rfl⟩
  | bytes content =>
    obtain ⟨bytes, rfl⟩ := octets
    refine iff_of_true ⟨_, rfl, hexText bytes, by rw [hexContent], ?_, by rw [hexBytesText]⟩ trivial
    by_cases empty : bytes = []
    · exact .inl (by rw [empty]; rfl)
    · exact .inr (hexPairsText bytes empty)
  | text v =>
    constructor
    · rintro ⟨literal, written', _⟩ nul
      have refused : v.contains 0 = true := List.contains_iff_mem.mpr nul
      simp [writtenLiteral, renderLiteral, quoteLiteral, nul] at written'
    · intro clean
      obtain ⟨quoted, ok, back, -⟩ := literalIsOneToken sql clean (t := []) (by rintro _ ⟨⟩)
      exact ⟨quoted, ok, back⟩

theorem bitRange {bits : List Nat} (binary : ∀ c ∈ bits, c = ('0' : Char).toNat ∨ c = ('1' : Char).toNat) (n : Nat) :
    bits.foldl (fun byte c => 2 * byte + (c - ('0' : Char).toNat)) n < 2 ^ bits.length * (n + 1) := by
  induction bits generalizing n with
  | nil => simp
  | cons c bits ih =>
    obtain ⟨here, later⟩ := List.forall_mem_cons.mp binary
    have small : c - ('0' : Char).toNat ≤ 1 := by rcases here with rfl | rfl <;> decide
    rw [List.foldl_cons, List.length_cons, Nat.pow_succ, Nat.mul_assoc]
    refine (ih later _).trans_le (Nat.mul_le_mul_left _ ?_)
    omega

theorem bitOctets (v : Text) : ∀ b ∈ bitBytes v, b < 256 := by
  intro b member
  obtain ⟨i, -, rfl⟩ := List.mem_map.mp member
  refine (bitRange (fun c inside => ?_) 0).trans_le ?_
  · rcases List.mem_append.mp (List.mem_of_mem_drop (List.mem_of_mem_take inside)) with fill | bit
    · exact .inl (List.eq_of_mem_replicate fill)
    · simpa using (List.mem_filter.mp bit).2
  · rw [Nat.zero_add, Nat.mul_one]
    exact Nat.pow_le_pow_right (by decide) (List.length_take_le 8 _)

def base64 (v : Text) : List Nat := (base64Bytes v).map UInt8.toNat

theorem cellOctets (cell : Cell) : Octets (cellToParam base64 cell) := by
  cases cell with
  | tagged tag v =>
    cases tag with
    | bytes => exact ⟨base64Bytes v, rfl⟩
    | bit =>
      refine ⟨(bitBytes v).map UInt8.ofNat, ?_⟩
      rw [List.map_map]
      refine (List.map_id _).symm.trans (List.map_congr_left fun b member => ?_)
      exact (Nat.mod_eq_of_lt (bitOctets v b member)).symm
    | other => trivial
  | _ => trivial

end Values

section Changes
variable {engine : EngineKind}

def params (values : Record) : List (Text × Param) := values.map fun e => (e.1, cellToParam base64 e.2)

def keyParams (key : Record) (cols : List Text) : List (Text × Option Param) :=
  cols.map fun col => (col, (present key col).map (cellToParam base64))

def asked (keyColumns : List Text) : ChangeOp → List (Filled Param)
  | .insert values => [.insert (params values)]
  | .update key values => if values = [] then [] else [.update (params values) (keyParams key keyColumns)]
  | .delete key => [.delete (keyParams key keyColumns)]

def ticked : Filled Param → Filled Param
  | .insert entries => .insert (entries.map fun e => (tick e.1, e.2))
  | .update entries keys => .update (entries.map fun e => (tick e.1, e.2)) (keys.map fun k => (tick k.1, k.2))
  | .delete keys => .delete (keys.map fun k => (tick k.1, k.2))

def targetNames (cs : Changeset) : List Text := [cs.schema, some cs.table].filterMap fun p => p.filter (· ≠ [])

def termMarks (k : Text × Option Param) : List (Option Text) := some k.1 :: k.2.toList.map fun _ => none

def outline (cs : Changeset) : Filled Param → List (Option Text)
  | .insert entries => (targetNames cs).map some ++ (entries.map (fun e => some e.1) ++ entries.map fun _ => none)
  | .update entries keys => (targetNames cs).map some ++ (entries.flatMap (fun e => [some e.1, none]) ++ keys.flatMap termMarks)
  | .delete keys => (targetNames cs).map some ++ keys.flatMap termMarks

theorem tickOf (sql : dialectForEngine engine = .ok .mysql) {name ident : Text} (ok : quoteIdent name engine = .ok ident) :
    ident = tick name := by
  have style : styleFor engine = .ok .backtick := by cases engine <;> cases sql <;> rfl
  simp only [quoteIdent, style, bind, Except.bind] at ok
  split at ok
  · contradiction
  · split at ok
    · contradiction
    · cases ok
      rw [encodeDoubled]
      rfl

theorem entriesOf (sql : dialectForEngine engine = .ok .mysql) {values : Record} {entries : List (Text × Param)}
    (ok : mysqlEntries engine base64 values = .ok entries) : entries = (params values).map fun e => (tick e.1, e.2) := by
  induction values generalizing entries with
  | nil => exact (Except.ok.inj ok).symm
  | cons e values ih =>
    obtain ⟨ident, named, ok⟩ := bindOk ok
    obtain ⟨tail, more, ok⟩ := bindOk ok
    cases ok
    rw [tickOf sql named, ih more]
    rfl

theorem keysOf (sql : dialectForEngine engine = .ok .mysql) {key : Record} {cols : List Text} {keys : List (Text × Option Param)}
    (ok : mysqlKeys engine base64 key cols = .ok keys) : keys = (keyParams key cols).map fun k => (tick k.1, k.2) := by
  induction cols generalizing keys with
  | nil => exact (Except.ok.inj ok).symm
  | cons col cols ih =>
    obtain ⟨ident, named, ok⟩ := bindOk ok
    obtain ⟨tail, more, ok⟩ := bindOk ok
    cases ok
    rw [tickOf sql named, ih more]
    rfl

theorem filledOf (sql : dialectForEngine engine = .ok .mysql) {keyColumns : List Text} {change : ChangeOp}
    {part : List (Filled Param)} (ok : mysqlFilled engine base64 keyColumns change = .ok part) :
    part = (asked keyColumns change).map ticked := by
  cases change with
  | insert values =>
    obtain ⟨entries, read, ok⟩ := bindOk ok
    cases ok
    rw [entriesOf sql read]
    rfl
  | update key values =>
    simp only [mysqlFilled] at ok
    split at ok
    · rename_i empty
      cases ok
      rw [asked, if_pos empty]
      rfl
    · rename_i edited
      obtain ⟨entries, read, ok⟩ := bindOk ok
      obtain ⟨keys, found, ok⟩ := bindOk ok
      cases ok
      rw [entriesOf sql read, keysOf sql found, asked, if_neg edited]
      rfl
  | delete key =>
    obtain ⟨keys, found, ok⟩ := bindOk ok
    cases ok
    rw [keysOf sql found]
    rfl

theorem gatheredOf (sql : dialectForEngine engine = .ok .mysql) {keyColumns : List Text} {changes : List ChangeOp}
    {fs : List (Filled Param)} (ok : gather (mysqlFilled engine base64 keyColumns) changes = .ok fs) :
    fs = (changes.flatMap (asked keyColumns)).map ticked := by
  induction changes generalizing fs with
  | nil => exact (Except.ok.inj ok).symm
  | cons change rest ih =>
    obtain ⟨first, read, ok⟩ := bindOk ok
    obtain ⟨more, later, ok⟩ := bindOk ok
    cases ok
    rw [filledOf sql read, ih later, List.flatMap_cons, List.map_append]

theorem targetOf (sql : dialectForEngine engine = .ok .mysql) {cs : Changeset} {target : Text}
    (ok : quoteQualified engine [cs.schema, cs.table] = .ok target) : target = join "." ((targetNames cs).map tick) := by
  simp only [quoteQualified] at ok
  split at ok
  · contradiction
  · obtain ⟨idents, named, ok⟩ := bindOk ok
    cases ok
    have same := mapMSame (k := id) (fun _ _ quoted => tickOf sql quoted) named
    rw [List.map_id] at same
    rw [same]
    rfl

theorem spelledTarget (cs : Changeset) : Spelled ((targetNames cs).map some) (raw (join "." ((targetNames cs).map tick))) := by
  rw [join, rawJoined, List.map_map, List.map_eq_flatMap]
  exact spelledJoined (by decide) (fun name => spelledName name) (targetNames cs)

theorem spelledTerm (k : Text × Option Param) : Spelled (termMarks k) (termTemplate (tick k.1, k.2)) := by
  obtain ⟨name, value⟩ := k
  cases value with
  | none =>
    rw [termTemplate, rawAppend]
    exact spelledAppend (spelledName name) (spelledRaw (by decide))
  | some v =>
    rw [termTemplate, rawAppend, List.append_assoc]
    exact spelledAppend (spelledName name) (.plain (by decide) (spelledHole v))

theorem spelledAssign (e : Text × Param) : Spelled [some e.1, none] (assignTemplate (tick e.1, e.2)) := by
  rw [assignTemplate, rawAppend, List.append_assoc]
  exact spelledAppend (spelledName e.1) (.plain (by decide) (spelledHole e.2))

theorem spelledWhere (keys : List (Text × Option Param)) :
    Spelled (keys.flatMap termMarks) (whereTemplate (keys.map fun k => (tick k.1, k.2))) := by
  rw [whereTemplate, List.map_map]
  exact spelledJoined (by decide) spelledTerm keys

theorem spelledStatement {cs : Changeset} {f : Filled Param} :
    Spelled (outline cs f) (mysqlTemplate (join "." ((targetNames cs).map tick)) (ticked f)) := by
  have target := spelledTarget cs
  cases f with
  | insert entries =>
    cases entries with
    | nil =>
      simp only [ticked, mysqlTemplate, template, List.map_nil, List.isEmpty_nil, if_true, outline, List.append_nil, rawAppend,
        List.append_assoc]
      exact .plain (by decide) (by simpa using spelledAppend target (spelledRaw (by decide)))
    | cons e rest =>
      have some : ((e :: rest).map fun e => (tick e.1, e.2)).isEmpty = false := rfl
      have comma : (units ", ").all isPlain = true := by decide
      simp only [ticked, mysqlTemplate, template, some, Bool.false_eq_true, if_false, outline, rawAppend, List.append_assoc]
      have names : Spelled ((e :: rest).map fun e => Option.some e.1)
          (raw (join ", " (((e :: rest).map fun e => (tick e.1, e.2)).map Prod.fst))) := by
        have each : (e :: rest).map (fun e => Option.some e.1) = (e :: rest).flatMap fun e => [Option.some e.1] := List.map_eq_flatMap
        rw [join, rawJoined, List.map_map, List.map_map, each]
        exact spelledJoined comma (fun e => spelledName e.1) (e :: rest)
      have holes : Spelled ((e :: rest).map fun _ => none)
          (joined (units ", ") (((e :: rest).map fun e => (tick e.1, e.2)).map fun e => hole e.2)) := by
        have each : (e :: rest).map (fun _ => (none : Option Text)) = (e :: rest).flatMap fun _ => [none] := List.map_eq_flatMap
        rw [List.map_map, each]
        exact spelledJoined comma (fun e => spelledHole e.2) (e :: rest)
      have last : Spelled [] (raw (units ")")) := spelledRaw (by decide)
      have tail := spelledAppend holes last
      rw [List.append_nil] at tail
      exact .plain (by decide) (spelledAppend target (.plain (by decide) (spelledAppend names (.plain (by decide) tail))))
  | update entries keys =>
    have assigns : Spelled (entries.flatMap fun e => [some e.1, none])
        (joined (units ", ") ((entries.map fun e => (tick e.1, e.2)).map assignTemplate)) := by
      rw [List.map_map]
      exact spelledJoined (by decide) spelledAssign entries
    simp only [ticked, mysqlTemplate, template, outline, rawAppend, List.append_assoc]
    exact .plain (by decide) (spelledAppend target (.plain (by decide)
      (spelledAppend assigns (.plain (by decide) (spelledWhere keys)))))
  | delete keys =>
    simp only [ticked, mysqlTemplate, template, outline, rawAppend, List.append_assoc]
    exact .plain (by decide) (spelledAppend target (.plain (by decide) (spelledWhere keys)))

theorem templatesOf (sql : dialectForEngine engine = .ok .mysql) {cs : Changeset} {ts : List (Template Param)}
    (ok : mysqlTemplates engine base64 cs = .ok ts) : ts = (cs.changes.flatMap (asked cs.keyColumns)).map fun f =>
      mysqlTemplate (join "." ((targetNames cs).map tick)) (ticked f) := by
  obtain ⟨target, quoted, ok⟩ := bindOk ok
  obtain ⟨fs, gathered, ok⟩ := bindOk ok
  cases ok
  rw [targetOf sql quoted, gatheredOf sql gathered, List.map_map]
  rfl

def Shows (engine : EngineKind) (t : Template Param) (result : Except String Text) : Prop :=
  (∃ text, result = .ok text ∧ written (writtenLiteral engine) t = .ok text) ∧
    ∀ v ∈ values t, ∃ literal, writtenLiteral engine v = .ok literal ∧ Denotes literal v

theorem plainWritable (sql : dialectForEngine engine = .ok .mysql) {v : Param} (octets : Octets v) (plain : Plain v) :
    Writable engine v := by
  obtain ⟨literal, written', -⟩ := (valueIff sql octets).mpr plain
  exact ⟨literal, written'⟩

theorem showsIff (sql : dialectForEngine engine = .ok .mysql) {marks : List (Option Text)} {t : Template Param}
    (spelled : Spelled marks t) (octets : ∀ v ∈ values t, Octets v) :
    Shows engine t (renderWithParams engine (holes t) (values t)) ↔
      steadyBefore marks = true ∧ quiet (lastText t) = true ∧ ∀ v ∈ values t, Plain v := by
  have rendered : (∃ text, renderWithParams engine (holes t) (values t) = .ok text ∧ written (writtenLiteral engine) t = .ok text) ↔
      aligned none t = true ∧ ∀ v ∈ values t, Writable engine v := renderedIff none t
  have denoted : (∀ v ∈ values t, ∃ literal, writtenLiteral engine v = .ok literal ∧ Denotes literal v) ↔ ∀ v ∈ values t, Plain v :=
    forall₂_congr fun v member => valueIff sql (octets v member)
  rw [Shows, rendered, denoted, alignedIff spelled]
  constructor
  · intro ⟨⟨⟨before, behind⟩, _⟩, plain⟩
    exact ⟨before, behind, plain⟩
  · intro ⟨before, behind, plain⟩
    exact ⟨⟨⟨before, behind⟩, fun v member => plainWritable sql (octets v member) (plain v member)⟩, plain⟩

theorem askedOctets {keyColumns : List Text} {change : ChangeOp} {f : Filled Param} (member : f ∈ asked keyColumns change)
    (target : Text) : ∀ v ∈ values (mysqlTemplate target (ticked f)), Octets v := by
  have entries (record : Record) : ∀ v ∈ ((params record).map fun e => (tick e.1, e.2)).map Prod.snd, Octets v := by
    intro v inside
    simp only [params, List.map_map, List.mem_map, Function.comp_apply] at inside
    obtain ⟨e, -, rfl⟩ := inside
    exact cellOctets e.2
  have terms (key : Record) : ∀ v ∈ ((keyParams key keyColumns).map fun k => (tick k.1, k.2)).filterMap Prod.snd, Octets v := by
    intro v inside
    simp only [keyParams, List.map_map, List.mem_filterMap, List.mem_map, Function.comp_apply] at inside
    obtain ⟨_, ⟨col, -, rfl⟩, here⟩ := inside
    obtain ⟨cell, -, rfl⟩ := Option.map_eq_some_iff.mp here
    exact cellOctets cell
  rw [mysqlTemplate, filledValues]
  cases change with
  | insert record =>
    cases List.mem_singleton.mp member
    exact entries record
  | update key record =>
    rw [asked] at member
    split at member
    · contradiction
    · cases List.mem_singleton.mp member
      exact List.forall_mem_append.mpr ⟨entries record, terms key⟩
  | delete key =>
    cases List.mem_singleton.mp member
    exact terms key

theorem previewsFilled (engine : EngineKind) (sql : dialectForEngine engine = .ok .mysql) (cs : Changeset)
    (statements : List PreparedStatement) (ok : buildChangesetStatements engine base64 cs = .ok statements) :
    ∃ ts, mysqlTemplates engine base64 cs = .ok ts ∧ statements = ts.map prepared ∧
      List.Forall₂ (fun f t => executed none (holes t) (values t) = t ∧
          (Shows engine t (renderWithParams engine (holes t) (values t)) ↔
            steadyBefore (outline cs f) = true ∧ quiet (lastText t) = true ∧ ∀ v ∈ values t, Plain v))
        (cs.changes.flatMap (asked cs.keyColumns)) ts := by
  rw [builtOf] at ok
  cases listed : mysqlTemplates engine base64 cs with
  | error message =>
    rw [listed] at ok
    contradiction
  | ok ts =>
    rw [listed] at ok
    refine ⟨ts, rfl, (Except.ok.inj ok).symm, ?_⟩
    rw [templatesOf sql listed, List.forall₂_map_right_iff, List.forall₂_same]
    intro f member
    obtain ⟨change, -, here⟩ := List.mem_flatMap.mp member
    exact ⟨executedSpelled spelledStatement, showsIff sql spelledStatement (askedOctets here _)⟩

def quotedChange : Changeset := ⟨some (units "s"), units "a`?", [units "id"],
  [.update [(units "id", .string (units "1"))] [(units "it's", .string (units "why?"))]]⟩

def quotedStatement : PreparedStatement :=
  ⟨units "UPDATE `s`.`a``?` SET `it's` = ? WHERE `id` = ?", [.text (units "why?"), .text (units "1")], 1⟩

theorem quotedNamesShown : buildChangesetStatements .mysql base64 quotedChange = .ok [quotedStatement] ∧
    Shows .mysql (executed none quotedStatement.sql quotedStatement.params)
      (renderWithParams .mysql quotedStatement.sql quotedStatement.params) := by
  have ok : buildChangesetStatements .mysql base64 quotedChange = .ok [quotedStatement] := by rfl
  obtain ⟨ts, -, made, each⟩ := previewsFilled .mysql rfl quotedChange _ ok
  match ts, made, each with
  | [t], made, each =>
    have same : quotedStatement = prepared t := List.head_eq_of_cons_eq made
    obtain ⟨run, shows⟩ := (List.forall₂_cons.mp each).1
    have sql : quotedStatement.sql = holes t := congrArg PreparedStatement.sql same
    have params : quotedStatement.params = values t := congrArg PreparedStatement.params same
    rw [← sql, ← params] at run shows
    refine ⟨ok, run ▸ shows.mpr ⟨by decide +kernel, ?_, ?_⟩⟩
    · rw [← run]
      decide +kernel
    · have asked : 0 ∉ units "why?" := by decide
      have one : 0 ∉ units "1" := by decide
      exact List.forall_mem_cons.mpr ⟨asked, List.forall_mem_singleton.mpr one⟩

def slashChange : Changeset := ⟨none, units "t", [units "id"],
  [.update [(units "id", .string (units "1"))] [(units "a\\", .string (units "x"))]]⟩

theorem slashNameMisread : ¬ ∀ (engine : EngineKind), dialectForEngine engine = .ok .mysql →
    ∀ (cs : Changeset) (statements : List PreparedStatement), buildChangesetStatements engine base64 cs = .ok statements →
      ∀ p ∈ statements, Shows engine (executed none p.sql p.params) (renderWithParams engine p.sql p.params) := by
  intro all
  have ok : buildChangesetStatements .mysql base64 slashChange = .ok [⟨units "UPDATE `t` SET `a\\` = ? WHERE `id` = ?",
    [.text (units "x"), .text (units "1")], 1⟩] := by rfl
  obtain ⟨⟨text, shown, written'⟩, -⟩ := all .mysql rfl slashChange _ ok _ List.mem_cons_self
  have same := congrArg Except.toOption (shown.trans written'.symm)
  exact absurd same (by decide +kernel)

end Changes

end DatabaseAdmin.MysqlPreviews
