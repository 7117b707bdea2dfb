import DatabaseAdmin.SqlTokens

/-! Identifier and literal quoting for generated SQL, and its round trip through the tokenizer. -/
namespace DatabaseAdmin
open CodeUnits ScanLoop

def replaceUnit (c : CodeUnit) (written : Text) (text : Text) : Text :=
  text.flatMap (fun d => if d = c then written else [d])

inductive QuoteStyle where
  | backtick | double
  deriving DecidableEq, Repr

def styleFor : EngineKind → Except String QuoteStyle
  | .mysql | .mariadb => .ok .backtick
  | .postgres | .sqlite => .ok .double
  | engine => .error ("quoteIdent: engine \"" ++ engine.name ++ "\" has no SQL identifier syntax")

def QuoteStyle.mark : QuoteStyle → CodeUnit
  | .backtick => CodeUnits.backtick
  | .double => doubleQuote

def quoteIdent (name : Text) (engine : EngineKind) : Except String Text := do
  let style ← styleFor engine
  if name.length = 0 then throw "quoteIdent: identifier must be a non-empty string"
  if name.contains 0 then throw "quoteIdent: identifiers cannot contain NUL bytes"
  return style.mark :: replaceUnit style.mark [style.mark, style.mark] name ++ [style.mark]

inductive LiteralValue where
  | string (text : Text)
  | number (finite : Bool) (shown : String)
  | bigint (value : Int)
  | boolean (value : Bool)
  | null
  deriving DecidableEq, Repr

def escapedQuotes (text : Text) : Text := replaceUnit apostrophe [apostrophe, apostrophe] text

def escapedBackslashes (text : Text) : Text := replaceUnit backslash [backslash, backslash] text

def quoteLiteral (value : LiteralValue) (engine : EngineKind) : Except String Text :=
  match value with
  | .null => .ok (units "NULL")
  | .boolean value =>
      if engine = .sqlite then .ok (units (if value then "1" else "0"))
      else .ok (units (if value then "TRUE" else "FALSE"))
  | .bigint value => .ok (units (toString value))
  | .number finite shown =>
      if finite then .ok (units shown)
      else .error ("quoteLiteral: " ++ shown ++ " has no portable SQL literal")
  | .string text =>
      if text.contains 0 then
        .error "quoteLiteral: value contains a NUL byte; use a bound parameter"
      else match engine with
      | .mysql | .mariadb =>
          .ok (apostrophe :: escapedBackslashes (escapedQuotes text) ++ [apostrophe])
      | .postgres =>
          if text.contains backslash then
            .ok (('E' : CodeUnit) :: apostrophe :: escapedBackslashes (escapedQuotes text) ++
              [apostrophe])
          else .ok (apostrophe :: escapedQuotes text ++ [apostrophe])
      | .sqlite => .ok (apostrophe :: escapedQuotes text ++ [apostrophe])
      | engine =>
          .error ("quoteLiteral: engine \"" ++ engine.name ++ "\" has no SQL literal syntax")

def mysqlEscape (c : CodeUnit) : Option Text :=
  if c = '0' then some [0]
  else if c = 'b' then some [8]
  else if c = 'n' then some [10]
  else if c = 'r' then some [13]
  else if c = 't' then some [9]
  else if c = 'Z' then some [26]
  else if c = '%' ∨ c = '_' then some [backslash, c]
  else some [c]

def postgresEscape (c : CodeUnit) : Option Text :=
  if c = 'b' then some [8]
  else if c = 'f' then some [12]
  else if c = 'n' then some [10]
  else if c = 'r' then some [13]
  else if c = 't' then some [9]
  else if (48 ≤ c ∧ c ≤ 55) ∨ c = 'x' ∨ c = 'u' ∨ c = 'U' then none
  else some [c]

def undoBody (escape : Option (CodeUnit → Option Text)) : Text → Option Text
  | [] => none
  | [c] => if c = apostrophe then some [] else none
  | c :: d :: rest =>
      if c = backslash then
        match escape with
        | some escape => do
            let head ← escape d
            let tail ← undoBody escape rest
            some (head ++ tail)
        | none => do
            let tail ← undoBody none (d :: rest)
            some (c :: tail)
      else if c = apostrophe then
        if d = apostrophe then do
          let tail ← undoBody escape rest
          some (c :: tail)
        else none
      else do
        let tail ← undoBody escape (d :: rest)
        some (c :: tail)

def undoLiteral (dialect : SqlDialect) : Text → Option Text
  | c :: rest =>
      if c = apostrophe then
        undoBody (if dialect = .mysql then some mysqlEscape else none) rest
      else match dialect, rest with
      | .postgres, d :: rest =>
          if (c = 'E' ∨ c = 'e') ∧ d = apostrophe then undoBody (some postgresEscape) rest else none
      | _, _ => none
  | [] => none

def encodeUnit (quote : CodeUnit) (escapes : Bool) (c : CodeUnit) : Text :=
  if c = quote then [quote, quote]
  else if escapes = true ∧ c = backslash then [backslash, backslash] else [c]

def encode (quote : CodeUnit) (escapes : Bool) (text : Text) : Text :=
  text.flatMap (encodeUnit quote escapes)

theorem encodeDoubled (quote : CodeUnit) (text : Text) :
    replaceUnit quote [quote, quote] text = encode quote false text := by
  simp only [replaceUnit, encode]
  refine List.flatMap_congr (fun c _ => ?_)
  simp [encodeUnit]

theorem encodeEscaped (text : Text) :
    escapedBackslashes (escapedQuotes text) = encode apostrophe true text := by
  simp only [escapedBackslashes, escapedQuotes, replaceUnit, encode, List.flatMap_assoc]
  congr 1
  funext c
  simp only [encodeUnit]
  split
  · decide
  · simp

section Scan
variable {quote : CodeUnit} (regular : quote ≠ backslash)
include regular

theorem scanCloses (escapes : Bool) {t : Text} (apart : ∀ c ∈ t.head?, c ≠ quote) :
    scanQuotedTail quote true escapes (quote :: t) = 1 := by
  have open_ : ¬ (escapes && quote == backslash) = true := by simp [regular]
  cases t with
  | nil => rfl
  | cons d t =>
    have single : ¬ (true && d == quote) = true := by simpa using apart d rfl
    simp only [scanQuotedTail, if_neg open_, beq_self_eq_true, if_true, if_neg single]

omit regular in
theorem scanPlain {escapes : Bool} {c : CodeUnit} {text : Text} (some : text ≠ []) (plain : c ≠ quote)
    (literal : ¬ (escapes = true ∧ c = backslash)) :
    scanQuotedTail quote true escapes (c :: text) = scanQuotedTail quote true escapes text + 1 := by
  cases text with
  | nil => exact absurd rfl some
  | cons d text =>
    have keep : ¬ (escapes && c == backslash) = true := by simpa using literal
    have inner : ¬ (c == quote) = true := by simpa using plain
    simp only [scanQuotedTail, if_neg keep, if_neg inner]

theorem scanEncoded (escapes : Bool) (s : Text) {t : Text} (apart : ∀ c ∈ t.head?, c ≠ quote) :
    scanQuotedTail quote true escapes (encode quote escapes s ++ quote :: t) =
      (encode quote escapes s).length + 1 := by
  induction s with
  | nil => exact scanCloses regular escapes apart
  | cons c s ih =>
    have open_ : ¬ (escapes && quote == backslash) = true := by simp [regular]
    simp only [encode, List.flatMap_cons, List.append_assoc, List.length_append] at ih ⊢
    by_cases marked : c = quote
    · have doubled : encodeUnit quote escapes c = [quote, quote] := if_pos marked
      simp only [doubled, List.cons_append, List.nil_append, scanQuotedTail, if_neg open_,
        beq_self_eq_true, Bool.and_self, if_true, ih, List.length_cons, List.length_nil]
      omega
    · by_cases escaped : escapes = true ∧ c = backslash
      · have doubled : encodeUnit quote escapes c = [backslash, backslash] := by
          rw [encodeUnit, if_neg marked, if_pos escaped]
        obtain ⟨on, slash⟩ := escaped
        subst on
        rw [doubled]
        simp only [List.cons_append, List.nil_append, scanQuotedTail, beq_self_eq_true,
          Bool.and_self, if_true, ih, List.length_cons, List.length_nil]
        omega
      · have single : encodeUnit quote escapes c = [c] := by
          rw [encodeUnit, if_neg marked, if_neg escaped]
        rw [single, List.singleton_append, scanPlain (by simp) marked escaped, ih]
        simp only [List.length_cons, List.length_nil]
        omega

end Scan

section Undo

theorem undoubleEncoded (quote : CodeUnit) (s : Text) :
    undouble quote (encode quote false s) = s := by
  induction s with
  | nil => rfl
  | cons c s ih =>
    simp only [encode, List.flatMap_cons] at ih ⊢
    by_cases marked : c = quote
    · simp [encodeUnit, marked, undouble, ih]
    · have single : encodeUnit quote false c = [c] := by simp [encodeUnit, marked]
      rw [single, List.singleton_append]
      cases rest : s.flatMap (encodeUnit quote false) with
      | nil => rw [rest] at ih; simp [undouble, ← ih]
      | cons d rest' =>
        have differs : ¬ (c == quote && d == quote) = true := by simp [marked]
        rw [rest] at ih
        simp only [undouble, if_neg differs, ih]

theorem undoBodyPlain {escape : Option (CodeUnit → Option Text)} {c : CodeUnit} {text : Text}
    (some : text ≠ []) (plain : c ≠ apostrophe) (literal : escape = none ∨ c ≠ backslash) :
    undoBody escape (c :: text) = (undoBody escape text).map (c :: ·) := by
  cases text with
  | nil => exact absurd rfl some
  | cons d text =>
    by_cases slash : c = backslash
    · have none : escape = none := literal.resolve_right (fun differs => differs slash)
      subst none slash
      simp only [undoBody, if_true]
      cases undoBody none (d :: text) <;> rfl
    · simp only [undoBody, if_neg slash, if_neg plain]
      cases undoBody escape (d :: text) <;> rfl

theorem undoBodyEncoded (escape : Option (CodeUnit → Option Text))
    (slash : ∀ read ∈ escape, read backslash = some [backslash]) (s : Text) :
    undoBody escape (encode apostrophe escape.isSome s ++ [apostrophe]) = some s := by
  induction s with
  | nil => rfl
  | cons c s ih =>
    simp only [encode, List.flatMap_cons, List.append_assoc] at ih ⊢
    by_cases marked : c = apostrophe
    · subst marked
      have doubled : encodeUnit apostrophe escape.isSome apostrophe = [apostrophe, apostrophe] :=
        if_pos rfl
      rw [doubled]
      simp only [List.cons_append, List.nil_append, undoBody]
      rw [ih]
      rfl
    · by_cases escaped : escape.isSome = true ∧ c = backslash
      · obtain ⟨read, there⟩ := Option.isSome_iff_exists.mp escaped.1
        have doubled : encodeUnit apostrophe escape.isSome c = [backslash, backslash] := by
          rw [encodeUnit, if_neg marked, if_pos escaped]
        have back := slash read there
        subst there
        rw [doubled, escaped.2]
        simp only [List.cons_append, List.nil_append, undoBody, if_true, back]
        rw [ih]
        rfl
      · have single : encodeUnit apostrophe escape.isSome c = [c] := by
          rw [encodeUnit, if_neg marked, if_neg escaped]
        have literal : escape = none ∨ c ≠ backslash := by
          cases escape with
          | none => exact Or.inl rfl
          | some read => exact Or.inr (fun same => escaped ⟨rfl, same⟩)
        rw [single, List.singleton_append, undoBodyPlain (by simp) marked literal, ih]
        rfl

end Undo

theorem tokenizeQuoted {rules : DialectRules} {c : CodeUnit} {body t : Text} (opener : Opener)
    {kind : TokenKind} (inkSome : isSpace c = false)
    (found : openerAt rules [] (c :: body ++ t) = some opener) (kinded : openerKind opener = some kind)
    (whole : opener.scan rules (c :: body ++ t) = (c :: body).length) :
    ∃ token rest, tokenize (c :: body ++ t) rules = token :: rest ∧ token.kind = kind ∧
      token.start = 0 ∧ token.text = c :: body := by
  have step : tokenStep rules 0 [] (c :: body ++ t) =
      ⟨0, (c :: body).length, [tokenOf kind [] (c :: body ++ t) (c :: body).length 0]⟩ := by
    rw [List.cons_append] at found whole ⊢
    simp only [tokenStep, inkSome, found, kinded, whole, Bool.false_eq_true, if_false]
  refine ⟨tokenOf kind [] (c :: body ++ t) (c :: body).length 0, ?_⟩
  simp only [tokenize, List.cons_append, run]
  rw [← List.cons_append, step]
  refine ⟨_, rfl, rfl, rfl, ?_⟩
  simp only [tokenOf, List.take_left]

theorem quotedScan (quote : CodeUnit) (regular : quote ≠ backslash) (escapes : Bool) (s : Text)
    {t : Text} (apart : ∀ c ∈ t.head?, isQuote c = false) (isMark : isQuote quote = true) :
    scanQuoted quote true escapes ((quote :: (encode quote escapes s ++ [quote])) ++ t) =
      (quote :: (encode quote escapes s ++ [quote])).length := by
  have differs : ∀ c ∈ t.head?, c ≠ quote := by
    intro c head same
    simp [apart c head, ← same] at isMark
  have tail := scanEncoded regular escapes s differs
  simp only [scanQuoted, List.cons_append, List.append_assoc, List.nil_append, List.drop_one,
    List.tail_cons, tail, List.length_cons, List.length_append, List.length_nil]
  omega

theorem quoteLiteralText {engine : EngineKind} {dialect : SqlDialect}
    (sql : dialectForEngine engine = .ok dialect) {s : Text} (nulFree : 0 ∉ s) :
    quoteLiteral (.string s) engine = .ok (
      match dialect with
      | .mysql => apostrophe :: (encode apostrophe true s ++ [apostrophe])
      | .sqlite => apostrophe :: (encode apostrophe false s ++ [apostrophe])
      | .postgres =>
          if backslash ∈ s then ('E' : CodeUnit) :: apostrophe :: (encode apostrophe true s ++ [apostrophe])
          else apostrophe :: (encode apostrophe false s ++ [apostrophe])) := by
  have clean : ¬ s.contains 0 = true := by simpa using nulFree
  have plain : escapedQuotes s = encode apostrophe false s := encodeDoubled apostrophe s
  cases engine <;> cases sql
  · simp only [quoteLiteral, if_neg clean, encodeEscaped, List.cons_append]
  · simp only [quoteLiteral, if_neg clean, encodeEscaped, List.cons_append]
  · by_cases slash : backslash ∈ s
    · have has : s.contains backslash = true := by simpa using slash
      simp only [quoteLiteral, if_neg clean, encodeEscaped, if_pos has, if_pos slash,
        List.cons_append]
    · have lacks : ¬ s.contains backslash = true := by simpa using slash
      simp only [quoteLiteral, if_neg clean, plain, if_neg lacks, if_neg slash, List.cons_append]
  · simp only [quoteLiteral, if_neg clean, plain, List.cons_append]

theorem quoteIdentText {engine : EngineKind} {style : QuoteStyle}
    (sql : styleFor engine = .ok style) {s : Text} (some : s ≠ []) (nulFree : 0 ∉ s) :
    quoteIdent s engine = .ok (style.mark :: (encode style.mark false s ++ [style.mark])) := by
  have clean : ¬ s.contains 0 = true := by simpa using nulFree
  have long : ¬ s.length = 0 := by simpa using some
  unfold quoteIdent
  rw [sql]
  simp only [bind, Except.bind, if_neg long, if_neg clean, pure, Except.pure, encodeDoubled,
    List.cons_append]

theorem literalIsOneToken {engine : EngineKind} {dialect : SqlDialect}
    (sql : dialectForEngine engine = .ok dialect) {s t : Text} (nulFree : 0 ∉ s)
    (apart : ∀ c ∈ t.head?, isQuote c = false) :
    ∃ quoted, quoteLiteral (.string s) engine = .ok quoted ∧ undoLiteral dialect quoted = some s ∧
      ∃ token rest, tokenize (quoted ++ t) (rulesOf dialect) = token :: rest ∧
        token.kind = .string ∧ token.start = 0 ∧ token.text = quoted := by
  refine ⟨_, quoteLiteralText sql nulFree, ?_⟩
  have scan := fun escapes => quotedScan apostrophe (by decide) escapes s apart rfl
  cases dialect with
  | mysql =>
    refine ⟨undoBodyEncoded (some mysqlEscape) ?_ s, ?_⟩
    · rintro read ⟨⟩
      decide
    · exact tokenizeQuoted .plainString rfl rfl rfl (scan true)
  | sqlite =>
    refine ⟨undoBodyEncoded none ?_ s, ?_⟩
    · rintro read ⟨⟩
    · exact tokenizeQuoted .plainString rfl rfl rfl (scan false)
  | postgres =>
    dsimp only
    split
    · refine ⟨undoBodyEncoded (some postgresEscape) ?_ s, ?_⟩
      · rintro read ⟨⟩
        decide
      · refine tokenizeQuoted .escapeString rfl rfl rfl ?_
        have inner := scan true
        simp only [Opener.scan, List.cons_append, List.drop_one, List.tail_cons,
          List.length_cons] at inner ⊢
        rw [inner]
        omega
    · refine ⟨undoBodyEncoded none ?_ s, ?_⟩
      · rintro read ⟨⟩
      · exact tokenizeQuoted .plainString rfl rfl rfl (scan false)

def styleOpener : QuoteStyle → Opener
  | .backtick => .backtickQuoted
  | .double => .doubleQuoted

theorem styleOpens {engine : EngineKind} {dialect : SqlDialect} {style : QuoteStyle}
    (sql : dialectForEngine engine = .ok dialect) (named : styleFor engine = .ok style)
    (text : Text) :
    openerAt (rulesOf dialect) [] (style.mark :: text) = some (styleOpener style) ∧
      (styleOpener style).scan (rulesOf dialect) (style.mark :: text) =
        scanQuoted style.mark true false (style.mark :: text) := by
  cases engine <;> cases sql <;> cases named <;> exact ⟨rfl, rfl⟩

theorem styleKind (style : QuoteStyle) : openerKind (styleOpener style) = some .quoted := by
  cases style <;> rfl

theorem identTextEncoded {mark : CodeUnit} (open_ : mark ≠ '[') {s : Text} {token : SqlToken}
    (kind : token.kind = .quoted) (text : token.text = mark :: (encode mark false s ++ [mark])) :
    identText token = s := by
  have last : (mark :: (encode mark false s ++ [mark])).getLast? = some mark := by
    rw [← List.cons_append, List.getLast?_concat]
  have long : 1 < (mark :: (encode mark false s ++ [mark])).length := by simp
  have other : ¬ (mark == '[') = true := by simpa using open_
  simp only [identText, kind, text, ne_eq, not_true_eq_false, if_false, List.headD_cons,
    if_neg other, last, long, and_self, if_true, List.drop_one, List.tail_cons,
    List.dropLast_concat, undoubleEncoded]

theorem identIsOneToken {engine : EngineKind} {dialect : SqlDialect}
    (sql : dialectForEngine engine = .ok dialect) {s t : Text} (some : s ≠ []) (nulFree : 0 ∉ s)
    (apart : ∀ c ∈ t.head?, isQuote c = false) :
    ∃ quoted, quoteIdent s engine = .ok quoted ∧
      ∃ token rest, tokenize (quoted ++ t) (rulesOf dialect) = token :: rest ∧
        token.kind = .quoted ∧ token.start = 0 ∧ token.text = quoted ∧ identText token = s := by
  obtain ⟨style, named⟩ : ∃ style, styleFor engine = .ok style := by
    cases engine <;> cases sql <;> exact ⟨_, rfl⟩
  have regular : style.mark ≠ backslash := by cases style <;> decide
  have quote : isQuote style.mark = true := by cases style <;> rfl
  have opens := styleOpens sql named (encode style.mark false s ++ [style.mark] ++ t)
  obtain ⟨token, rest, first, kind, start, text⟩ := tokenizeQuoted
    (styleOpener style) (by cases style <;> rfl) opens.1 (styleKind style)
    (opens.2.trans (quotedScan _ regular false s apart quote))
  exact ⟨_, quoteIdentText named some nulFree, token, rest, first, kind, start, text,
    identTextEncoded (by cases style <;> decide) kind text⟩

theorem quotingIsLossless (engine : EngineKind) (dialect : SqlDialect)
    (sql : dialectForEngine engine = .ok dialect) (s t : Text) (nulFree : 0 ∉ s)
    (apart : ∀ c ∈ t.head?, isQuote c = false) :
    (∃ quoted, quoteLiteral (.string s) engine = .ok quoted ∧ undoLiteral dialect quoted = some s ∧
      ∃ token rest, tokenize (quoted ++ t) (rulesOf dialect) = token :: rest ∧
        token.kind = .string ∧ token.start = 0 ∧ token.text = quoted) ∧
    (s ≠ [] → ∃ quoted, quoteIdent s engine = .ok quoted ∧
      ∃ token rest, tokenize (quoted ++ t) (rulesOf dialect) = token :: rest ∧
        token.kind = .quoted ∧ token.start = 0 ∧ token.text = quoted ∧ identText token = s) :=
  ⟨literalIsOneToken sql nulFree apart, fun some => identIsOneToken sql some nulFree apart⟩

theorem quotingIsLosslessAtTrailingBackslash :
    (∃ quoted, quoteLiteral (.string (units "it's\\")) .postgres = .ok quoted ∧
      undoLiteral .postgres quoted = some (units "it's\\") ∧
      ∃ token rest, tokenize (quoted ++ units "; DROP") (rulesOf .postgres) = token :: rest ∧
        token.kind = .string ∧ token.start = 0 ∧ token.text = quoted) ∧
    (units "it's\\" ≠ [] → ∃ quoted, quoteIdent (units "it's\\") .postgres = .ok quoted ∧
      ∃ token rest, tokenize (quoted ++ units "; DROP") (rulesOf .postgres) = token :: rest ∧
        token.kind = .quoted ∧ token.start = 0 ∧ token.text = quoted ∧
        identText token = units "it's\\") :=
  quotingIsLossless .postgres .postgres rfl _ _ (by decide) (by decide)

end DatabaseAdmin
