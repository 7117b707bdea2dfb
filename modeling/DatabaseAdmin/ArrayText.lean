import DatabaseAdmin.SqlQuote
import DatabaseAdmin.WireCells
import Mathlib.Data.List.Forall2

/-! PostgreSQL's array text: what is written for a list of items, and the parser of what a server
writes. -/
namespace DatabaseAdmin.ArrayText
open CodeUnits WireCells

abbrev openBrace : CodeUnit := 123
abbrev closeBrace : CodeUnit := 125
abbrev comma : CodeUnit := 44

section Writing

inductive ArrayItem where
  | null
  | string (text : Text)
  | number (n : JsNumber)
  | boolean (value : Bool)
  | list (items : List ArrayItem)
  | tagged (tag : CellTag) (v : Text) (parsed : Option (List ArrayItem))

def escapeElement (text : Text) : Text :=
  replaceUnit doubleQuote [backslash, doubleQuote] (replaceUnit backslash [backslash, backslash] text)

def quotedElement (text : Text) : Text := doubleQuote :: (escapeElement text ++ [doubleQuote])

def braced (parts : List Text) : Text := openBrace :: (List.intercalate [comma] parts ++ [closeBrace])

mutual
def itemText : ArrayItem → Text
  | .null => units "NULL"
  | .list items => braced (itemTexts items)
  | .tagged _ v _ => quotedElement v
  | .string text => quotedElement text
  | .number n => quotedElement n.text
  | .boolean value => quotedElement (units (if value then "true" else "false"))

def itemTexts : List ArrayItem → List Text
  | [] => []
  | item :: items => itemText item :: itemTexts items
end

def arrayLiteralText (items : List ArrayItem) : Text := braced (itemTexts items)

end Writing

section Parsing

inductive PgArrayElement where
  | null
  | text (t : Text)
  | list (items : List PgArrayElement)

def quotedBody : Text → Text × Nat
  | [] => ([], 0)
  | c :: rest =>
      if c = doubleQuote then ([], 0)
      else if c = backslash then
        match rest with
        | [] => ([], 2)
        | d :: rest => (d :: (quotedBody rest).1, (quotedBody rest).2 + 2)
      else (c :: (quotedBody rest).1, (quotedBody rest).2 + 1)

structure BareBody where
  text : Text
  escaped : Bool
  width : Nat

def bareBody (delim : CodeUnit) : Text → BareBody
  | [] => ⟨[], false, 0⟩
  | c :: rest =>
      if c = delim ∨ c = closeBrace then ⟨[], false, 0⟩
      else if c = backslash then
        match rest with
        | [] => ⟨[], true, 2⟩
        | d :: rest => ⟨d :: (bareBody delim rest).text, true, (bareBody delim rest).width + 2⟩
      else ⟨c :: (bareBody delim rest).text, (bareBody delim rest).escaped, (bareBody delim rest).width + 1⟩

def bareElement (delim : CodeUnit) (rest : Text) : PgArrayElement × Nat :=
  let body := bareBody delim rest
  (if !body.escaped && body.text = units "NULL" then .null else .text body.text, body.width)

mutual
def parseElement (delim : CodeUnit) : Text → PgArrayElement × Nat
  | [] => bareElement delim []
  | c :: rest =>
      if c = openBrace then
        if rest.head? = some closeBrace then (.list [], 2)
        else (.list (parseItems delim rest).1, (parseItems delim rest).2 + 1)
      else if c = doubleQuote then (.text (quotedBody rest).1, (quotedBody rest).2 + 2)
      else bareElement delim (c :: rest)
termination_by rest => (rest.length, 0)

def parseItems (delim : CodeUnit) (rest : Text) : List PgArrayElement × Nat :=
  let element := parseElement delim rest
  match behind : rest.drop element.2 with
  | [] => ([element.1], element.2 + 1)
  | c :: more =>
      if c = delim then (element.1 :: (parseItems delim more).1, element.2 + 1 + (parseItems delim more).2)
      else ([element.1], element.2 + 1)
termination_by (rest.length, 1)
decreasing_by
  · exact Prod.Lex.right _ Nat.one_pos
  · have long := congrArg List.length behind
    rw [List.length_drop, List.length_cons] at long
    exact Prod.Lex.left _ _ (by omega)
end

def parseList (delim : CodeUnit) (rest : Text) : List PgArrayElement :=
  if rest.head? = some closeBrace then [] else (parseItems delim rest).1

def arrayStart (source : Text) : Nat :=
  if source.head? = some ('[' : CodeUnit) then
    match indexOf (units "=") source with
    | some eq => eq + 1
    | none => 0
  else 0

def parsePgArray (source : Text) (delim : CodeUnit) : List PgArrayElement :=
  match source.drop (arrayStart source) with
  | [] => []
  | c :: rest => if c = openBrace then parseList delim rest else []

end Parsing

section RoundTrip

mutual
def elementItem : PgArrayElement → ArrayItem
  | .null => .null
  | .text t => .string t
  | .list items => .list (elementItems items)

def elementItems : List PgArrayElement → List ArrayItem
  | [] => []
  | element :: rest => elementItem element :: elementItems rest
end

theorem escapedUnit (c : CodeUnit) (text : Text) : escapeElement (c :: text) =
    (if c = backslash ∨ c = doubleQuote then [backslash, c] else [c]) ++ escapeElement text := by
  by_cases slash : c = backslash
  · subst slash
    rfl
  · by_cases quote : c = doubleQuote
    · subst quote
      rfl
    · simp [escapeElement, replaceUnit, slash, quote]

theorem quotedPlain {c : CodeUnit} (other : c ≠ doubleQuote) (plain : c ≠ backslash) (rest : Text) :
    quotedBody (c :: rest) = (c :: (quotedBody rest).1, (quotedBody rest).2 + 1) := by
  cases rest <;> simp [quotedBody, other, plain]

theorem quotedBack (text more : Text) :
    quotedBody (escapeElement text ++ doubleQuote :: more) = (text, (escapeElement text).length) := by
  induction text with
  | nil =>
    have none : escapeElement [] = [] := rfl
    cases more <;> simp [none, quotedBody]
  | cons c text ih =>
    rw [escapedUnit]
    split
    · have apart : backslash ≠ doubleQuote := by decide
      simp [quotedBody, apart, ih]
    · rename_i plain
      rw [not_or] at plain
      simp [quotedPlain plain.2 plain.1, ih]

theorem quotedParsed (delim : CodeUnit) (text more : Text) :
    parseElement delim (quotedElement text ++ more) = (.text text, (quotedElement text).length) := by
  have split : quotedElement text ++ more = doubleQuote :: (escapeElement text ++ doubleQuote :: more) := by simp [quotedElement]
  have apart : doubleQuote ≠ openBrace := by decide
  rw [split, parseElement]
  simp [quotedBack, quotedElement, apart]

theorem barePlain {delim c : CodeUnit} (goes : ¬(c = delim ∨ c = closeBrace)) (plain : c ≠ backslash) (rest : Text) :
    bareBody delim (c :: rest) =
      ⟨c :: (bareBody delim rest).text, (bareBody delim rest).escaped, (bareBody delim rest).width + 1⟩ := by
  cases rest <;> simp only [bareBody, if_neg goes, if_neg plain]

def isBare (c : CodeUnit) : Bool := c != comma && c != closeBrace && c != backslash

theorem bareRun {text more : Text} (plain : text.all isBare = true) (ends : ∀ c ∈ more.head?, c = comma ∨ c = closeBrace) :
    bareBody comma (text ++ more) = ⟨text, false, text.length⟩ := by
  induction text with
  | nil =>
    cases more with
    | nil => rfl
    | cons c more => cases more <;> simp only [List.nil_append, bareBody, if_pos (ends c rfl), List.length_nil]
  | cons c text ih =>
    obtain ⟨head, tail⟩ := List.forall_mem_cons.mp (List.all_eq_true.mp plain)
    simp only [isBare, Bool.and_eq_true, bne_iff_ne] at head
    rw [List.cons_append, barePlain (not_or.mpr head.1) head.2, ih (List.all_eq_true.mpr tail), List.length_cons]

theorem nullParsed {more : Text} (ends : ∀ c ∈ more.head?, c = comma ∨ c = closeBrace) :
    parseElement comma (units "NULL" ++ more) = (.null, 4) := by
  have bare : parseElement comma (units "NULL" ++ more) = bareElement comma (units "NULL" ++ more) := by
    change parseElement comma (78 :: 85 :: 76 :: 76 :: more) = _
    rw [parseElement, if_neg (by decide), if_neg (by decide)]
    rfl
  rw [bare, bareElement, bareRun (by decide) ends]
  rfl

theorem itemsEnd {delim : CodeUnit} {rest more : Text} {element : PgArrayElement} {c : CodeUnit} (other : c ≠ delim)
    (read : parseElement delim (rest ++ c :: more) = (element, rest.length)) :
    parseItems delim (rest ++ c :: more) = ([element], rest.length + 1) := by
  rw [parseItems]
  split <;> rename_i behind
  · simp [read] at behind
  · rw [read, List.drop_left] at behind
    cases behind
    rw [if_neg other, read]

theorem itemsNext {delim : CodeUnit} {rest more : Text} {element : PgArrayElement}
    (read : parseElement delim (rest ++ delim :: more) = (element, rest.length)) :
    parseItems delim (rest ++ delim :: more) =
      (element :: (parseItems delim more).1, rest.length + 1 + (parseItems delim more).2) := by
  rw [parseItems]
  split <;> rename_i behind
  · simp [read] at behind
  · rw [read, List.drop_left] at behind
    cases behind
    rw [if_pos rfl, read]

structure Parses (text : Text) (element : PgArrayElement) : Prop where
  opened : ∀ c ∈ text.head?, c ≠ closeBrace
  some : text ≠ []
  read : ∀ more, (∀ c ∈ more.head?, c = comma ∨ c = closeBrace) → parseElement comma (text ++ more) = (element, text.length)

theorem openedHead {text : Text} {element : PgArrayElement} (first : Parses text element) (more : Text) :
    (text ++ more).head? ≠ some closeBrace := by
  obtain ⟨c, rest, rfl⟩ := List.exists_cons_of_ne_nil first.some
  exact fun same => first.opened c rfl (Option.some.inj same)

theorem itemsParse {texts : List Text} {elements : List PgArrayElement} (each : List.Forall₂ Parses texts elements)
    (more : Text) (some : texts ≠ []) : parseItems comma (List.intercalate [comma] texts ++ closeBrace :: more) =
      (elements, (List.intercalate [comma] texts).length + 1) := by
  induction each with
  | nil => contradiction
  | @cons text element texts elements first rest ih =>
    cases rest with
    | nil =>
      have whole : List.intercalate [comma] [text] = text := by simp [List.intercalate]
      rw [whole]
      exact itemsEnd (by decide) (first.read (closeBrace :: more) (by simp))
    | @cons next element' texts elements second rest =>
      have split : List.intercalate [comma] (text :: next :: texts) = text ++ comma :: List.intercalate [comma] (next :: texts) := by
        simp [List.intercalate_cons_cons]
      have read := first.read (comma :: (List.intercalate [comma] (next :: texts) ++ closeBrace :: more)) (by simp)
      rw [split, List.append_assoc, List.cons_append, itemsNext read, ih (List.cons_ne_nil _ _)]
      simp [Nat.add_assoc, Nat.add_comm 1]

theorem joinedHead {text : Text} {texts : List Text} {element : PgArrayElement} (first : Parses text element) (more : Text) :
    (List.intercalate [comma] (text :: texts) ++ more).head? ≠ some closeBrace := by
  cases texts with
  | nil => simpa [List.intercalate] using openedHead first more
  | cons next rest =>
    rw [List.intercalate_cons_cons, List.append_assoc, List.append_assoc]
    exact openedHead first _

theorem bracedParses {texts : List Text} {elements : List PgArrayElement} (each : List.Forall₂ Parses texts elements) :
    Parses (braced texts) (.list elements) where
  opened c head := by
    cases head
    decide
  some := List.cons_ne_nil _ _
  read more _ := by
    rw [braced, List.cons_append, List.append_assoc, List.singleton_append, parseElement, if_pos rfl]
    cases each with
    | nil => rfl
    | cons first rest =>
      rw [if_neg (joinedHead first _), itemsParse (.cons first rest) more (List.cons_ne_nil _ _)]
      simp

theorem quotedParses (text : Text) : Parses (quotedElement text) (.text text) where
  opened c head := by
    cases head
    decide
  some := List.cons_ne_nil _ _
  read more _ := quotedParsed comma text more

theorem nullParses : Parses (units "NULL") .null where
  opened := by decide
  some := by decide
  read _ ends := nullParsed ends

mutual
def itemElement : ArrayItem → PgArrayElement
  | .null => .null
  | .list items => .list (itemElements items)
  | .tagged _ v _ => .text v
  | .string text => .text text
  | .number n => .text n.text
  | .boolean value => .text (units (if value then "true" else "false"))

def itemElements : List ArrayItem → List PgArrayElement
  | [] => []
  | item :: items => itemElement item :: itemElements items
end

mutual
theorem itemParses (item : ArrayItem) : Parses (itemText item) (itemElement item) := by
  match item with
  | .null =>
    rw [itemText, itemElement]
    exact nullParses
  | .list items =>
    rw [itemText, itemElement]
    exact bracedParses (itemsParses items)
  | .tagged tag v parsed =>
    rw [itemText, itemElement]
    exact quotedParses v
  | .string text =>
    rw [itemText, itemElement]
    exact quotedParses text
  | .number n =>
    rw [itemText, itemElement]
    exact quotedParses n.text
  | .boolean value =>
    rw [itemText, itemElement]
    exact quotedParses _

theorem itemsParses (items : List ArrayItem) : List.Forall₂ Parses (itemTexts items) (itemElements items) := by
  match items with
  | [] =>
    rw [itemTexts, itemElements]
    exact .nil
  | item :: items =>
    rw [itemTexts, itemElements]
    exact .cons (itemParses item) (itemsParses items)
end

mutual
theorem elementBack (element : PgArrayElement) : itemElement (elementItem element) = element := by
  match element with
  | .null => rfl
  | .text t => rfl
  | .list items => rw [elementItem, itemElement, elementsBack items]

theorem elementsBack (items : List PgArrayElement) : itemElements (elementItems items) = items := by
  match items with
  | [] => rfl
  | element :: rest => rw [elementItems, itemElements, elementBack element, elementsBack rest]
end

theorem bracedBack {texts : List Text} {elements : List PgArrayElement} (each : List.Forall₂ Parses texts elements) :
    parsePgArray (braced texts) comma = elements := by
  have source : parsePgArray (braced texts) comma = parseList comma (List.intercalate [comma] texts ++ closeBrace :: []) := rfl
  rw [source, parseList]
  cases each with
  | nil => rfl
  | cons first rest => rw [if_neg (joinedHead first _), itemsParse (.cons first rest) [] (List.cons_ne_nil _ _)]

theorem listBack (items : List PgArrayElement) : parsePgArray (arrayLiteralText (elementItems items)) comma = items :=
  (bracedBack (itemsParses (elementItems items))).trans (elementsBack items)

end RoundTrip

section Turns

mutual
def elementTurns (delim : CodeUnit) : Text → List Nat
  | [] => []
  | c :: rest => if c = openBrace ∧ rest.head? ≠ some closeBrace then (itemsTurns delim rest).map (· + 1) else []
termination_by rest => (rest.length, 0)

def itemsTurns (delim : CodeUnit) (rest : Text) : List Nat :=
  let width := (parseElement delim rest).2
  0 :: (elementTurns delim rest ++
    match behind : rest.drop width with
    | [] => []
    | c :: more => if c = delim then (itemsTurns delim more).map (· + (width + 1)) else [])
termination_by (rest.length, 1)
decreasing_by
  · exact Prod.Lex.right _ Nat.one_pos
  · have long := congrArg List.length behind
    rw [List.length_drop, List.length_cons] at long
    exact Prod.Lex.left _ _ (by omega)
end

def turns (source : Text) (delim : CodeUnit) : List Nat :=
  match source.drop (arrayStart source) with
  | [] => []
  | c :: rest =>
      if c = openBrace ∧ rest.head? ≠ some closeBrace then (itemsTurns delim rest).map (· + (arrayStart source + 1)) else []

structure Onward (turns : List Nat) (stop length : Nat) : Prop where
  rising : turns.Pairwise (· < ·)
  before : ∀ t ∈ turns, t < stop
  inside : ∀ t ∈ turns, t ≤ length

theorem onwardShift {turns : List Nat} {stop length : Nat} (onward : Onward turns stop length) (k : Nat) :
    Onward (turns.map (· + k)) (stop + k) (length + k) := by
  refine ⟨onward.rising.map _ fun a b less => Nat.add_lt_add_right less k, fun t member => ?_, fun t member => ?_⟩
  · obtain ⟨u, here, rfl⟩ := List.mem_map.mp member
    exact Nat.add_lt_add_right (onward.before u here) k
  · obtain ⟨u, here, rfl⟩ := List.mem_map.mp member
    exact Nat.add_le_add_right (onward.inside u here) k

theorem onwardNil (stop length : Nat) : Onward [] stop length := ⟨.nil, by simp, by simp⟩

theorem onwardCons {turns : List Nat} {stop length : Nat} (onward : Onward turns stop length) (later : ∀ t ∈ turns, 0 < t) :
    Onward (0 :: turns) (stop + 1) length := by
  refine ⟨List.pairwise_cons.mpr ⟨later, onward.rising⟩, fun t member => ?_, fun t member => ?_⟩
  · rcases List.mem_cons.mp member with rfl | inner
    · exact Nat.succ_pos stop
    · exact Nat.lt_succ_of_lt (onward.before t inner)
  · rcases List.mem_cons.mp member with rfl | inner
    · exact Nat.zero_le length
    · exact onward.inside t inner

theorem onwardAppend {first last : List Nat} {stop length k : Nat} (front : Onward first stop (length + stop))
    (back : Onward last k length) : Onward (first ++ last.map (· + stop)) (stop + k) (length + stop) := by
  have shifted := onwardShift back stop
  refine ⟨List.pairwise_append.mpr ⟨front.rising, shifted.rising, fun a here b there => ?_⟩, fun t member => ?_, fun t member => ?_⟩
  · obtain ⟨u, -, rfl⟩ := List.mem_map.mp there
    exact Nat.lt_of_lt_of_le (front.before a here) (Nat.le_add_left stop u)
  · rcases List.mem_append.mp member with here | there
    · exact Nat.lt_of_lt_of_le (front.before t here) (Nat.le_add_right stop k)
    · exact (Nat.add_comm stop k).symm ▸ shifted.before t there
  · rcases List.mem_append.mp member with here | there
    · exact front.inside t here
    · exact shifted.inside t there

mutual
theorem elementOnward (delim : CodeUnit) (rest : Text) :
    Onward (elementTurns delim rest) (parseElement delim rest).2 rest.length ∧ ∀ t ∈ elementTurns delim rest, 0 < t := by
  match rest with
  | [] =>
    rw [elementTurns]
    exact ⟨onwardNil _ _, by simp⟩
  | c :: rest =>
    rw [elementTurns, parseElement]
    split
    · rename_i opens
      rw [if_pos opens.1, if_neg opens.2]
      refine ⟨onwardShift (itemsOnward delim rest) 1, fun t member => ?_⟩
      obtain ⟨u, -, rfl⟩ := List.mem_map.mp member
      exact Nat.succ_pos u
    · exact ⟨onwardNil _ _, by simp⟩
termination_by (rest.length, 0)

theorem itemsOnward (delim : CodeUnit) (rest : Text) : Onward (itemsTurns delim rest) (parseItems delim rest).2 rest.length := by
  obtain ⟨element, later⟩ := elementOnward delim rest
  have turn := onwardCons element later
  rw [itemsTurns, parseItems]
  cases behind : rest.drop (parseElement delim rest).2 with
  | nil => simpa using turn
  | cons c more =>
    have long := congrArg List.length behind
    rw [List.length_drop, List.length_cons] at long
    dsimp only
    split
    · have length : rest.length = more.length + ((parseElement delim rest).2 + 1) := by omega
      rw [length] at turn ⊢
      exact onwardAppend turn (itemsOnward delim more)
    · simpa using turn
termination_by (rest.length, 1)
end

theorem turnsOnward (source : Text) (delim : CodeUnit) :
    (turns source delim).Pairwise (· < ·) ∧ ∀ t ∈ turns source delim, t ≤ source.length := by
  unfold turns
  cases behind : source.drop (arrayStart source) with
  | nil => simp
  | cons c rest =>
    have long := congrArg List.length behind
    rw [List.length_drop, List.length_cons] at long
    have length : source.length = rest.length + (arrayStart source + 1) := by omega
    dsimp only
    split
    · have onward := onwardShift (itemsOnward delim rest) (arrayStart source + 1)
      exact ⟨onward.rising, fun t member => length ▸ onward.inside t member⟩
    · simp

theorem arrayTextReadsBack :
    (∀ items : List PgArrayElement, parsePgArray (arrayLiteralText (elementItems items)) comma = items) ∧
    ∀ (source : Text) (delim : CodeUnit), (turns source delim).Pairwise (· < ·) ∧ ∀ t ∈ turns source delim, t ≤ source.length :=
  ⟨listBack, turnsOnward⟩

end Turns

end DatabaseAdmin.ArrayText
