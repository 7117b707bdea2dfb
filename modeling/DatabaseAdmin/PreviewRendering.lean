import DatabaseAdmin.ChangeTemplates

/-! What `renderWithParams` makes of a statement. Its scan knows the holes only as question marks
outside quotes, and takes a backslash for an escape inside every kind of quote. -/
namespace DatabaseAdmin.ChangeStatements
open CodeUnits Templates

def isPlaceholder (c : CodeUnit) : Bool := c = ('?' : Char).toNat

def aligned : Option CodeUnit → Template Param → Bool
  | _, [] => true
  | some quote, .unit c :: rest =>
      if c = backslash then
        match rest with
        | [] => true
        | .unit _ :: rest => aligned (some quote) rest
        | .hole _ :: _ => false
      else aligned (if c = quote then none else some quote) rest
  | some _, .hole _ :: _ => false
  | none, .unit c :: rest =>
      if isQuote c then aligned (some c) rest else !isPlaceholder c && aligned none rest
  | none, .hole _ :: rest => aligned none rest

def writtenLiteral (engine : EngineKind) (v : Param) : Except String Text := renderLiteral engine (some v)

def Writable (engine : EngineKind) (v : Param) : Prop := ∃ text, writtenLiteral engine v = .ok text

variable {engine : EngineKind}

theorem quotedHead {value text : Text} (ok : quoteLiteral (.string value) engine = .ok text) :
    ∃ c rest, text = c :: rest ∧ isPlaceholder c = false := by
  simp only [quoteLiteral] at ok
  split at ok
  · simp at ok
  · cases engine with
    | postgres =>
      simp only at ok
      split at ok <;> cases ok <;> exact ⟨_, _, rfl, by decide⟩
    | mysql => cases ok; exact ⟨_, _, rfl, by decide⟩
    | mariadb => cases ok; exact ⟨_, _, rfl, by decide⟩
    | sqlite => cases ok; exact ⟨_, _, rfl, by decide⟩
    | redis => simp at ok
    | mongodb => simp at ok

theorem literalHead {v : Option Param} {text : Text} (ok : renderLiteral engine v = .ok text) :
    ∃ c rest, text = c :: rest ∧ isPlaceholder c = false := by
  match v with
  | none => cases ok; exact ⟨_, _, rfl, by decide⟩
  | some .null => cases ok; exact ⟨_, _, rfl, by decide⟩
  | some (.number n) =>
    cases ok
    obtain ⟨c, head, apart⟩ := n.spelled
    obtain ⟨rest, whole⟩ := List.head?_eq_some_iff.mp head
    exact ⟨c, rest, whole, by simpa [isPlaceholder] using apart⟩
  | some (.boolean true) => cases ok; exact ⟨_, _, rfl, by decide⟩
  | some (.boolean false) => cases ok; exact ⟨_, _, rfl, by decide⟩
  | some (.bytes content) => cases ok; exact ⟨_, _, rfl, by decide⟩
  | some (.text value) => exact quotedHead ok

def Agrees (engine : EngineKind) (inString : Option CodeUnit) (t : Template Param) : Prop :=
  ∃ text, renderFrom engine inString (holes t) (values t) = .ok text ∧ written (writtenLiteral engine) t = .ok text

theorem okCons {c : CodeUnit} {out : Except String Text} {text : Text} :
    out.map (c :: ·) = .ok text ↔ ∃ tail, out = .ok tail ∧ text = c :: tail := by
  cases out <;> simp [Except.map, eq_comm]

theorem renderInside {quote c : CodeUnit} (plain : c ≠ backslash) (text : Text) (params : List Param) :
    renderFrom engine (some quote) (c :: text) params =
      (renderFrom engine (if c = quote then none else some quote) text params).map (c :: ·) := by
  cases text <;> simp only [renderFrom, if_neg plain]

theorem alignedInside {quote c : CodeUnit} (plain : c ≠ backslash) (rest : Template Param) :
    aligned (some quote) (.unit c :: rest) = aligned (if c = quote then none else some quote) rest := by
  match rest with
  | [] => simp only [aligned, if_neg plain]
  | .unit d :: rest => simp only [aligned, if_neg plain]
  | .hole v :: rest => simp only [aligned, if_neg plain]

theorem agreesUnit {c : CodeUnit} {inString : Option CodeUnit} {rest : Template Param} (next : Option CodeUnit)
    (step : renderFrom engine inString (c :: holes rest) (values rest) =
      (renderFrom engine next (holes rest) (values rest)).map (c :: ·)) :
    Agrees engine inString (.unit c :: rest) ↔ Agrees engine next rest := by
  have same : holes (.unit c :: rest) = c :: holes rest := by simp [holes]
  have kept : values (.unit c :: rest) = values rest := rfl
  simp only [Agrees, same, kept, step, written, okCons]
  constructor
  · rintro ⟨text, ⟨tail, ok, rfl⟩, other, ok', eq⟩
    cases eq
    exact ⟨tail, ok, ok'⟩
  · rintro ⟨tail, ok, ok'⟩
    exact ⟨c :: tail, ⟨tail, ok, rfl⟩, tail, ok', rfl⟩

theorem agreesEnd (inString : Option CodeUnit) : Agrees engine inString [] := by
  cases inString <;> exact ⟨[], rfl, rfl⟩

theorem agreesEscape {quote d : CodeUnit} {rest : Template Param} :
    Agrees engine (some quote) (.unit backslash :: .unit d :: rest) ↔ Agrees engine (some quote) rest := by
  have same : holes (.unit backslash :: .unit d :: rest) = backslash :: d :: holes rest := by simp [holes]
  have kept : values (.unit backslash :: .unit d :: rest) = values rest := rfl
  simp only [Agrees, same, kept, renderFrom, if_true, written, okCons]
  cases renderFrom engine (some quote) (holes rest) (values rest) <;> simp [Except.map]

theorem holeUnread {t : Template Param} {v : Param} {out : Text}
    (written' : written (writtenLiteral engine) (.hole v :: t) = .ok out) : ∀ c ∈ out.head?, isPlaceholder c = false := by
  simp only [written] at written'
  cases literal : writtenLiteral engine v with
  | error message => simp [literal, bind, Except.bind] at written'
  | ok text =>
    obtain ⟨c, rest, rfl, apart⟩ := literalHead literal
    cases more : written (writtenLiteral engine) t with
    | error message => simp [literal, more, bind, Except.bind] at written'
    | ok tail =>
      simp only [literal, more, bind, Except.bind, pure, Except.pure, Except.ok.injEq] at written'
      subst written'
      simpa using apart

theorem agreesHole {v : Param} {rest : Template Param} :
    Agrees engine none (.hole v :: rest) ↔ Writable engine v ∧ Agrees engine none rest := by
  have same : holes (.hole v :: rest) = ('?' : Char).toNat :: holes rest := by simp [holes]
  have read : values (.hole v :: rest) = v :: values rest := rfl
  have plain : isQuote ('?' : Char).toNat = false := by decide
  simp only [Agrees, Writable, same, read, renderFrom, plain, written, List.head?_cons, List.tail_cons,
    writtenLiteral, Bool.false_eq_true, if_false, if_true]
  cases renderLiteral engine (some v) with
  | error message => simp [bind, Except.bind]
  | ok literal =>
    cases renderFrom engine none (holes rest) (values rest) <;> cases written (writtenLiteral engine) rest <;>
      simp [bind, Except.bind, pure, Except.pure]

theorem insideHole {quote : CodeUnit} {v : Param} {rest : Template Param} :
    ¬ Agrees engine (some quote) (.hole v :: rest) := by
  rintro ⟨text, ok, written'⟩
  have same : holes (.hole v :: rest) = ('?' : Char).toNat :: holes rest := by simp [holes]
  have other : ¬ ('?' : Char).toNat = backslash := by decide
  rw [same] at ok
  rw [renderInside other] at ok
  obtain ⟨tail, -, rfl⟩ := okCons.mp ok
  have apart := holeUnread written' _ rfl
  simp [isPlaceholder] at apart

theorem escapedHole {quote : CodeUnit} {v : Param} {rest : Template Param} :
    ¬ Agrees engine (some quote) (.unit backslash :: .hole v :: rest) := by
  rintro ⟨text, ok, written'⟩
  have same : holes (.unit backslash :: .hole v :: rest) = backslash :: ('?' : Char).toNat :: holes rest := by
    simp [holes]
  rw [same] at ok
  simp only [renderFrom, if_true] at ok
  simp only [written] at written'
  obtain ⟨shown, hole', rfl⟩ := okCons.mp written'
  generalize values (.unit backslash :: .hole v :: rest) = params at ok
  cases out : renderFrom engine (some quote) (holes rest) params with
  | error message => simp [out, Except.map] at ok
  | ok tail =>
    have eq : ('?' : Char).toNat :: tail = shown := by simpa [out, Except.map] using ok
    have apart := holeUnread hole' ('?' : Char).toNat (by simp [← eq])
    simp [isPlaceholder] at apart

theorem outsideMark {c : CodeUnit} {rest : Template Param} (mark : isPlaceholder c = true) :
    ¬ Agrees engine none (.unit c :: rest) := by
  rintro ⟨text, ok, written'⟩
  have same : holes (.unit c :: rest) = c :: holes rest := by simp [holes]
  have spelled : c = ('?' : Char).toNat := by simpa [isPlaceholder] using mark
  have plain : isQuote ('?' : Char).toNat = false := by decide
  rw [same] at ok
  subst spelled
  simp only [renderFrom, plain, Bool.false_eq_true, if_false, if_true] at ok
  simp only [written] at written'
  obtain ⟨shown, -, rfl⟩ := okCons.mp written'
  generalize values (.unit ('?' : Char).toNat :: rest) = params at ok
  cases literal : renderLiteral engine params.head? with
  | error message => simp only [literal, bind, Except.bind, reduceCtorEq] at ok
  | ok text =>
    obtain ⟨c, more, rfl, apart⟩ := literalHead literal
    cases out : renderFrom engine none (holes rest) params.tail with
    | error message => simp only [literal, out, bind, Except.bind, reduceCtorEq] at ok
    | ok tail =>
      simp only [literal, out, bind, Except.bind, pure, Except.pure, Except.ok.injEq, List.cons_append,
        List.cons.injEq] at ok
      rw [ok.1, mark] at apart
      simp at apart

theorem renderedIff : ∀ (inString : Option CodeUnit) (t : Template Param),
    Agrees engine inString t ↔ aligned inString t = true ∧ ∀ v ∈ values t, Writable engine v
  | inString, [] => by simp [agreesEnd, aligned, values]
  | some quote, .hole v :: rest => by simp [insideHole, aligned]
  | none, .hole v :: rest => by
    have read : values (.hole v :: rest) = v :: values rest := rfl
    rw [agreesHole, renderedIff none rest, read]
    simp only [aligned, List.forall_mem_cons]
    tauto
  | none, .unit c :: rest => by
    have kept : values (.unit c :: rest) = values rest := rfl
    rw [kept]
    by_cases opens : isQuote c = true
    · rw [agreesUnit (some c) (by simp [renderFrom, opens]), renderedIff (some c) rest]
      simp [aligned, opens]
    · by_cases mark : isPlaceholder c = true
      · simp [outsideMark mark, aligned, opens, mark]
      · rw [agreesUnit none (by simp_all [renderFrom, isPlaceholder]), renderedIff none rest]
        simp [aligned, opens, mark]
  | some quote, .unit c :: rest => by
    by_cases escape : c = backslash
    · subst escape
      cases rest with
      | nil => exact iff_of_true ⟨[backslash], rfl, rfl⟩ ⟨by simp [aligned], by simp [values]⟩
      | cons p rest =>
        cases p with
        | hole v => simp [escapedHole, aligned]
        | unit d =>
          have kept : values (.unit backslash :: .unit d :: rest) = values rest := rfl
          rw [agreesEscape, renderedIff (some quote) rest, kept]
          simp [aligned]
    · have kept : values (.unit c :: rest) = values rest := rfl
      rw [kept, agreesUnit (if c = quote then none else some quote) (renderInside escape _ _),
        renderedIff _ rest, alignedInside escape]
  termination_by _ t => t.length

section PlainNames

def Calm (t : Template Param) : Prop := ∀ rest, aligned none (t ++ rest) = aligned none rest

def isCalmUnit (c : CodeUnit) : Bool := !isQuote c && !isPlaceholder c

theorem calmRaw {text : Text} (plain : text.all isCalmUnit = true) : Calm (raw text) := by
  induction text with
  | nil => exact fun rest => rfl
  | cons c text ih =>
    simp only [List.all_cons, Bool.and_eq_true, isCalmUnit, Bool.not_eq_true'] at plain
    intro rest
    have tail := ih plain.2 rest
    simp only [raw] at tail
    simp only [raw, List.map_cons, List.cons_append, aligned, plain.1.1, plain.1.2, Bool.false_eq_true, if_false,
      Bool.not_false, Bool.true_and, tail]

variable {base64 : Text → List Nat}

theorem mapMMember {ε β γ : Type} {f : β → Except ε γ} {xs : List β} {ys : List γ} (ok : xs.mapM f = .ok ys) :
    ∀ y ∈ ys, ∃ x ∈ xs, f x = .ok y := by
  induction mapMForall₂.mp ok with
  | nil => simp
  | cons read rest ih =>
    rw [List.forall_mem_cons]
    exact ⟨⟨_, by simp, read⟩, fun y inside =>
      (ih (mapMForall₂.mpr rest) y inside).imp fun _ h => ⟨List.mem_cons_of_mem _ h.1, h.2⟩⟩

theorem mapMLength {ε β γ : Type} {f : β → Except ε γ} {xs : List β} {ys : List γ} (ok : xs.mapM f = .ok ys) :
    ys.length = xs.length := (mapMForall₂.mp ok).length_eq.symm

end PlainNames

end DatabaseAdmin.ChangeStatements
