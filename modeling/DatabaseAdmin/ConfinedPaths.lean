import DatabaseAdmin.CodeUnits

/-! Paths that a client names stay within a root. A place is an absolute path without empty and
dotted segments; symbolic links are not looked at. -/
namespace DatabaseAdmin.ConfinedPaths
open CodeUnits

abbrev slash : CodeUnit := 47
abbrev dot : Text := [46]
abbrev twoDots : Text := [46, 46]

abbrev Place := List Text

def Plain (segment : Text) : Prop := segment ≠ [] ∧ segment ≠ dot ∧ segment ≠ twoDots ∧ slash ∉ segment

instance : DecidablePred Plain := fun _ => inferInstanceAs (Decidable (_ ∧ _ ∧ _ ∧ _))

def join (segments : List Text) : Text := [slash].intercalate segments

def pathText (place : Place) : Text := slash :: join place

def isAbsolute (path : Text) : Bool := path.head? == some slash

def enter (place : Place) (segment : Text) : Place :=
  if segment = [] ∨ segment = dot then place
  else if segment = twoDots then place.dropLast
  else place ++ [segment]

def resolve (cwd : Place) (paths : List Text) : Place :=
  paths.foldl (fun place path => (path.splitOn slash).foldl enter (if isAbsolute path then [] else place)) cwd

def relative : Place → Place → List Text
  | a :: origin, b :: target =>
      if a = b then relative origin target
      else (a :: origin).map (fun _ => twoDots) ++ b :: target
  | origin, target => origin.map (fun _ => twoDots) ++ target

def escapes (rel : Text) : Bool := startsWith twoDots rel || isAbsolute rel

def resolveWithin (cwd : Place) (root candidate : Text) : Except Text Text :=
  let abs := resolve cwd [root, candidate]
  if escapes (join (relative (resolve cwd [root]) abs)) then
    .error (units "Path escapes the allowed directory (" ++ root ++ units "): " ++ candidate)
  else .ok (pathText abs)

def firstWithin (cwd : Place) (candidate : Text) : List Text → Option Text
  | [] => none
  | root :: roots => match resolveWithin cwd root candidate with
    | .ok path => some path
    | .error _ => firstWithin cwd candidate roots

def resolveImportPath (cwd : Place) (roots : List Text) (candidate : Text) : Except Text Text :=
  (firstWithin cwd candidate roots).elim (.error (units "Import files must live under " ++
    (units " or ").intercalate roots ++ units " — \"" ++ candidate ++ units "\" is outside both.")) .ok

def resolveInputPath (cwd : Place) (roots : List Text) (candidate : Text) : Except Text Text :=
  (firstWithin cwd candidate roots).elim (.error (units "Refusing to read " ++ candidate ++
    units ": restore sources must be inside " ++ (units " or ").intercalate roots ++ units " (§7.2).")) .ok

section Segments
variable {place : Place} {segment : Text}

theorem splitBare {path : Text} : ∀ s ∈ path.splitOn slash, slash ∉ s := by
  induction path with
  | nil => simp
  | cons c path ih =>
    rw [List.splitOn_cons_eq_if_modifyHead]
    split
    · simpa using ih
    · rename_i apart
      cases rest : path.splitOn slash with
      | nil => simp
      | cons first others =>
        rw [rest] at ih
        have other : slash ≠ c := fun same => apart (beq_iff_eq.mpr same.symm)
        simpa [List.modifyHead, other] using ih

theorem enterPlain (plain : ∀ s ∈ place, Plain s) (bare : slash ∉ segment) : ∀ s ∈ enter place segment, Plain s := by
  intro s listed
  simp only [enter] at listed
  split at listed
  · exact plain s listed
  · rename_i named
    split at listed
    · exact plain s (List.mem_of_mem_dropLast listed)
    · rename_i down
      rcases List.mem_append.mp listed with before | new
      · exact plain s before
      · rw [List.mem_singleton.mp new]
        exact ⟨fun empty => named (Or.inl empty), fun dotted => named (Or.inr dotted), down, bare⟩

theorem walkPlain {segments : List Text} (plain : ∀ s ∈ place, Plain s) (bare : ∀ s ∈ segments, slash ∉ s) :
    ∀ s ∈ segments.foldl enter place, Plain s := by
  induction segments generalizing place with
  | nil => exact plain
  | cons first rest ih =>
    exact ih (enterPlain plain (bare first (by simp))) fun s listed => bare s (by simp [listed])

theorem resolvePlain {paths : List Text} (plain : ∀ s ∈ place, Plain s) : ∀ s ∈ resolve place paths, Plain s := by
  induction paths generalizing place with
  | nil => exact plain
  | cons path paths ih =>
    refine ih (walkPlain ?_ splitBare)
    split
    · simp
    · exact plain

theorem walkOn {segments : List Text} (plain : ∀ s ∈ segments, Plain s) :
    segments.foldl enter place = place ++ segments := by
  induction segments generalizing place with
  | nil => simp
  | cons first rest ih =>
    obtain ⟨some', undotted, down, -⟩ := plain first (by simp)
    rw [List.foldl_cons, ih fun s listed => plain s (by simp [listed])]
    simp [enter, some', undotted, down]

theorem textPlace (cwd : Place) (plain : ∀ s ∈ place, Plain s) : resolve cwd [pathText place] = place := by
  have split : (pathText place).splitOn slash = [] :: (join place).splitOn slash := by
    exact List.splitOn_append_cons_self (a := slash) [] (join place)
  simp only [resolve, List.foldl_cons, List.foldl_nil, split]
  simp only [pathText, isAbsolute, List.head?_cons, beq_self_eq_true, if_true]
  cases place with
  | nil => simp [join, enter]
  | cons first rest =>
    rw [join, List.splitOn_intercalate slash (fun s listed => (plain s listed).2.2.2) (by simp)]
    simpa [enter] using @walkOn [] _ plain

end Segments

section Confined
variable {base place below : Place}

theorem relativeBelow : relative base (base ++ below) = below := by
  induction base with
  | nil => simp [relative]
  | cons a base ih => simpa [relative] using ih

theorem relativeOut (outside : ¬ base <+: place) : ∃ rest, relative base place = twoDots :: rest := by
  induction base generalizing place with
  | nil => exact absurd List.nil_prefix outside
  | cons a base ih =>
    cases place with
    | nil => exact ⟨_, rfl⟩
    | cons b place =>
      simp only [relative]
      split
      · rename_i same
        exact ih fun inside => outside (by simpa [same] using inside)
      · exact ⟨_, rfl⟩

theorem joinHead {first : Text} {rest : List Text} : startsWith twoDots (join (first :: rest)) = startsWith twoDots first := by
  cases rest with
  | nil => simp [join, List.intercalate]
  | cons next rest =>
    rw [join, List.intercalate_cons_cons]
    have apart : 46 ≠ slash := by decide
    rcases first with _ | ⟨a, _ | ⟨b, first⟩⟩
    · simp [startsWith, List.isPrefixOf, apart]
    · simp [startsWith, List.isPrefixOf, apart]
    · simp [startsWith, List.isPrefixOf]

def Undotted (below : Place) : Prop := ∀ first ∈ below.head?, ¬ twoDots <+: first

theorem belowEscapes (plain : ∀ s ∈ below, Plain s) : escapes (join below) = false ↔ Undotted below := by
  cases below with
  | nil => simp [escapes, join, startsWith, isAbsolute, Undotted]
  | cons first rest =>
    obtain ⟨some', -, -, bare⟩ := plain first (by simp)
    have relative' : isAbsolute (join (first :: rest)) = false := by
      cases first with
      | nil => exact absurd rfl some'
      | cons c first =>
        have other : c ≠ slash := fun same => bare (by simp [same])
        cases rest <;> simpa [join, List.intercalate, isAbsolute] using other
    rw [escapes, joinHead, relative', Bool.or_false, ← Bool.not_eq_true, startsWithIff]
    simp [Undotted]

theorem escapesIff (plain : ∀ s ∈ place, Plain s) :
    escapes (join (relative base place)) = false ↔ ∃ below, place = base ++ below ∧ Undotted below := by
  by_cases inside : base <+: place
  · obtain ⟨below, rfl⟩ := inside
    rw [relativeBelow, belowEscapes fun s listed => plain s (by simp [listed])]
    simp
  · obtain ⟨rest, out⟩ := relativeOut inside
    rw [out, escapes, joinHead]
    simp only [show startsWith twoDots twoDots = true from rfl, Bool.true_or, Bool.true_eq_false, false_iff]
    rintro ⟨below, rfl, -⟩
    exact inside (List.prefix_append base below)

end Confined

def Stays (cwd : Place) (root candidate : Text) : Prop :=
  ∃ below, resolve cwd [root, candidate] = resolve cwd [root] ++ below ∧ Undotted below

theorem withinIff {cwd : Place} (plain : ∀ s ∈ cwd, Plain s) {root candidate text : Text} :
    resolveWithin cwd root candidate = .ok text ↔
      Stays cwd root candidate ∧ text = pathText (resolve cwd [root, candidate]) := by
  rw [Stays, ← escapesIff (resolvePlain plain), resolveWithin]
  cases escapes (join (relative (resolve cwd [root]) (resolve cwd [root, candidate])))
  · simp [eq_comm]
  · simp

theorem firstIff {cwd : Place} (plain : ∀ s ∈ cwd, Plain s) {roots : List Text} {candidate text : Text} :
    firstWithin cwd candidate roots = some text ↔ ∃ before root after, roots = before ++ root :: after ∧
      (∀ r ∈ before, ¬ Stays cwd r candidate) ∧ Stays cwd root candidate ∧
        text = pathText (resolve cwd [root, candidate]) := by
  induction roots with
  | nil => simp [firstWithin]
  | cons root roots ih =>
    simp only [firstWithin]
    split
    · rename_i path taken
      have own := (withinIff plain).mp taken
      constructor
      · rintro ⟨⟩
        exact ⟨[], root, roots, rfl, nofun, own⟩
      · rintro ⟨before, other, after, listed, refused, stays, rfl⟩
        cases before with
        | nil => rw [(List.cons.inj listed).1] at own; rw [own.2]
        | cons first before => rw [(List.cons.inj listed).1] at own; exact absurd own.1 (refused first (by simp))
    · rename_i refusal refused
      have out : ¬ Stays cwd root candidate := fun stays => by
        rw [(withinIff plain).mpr ⟨stays, rfl⟩] at refused
        cases refused
      rw [ih]
      constructor
      · rintro ⟨before, other, after, rfl, rest⟩
        exact ⟨root :: before, other, after, rfl, by simpa [out] using rest.1, rest.2⟩
      · rintro ⟨before, other, after, listed, refused, stays, rfl⟩
        cases before with
        | nil => rw [(List.cons.inj listed).1] at out; exact absurd stays out
        | cons first before =>
          exact ⟨before, other, after, (List.cons.inj listed).2, fun r here => refused r (by simp [here]), stays, rfl⟩

-- The first root that the candidate stays in is taken; the text leads there from any directory.
theorem confinedExactly (cwd : Place) (plain : ∀ s ∈ cwd, Plain s) (roots : List Text) (candidate text : Text) :
    (firstWithin cwd candidate roots = some text ↔ ∃ before root after, roots = before ++ root :: after ∧
      (∀ r ∈ before, ¬ Stays cwd r candidate) ∧ Stays cwd root candidate ∧
        text = pathText (resolve cwd [root, candidate])) ∧
    (firstWithin cwd candidate roots = some text →
      ∃ root ∈ roots, ∀ dir, ∃ below, resolve dir [text] = resolve cwd [root] ++ below) ∧
    (resolveImportPath cwd roots candidate = .ok text ↔ firstWithin cwd candidate roots = some text) ∧
    (resolveInputPath cwd roots candidate = .ok text ↔ firstWithin cwd candidate roots = some text) := by
  refine ⟨firstIff plain, fun taken => ?_, ?_, ?_⟩
  · obtain ⟨before, root, after, rfl, -, ⟨below, stays, -⟩, rfl⟩ := (firstIff plain).mp taken
    exact ⟨root, by simp, fun dir => ⟨below, by rw [textPlace dir (resolvePlain plain), stays]⟩⟩
  · cases found : firstWithin cwd candidate roots <;> simp [resolveImportPath, found]
  · cases found : firstWithin cwd candidate roots <;> simp [resolveInputPath, found]

theorem siblingTaken : ∃ root ∈ [units "/data/exports", units "/data/sqlite"], ∀ dir, ∃ below,
    resolve dir [units "/data/sqlite/shop.db"] = resolve [units "app"] [root] ++ below :=
  (confinedExactly [units "app"] (by decide) _ (units "../sqlite/./shop.db") _).2.1 (by decide +kernel)

end DatabaseAdmin.ConfinedPaths
