import DatabaseAdmin.NamedChanges

/-! Items put into a list one by one, each at an end or beside an item that is there. What is wanted decides the
anchors, and the list comes to hold it in its order. -/
namespace DatabaseAdmin.AnchoredLists
open NamedChanges (follow)

inductive Anchor (α : Type) where
  | atEnd
  | atStart
  | before (x : α)
  | after (x : α)

section Placing
variable {α : Type} [BEq α] [LawfulBEq α]

def putBefore (x v : α) : List α → Option (List α)
  | [] => none
  | y :: rest => if y == x then some (v :: y :: rest) else (putBefore x v rest).map (y :: ·)

def putAfter (x v : α) : List α → Option (List α)
  | [] => none
  | y :: rest => if y == x then some (y :: v :: rest) else (putAfter x v rest).map (y :: ·)

def place (v : α) : Anchor α → List α → Option (List α)
  | .atEnd, items => some (items ++ [v])
  | .atStart, items => some (v :: items)
  | .before x, items => putBefore x v items
  | .after x, items => putAfter x v items

def put (items : List α) (add : α × Anchor α) : Option (List α) :=
  if add.1 ∈ items then none else place add.1 add.2 items

theorem putBeforeAt {x : α} (v : α) {a : List α} (b : List α) (new : x ∉ a) :
    putBefore x v (a ++ x :: b) = some (a ++ v :: x :: b) := by
  induction a with
  | nil => simp [putBefore]
  | cons y a ih =>
    rw [List.mem_cons, not_or] at new
    rw [List.cons_append, putBefore, if_neg (by simpa using Ne.symm new.1), ih new.2]
    rfl

theorem putAfterAt {x : α} (v : α) {a : List α} (b : List α) (new : x ∉ a) :
    putAfter x v (a ++ x :: b) = some (a ++ x :: v :: b) := by
  induction a with
  | nil => simp [putAfter]
  | cons y a ih =>
    rw [List.mem_cons, not_or] at new
    rw [List.cons_append, putAfter, if_neg (by simpa using Ne.symm new.1), ih new.2]
    rfl

def Suits (done rest : List α) : Anchor α → Prop
  | .atEnd => rest = []
  | .atStart => done = []
  | .before x => done = [] ∧ rest.head? = some x
  | .after x => done.getLast? = some x

def Present (items : List α) : Anchor α → Prop
  | .before x | .after x => x ∈ items
  | _ => True

omit [BEq α] [LawfulBEq α] in
theorem suitsPresent {done rest items : List α} {anchor : Anchor α} (suits : Suits done rest anchor)
    (early : ∀ x ∈ done, x ∈ items) (late : ∀ x ∈ rest, x ∈ items) : Present items anchor := by
  cases anchor with
  | atEnd => trivial
  | atStart => trivial
  | before x => exact late x (List.mem_of_head? suits.2)
  | after x => exact early x (List.mem_of_getLast? suits)

variable {p : α → Bool} {v : α}

theorem placed {items : List α} {anchor : Anchor α} (present : Present items anchor) (chosen : p v = true) :
    ∃ next, place v anchor items = some next ∧ (∀ y, y ∈ next ↔ y = v ∨ y ∈ items) ∧
      ∀ done rest, (done ++ rest).Nodup → Suits done rest anchor → items.filter p = done ++ rest →
        next.filter p = done ++ v :: rest := by
  cases anchor with
  | atEnd =>
    refine ⟨items ++ [v], rfl, fun y => ?_, fun done rest _ suits same => ?_⟩
    · rw [List.mem_append, List.mem_singleton, or_comm]
    · rw [List.filter_append, same, show rest = [] from suits, List.append_nil, List.filter_cons_of_pos chosen,
        List.filter_nil]
  | atStart =>
    refine ⟨v :: items, rfl, fun y => List.mem_cons, fun done rest _ suits same => ?_⟩
    rw [List.filter_cons_of_pos chosen, same, show done = [] from suits, List.nil_append, List.nil_append]
  | before x =>
    obtain ⟨a, b, rfl, new⟩ := List.eq_append_cons_of_mem present
    refine ⟨a ++ v :: x :: b, putBeforeAt v b new, fun y => ?_, fun done rest _ suits same => ?_⟩
    · simp only [List.mem_append, List.mem_cons]
      tauto
    · obtain ⟨rfl, head⟩ := suits
      have listed : x ∈ (a ++ x :: b).filter p := same ▸ List.mem_of_head? head
      have kept := (List.mem_filter.mp listed).2
      rw [List.filter_append, List.filter_cons_of_pos kept] at same
      cases early : a.filter p with
      | nil =>
        rw [early, List.nil_append, List.nil_append] at same
        rw [List.filter_append, List.filter_cons_of_pos chosen, List.filter_cons_of_pos kept, early, ← same]
      | cons y more =>
        rw [early, List.nil_append] at same
        have inside : y ∈ a.filter p := early ▸ List.mem_cons_self
        rw [← same] at head
        cases head
        exact absurd (List.mem_filter.mp inside).1 new
  | after x =>
    obtain ⟨a, b, rfl, new⟩ := List.eq_append_cons_of_mem present
    refine ⟨a ++ x :: v :: b, putAfterAt v b new, fun y => ?_, fun done rest once suits same => ?_⟩
    · simp only [List.mem_append, List.mem_cons]
      tauto
    · obtain ⟨d, rfl⟩ := List.getLast?_eq_some_iff.mp suits
      have listed : x ∈ (a ++ x :: b).filter p := by simp [same]
      have kept := (List.mem_filter.mp listed).2
      rw [List.filter_append, List.filter_cons_of_pos kept, List.append_assoc, List.singleton_append] at same
      rw [List.append_assoc, List.singleton_append, ← same, List.nodup_middle, List.nodup_cons, List.mem_append, not_or] at once
      obtain ⟨left, -, right⟩ := (List.append_cons_inj_of_notMem once.1.1 once.1.2).mp same
      rw [List.filter_append, List.filter_cons_of_pos kept, List.filter_cons_of_pos chosen, left, right]
      simp

end Placing

section Growth
variable {α : Type} [BEq α] [LawfulBEq α]

inductive Adds (there : List α) : List α → List α → List (α × Anchor α) → Prop
  | none (done : List α) : Adds there done [] []
  | kept {done rest : List α} {v : α} {adds : List (α × Anchor α)} (held : v ∈ done ∨ v ∈ there)
      (more : Adds there (done ++ [v]) rest adds) : Adds there done (v :: rest) adds
  | added {done rest : List α} {v : α} {anchor : Anchor α} {adds : List (α × Anchor α)} (new : v ∉ done)
      (missing : v ∉ there) (suits : Suits done (rest.filter (· ∈ there)) anchor)
      (more : Adds there (done ++ [v]) rest adds) : Adds there done (v :: rest) ((v, anchor) :: adds)

theorem grown {there done rest : List α} {adds : List (α × Anchor α)} (growth : Adds there done rest adds)
    (items : List α) (members : ∀ x, x ∈ items ↔ x ∈ done ∨ x ∈ there) :
    ∃ final, follow put items adds = some final ∧ (∀ x, x ∈ final ↔ x ∈ done ++ rest ∨ x ∈ there) ∧
      ((done ++ rest).Nodup → items.filter (· ∈ done ++ rest) = done ++ rest.filter (· ∈ there) →
        final.filter (· ∈ done ++ rest) = done ++ rest) := by
  induction growth generalizing items with
  | none done =>
    refine ⟨items, rfl, ?_, fun _ same => ?_⟩
    · simpa using members
    · simpa using same
  | @kept done rest v adds held more ih =>
    obtain ⟨final, ran, listed, ordered⟩ := ih items fun x => by
      rw [members, List.mem_append, List.mem_singleton]
      constructor
      · tauto
      · rintro ((old | rfl) | old)
        · exact .inl old
        · exact held
        · exact .inr old
    rw [List.append_assoc, List.singleton_append] at listed ordered
    refine ⟨final, ran, listed, fun once same => ordered once ?_⟩
    have inside : v ∈ there := held.resolve_left fun early => by
      rw [List.nodup_append] at once
      exact once.2.2 v early v List.mem_cons_self rfl
    rw [same, List.filter_cons_of_pos (by simpa using inside), List.append_assoc, List.singleton_append]
  | @added done rest v anchor adds new missing suits more ih =>
    have absent : v ∉ items := fun inside => ((members v).mp inside).elim new missing
    have present : Present items anchor := suitsPresent suits (fun x early => (members x).mpr (.inl early)) fun x late =>
      (members x).mpr (.inr (by simpa using (List.mem_filter.mp late).2))
    obtain ⟨next, put', members', ordered'⟩ := placed (p := (· ∈ done ++ v :: rest)) (v := v) present (by simp)
    obtain ⟨final, ran, listed, ordered⟩ := ih next fun x => by
      rw [members', members, List.mem_append, List.mem_singleton]
      tauto
    rw [List.append_assoc, List.singleton_append] at listed ordered
    refine ⟨final, ?_, listed, fun once same => ordered once ?_⟩
    · rw [follow, put, if_neg absent, put', Option.bind_some, ran]
    · rw [List.append_assoc, List.singleton_append]
      rw [List.filter_cons_of_neg (by simpa using missing)] at same
      refine ordered' _ _ ?_ suits same
      refine once.sublist ((List.Sublist.refl done).append ?_)
      exact List.filter_sublist.cons v

end Growth

end DatabaseAdmin.AnchoredLists
