import Mathlib.Data.List.Basic

/-! Backtracking patterns without lookaround: the lengths a pattern can match at the head of a text,
in the order they are tried, and the replacement of every match. -/
namespace DatabaseAdmin.Patterns

variable {α : Type}

inductive Pattern (α : Type) where
  | blank
  | one (accepts : α → Bool)
  | both (first second : Pattern α)
  | either (first second : Pattern α)
  | many (body : Pattern α)

def exactly [DecidableEq α] : List α → Pattern α
  | [] => .blank
  | u :: rest => .both (.one (decide <| · = u)) (exactly rest)

def oneOrMore (body : Pattern α) : Pattern α := .both body (.many body)

def all : List (Pattern α) → Pattern α
  | [] => .blank
  | p :: rest => .both p (all rest)

def rounds (body : List α → List Nat) : Nat → List α → List Nat
  | 0, _ => [0]
  | fuel + 1, t => ((body t).filter (0 < ·)).flatMap (fun n => (rounds body fuel (t.drop n)).map (n + ·)) ++ [0]

def ends : Pattern α → List α → List Nat
  | .blank, _ => [0]
  | .one _, [] => []
  | .one accepts, u :: _ => if accepts u then [1] else []
  | .both p q, t => (ends p t).flatMap fun n => (ends q (t.drop n)).map (n + ·)
  | .either p q, t => ends p t ++ ends q t
  | .many p, t => rounds (ends p) t.length t

def found (p : Pattern α) (t : List α) : Option Nat := (ends p t).head?

def replaceFrom (p : Pattern α) (put : List α) : Nat → List α → List α
  | _, [] => if (found p []).isSome then put else []
  | skip + 1, _ :: t => replaceFrom p put skip t
  | 0, u :: t =>
    match found p (u :: t) with
    | none => u :: replaceFrom p put 0 t
    | some 0 => put ++ u :: replaceFrom p put 0 t
    | some (n + 1) => put ++ replaceFrom p put n t

def replaceAll (p : Pattern α) (put : List α) (t : List α) : List α := replaceFrom p put 0 t

def spansFrom (p : Pattern α) : Nat → Nat → List α → List (Nat × Nat)
  | _, _, [] => []
  | pos, skip + 1, _ :: t => spansFrom p (pos + 1) skip t
  | pos, 0, u :: t =>
    match found p (u :: t) with
    | none => spansFrom p (pos + 1) 0 t
    | some n => (pos, pos + n) :: spansFrom p (pos + 1) (n - 1) t

def spans (p : Pattern α) (t : List α) : List (Nat × Nat) := spansFrom p 0 0 t

def takenFrom (p : Pattern α) : Nat → List α → List α
  | _, [] => []
  | skip + 1, u :: t => u :: takenFrom p skip t
  | 0, u :: t =>
    match found p (u :: t) with
    | none | some 0 => takenFrom p 0 t
    | some (n + 1) => u :: takenFrom p n t

def taken (p : Pattern α) (t : List α) : List α := takenFrom p 0 t

def reading {β : Type} (f : β → α) : Pattern α → Pattern β
  | .blank => .blank
  | .one accepts => .one (accepts ∘ f)
  | .both p q => .both (reading f p) (reading f q)
  | .either p q => .either (reading f p) (reading f q)
  | .many p => .many (reading f p)

def cutsFrom : Nat → List (List α) → List Nat
  | _, [] => []
  | pos, piece :: rest => (pos + piece.length) :: cutsFrom (pos + piece.length) rest

def Uncut (p : Pattern α) (pieces : List (List α)) : Prop :=
  ∀ span ∈ spans p pieces.flatten, ∀ cut ∈ cutsFrom 0 pieces, ¬(span.1 < cut ∧ cut < span.2)

instance (p : Pattern α) (pieces : List (List α)) : Decidable (Uncut p pieces) := by
  unfold Uncut; infer_instance

def Consuming (p : Pattern α) : Prop := ∀ t, 0 ∉ ends p t

section Locality
variable {p q : Pattern α} {body : List α → List Nat}

theorem flatMapWithin {f g : Nat → List Nat} {m : Nat} (ns : List Nat) (inside : ∀ n ∈ ns, n ≤ m → f n = g n)
    (outside : ∀ n ∈ ns, m < n → g n = []) : (ns.filter (· ≤ m)).flatMap f = ns.flatMap g := by
  induction ns with
  | nil => rfl
  | cons n rest ih =>
    have tail := ih (fun k mem => inside k (List.mem_cons_of_mem n mem)) (fun k mem => outside k (List.mem_cons_of_mem n mem))
    by_cases within : n ≤ m
    · simp [within, inside n List.mem_cons_self within, tail]
    · simp [within, outside n List.mem_cons_self (Nat.lt_of_not_le within), tail]

theorem shiftedBeyond {n m : Nat} (ns : List Nat) (beyond : m < n) : (ns.map (n + ·)).filter (· ≤ m) = [] := by
  simp only [List.filter_eq_nil_iff, List.mem_map, forall_exists_index, and_imp, forall_apply_eq_imp_iff₂]
  intro k _
  simp only [decide_eq_true_eq]
  omega

theorem shiftedWithin {n : Nat} {a : List α} (ns : List Nat) (inside : n ≤ a.length) :
    (ns.map (n + ·)).filter (· ≤ a.length) = (ns.filter (· ≤ (a.drop n).length)).map (n + ·) := by
  rw [List.filter_map]
  refine congrArg _ (List.filter_congr fun k _ => ?_)
  simp only [Function.comp_apply, List.length_drop, decide_eq_decide]
  omega

theorem roundsStop (k : Nat) (b : List α) : (rounds body k b).filter (· ≤ 0) = [0] := by
  cases k with
  | zero => rfl
  | succ k =>
    rw [rounds, List.filter_append, List.filter_flatMap]
    have beyond : ∀ n ∈ (body b).filter (0 < ·), ((rounds body k (b.drop n)).map (n + ·)).filter (· ≤ 0) = [] := by
      intro n mem
      exact shiftedBeyond _ (by simpa using (List.mem_filter.mp mem).2)
    rw [List.flatMap_eq_nil_iff.mpr beyond]
    rfl

theorem roundsCut (local' : ∀ a b, body a = (body (a ++ b)).filter (· ≤ a.length)) (b : List α) (k : Nat) :
    ∀ (a : List α) (k' : Nat), a.length ≤ k → (a ++ b).length ≤ k' →
      rounds body k a = (rounds body k' (a ++ b)).filter (· ≤ a.length) := by
  induction k with
  | zero =>
    intro a k' short _
    rw [List.eq_nil_of_length_eq_zero (Nat.le_zero.mp short)]
    exact (roundsStop k' b).symm
  | succ k ih =>
    intro a k' short long
    by_cases none : a = []
    · subst none
      have still : (body []).filter (0 < ·) = [] := by
        rw [local' [] [], List.filter_filter, List.filter_eq_nil_iff]
        intro n _
        simp only [List.length_nil, Bool.and_eq_true, decide_eq_true_eq]
        omega
      rw [rounds, still]
      exact (roundsStop k' b).symm
    · have some'' : 0 < a.length := List.length_pos_iff.mpr none
      obtain ⟨k', rfl⟩ : ∃ j, k' = j + 1 := ⟨k' - 1, by rw [List.length_append] at long; omega⟩
      rw [rounds, rounds, List.filter_append, List.filter_flatMap]
      have last : [0].filter (· ≤ a.length) = [0] := by simp
      rw [last, local' a b, List.filter_comm]
      refine congrArg (· ++ [0]) (flatMapWithin _ (fun n mem inside => ?_) (fun n _ beyond => shiftedBeyond _ beyond))
      have moved : 0 < n := by simpa using (List.mem_filter.mp mem).2
      rw [shiftedWithin _ inside, List.drop_append_of_le_length inside]
      refine congrArg _ (ih (a.drop n) k' ?_ ?_)
      · rw [List.length_drop]; omega
      · rw [List.length_append, List.length_drop]
        rw [List.length_append] at long
        omega

theorem endsCut (p : Pattern α) : ∀ a b, ends p a = (ends p (a ++ b)).filter (· ≤ a.length) := by
  induction p with
  | blank => intro a b; simp [ends]
  | one accepts =>
    rintro (_ | ⟨u, t⟩) b
    · cases b with
      | nil => rfl
      | cons u t => by_cases ok : accepts u <;> simp [ends, ok]
    · by_cases ok : accepts u <;> simp [ends, ok]
  | both p q ihp ihq =>
    intro a b
    rw [ends, ends, List.filter_flatMap, ihp a b]
    refine flatMapWithin _ (fun n _ inside => ?_) (fun n _ beyond => shiftedBeyond _ beyond)
    rw [shiftedWithin _ inside, List.drop_append_of_le_length inside, ← ihq]
  | either p q ihp ihq =>
    intro a b
    rw [ends, ends, List.filter_append, ← ihp, ← ihq]
  | many p ih =>
    intro a b
    exact roundsCut ih b a.length a (a ++ b).length (Nat.le_refl _) (Nat.le_refl _)

theorem endsWithin {t : List α} {n : Nat} (mem : n ∈ ends p t) : n ≤ t.length := by
  rw [endsCut p t []] at mem
  simpa using (List.mem_filter.mp mem).2

theorem bothMem {t : List α} {n : Nat} :
    n ∈ ends (.both p q) t ↔ ∃ k ∈ ends p t, ∃ m ∈ ends q (t.drop k), k + m = n := by
  simp [ends, List.mem_flatMap, List.mem_map]

theorem foundMem {t : List α} {n : Nat} (matched : found p t = some n) : n ∈ ends p t :=
  List.mem_of_mem_head? matched

theorem foundNone {t : List α} : found p t = none ↔ ends p t = [] := List.head?_eq_none_iff

theorem foundShort {a b : List α} {n : Nat} (matched : found p (a ++ b) = some n) (short : n ≤ a.length) :
    found p a = some n := by
  obtain ⟨rest, split⟩ := List.head?_eq_some_iff.mp matched
  rw [found, endsCut p a b, split, List.filter_cons_of_pos (by simpa using short)]
  rfl

theorem foundNowhere {a : List α} (b : List α) (missed : found p (a ++ b) = none) : found p a = none := by
  rw [foundNone] at missed ⊢
  rw [endsCut p a b, missed]
  rfl

end Locality

section Replacement
variable {p : Pattern α} {put : List α}

theorem consumingFound {t : List α} {n : Nat} (consuming : Consuming p) (matched : found p t = some n) : 0 < n := by
  rcases n with _ | n
  · exact absurd (foundMem matched) (consuming t)
  · exact Nat.succ_pos n

theorem consumingEnd (consuming : Consuming p) : found p [] = none := by
  cases matched : found p [] with
  | none => rfl
  | some n =>
    have inside := endsWithin (foundMem matched)
    have moved := consumingFound consuming matched
    simp only [List.length_nil] at inside
    omega

theorem replaceEnd (consuming : Consuming p) (skip : Nat) : replaceFrom p put skip [] = [] := by
  simp [replaceFrom, consumingEnd consuming]

theorem replaceMatched (consuming : Consuming p) {u : α} {t : List α} {n : Nat} (matched : found p (u :: t) = some n) :
    replaceFrom p put 0 (u :: t) = put ++ replaceFrom p put (n - 1) t := by
  obtain ⟨m, rfl⟩ : ∃ m, n = m + 1 := ⟨n - 1, by have := consumingFound consuming matched; omega⟩
  simp only [replaceFrom, matched, Nat.add_sub_cancel]

theorem replaceCut (consuming : Consuming p) (a b : List α) : ∀ (pos skip : Nat), skip ≤ a.length →
    (∀ span ∈ spansFrom p pos skip (a ++ b), ¬(span.1 < pos + a.length ∧ pos + a.length < span.2)) →
    replaceFrom p put skip (a ++ b) = replaceFrom p put skip a ++ replaceFrom p put 0 b ∧
      spansFrom p pos skip (a ++ b) = spansFrom p pos skip a ++ spansFrom p (pos + a.length) 0 b := by
  induction a with
  | nil =>
    intro pos skip short _
    rw [Nat.le_zero.mp short, replaceEnd consuming]
    exact ⟨rfl, rfl⟩
  | cons u t ih =>
    intro pos skip short clear
    have size : pos + 1 + t.length = pos + (u :: t).length := by rw [List.length_cons]; omega
    cases skip with
    | succ skip =>
      rw [List.length_cons] at short
      have tail := ih (pos + 1) skip (by omega) (by rw [size]; exact clear)
      rw [size] at tail
      exact tail
    | zero =>
      rw [List.cons_append] at clear ⊢
      cases matched : found p (u :: (t ++ b)) with
      | none =>
        have missed : found p (u :: t) = none := foundNowhere b matched
        simp only [spansFrom, matched] at clear
        have tail := ih (pos + 1) 0 (Nat.zero_le _) (by rw [size]; exact clear)
        rw [size] at tail
        simp only [replaceFrom, spansFrom, matched, missed, tail.1, tail.2, List.cons_append, and_self]
      | some n =>
        simp only [spansFrom, matched, List.forall_mem_cons] at clear
        have moved := consumingFound consuming matched
        have inside : n ≤ (u :: t).length := by
          have := clear.1
          rw [List.length_cons] at this ⊢
          omega
        have whole : found p (u :: t) = some n := foundShort matched inside
        rw [List.length_cons] at inside
        have tail := ih (pos + 1) (n - 1) (by omega) (by rw [size]; exact clear.2)
        rw [size] at tail
        rw [replaceMatched consuming matched, replaceMatched consuming whole, tail.1, List.append_assoc]
        simp only [spansFrom, matched, whole, tail.2, List.cons_append, and_self]

theorem replacePieces (consuming : Consuming p) (pieces : List (List α)) (pos : Nat)
    (uncut : ∀ span ∈ spansFrom p pos 0 pieces.flatten, ∀ cut ∈ cutsFrom pos pieces, ¬(span.1 < cut ∧ cut < span.2)) :
    (pieces.map (replaceAll p put)).flatten = replaceAll p put pieces.flatten := by
  induction pieces generalizing pos with
  | nil => exact (replaceEnd consuming 0).symm
  | cons piece rest ih =>
    rw [List.flatten_cons] at uncut
    obtain ⟨joined, spread⟩ := @replaceCut α p put consuming piece rest.flatten pos 0 (Nat.zero_le _)
      fun span mem => uncut span mem (pos + piece.length) List.mem_cons_self
    rw [spread] at uncut
    have tail := ih (pos + piece.length) fun span mem cut inside =>
      uncut span (List.mem_append_right _ mem) cut (List.mem_cons_of_mem _ inside)
    rw [List.map_cons, List.flatten_cons, List.flatten_cons, tail]
    exact joined.symm

theorem replaceUncut (consuming : Consuming p) {pieces : List (List α)} (uncut : Uncut p pieces) :
    (pieces.map (replaceAll p put)).flatten = replaceAll p put pieces.flatten :=
  replacePieces consuming pieces 0 uncut

theorem replaceNowhere (consuming : Consuming p) {t : List α} (missed : ∀ s, s <:+ t → found p s = none) :
    replaceAll p put t = t := by
  induction t with
  | nil => exact replaceEnd consuming 0
  | cons u t ih =>
    have tail := ih fun s behind => missed s (behind.trans (List.suffix_cons u t))
    simp only [replaceAll] at tail ⊢
    simp only [replaceFrom, missed (u :: t) List.suffix_rfl, tail]

end Replacement

section Readings
variable {β : Type} (f : β → α)

theorem roundsReading {body : List α → List Nat} {body' : List β → List Nat} (same : ∀ t, body' t = body (t.map f))
    (k : Nat) : ∀ t : List β, rounds body' k t = rounds body k (t.map f) := by
  induction k with
  | zero => exact fun _ => rfl
  | succ k ih =>
    intro t
    simp only [rounds, same, ih, List.map_drop]

theorem endsReading (p : Pattern α) : ∀ t : List β, ends (reading f p) t = ends p (t.map f) := by
  induction p with
  | blank => exact fun _ => rfl
  | one accepts => rintro (_ | ⟨u, t⟩) <;> rfl
  | both p q ihp ihq =>
    intro t
    simp only [reading, ends, ihp, ihq, List.map_drop]
  | either p q ihp ihq =>
    intro t
    simp only [reading, ends, ihp, ihq]
  | many p ih =>
    intro t
    rw [reading, ends, ends, roundsReading f ih, List.length_map]

theorem foundReading (p : Pattern α) (t : List β) : found (reading f p) t = found p (t.map f) := by
  rw [found, found, endsReading]

theorem replaceReading (p : Pattern α) (put : List β) (skip : Nat) (t : List β) :
    (replaceFrom (reading f p) put skip t).map f = replaceFrom p (put.map f) skip (t.map f) := by
  induction t generalizing skip with
  | nil =>
    simp only [replaceFrom, foundReading, List.map_nil]
    split <;> rfl
  | cons u t ih =>
    cases skip with
    | succ skip => exact ih skip
    | zero =>
      have head := foundReading f p (u :: t)
      simp only [List.map_cons] at head ⊢
      simp only [replaceFrom, head]
      rcases found p (f u :: t.map f) with _ | _ | n <;> simp [ih]

end Readings

section Survivors
variable {p : Pattern α} {put : List α}

theorem takenMem {skip : Nat} {t : List α} {x : α} (mem : x ∈ takenFrom p skip t) : x ∈ t := by
  induction t generalizing skip with
  | nil => exact absurd mem List.not_mem_nil
  | cons u t ih =>
    cases skip with
    | succ skip =>
      rcases List.mem_cons.mp mem with rfl | later
      · exact List.mem_cons_self
      · exact List.mem_cons_of_mem u (ih later)
    | zero =>
      rw [takenFrom] at mem
      split at mem
      · exact List.mem_cons_of_mem u (ih mem)
      · exact List.mem_cons_of_mem u (ih mem)
      · rcases List.mem_cons.mp mem with rfl | later
        · exact List.mem_cons_self
        · exact List.mem_cons_of_mem u (ih later)

theorem survivorIff {skip : Nat} {t : List α} {x : α} (once : t.Nodup) (fresh : x ∉ put) :
    x ∈ replaceFrom p put skip t ↔ x ∈ t ∧ x ∉ takenFrom p skip t := by
  induction t generalizing skip with
  | nil =>
    simp only [replaceFrom]
    split <;> simp [fresh]
  | cons u t ih =>
    obtain ⟨alone, rest⟩ := List.nodup_cons.mp once
    have other : x ∈ t → x ≠ u := fun inside same => alone (same ▸ inside)
    have untaken : ∀ skip, u ∉ takenFrom p skip t := fun skip mem => alone (takenMem mem)
    cases skip with
    | succ skip =>
      simp only [replaceFrom, takenFrom, ih rest, List.mem_cons, not_or]
      constructor
      · rintro ⟨inside, left⟩
        exact ⟨.inr inside, other inside, left⟩
      · rintro ⟨rfl | inside, off, left⟩
        · exact absurd rfl off
        · exact ⟨inside, left⟩
    | zero =>
      simp only [replaceFrom, takenFrom]
      rcases found p (u :: t) with _ | _ | n
      · by_cases same : x = u
        · simp [same, untaken]
        · simp [same, ih rest]
      · by_cases same : x = u
        · simp [same, untaken]
        · simp [same, fresh, ih rest]
      · simp only [List.mem_append, fresh, false_or, ih rest, List.mem_cons, not_or]
        constructor
        · rintro ⟨inside, left⟩
          exact ⟨.inr inside, other inside, left⟩
        · rintro ⟨rfl | inside, off, left⟩
          · exact absurd rfl off
          · exact ⟨inside, left⟩

theorem removedSublist (skip : Nat) (t : List α) : (replaceFrom p [] skip t).Sublist t := by
  induction t generalizing skip with
  | nil =>
    simp only [replaceFrom]
    split <;> exact List.nil_sublist _
  | cons u t ih =>
    cases skip with
    | succ skip => exact (ih skip).cons u
    | zero =>
      simp only [replaceFrom]
      rcases found p (u :: t) with _ | _ | n
      · exact (ih 0).cons_cons u
      · exact (ih 0).cons_cons u
      · exact (ih n).cons u

end Survivors

section Literals
variable [DecidableEq α] {q : Pattern α}

theorem exactlyEnds (w : List α) {t : List α} {n : Nat} (mem : n ∈ ends (exactly w) t) :
    n = w.length ∧ w <+: t := by
  induction w generalizing t n with
  | nil =>
    simp only [exactly, ends, List.mem_singleton] at mem
    exact ⟨mem, List.nil_prefix⟩
  | cons u w ih =>
    cases t with
    | nil => simp [exactly, ends] at mem
    | cons v t =>
      by_cases same : v = u
      · subst same
        simp only [exactly, ends, decide_true, if_true, List.flatMap_cons, List.flatMap_nil, List.append_nil,
          List.drop_succ_cons, List.drop_zero, List.mem_map] at mem
        obtain ⟨k, inside, rfl⟩ := mem
        obtain ⟨rfl, start⟩ := ih inside
        exact ⟨by rw [List.length_cons, Nat.add_comm], List.cons_prefix_cons.mpr ⟨rfl, start⟩⟩
      · simp [exactly, ends, same] at mem

theorem startsConsuming {w : List α} (some'' : w ≠ []) : Consuming (.both (exactly w) q) := by
  intro t mem
  obtain ⟨k, inside, m, _, sum⟩ := bothMem.mp mem
  have size := (exactlyEnds w inside).1
  have := List.length_pos_iff.mpr some''
  omega

theorem exactlyInside {w : List α} {ps : List (Pattern α)} (member : exactly w ∈ ps) {t : List α} {n : Nat}
    (mem : n ∈ ends (all ps) t) : w <:+: t := by
  induction ps generalizing t n with
  | nil => contradiction
  | cons p rest ih =>
    obtain ⟨k, first, m, later, _⟩ := bothMem.mp mem
    rcases List.mem_cons.mp member with rfl | inner
    · exact (exactlyEnds w first).2.isInfix
    · exact (ih inner later).trans (List.drop_suffix k t).isInfix

end Literals

section Wholes
variable {p q : Pattern α}

theorem endsTake {n : Nat} {t : List α} : n ∈ ends p t ↔ n ≤ t.length ∧ (t.take n).length ∈ ends p (t.take n) := by
  constructor
  · intro member
    have short := endsWithin member
    refine ⟨short, ?_⟩
    rw [endsCut p (t.take n) (t.drop n), List.take_append_drop, List.length_take_of_le short]
    exact List.mem_filter.mpr ⟨member, by simp⟩
  · rintro ⟨short, member⟩
    rw [endsCut p (t.take n) (t.drop n), List.take_append_drop, List.length_take_of_le short] at member
    exact (List.mem_filter.mp member).1

theorem bothWhole {t : List α} : t.length ∈ ends (.both p q) t ↔
    ∃ a b, t = a ++ b ∧ a.length ∈ ends p a ∧ b.length ∈ ends q b := by
  rw [bothMem]
  constructor
  · rintro ⟨k, first, m, last, sum⟩
    obtain ⟨short, first⟩ := endsTake.mp first
    refine ⟨t.take k, t.drop k, (List.take_append_drop k t).symm, first, ?_⟩
    have rest : (t.drop k).length = m := by
      rw [List.length_drop]
      omega
    exact rest ▸ last
  · rintro ⟨a, b, rfl, first, last⟩
    refine ⟨a.length, endsTake.mpr ⟨by simp, by simpa using first⟩, b.length, by simpa using last, by simp⟩

theorem oneWhole {accepts : α → Bool} {t : List α} : t.length ∈ ends (.one accepts) t ↔ ∃ c, t = [c] ∧ accepts c = true := by
  match t with
  | [] => simp [ends]
  | c :: rest =>
    by_cases ok : accepts c = true
    · simp [ends, ok]
    · simp [ends, ok]

theorem oneThen {accepts : α → Bool} {t : List α} : t.length ∈ ends (.both (.one accepts) q) t ↔
    ∃ c b, t = c :: b ∧ accepts c = true ∧ b.length ∈ ends q b := by
  simp only [bothWhole, oneWhole]
  constructor
  · rintro ⟨a, b, rfl, ⟨c, rfl, ok⟩, last⟩
    exact ⟨c, b, rfl, ok, last⟩
  · rintro ⟨c, b, rfl, ok, last⟩
    exact ⟨[c], b, rfl, ⟨c, rfl, ok⟩, last⟩

theorem blankWhole {t : List α} : t.length ∈ ends (.blank : Pattern α) t ↔ t = [] := by
  simp [ends]

theorem thenBlank {t : List α} : t.length ∈ ends (.both p .blank) t ↔ t.length ∈ ends p t := by
  simp only [bothWhole, blankWhole]
  constructor
  · rintro ⟨a, b, rfl, first, rfl⟩
    rwa [List.append_nil]
  · exact fun whole => ⟨t, [], (List.append_nil t).symm, whole, rfl⟩

theorem eitherWhole {t : List α} : t.length ∈ ends (.either p q) t ↔ t.length ∈ ends p t ∨ t.length ∈ ends q t := by
  simp [ends]

end Wholes

end DatabaseAdmin.Patterns
