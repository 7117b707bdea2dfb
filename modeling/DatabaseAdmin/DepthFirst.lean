import Mathlib.Data.Finset.Card
import Mathlib.Data.Finset.Dedup
import Mathlib.Data.List.Nodup
import Mathlib.Data.List.Perm.Subperm
import Mathlib.Logic.Relation

/-! A depth-first search that lists what it leaves: each node behind the nodes it points to, where no path
leads back. Nodes are told apart by their keys. -/
namespace DatabaseAdmin.DepthFirst

variable {α κ : Type} [DecidableEq κ] (key : α → κ) (next : α → List α)

structure Visited (α κ : Type) where
  seen : List κ
  out : List α

def visit : Nat → α → Visited α κ → Visited α κ
  | 0, _, v => v
  | fuel + 1, x, v =>
      if key x ∈ v.seen then v
      else
        let v := (next x).foldl (fun v y => visit fuel y v) { v with seen := key x :: v.seen }
        { v with out := v.out ++ [x] }

def visitAll (fuel : Nat) (xs : List α) (v : Visited α κ) : Visited α κ :=
  xs.foldl (fun v x => visit key next fuel x v) v

def search (xs : List α) : List α := (visitAll key next (xs.length + 1) xs ⟨[], []⟩).out

section Steps
variable {key next}

theorem visitStep (fuel : Nat) (x : α) (v : Visited α κ) : visit key next (fuel + 1) x v =
    if key x ∈ v.seen then v
    else
      let w := visitAll key next fuel (next x) { v with seen := key x :: v.seen }
      { w with out := w.out ++ [x] } := rfl

theorem visitAllCons (fuel : Nat) (x : α) (ys : List α) (v : Visited α κ) :
    visitAll key next fuel (x :: ys) v = visitAll key next fuel ys (visit key next fuel x v) := rfl

end Steps

section Runs
variable {key next} {xs : List α}

abbrev Leads (next : α → List α) : α → α → Prop := Relation.ReflTransGen fun x y => y ∈ next x

structure Run (key : α → κ) (next : α → List α) (xs : List α) (v w : Visited α κ) (ys : List α) : Prop where
  out : w.out = v.out ++ ys
  seen : ∀ k, k ∈ w.seen ↔ k ∈ v.seen ∨ k ∈ ys.map key
  fresh : ∀ y ∈ ys, key y ∉ v.seen
  once : (ys.map key).Nodup
  within : ∀ y ∈ ys, y ∈ xs
  followed : ∀ x ∈ ys, ∀ y ∈ next x, key y ∈ w.seen
  back : ∀ a x b, ys = a ++ x :: b → ∀ y ∈ next x,
    key y ∈ v.seen ∨ key y ∈ a.map key ∨ ∃ z ∈ xs, key z = key y ∧ Leads next z x

omit [DecidableEq κ] in
theorem runNone (v : Visited α κ) : Run key next xs v v [] where
  out := (List.append_nil _).symm
  seen := by simp
  fresh := nofun
  once := List.nodup_nil
  within := nofun
  followed := nofun
  back := by simp

omit [DecidableEq κ] in
theorem runThen {u v w : Visited α κ} {ys zs : List α} (first : Run key next xs u v ys) (second : Run key next xs v w zs) :
    Run key next xs u w (ys ++ zs) where
  out := by rw [second.out, first.out, List.append_assoc]
  seen k := by rw [second.seen, first.seen, List.map_append, List.mem_append, or_assoc]
  fresh y member := by
    rcases List.mem_append.mp member with left | right
    · exact first.fresh y left
    · exact fun old => second.fresh y right ((first.seen _).mpr (.inl old))
  once := by
    rw [List.map_append, List.nodup_append]
    refine ⟨first.once, second.once, fun k left k' right same => ?_⟩
    subst same
    obtain ⟨z, listed, rfl⟩ := List.mem_map.mp right
    exact second.fresh z listed ((first.seen _).mpr (.inr left))
  within y member := (List.mem_append.mp member).elim (first.within y) (second.within y)
  followed x member y pointed := by
    rcases List.mem_append.mp member with left | right
    · exact (second.seen _).mpr (.inl (first.followed x left y pointed))
    · exact second.followed x right y pointed
  back a x b split y pointed := by
    rcases List.append_eq_append_iff.mp split with ⟨between, rfl, rest⟩ | ⟨between, rfl, rest⟩
    · rcases second.back between x b rest y pointed with old | earlier | way
      · rcases (first.seen _).mp old with older | left
        · exact .inl older
        · exact .inr (.inl (by simp [left]))
      · exact .inr (.inl (by simp [earlier]))
      · exact .inr (.inr way)
    · cases between with
      | nil =>
        rw [List.append_nil] at first
        rcases second.back [] x b rest.symm y pointed with old | earlier | way
        · rcases (first.seen _).mp old with older | left
          · exact .inl older
          · exact .inr (.inl left)
        · contradiction
        · exact .inr (.inr way)
      | cons z between =>
        obtain ⟨rfl, -⟩ := List.cons.inj rest
        exact first.back a x between rfl y pointed

omit [DecidableEq κ] in
theorem runNode {v w : Visited α κ} {x : α} {ys : List α} (inside : x ∈ xs) (new : key x ∉ v.seen)
    (run : Run key next xs { v with seen := key x :: v.seen } w ys) (reached : ∀ y ∈ ys, Leads next x y)
    (pointed : ∀ y ∈ next x, key y ∈ w.seen) : Run key next xs v { w with out := w.out ++ [x] } (ys ++ [x]) where
  out := by rw [run.out, List.append_assoc]
  seen k := by
    rw [run.seen, List.mem_cons, List.map_append, List.mem_append, List.map_singleton, List.mem_singleton]
    tauto
  fresh y member := by
    rcases List.mem_append.mp member with left | right
    · exact fun old => run.fresh y left (List.mem_cons_of_mem _ old)
    · rw [List.mem_singleton.mp right]
      exact new
  once := by
    rw [List.map_append, List.nodup_append]
    refine ⟨run.once, List.nodup_singleton _, fun k left k' right same => ?_⟩
    obtain ⟨y, listed, rfl⟩ := List.mem_map.mp left
    exact run.fresh y listed (same ▸ List.mem_singleton.mp right ▸ List.mem_cons_self)
  within y member := by
    rcases List.mem_append.mp member with left | right
    · exact run.within y left
    · rw [List.mem_singleton.mp right]
      exact inside
  followed y member := by
    rcases List.mem_append.mp member with left | right
    · exact run.followed y left
    · rw [List.mem_singleton.mp right]
      exact pointed
  back a y b split z toward := by
    have old (k : κ) (held : k ∈ key x :: v.seen) (way : Leads next x y) :
        k ∈ v.seen ∨ k ∈ a.map key ∨ ∃ z ∈ xs, key z = k ∧ Leads next z y := by
      rcases List.mem_cons.mp held with rfl | older
      · exact .inr (.inr ⟨x, inside, rfl, way⟩)
      · exact .inl older
    rcases List.append_eq_append_iff.mp split with ⟨between, rfl, rest⟩ | ⟨between, rfl, rest⟩
    · cases between with
      | nil =>
        obtain ⟨rfl, -⟩ := List.cons.inj rest
        rcases (run.seen _).mp (pointed z toward) with held | left
        · exact old _ held .refl
        · exact .inr (.inl (by simpa using left))
      | cons c between =>
        have short := congrArg List.length rest
        simp at short
    · cases between with
      | nil =>
        obtain ⟨rfl, -⟩ := List.cons.inj rest
        rw [List.append_nil] at run
        rcases (run.seen _).mp (pointed z toward) with held | left
        · exact old _ held .refl
        · exact .inr (.inl left)
      | cons c between =>
        obtain ⟨rfl, -⟩ := List.cons.inj rest
        rcases run.back a y between rfl z toward with held | earlier | way
        · exact old _ held (reached y (by simp))
        · exact .inr (.inl earlier)
        · exact .inr (.inr way)

omit [DecidableEq κ] in
theorem runLeads {v w : Visited α κ} {ys : List α} (run : Run key next xs v w ys) (none : v.seen = []) {x y : α}
    (held : key x ∈ w.seen) (way : Leads next x y)
    (alike : ∀ a ∈ ys, ∀ b, Leads next x b → key a = key b → a = b) : key y ∈ w.seen := by
  induction way with
  | refl => exact held
  | tail way pointed ih =>
    rename_i b c
    rcases (run.seen _).mp ih with old | listed
    · rw [none] at old
      contradiction
    · obtain ⟨a, member, same⟩ := List.mem_map.mp listed
      exact run.followed a member c (alike a member b way same ▸ pointed)

end Runs

section Fuel
variable {key next} {xs : List α}

def unseen (key : α → κ) (xs : List α) (v : Visited α κ) : Nat := ((xs.map key).toFinset \ v.seen.toFinset).card

theorem unseenLater {v w : Visited α κ} (later : ∀ k ∈ v.seen, k ∈ w.seen) : unseen key xs w ≤ unseen key xs v :=
  Finset.card_le_card (Finset.sdiff_subset_sdiff (Finset.Subset.refl _) fun k held =>
    List.mem_toFinset.mpr (later k (List.mem_toFinset.mp held)))

theorem unseenNode {v : Visited α κ} {x : α} (inside : x ∈ xs) (new : key x ∉ v.seen) :
    unseen key xs { v with seen := key x :: v.seen } < unseen key xs v := by
  refine Finset.card_lt_card ⟨?_, fun back => ?_⟩
  · exact Finset.sdiff_subset_sdiff (Finset.Subset.refl _) (by simp)
  · have both : key x ∈ (xs.map key).toFinset \ v.seen.toFinset := by
      simpa [new] using ⟨x, inside, rfl⟩
    simpa using back both

theorem unseenNone {v : Visited α κ} {x : α} (inside : x ∈ xs) (done : unseen key xs v = 0) : key x ∈ v.seen := by
  have empty := Finset.sdiff_eq_empty_iff_subset.mp (Finset.card_eq_zero.mp done)
  exact List.mem_toFinset.mp (empty (List.mem_toFinset.mpr (List.mem_map_of_mem inside)))

theorem unseenStart (xs : List α) : unseen key xs ⟨[], []⟩ ≤ xs.length := by
  unfold unseen
  rw [List.toFinset_nil, Finset.sdiff_empty]
  exact (List.toFinset_card_le _).trans (List.length_map _).le

end Fuel

section Searches
variable {key next} {xs : List α}

structure Explored (key : α → κ) (next : α → List α) (xs starts : List α) (v w : Visited α κ) (ys : List α) : Prop where
  run : Run key next xs v w ys
  done : ∀ x ∈ starts, key x ∈ w.seen
  reached : ∀ y ∈ ys, ∃ x ∈ starts, Leads next x y

theorem visitAllSpec {fuel : Nat}
    (one : ∀ x ∈ xs, ∀ v, unseen key xs v ≤ fuel → ∃ ys, Explored key next xs [x] v (visit key next fuel x v) ys)
    (starts : List α) (inside : ∀ x ∈ starts, x ∈ xs) (v : Visited α κ) (enough : unseen key xs v ≤ fuel) :
    ∃ ys, Explored key next xs starts v (visitAll key next fuel starts v) ys := by
  induction starts generalizing v with
  | nil => exact ⟨[], runNone v, nofun, nofun⟩
  | cons x starts ih =>
    obtain ⟨here, later⟩ := List.forall_mem_cons.mp inside
    obtain ⟨ys, first⟩ := one x here v enough
    have kept : unseen key xs (visit key next fuel x v) ≤ fuel :=
      (unseenLater fun k held => (first.run.seen k).mpr (.inl held)).trans enough
    obtain ⟨zs, second⟩ := ih later _ kept
    refine ⟨ys ++ zs, runThen first.run second.run, ?_, fun y member => ?_⟩
    · refine List.forall_mem_cons.mpr ⟨(second.run.seen _).mpr (.inl (first.done x List.mem_cons_self)), second.done⟩
    · rcases List.mem_append.mp member with left | right
      · obtain ⟨z, own, way⟩ := first.reached y left
        exact ⟨x, List.mem_cons_self, List.mem_singleton.mp own ▸ way⟩
      · obtain ⟨z, own, way⟩ := second.reached y right
        exact ⟨z, List.mem_cons_of_mem _ own, way⟩

variable (closed : ∀ x ∈ xs, ∀ y ∈ next x, y ∈ xs)
include closed

theorem visitNew {fuel : Nat}
    (one : ∀ x ∈ xs, ∀ v, unseen key xs v ≤ fuel → ∃ ys, Explored key next xs [x] v (visit key next fuel x v) ys)
    {x : α} (inside : x ∈ xs) {v : Visited α κ} (enough : unseen key xs v ≤ fuel + 1) (new : key x ∉ v.seen) :
    ∃ ys, Explored key next xs [x] v (visit key next (fuel + 1) x v) (ys ++ [x]) := by
  rw [visitStep, if_neg new]
  obtain ⟨ys, deep⟩ := visitAllSpec one (next x) (closed x inside) { v with seen := key x :: v.seen }
    (Nat.le_of_lt_succ ((unseenNode inside new).trans_le enough))
  have reached (y : α) (member : y ∈ ys) : Leads next x y := by
    obtain ⟨z, pointed, way⟩ := deep.reached y member
    exact .head pointed way
  refine ⟨ys, runNode inside new deep.run reached deep.done, ?_, fun y member => ⟨x, List.mem_singleton_self x, ?_⟩⟩
  · rw [List.forall_mem_singleton]
    exact (deep.run.seen _).mpr (.inl List.mem_cons_self)
  · rcases List.mem_append.mp member with left | right
    · exact reached y left
    · rw [List.mem_singleton.mp right]

theorem visitSpec (fuel : Nat) : ∀ x ∈ xs, ∀ v, unseen key xs v ≤ fuel →
    ∃ ys, Explored key next xs [x] v (visit key next fuel x v) ys := by
  induction fuel with
  | zero =>
    intro x inside v enough
    have held := unseenNone inside (Nat.le_zero.mp enough)
    exact ⟨[], runNone v, by simpa [visit] using held, nofun⟩
  | succ fuel ih =>
    intro x inside v enough
    by_cases held : key x ∈ v.seen
    · rw [visitStep, if_pos held]
      exact ⟨[], runNone v, by simpa using held, nofun⟩
    · obtain ⟨ys, explored⟩ := visitNew closed ih inside enough held
      exact ⟨ys ++ [x], explored⟩

theorem visitAllFueled {fuel : Nat}
    (one : ∀ x ∈ xs, ∀ v, unseen key xs v ≤ fuel → visit key next (fuel + 1) x v = visit key next fuel x v)
    (starts : List α) (inside : ∀ x ∈ starts, x ∈ xs) (v : Visited α κ) (enough : unseen key xs v ≤ fuel) :
    visitAll key next (fuel + 1) starts v = visitAll key next fuel starts v := by
  induction starts generalizing v with
  | nil => rfl
  | cons x starts ih =>
    obtain ⟨here, later⟩ := List.forall_mem_cons.mp inside
    obtain ⟨ys, first⟩ := visitSpec closed fuel x here v enough
    rw [visitAllCons, visitAllCons, one x here v enough]
    exact ih later _ ((unseenLater fun k held => (first.run.seen k).mpr (.inl held)).trans enough)

theorem visitFueled (fuel : Nat) : ∀ x ∈ xs, ∀ v, unseen key xs v ≤ fuel →
    visit key next (fuel + 1) x v = visit key next fuel x v := by
  induction fuel with
  | zero =>
    intro x inside v enough
    rw [visitStep, if_pos (unseenNone inside (Nat.le_zero.mp enough)), visit]
  | succ fuel ih =>
    intro x inside v enough
    rw [visitStep, visitStep]
    split
    · rfl
    · rename_i new
      rw [visitAllFueled closed ih (next x) (closed x inside) _
        (Nat.le_of_lt_succ ((unseenNode inside new).trans_le enough))]

theorem searchFueled {fuel : Nat} (enough : xs.length ≤ fuel) :
    visitAll key next fuel xs ⟨[], []⟩ = visitAll key next xs.length xs ⟨[], []⟩ := by
  induction enough with
  | refl => rfl
  | step more ih =>
    rw [visitAllFueled closed (visitFueled closed _) xs (fun _ member => member) _ ((unseenStart xs).trans more), ih]

variable (key) in
theorem searchRun : ∃ w, Explored key next xs xs ⟨[], []⟩ w (search key next xs) := by
  have enough : unseen key xs ⟨[], []⟩ ≤ xs.length + 1 := (unseenStart xs).trans (Nat.le_succ _)
  obtain ⟨ys, explored⟩ := visitAllSpec (visitSpec closed (xs.length + 1)) xs (fun _ member => member) _ enough
  have listed : search key next xs = ys := explored.run.out
  exact ⟨_, listed ▸ explored⟩

theorem searchPerm : (search key next xs).Perm xs ↔ (xs.map key).Nodup := by
  obtain ⟨w, explored⟩ := searchRun key closed
  have once := explored.run.once
  refine ⟨fun same => (same.map key).nodup_iff.mp once, fun distinct => ?_⟩
  refine (List.perm_ext_iff_of_nodup (List.Nodup.of_map key once) (List.Nodup.of_map key distinct)).mpr fun x =>
    ⟨explored.run.within x, fun inside => ?_⟩
  rcases (explored.run.seen _).mp (explored.done x inside) with old | listed
  · contradiction
  · obtain ⟨y, member, same⟩ := List.mem_map.mp listed
    exact List.inj_on_of_nodup_map distinct (explored.run.within y member) inside same ▸ member

theorem searchBefore (distinct : (xs.map key).Nodup) {a b : List α} {x y : α} (split : search key next xs = a ++ x :: b)
    (pointed : y ∈ next x) : y ∈ a ∨ Leads next y x := by
  obtain ⟨w, explored⟩ := searchRun key closed
  have inside (z : α) (listed : z ∈ a ++ x :: b) : z ∈ xs := explored.run.within z (split ▸ listed)
  have own := closed x (inside x (by simp)) y pointed
  rcases explored.run.back a x b split y pointed with old | earlier | ⟨z, member, same, way⟩
  · contradiction
  · obtain ⟨z, listed, same⟩ := List.mem_map.mp earlier
    exact .inl (List.inj_on_of_nodup_map distinct (inside z (by simp [listed])) own same ▸ listed)
  · exact .inr (List.inj_on_of_nodup_map distinct member own same ▸ way)

theorem leadsInside {x y : α} (inside : x ∈ xs) (way : Leads next x y) : y ∈ xs := by
  induction way with
  | refl => exact inside
  | tail _ pointed ih => exact closed _ ih _ pointed

end Searches

section First
variable {key next} {x : α} {xs : List α} (closed : ∀ y ∈ x :: xs, ∀ z ∈ next y, z ∈ x :: xs)
include closed

theorem searchFirst (distinct : ((x :: xs).map key).Nodup) :
    ∃ a b, search key next (x :: xs) = a ++ x :: b ∧ ∀ y, Leads next x y → y ≠ x → y ∈ a := by
  have enough : unseen key (x :: xs) ⟨[], []⟩ ≤ (x :: xs).length := unseenStart (x :: xs)
  obtain ⟨a, first⟩ := visitNew closed (visitSpec closed _) List.mem_cons_self (enough.trans (Nat.le_succ _))
    List.not_mem_nil
  obtain ⟨b, rest⟩ := visitAllSpec (visitSpec closed ((x :: xs).length + 1)) xs
    (fun _ member => List.mem_cons_of_mem x member) _
    ((unseenLater fun k held => (first.run.seen k).mpr (.inl held)).trans (enough.trans (Nat.le_succ _)))
  have alike {y z : α} (inside : y ∈ x :: xs) (inside' : z ∈ x :: xs) (same : key y = key z) : y = z :=
    List.inj_on_of_nodup_map distinct inside inside' same
  refine ⟨a, b, ?_, fun y way other => ?_⟩
  · have listed := rest.run.out
    rw [first.run.out, List.nil_append, List.append_assoc, List.singleton_append] at listed
    exact listed
  · have held := runLeads first.run rfl (first.done x (List.mem_singleton_self x)) way fun c member d path =>
      alike (first.run.within c member) (leadsInside closed List.mem_cons_self path)
    rcases (first.run.seen _).mp held with old | listed
    · contradiction
    · obtain ⟨z, member, same⟩ := List.mem_map.mp listed
      have own := alike (first.run.within z member) (leadsInside closed List.mem_cons_self way) same
      subst own
      exact (List.mem_append.mp member).resolve_right fun last => other (List.mem_singleton.mp last)

end First

end DatabaseAdmin.DepthFirst
