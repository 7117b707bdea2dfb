import DatabaseAdmin.DepthFirst
import DatabaseAdmin.MigrationPlan
import DatabaseAdmin.NamedChanges

/-! The parents-first order of a migration's tables is a depth-first search of their foreign keys, where a table
is known by its folded key. -/
namespace DatabaseAdmin.TableOrders
open CodeUnits SchemaModels MigrationPlan
open DepthFirst (Leads)

section Searching
variable (toLowerCase : Text → Text) (tables : List Created)

def referredKey (c : Created) (fk : ForeignKeyModel) : Text :=
  tableKey toLowerCase (fk.refSchema.orElse fun _ => c.table.schema) fk.refTable

def parents (c : Created) : List Created :=
  c.table.foreignKeys.filterMap fun fk =>
    tables.reverse.find? fun parent => keyOf toLowerCase parent = referredKey toLowerCase c fk

def searched (v : Visited) : DepthFirst.Visited Created Text := ⟨v.seen, v.out⟩

theorem visitUnseen {fuel : Nat} {c : Created} {v : Visited} (new : keyOf toLowerCase c ∉ v.seen) :
    visit toLowerCase tables (fuel + 1) c v =
      let w := (parents toLowerCase tables c).foldl (fun v p => visit toLowerCase tables fuel p v)
        { v with seen := keyOf toLowerCase c :: v.seen }
      { w with out := w.out ++ [c] } := if_neg new

theorem visitSearches (fuel : Nat) (c : Created) (v : Visited) :
    searched (visit toLowerCase tables fuel c v) =
      DepthFirst.visit (keyOf toLowerCase) (parents toLowerCase tables) fuel c (searched v) := by
  induction fuel generalizing c v with
  | zero => rfl
  | succ fuel ih =>
    have all (ps : List Created) (v : Visited) :
        searched (ps.foldl (fun v p => visit toLowerCase tables fuel p v) v) =
          DepthFirst.visitAll (keyOf toLowerCase) (parents toLowerCase tables) fuel ps (searched v) :=
      (List.foldl_hom searched fun w p => (ih p w).symm).symm
    rw [DepthFirst.visitStep]
    by_cases held : keyOf toLowerCase c ∈ v.seen
    · rw [if_pos (show keyOf toLowerCase c ∈ (searched v).seen from held)]
      exact congrArg searched (if_pos held)
    · rw [if_neg (show keyOf toLowerCase c ∉ (searched v).seen from held), visitUnseen _ _ held]
      exact congrArg (fun w : DepthFirst.Visited Created Text => { w with out := w.out ++ [c] }) (all _ _)

def orderFueled (fuel : Nat) : List Created :=
  (tables.foldl (fun v c => visit toLowerCase tables fuel c v) ⟨[], []⟩).out

theorem orderSearches (fuel : Nat) : orderFueled toLowerCase tables fuel =
    (DepthFirst.visitAll (keyOf toLowerCase) (parents toLowerCase tables) fuel tables ⟨[], []⟩).out := by
  have walked : searched (tables.foldl (fun v c => visit toLowerCase tables fuel c v) ⟨[], []⟩) =
      DepthFirst.visitAll (keyOf toLowerCase) (parents toLowerCase tables) fuel tables ⟨[], []⟩ :=
    (List.foldl_hom searched fun w p => (visitSearches toLowerCase tables fuel p w).symm).symm
  exact congrArg DepthFirst.Visited.out walked

theorem orderSearch : orderByDependency toLowerCase tables =
    DepthFirst.search (keyOf toLowerCase) (parents toLowerCase tables) tables :=
  orderSearches toLowerCase tables _

end Searching

section References
variable (toLowerCase : Text → Text)

def pairOf (c : Created) : Option Text × Text := (c.table.schema, c.table.name)

def References (tables : List Created) (u v : Created) : Prop :=
  u ∈ tables ∧ v ∈ tables ∧ pairOf u ≠ pairOf v ∧
    ∃ fk ∈ u.table.foreignKeys, (fk.refSchema.orElse fun _ => u.table.schema, fk.refTable) = pairOf v

def Acyclic (tables : List Created) : Prop := ∀ u, ¬ Relation.TransGen (References tables) u u

def Follows (tables : List Created) (u v : Created) : Prop :=
  v ∈ tables ∧ ∃ fk ∈ u.table.foreignKeys, referredKey toLowerCase u fk = keyOf toLowerCase v

def KeysApart (tables : List Created) : Prop := (tables.map (keyOf toLowerCase)).Nodup

def NoWayBack (tables : List Created) : Prop :=
  ∀ u v, References tables u v → ¬ Relation.ReflTransGen (Follows toLowerCase tables) v u

def ParentsFirst (tables ordered : List Created) : Prop := ∀ u v, References tables u v → [v, u].Sublist ordered

def OrderKept (tables : List Created) : Prop :=
  (orderByDependency toLowerCase tables).Perm tables ∧
    (Acyclic tables → ParentsFirst tables (orderByDependency toLowerCase tables))

variable {toLowerCase} {tables : List Created}

theorem parentsInside (c : Created) : ∀ p ∈ parents toLowerCase tables c, p ∈ tables := by
  intro p listed
  obtain ⟨fk, -, found⟩ := List.mem_filterMap.mp listed
  exact List.mem_reverse.mp (List.mem_of_find?_eq_some found)

theorem parentsFollowed (apart : KeysApart toLowerCase tables) {u v : Created} :
    v ∈ parents toLowerCase tables u ↔ Follows toLowerCase tables u v := by
  constructor
  · intro listed
    obtain ⟨fk, own, found⟩ := List.mem_filterMap.mp listed
    have same := List.find?_some found
    exact ⟨parentsInside u v listed, fk, own, (of_decide_eq_true same).symm⟩
  · rintro ⟨inside, fk, own, same⟩
    refine List.mem_filterMap.mpr ⟨fk, own, ?_⟩
    rw [same]
    exact NamedChanges.namedOf apart inside

theorem leadsFollowed (apart : KeysApart toLowerCase tables) {u v : Created} :
    Leads (parents toLowerCase tables) u v ↔ Relation.ReflTransGen (Follows toLowerCase tables) u v := by
  have same : (fun u v => v ∈ parents toLowerCase tables u) = Follows toLowerCase tables := by
    funext u v
    exact propext (parentsFollowed apart)
  rw [Leads, same]

theorem referenceFollowed {u v : Created} (reference : References tables u v) : Follows toLowerCase tables u v := by
  obtain ⟨-, inside, -, fk, own, same⟩ := reference
  obtain ⟨schema, name⟩ := Prod.mk.inj same
  refine ⟨inside, fk, own, ?_⟩
  rw [referredKey, keyOf, schema, name]

theorem permReferences {other : List Created} (same : other.Perm tables) : References other = References tables := by
  funext u v
  simp only [References, same.mem_iff]

theorem permAcyclic {other : List Created} (same : other.Perm tables) : Acyclic other ↔ Acyclic tables := by
  simp only [Acyclic, permReferences same]

theorem permFollows {other : List Created} (same : other.Perm tables) :
    Follows toLowerCase other = Follows toLowerCase tables := by
  funext u v
  simp only [Follows, same.mem_iff]

theorem permStraight {other : List Created} (same : other.Perm tables) :
    NoWayBack toLowerCase other ↔ NoWayBack toLowerCase tables := by
  simp only [NoWayBack, permReferences same, permFollows same]

theorem keysPerm {other : List Created} (same : other.Perm tables) :
    KeysApart toLowerCase other ↔ KeysApart toLowerCase tables :=
  (same.map _).nodup_iff

theorem parentsClosed : ∀ c ∈ tables, ∀ p ∈ parents toLowerCase tables c, p ∈ tables := fun c _ => parentsInside c

theorem orderPerm : (orderByDependency toLowerCase tables).Perm tables ↔ KeysApart toLowerCase tables := by
  rw [orderSearch]
  exact DepthFirst.searchPerm parentsClosed

theorem parentsFirst (apart : KeysApart toLowerCase tables) (straight : NoWayBack toLowerCase tables) :
    ParentsFirst tables (orderByDependency toLowerCase tables) := by
  intro u v reference
  obtain ⟨a, b, split⟩ := List.append_of_mem ((orderPerm.mpr apart).mem_iff.mpr reference.1)
  rw [orderSearch] at split ⊢
  have pointed := (parentsFollowed apart).mpr (referenceFollowed reference)
  rcases DepthFirst.searchBefore parentsClosed apart split pointed with earlier | way
  · rw [split]
    exact (List.singleton_sublist.mpr earlier).append (List.singleton_sublist.mpr List.mem_cons_self)
  · exact absurd ((leadsFollowed apart).mp way) (straight u v reference)

theorem behindNotBefore {a b : List Created} {u v : Created} (once : (a ++ v :: b).Nodup)
    (behind : [v, u].Sublist (a ++ v :: b)) : u ∉ a := by
  intro early
  obtain ⟨-, -, apart⟩ := List.nodup_append.mp once
  obtain ⟨front, back, same, left, right⟩ := List.sublist_append_iff.mp behind
  cases front with
  | nil =>
    rw [List.nil_append] at same
    subst same
    have later := List.singleton_sublist.mp (List.cons_sublist_cons.mp right)
    exact apart u early u (List.mem_cons_of_mem v later) rfl
  | cons w front =>
    obtain ⟨rfl, -⟩ := List.cons.inj same
    exact apart v (left.subset List.mem_cons_self) v List.mem_cons_self rfl

theorem keptStraight (acyclic : Acyclic tables) (kept : ∀ other, other.Perm tables → OrderKept toLowerCase other) :
    NoWayBack toLowerCase tables := by
  classical
  intro u v reference way
  have apart := orderPerm.mp (kept tables (.refl _)).1
  have front := (List.perm_cons_erase reference.2.1).symm
  obtain ⟨perm, sorted⟩ := kept _ front
  have first := sorted ((permAcyclic front).mpr acyclic) u v (permReferences front ▸ reference)
  have apart' := (keysPerm front).mpr apart
  obtain ⟨a, b, split, before⟩ := DepthFirst.searchFirst parentsClosed apart'
  have other : u ≠ v := fun same => reference.2.2.1 (same ▸ rfl)
  have early := before u ((leadsFollowed apart').mpr (permFollows front ▸ way)) other
  have once : (a ++ v :: b).Nodup := by
    rw [← split, ← orderSearch]
    exact perm.nodup_iff.mpr (List.Nodup.of_map _ apart')
  rw [orderSearch, split] at first
  exact absurd early (behindNotBefore once first)

-- A list loses no table exactly where no two tables share a folded key, and every list of these tables is in order
-- exactly where no table leads back to one that refers to it.
theorem orderKept (toLowerCase : Text → Text) (tables : List Created) :
    (∀ fuel, tables.length ≤ fuel → orderFueled toLowerCase tables fuel = orderByDependency toLowerCase tables) ∧
      ((orderByDependency toLowerCase tables).Perm tables ↔ KeysApart toLowerCase tables) ∧
      ((∀ other, other.Perm tables → OrderKept toLowerCase other) ↔
        KeysApart toLowerCase tables ∧ (Acyclic tables → NoWayBack toLowerCase tables)) := by
  refine ⟨fun fuel enough => ?_, orderPerm, fun kept => ⟨orderPerm.mp (kept tables (.refl _)).1, (keptStraight · kept)⟩, ?_⟩
  · rw [orderSearches, DepthFirst.searchFueled parentsClosed enough, ← DepthFirst.searchFueled parentsClosed (Nat.le_succ _),
      ← orderSearches]
    rfl
  · rintro ⟨apart, straight⟩ other same
    have apart' := (keysPerm same).mpr apart
    exact ⟨orderPerm.mpr apart', fun acyclic =>
      parentsFirst apart' ((permStraight same).mpr (straight ((permAcyclic same).mp acyclic)))⟩

def publicTable (name : String) : Created where
  table := ⟨units name, some (units "public"), .table, [], [], [], [], [], none, none, none, none, none, none⟩
  subject := .schema ⟨units "public", some (units "public"), some (units "public"), .same, [], [], [], [], [], [], []⟩

theorem casedTableLost : ¬ ∀ (toLowerCase : Text → Text) (tables : List Created), (tables.map pairOf).Nodup →
    OrderKept toLowerCase tables := by
  intro all
  have kept := all (·.map lowerUnit) [publicTable "Users", publicTable "users"] (by decide)
  have one : (orderByDependency (·.map lowerUnit) [publicTable "Users", publicTable "users"]).length = 1 := by decide +kernel
  exact absurd (one.symm.trans kept.1.length_eq) (by decide)

end References

end DatabaseAdmin.TableOrders
