import DatabaseAdmin.CodeUnits
import Mathlib.Data.List.Forall2
import Mathlib.Data.List.Nodup
import Mathlib.Data.List.Perm.Subperm
import Mathlib.Order.Lattice

/-! The export of a document collection: one document gives the header, and every page of documents
is flattened into columns of its own. -/
namespace DatabaseAdmin.DocumentExport

open CodeUnits

variable {V ρ : Type}

def idField : Text := units "_id"

structure Document (V : Type) where
  fields : List (Text × V)
  once : (fields.map Prod.fst).Nodup
  id : V
  keyed : (idField, id) ∈ fields

def Document.names (d : Document V) : List Text := d.fields.map Prod.fst

def Document.field (d : Document V) (name : Text) : Option (Text × V) := d.fields.find? (·.1 = name)

inductive DocCell (V : Type) where
  | null
  | missing
  | value (field : Text × V)

def DocCell.isEmpty : DocCell V → Bool
  | .value _ => false
  | _ => true

abbrev Row (V : Type) := List (DocCell V)

def addName (names : List Text) (key : Text) : List Text := if key ∈ names then names else names ++ [key]

def columnsOf (docs : List (Document V)) : List Text :=
  let lead := if docs.any (idField ∈ ·.names) then [idField] else []
  (docs.flatMap Document.names).foldl addName lead

def cellOf (d : Document V) (name : Text) : DocCell V :=
  match d.field name with
  | none => .missing
  | some f => .value f

def flattenDocuments (docs : List (Document V)) : List Text × List (Row V) :=
  let names := columnsOf docs
  (names, docs.map fun d => names.map (cellOf d))

def cellAt (row : Row V) (i : Nat) : DocCell V := row[i]?.getD .null

def writtenRow (columns : List Text) (row : Row V) : Row V := (List.range columns.length).map (cellAt row)

def maxPageSize : Nat := 10000

def clampPage (n : Nat) : Nat := min (max n 1) maxPageSize

structure IdOrder (V ρ : Type) where
  kind : V → Nat
  rank : V → ρ

section Reading
variable [LinearOrder ρ] (order : IdOrder V ρ)

def Before (a b : V) : Prop :=
  order.kind a < order.kind b ∨ order.kind a = order.kind b ∧ order.rank a < order.rank b

instance (a b : V) : Decidable (Before order a b) := by unfold Before; infer_instance

def greater (boundary : V) (d : Document V) : Bool :=
  decide (order.kind d.id = order.kind boundary ∧ order.rank boundary < order.rank d.id)

structure Collection where
  docs : List (Document V)
  ordered : docs.Pairwise fun a b => Before order a.id b.id

abbrev Positions (V : Type) := Nat → Option V

def rememberBoundary (positions : Positions V) (offset : Nat) (id : V) : Positions V :=
  fun n => if n = offset then some id else positions n

def find (docs : List (Document V)) (positions : Positions V) (skip limit : Nat) :
    List (Document V) × Positions V :=
  let limit := clampPage limit
  let boundary := if 0 < skip then positions skip else none
  let served := match boundary with
    | some id => (docs.filter (greater order id)).take (limit + 1)
    | none => (docs.drop skip).take (limit + 1)
  let page := served.take limit
  (page, match page.getLast? with
    | some last => rememberBoundary positions (skip + page.length) last.id
    | none => positions)

def documentBatches (docs : List (Document V)) (batch : Nat) :
    Nat → Positions V → Nat → Option (List (List (Document V)))
  | 0, _, _ => none
  | fuel + 1, positions, skip =>
    let (page, positions) := find order docs positions skip batch
    if page.length = 0 then some []
    else if page.length < batch then some [page]
    else (documentBatches docs batch fuel positions (skip + page.length)).map (page :: ·)

def batchOf (batchSize : Option Nat) : Nat := max 1 (batchSize.getD 500)

def exportDocuments (docs : List (Document V)) (batchSize : Option Nat) (positions : Positions V) :
    Option (List Text × List (Row V)) :=
  let (probe, positions) := find order docs positions 0 1
  let columns := (flattenDocuments probe).1
  (documentBatches order docs (batchOf batchSize) (docs.length + 1) positions 0).map fun pages =>
    (columns, pages.flatMap fun page => (flattenDocuments page).2.map (writtenRow columns))

def RowRight (columns : List Text) (d : Document V) (row : Row V) : Prop :=
  row.length = columns.length ∧ ∀ (i : Nat) (name : Text), columns[i]? = some name →
    match d.field name with
    | some f => row[i]? = some (DocCell.value f)
    | none => ∃ c : DocCell V, row[i]? = some c ∧ c.isEmpty = true

structure FieldsKept (docs : List (Document V)) (columns : List Text) (rows : List (Row V)) : Prop where
  complete : ∀ d ∈ docs, ∀ name ∈ d.names, name ∈ columns
  placed : List.Forall₂ (RowRight columns) docs rows

def pageAt (docs : List (Document V)) (batch j : Nat) : List (Document V) := (docs.drop (j * batch)).take batch

def kindAt (docs : List (Document V)) (i : Nat) : Option Nat := docs[i]?.map fun d => order.kind d.id

def ReadWhole (docs : List (Document V)) (batch : Nat) : Prop :=
  docs.length ≤ clampPage batch ∨
    batch ≤ maxPageSize ∧ kindAt order docs (batch - 1) = kindAt order docs (docs.length - 1)

def PagesAgree (docs : List (Document V)) (batch : Nat) : Prop :=
  ∀ j, columnsOf (pageAt docs batch j) <+: columnsOf (docs.take 1)

end Reading

section Columns

theorem addNames (keys names : List Text) (once : names.Nodup) :
    (keys.foldl addName names).Nodup ∧ ∀ n, n ∈ keys.foldl addName names ↔ n ∈ names ∨ n ∈ keys := by
  induction keys generalizing names with
  | nil => exact ⟨once, fun n => by simp⟩
  | cons key rest ih =>
    rw [List.foldl_cons, addName]
    split
    · rename_i seen
      refine ⟨(ih names once).1, fun n => ?_⟩
      rw [(ih names once).2, List.mem_cons]
      constructor
      · rintro (old | new)
        · exact .inl old
        · exact .inr (.inr new)
      · rintro (old | rfl | new)
        · exact .inl old
        · exact .inl seen
        · exact .inr new
    · rename_i unseen
      have longer : (names ++ [key]).Nodup :=
        List.nodup_append.mpr ⟨once, List.nodup_singleton key, by rintro a inside b last rfl; simp at last; exact unseen (last ▸ inside)⟩
      refine ⟨(ih _ longer).1, fun n => ?_⟩
      rw [(ih _ longer).2]
      simp only [List.mem_append, List.mem_cons, List.not_mem_nil, or_false, or_assoc]

theorem columnsOnce (docs : List (Document V)) : (columnsOf docs).Nodup := by
  refine (addNames _ _ ?_).1
  split <;> simp

theorem columnsMem {docs : List (Document V)} {n : Text} : n ∈ columnsOf docs ↔ ∃ d ∈ docs, n ∈ d.names := by
  have names := (addNames (docs.flatMap Document.names) (if docs.any (idField ∈ ·.names) then [idField] else [])
    (by split <;> simp)).2 n
  rw [columnsOf, names, List.mem_flatMap]
  constructor
  · rintro (lead | inside)
    · split at lead
      · rename_i found
        rw [List.mem_singleton.mp lead]
        simpa using found
      · exact absurd lead List.not_mem_nil
    · exact inside
  · exact .inr

theorem fieldSome {d : Document V} {name : Text} {f : Text × V} (found : d.field name = some f) :
    f ∈ d.fields ∧ f.1 = name :=
  ⟨List.mem_of_find?_eq_some found, by simpa using List.find?_some found⟩

theorem fieldNone {d : Document V} {name : Text} : d.field name = none ↔ name ∉ d.names := by
  simp only [Document.field, List.find?_eq_none, decide_eq_true_eq, Document.names, List.mem_map, not_exists, not_and]

theorem writtenAt {columns names : List Text} (d : Document V) {i : Nat} (inside : i < columns.length) :
    (writtenRow columns (names.map (cellOf d)))[i]? = some ((names[i]?.map (cellOf d)).getD .null) := by
  simp [writtenRow, cellAt, inside]

theorem pageRight {page : List (Document V)} {columns : List Text} (once : columns.Nodup) :
    (∀ d ∈ page, (∀ name ∈ d.names, name ∈ columns) ∧
      RowRight columns d (writtenRow columns ((columnsOf page).map (cellOf d)))) ↔ columnsOf page <+: columns := by
  constructor
  · intro right
    have inside : ∀ n ∈ columnsOf page, n ∈ columns := by
      intro n mem
      obtain ⟨d, stands, has⟩ := columnsMem.mp mem
      exact (right d stands).1 n has
    have short : (columnsOf page).length ≤ columns.length := (List.subperm_of_subset (columnsOnce page) inside).length_le
    rw [List.prefix_iff_getElem?]
    intro i bound
    have wide : i < columns.length := Nat.lt_of_lt_of_le bound short
    obtain ⟨d, stands, has⟩ := columnsMem.mp (List.getElem_mem bound)
    have cell := (right d stands).2.2 i columns[i] (List.getElem?_eq_getElem wide)
    rw [writtenAt d wide, List.getElem?_eq_getElem bound, Option.map_some, Option.getD_some] at cell
    cases own : d.field (columnsOf page)[i] with
    | none => exact absurd has (fieldNone.mp own)
    | some f =>
      rw [cellOf, own] at cell
      cases other : d.field columns[i] with
      | none =>
        rw [other] at cell
        obtain ⟨c, same, empty⟩ := cell
        rw [← Option.some.inj same] at empty
        exact absurd empty (by simp [DocCell.isEmpty])
      | some g =>
        rw [other] at cell
        have same : f = g := DocCell.value.inj (Option.some.inj cell)
        rw [List.getElem?_eq_getElem wide, ← (fieldSome other).2, ← same, (fieldSome own).2]
  · rintro ⟨more, rfl⟩ d stands
    have known : ∀ name ∈ d.names, name ∈ columnsOf page := fun name has => columnsMem.mpr ⟨d, stands, has⟩
    refine ⟨fun name has => List.mem_append_left more (known name has), by simp [writtenRow], fun i name there => ?_⟩
    have bound : i < (columnsOf page ++ more).length := (List.getElem?_eq_some_iff.mp there).1
    rw [writtenAt d bound]
    by_cases first : i < (columnsOf page).length
    · rw [List.getElem?_append_left first] at there
      rw [there, Option.map_some, Option.getD_some, cellOf]
      cases d.field name with
      | none => exact ⟨.missing, rfl, rfl⟩
      | some f => rfl
    · have beyond : (columnsOf page)[i]? = none := List.getElem?_eq_none (Nat.le_of_not_lt first)
      rw [List.getElem?_append_right (Nat.le_of_not_lt first)] at there
      have later : name ∈ more := List.mem_of_getElem? there
      have absent : d.field name = none := by
        rw [fieldNone]
        exact fun has => (List.nodup_append.mp once).2.2 name (known name has) name later rfl
      rw [absent, beyond]
      exact ⟨.null, rfl, rfl⟩

end Columns

section Pages
variable [LinearOrder ρ] {order : IdOrder V ρ} {docs : List (Document V)}

theorem kindRises (ordered : docs.Pairwise fun a b => Before order a.id b.id) {i j : Nat} (le : i ≤ j)
    (inside : j < docs.length) : order.kind (docs[i]).id ≤ order.kind (docs[j]).id := by
  rcases Nat.lt_or_eq_of_le le with less | rfl
  · rcases List.pairwise_iff_getElem.mp ordered i j (by omega) inside less with lower | ⟨same, _⟩
    · exact Nat.le_of_lt lower
    · exact Nat.le_of_eq same
  · exact Nat.le_refl _

theorem laterKind {b : V} {later : List (Document V)} (ordered : later.Pairwise fun a b => Before order a.id b.id)
    (above : ∀ d ∈ later, Before order b d.id) :
    later.filter (greater order b) = later.takeWhile fun d => order.kind d.id = order.kind b := by
  induction later with
  | nil => rfl
  | cons d rest ih =>
    obtain ⟨behind, tail⟩ := List.pairwise_cons.mp ordered
    have next := above d List.mem_cons_self
    by_cases same : order.kind d.id = order.kind b
    · have higher : greater order b d = true := by
        rcases next with lower | ⟨_, more⟩
        · omega
        · exact decide_eq_true ⟨same, more⟩
      rw [List.filter_cons_of_pos higher, List.takeWhile_cons_of_pos (by simpa using same),
        ih tail fun x mem => above x (List.mem_cons_of_mem d mem)]
    · have beyond : ∀ x ∈ d :: rest, ¬greater order b x = true := by
        intro x mem found
        have kinds := (of_decide_eq_true found).1
        have lower : order.kind b < order.kind d.id := by
          rcases next with lower | ⟨equal, _⟩
          · exact lower
          · exact absurd equal.symm same
        rcases List.mem_cons.mp mem with rfl | inside
        · exact same kinds
        · rcases behind x inside with less | ⟨equal, _⟩ <;> omega
      rw [List.filter_eq_nil_iff.mpr beyond, List.takeWhile_cons_of_neg (by simpa using same)]

theorem behind (ordered : docs.Pairwise fun a b => Before order a.id b.id) {k : Nat} (inside : k < docs.length) :
    docs.filter (greater order docs[k].id) =
      (docs.drop (k + 1)).takeWhile fun d => order.kind d.id = order.kind docs[k].id := by
  have split : docs = docs.take k ++ docs[k] :: docs.drop (k + 1) := by
    rw [← List.drop_eq_getElem_cons inside, List.take_append_drop]
  have parts := split ▸ ordered
  rw [List.pairwise_append, List.pairwise_cons] at parts
  obtain ⟨_, ⟨above, later⟩, below⟩ := parts
  have self : ¬greater order docs[k].id docs[k] = true := fun found => lt_irrefl _ (of_decide_eq_true found).2
  have earlier : ∀ d ∈ docs.take k, ¬greater order docs[k].id d = true := by
    intro d mem found
    obtain ⟨kinds, higher⟩ := of_decide_eq_true found
    rcases below d mem docs[k] List.mem_cons_self with lower | ⟨_, less⟩
    · omega
    · exact lt_asymm less higher
  calc docs.filter (greater order docs[k].id)
      = (docs.take k ++ docs[k] :: docs.drop (k + 1)).filter (greater order docs[k].id) := by rw [← split]
    _ = (docs.drop (k + 1)).filter (greater order docs[k].id) := by
      rw [List.filter_append, List.filter_eq_nil_iff.mpr earlier, List.nil_append, List.filter_cons_of_neg self]
    _ = _ := laterKind later above

def reach (order : IdOrder V ρ) (docs : List (Document V)) (k : Nat) : List (Document V) :=
  match (if 0 < k then docs[k - 1]? else none) with
  | some d => (docs.drop k).takeWhile fun x => order.kind x.id = order.kind d.id
  | none => docs.drop k

structure Fresh (docs : List (Document V)) (positions : Positions V) (k : Nat) : Prop where
  inside : k ≤ docs.length
  boundary : 0 < k → positions k = docs[k - 1]?.map Document.id

omit [LinearOrder ρ] in
theorem reachPrefix (order : IdOrder V ρ) (docs : List (Document V)) (k : Nat) : reach order docs k <+: docs.drop k := by
  rw [reach]
  split
  · exact List.takeWhile_prefix _
  · exact List.prefix_rfl

theorem pageFresh {positions : Positions V} {page : List (Document V)} {k : Nat} (bound : k ≤ docs.length)
    (taken : page <+: docs.drop k) :
    (page = [] → Fresh docs positions k) → Fresh docs (match page.getLast? with
      | some last => rememberBoundary positions (k + page.length) last.id
      | none => positions) (k + page.length) := by
  intro still
  have short := taken.length_le
  rw [List.length_drop] at short
  cases last : page.getLast? with
  | none =>
    rw [List.getLast?_eq_none_iff] at last
    subst last
    exact still rfl
  | some d =>
    have some' : page ≠ [] := fun none => by rw [none] at last; exact absurd last (by simp)
    have size := List.length_pos_iff.mpr some'
    refine ⟨by omega, fun _ => ?_⟩
    have there : docs[k + page.length - 1]? = some d := by
      rw [List.getLast?_eq_getElem?] at last
      have spot : k + page.length - 1 = k + (page.length - 1) := by omega
      obtain ⟨more, whole⟩ := taken
      rw [spot, ← List.getElem?_drop, ← whole, List.getElem?_append_left (by omega), last]
    rw [there]
    simp [rememberBoundary]

theorem findPage (ordered : docs.Pairwise fun a b => Before order a.id b.id) {positions : Positions V} {k : Nat}
    (fresh : Fresh docs positions k) (limit : Nat) :
    ∃ positions', find order docs positions k limit = ((reach order docs k).take (clampPage limit), positions') ∧
      Fresh docs positions' (k + ((reach order docs k).take (clampPage limit)).length) := by
  have page : (find order docs positions k limit).1 = (reach order docs k).take (clampPage limit) := by
    simp only [find, reach]
    by_cases first : 0 < k
    · have bound : k - 1 < docs.length := by
        have := fresh.inside
        omega
      have there : docs[k - 1]? = some docs[k - 1] := List.getElem?_eq_getElem bound
      have served := behind ordered bound
      rw [Nat.sub_add_cancel first] at served
      simp only [if_pos first, fresh.boundary first, there, Option.map_some, served, List.take_take]
      congr 1
      omega
    · simp only [if_neg first, List.take_take]
      congr 1
      omega
  refine ⟨(find order docs positions k limit).2, Prod.ext page rfl, ?_⟩
  rw [← page]
  have taken : (find order docs positions k limit).1 <+: docs.drop k := by
    rw [page]
    exact (List.take_prefix _ _).trans (reachPrefix order docs k)
  exact pageFresh fresh.inside taken fun _ => fresh

structure Paged (docs : List (Document V)) (batch k : Nat) (pages : List (List (Document V))) (whole : Prop) : Prop where
  within : pages.flatten <+: docs.drop k
  wholeIff : pages.flatten = docs.drop k ↔ whole
  cut : pages.flatten = docs.drop k → ∀ page, page ∈ pages ↔ page ≠ [] ∧ ∃ j, page = (docs.drop (k + j * batch)).take batch

omit [LinearOrder ρ] in
theorem lastPage {batch k : Nat} {page : List (Document V)} (taken : page <+: docs.drop k) (short : page.length < batch) :
    Paged docs batch k (if page.length = 0 then [] else [page]) (page = docs.drop k) := by
  have joined : (if page.length = 0 then [] else [page]).flatten = page := by
    split
    · rename_i none
      rw [List.eq_nil_of_length_eq_zero none]
      rfl
    · exact List.append_nil page
  refine ⟨by rwa [joined], by rw [joined], fun whole p => ?_⟩
  rw [joined] at whole
  subst whole
  have first : (docs.drop (k + 0 * batch)).take batch = docs.drop k := by
    rw [Nat.zero_mul, Nat.add_zero, List.take_of_length_le (Nat.le_of_lt short)]
  constructor
  · intro mem
    split at mem
    · exact absurd mem List.not_mem_nil
    · rename_i some'
      rw [List.mem_singleton.mp mem]
      exact ⟨fun none => some' (by rw [none]; rfl), 0, first.symm⟩
  · rintro ⟨some', j, rfl⟩
    rcases j with _ | j
    · rw [first] at some' ⊢
      rw [if_neg (fun none => some' (List.eq_nil_of_length_eq_zero none))]
      exact List.mem_singleton.mpr rfl
    · refine absurd ?_ some'
      rw [List.length_drop] at short
      have jump : batch ≤ (j + 1) * batch := Nat.le_mul_of_pos_left batch (Nat.succ_pos j)
      rw [List.drop_eq_nil_of_le (by omega), List.take_nil]

omit [LinearOrder ρ] in
theorem morePages {batch k : Nat} {page : List (Document V)} {rest : List (List (Document V))} {whole : Prop}
    (taken : page <+: docs.drop k) (full : page.length = batch) (some' : 0 < batch)
    (tail : Paged docs batch (k + batch) rest whole) : Paged docs batch k (page :: rest) whole := by
  have front : page = (docs.drop k).take batch := by
    rw [← full]
    exact List.prefix_iff_eq_take.mp taken
  have split : docs.drop k = page ++ docs.drop (k + batch) := by
    rw [front, ← List.drop_drop, List.take_append_drop]
  refine ⟨?_, ?_, fun same p => ?_⟩
  · rw [List.flatten_cons, split]
    exact (List.prefix_append_right_inj page).mpr tail.within
  · rw [List.flatten_cons, split, List.append_cancel_left_eq, tail.wholeIff]
  · rw [List.flatten_cons, split, List.append_cancel_left_eq] at same
    rw [List.mem_cons, tail.cut same p]
    constructor
    · rintro (rfl | ⟨filled, j, rfl⟩)
      · refine ⟨fun none => ?_, 0, by rw [Nat.zero_mul, Nat.add_zero]; exact front⟩
        rw [none, List.length_nil] at full
        omega
      · exact ⟨filled, j + 1, by rw [Nat.add_mul, Nat.one_mul, Nat.add_comm (j * batch), Nat.add_assoc]⟩
    · rintro ⟨filled, j, rfl⟩
      rcases j with _ | j
      · exact .inl (by rw [Nat.zero_mul, Nat.add_zero]; exact front.symm)
      · exact .inr ⟨filled, j, by rw [Nat.add_mul, Nat.one_mul, Nat.add_comm (j * batch), Nat.add_assoc]⟩

omit [LinearOrder ρ] in
theorem kindSome {i : Nat} (inside : i < docs.length) : kindAt order docs i = some (order.kind docs[i].id) := by
  rw [kindAt, List.getElem?_eq_getElem inside, Option.map_some]

omit [LinearOrder ρ] in
theorem reachLater {k : Nat} (later : 0 < k) (inside : k ≤ docs.length) :
    reach order docs k = (docs.drop k).takeWhile fun x => some (order.kind x.id) = kindAt order docs (k - 1) := by
  have bound : k - 1 < docs.length := by omega
  rw [kindSome bound]
  simp only [reach, if_pos later, List.getElem?_eq_getElem bound, Option.some.injEq]

theorem reachAll (ordered : docs.Pairwise fun a b => Before order a.id b.id) {k : Nat} (later : 0 < k)
    (inside : k ≤ docs.length) :
    reach order docs k = docs.drop k ↔ kindAt order docs (k - 1) = kindAt order docs (docs.length - 1) := by
  rw [reachLater later inside, List.takeWhile_eq_self_iff]
  simp only [decide_eq_true_eq]
  rcases Nat.lt_or_eq_of_le inside with more | rfl
  · rw [kindSome (show k - 1 < docs.length by omega), kindSome (show docs.length - 1 < docs.length by omega)]
    constructor
    · intro same
      refine (same docs[docs.length - 1] ?_).symm
      rw [List.mem_drop_iff_getElem]
      exact ⟨docs.length - 1 - k, by omega, by congr 1; omega⟩
    · intro same x mem
      obtain ⟨i, bound, rfl⟩ := List.mem_drop_iff_getElem.mp mem
      have low := kindRises ordered (show k - 1 ≤ k + i by omega) (by omega)
      have high := kindRises ordered (show k + i ≤ docs.length - 1 by omega) (by omega)
      rw [Option.some.injEq] at same ⊢
      omega
  · simp

omit [LinearOrder ρ] in
theorem fullKind {batch k : Nat} (later : 0 < k) (inside : k ≤ docs.length) (some' : 0 < batch)
    (full : ((reach order docs k).take batch).length = batch) :
    kindAt order docs (k + batch - 1) = kindAt order docs (k - 1) := by
  have taken : (reach order docs k).take batch <+: docs.drop k :=
    (List.take_prefix _ _).trans (reachPrefix order docs k)
  obtain ⟨more, whole⟩ := taken
  obtain ⟨d, last⟩ : ∃ d, ((reach order docs k).take batch)[batch - 1]? = some d :=
    ⟨_, List.getElem?_eq_getElem (by omega)⟩
  have there : docs[k + (batch - 1)]? = some d := by
    rw [← List.getElem?_drop, ← whole, List.getElem?_append_left (by omega), last]
  have mem := List.mem_of_mem_take (List.mem_of_getElem? last)
  rw [reachLater later inside] at mem
  have kind := List.mem_takeWhile_imp mem
  have spot : k + batch - 1 = k + (batch - 1) := by omega
  rw [spot, kindAt, there, Option.map_some]
  simpa using kind

theorem laterBatches (ordered : docs.Pairwise fun a b => Before order a.id b.id) {batch : Nat} (some' : 0 < batch)
    (fits : batch ≤ maxPageSize) (fuel : Nat) : ∀ (positions : Positions V) (k : Nat), 0 < k → Fresh docs positions k →
    docs.length - k < fuel → ∃ pages, documentBatches order docs batch fuel positions k = some pages ∧
      Paged docs batch k pages (kindAt order docs (k - 1) = kindAt order docs (docs.length - 1)) := by
  have limit : clampPage batch = batch := by
    rw [clampPage]
    omega
  induction fuel with
  | zero =>
    intro positions k _ _ short
    omega
  | succ fuel ih =>
    intro positions k later fresh enough
    obtain ⟨positions', page, next⟩ := findPage ordered fresh batch
    rw [limit] at page next
    have taken : (reach order docs k).take batch <+: docs.drop k :=
      (List.take_prefix _ _).trans (reachPrefix order docs k)
    simp only [documentBatches, page]
    by_cases short : ((reach order docs k).take batch).length < batch
    · have whole : (reach order docs k).take batch = reach order docs k := by
        rw [List.take_eq_self_iff]
        rw [List.length_take] at short
        omega
      refine ⟨if ((reach order docs k).take batch).length = 0 then [] else [(reach order docs k).take batch], ?_, ?_⟩
      · split <;> simp
      · rw [← reachAll ordered later fresh.inside]
        rw [whole] at short taken ⊢
        exact lastPage taken short
    · have full : ((reach order docs k).take batch).length = batch := by
        rw [List.length_take] at short ⊢
        omega
      rw [full] at next
      have room := next.inside
      obtain ⟨rest, read, paged⟩ := ih positions' (k + batch) (by omega) next (by omega)
      refine ⟨(reach order docs k).take batch :: rest, ?_, ?_⟩
      · rw [if_neg (by omega), if_neg short, full, read]
        rfl
      · rw [fullKind later fresh.inside some' full] at paged
        exact morePages taken full some' paged

theorem batchesPaged (ordered : docs.Pairwise fun a b => Before order a.id b.id) {batch : Nat} (some' : 0 < batch)
    (positions : Positions V) : ∃ pages, documentBatches order docs batch (docs.length + 1) positions 0 = some pages ∧
      Paged docs batch 0 pages (ReadWhole order docs batch) := by
  have fresh : Fresh docs positions 0 := ⟨Nat.zero_le _, fun later => absurd later (Nat.lt_irrefl 0)⟩
  have start : reach order docs 0 = docs := rfl
  obtain ⟨positions', page, next⟩ := findPage ordered fresh batch
  rw [start] at page next
  have taken : docs.take (clampPage batch) <+: docs.drop 0 := List.take_prefix _ _
  have low : clampPage batch ≤ batch := by
    rw [clampPage]
    omega
  simp only [documentBatches, page]
  by_cases short : (docs.take (clampPage batch)).length < batch
  · refine ⟨if (docs.take (clampPage batch)).length = 0 then [] else [docs.take (clampPage batch)], ?_, ?_⟩
    · split <;> simp
    · have whole : docs.take (clampPage batch) = docs.drop 0 ↔ ReadWhole order docs batch := by
        rw [List.drop_zero, List.take_eq_self_iff, ReadWhole, or_iff_left_of_imp]
        rintro ⟨fits, _⟩
        rw [List.length_take, clampPage] at short
        rw [clampPage]
        omega
      rw [← whole]
      exact lastPage taken short
  · have full : (docs.take (clampPage batch)).length = batch := by
      rw [List.length_take] at short ⊢
      omega
    have sizes : clampPage batch = batch ∧ batch ≤ maxPageSize ∧ batch ≤ docs.length := by
      rw [List.length_take] at full
      rw [clampPage] at full ⊢
      omega
    rw [full, Nat.zero_add] at next
    obtain ⟨rest, read, paged⟩ := laterBatches ordered some' sizes.2.1 docs.length positions' batch some' next (by omega)
    refine ⟨docs.take (clampPage batch) :: rest, ?_, ?_⟩
    · rw [if_neg (by omega), if_neg short, full, Nat.zero_add, read]
      rfl
    · have whole : ReadWhole order docs batch ↔
          kindAt order docs (batch - 1) = kindAt order docs (docs.length - 1) := by
        rw [ReadWhole, sizes.1, and_iff_right sizes.2.1, or_iff_right_of_imp]
        intro few
        rw [Nat.le_antisymm few sizes.2.2]
      rw [whole]
      rw [← Nat.zero_add batch] at paged
      exact morePages taken full some' (by simpa using paged)

end Pages

section Export
variable [LinearOrder ρ] (order : IdOrder V ρ)

theorem placedIff {columns : List Text} (pages : List (List (Document V))) :
    List.Forall₂ (RowRight columns) pages.flatten
      (pages.flatMap fun page => (flattenDocuments page).2.map (writtenRow columns)) ↔
    ∀ page ∈ pages, ∀ d ∈ page, RowRight columns d (writtenRow columns ((columnsOf page).map (cellOf d))) := by
  induction pages with
  | nil => simp
  | cons page rest ih =>
    have rows : (flattenDocuments page).2.map (writtenRow columns) =
        page.map fun d => writtenRow columns ((columnsOf page).map (cellOf d)) := by
      simp [flattenDocuments]
    have here : List.Forall₂ (RowRight columns) page ((flattenDocuments page).2.map (writtenRow columns)) ↔
        ∀ d ∈ page, RowRight columns d (writtenRow columns ((columnsOf page).map (cellOf d))) := by
      rw [rows, List.forall₂_map_right_iff, List.forall₂_same]
    rw [List.flatten_cons, List.flatMap_cons, List.forall_mem_cons, ← here, ← ih]
    constructor
    · intro both
      have size : page.length = ((flattenDocuments page).2.map (writtenRow columns)).length := by simp [rows]
      have first := List.forall₂_take page.length both
      have later := List.forall₂_drop page.length both
      rw [List.take_left, List.take_left' size.symm] at first
      rw [List.drop_left, List.drop_left' size.symm] at later
      exact ⟨first, later⟩
    · exact fun ⟨first, later⟩ => List.rel_append first later

theorem documentColumns (c : Collection order) (batchSize : Option Nat) (positions : Positions V) :
    ∃ columns rows, exportDocuments order c.docs batchSize positions = some (columns, rows) ∧
      (FieldsKept c.docs columns rows ↔
        ReadWhole order c.docs (batchOf batchSize) ∧ PagesAgree c.docs (batchOf batchSize)) := by
  have some' : 0 < batchOf batchSize := by
    rw [batchOf]
    omega
  have fresh : Fresh c.docs positions 0 := ⟨Nat.zero_le _, fun later => absurd later (Nat.lt_irrefl 0)⟩
  obtain ⟨positions', probe, _⟩ := findPage c.ordered fresh 1
  obtain ⟨pages, read, paged⟩ := batchesPaged c.ordered some' positions'
  have header : (reach order c.docs 0).take (clampPage 1) = c.docs.take 1 := rfl
  refine ⟨columnsOf (c.docs.take 1), _, by rw [exportDocuments, probe]; simp only [read, header]; rfl, ?_⟩
  have pageOf : ∀ p, (c.docs.drop (0 + p * batchOf batchSize)).take (batchOf batchSize) =
      pageAt c.docs (batchOf batchSize) p := fun p => by rw [Nat.zero_add, pageAt]
  have columnsIff : pages.flatten = c.docs →
      ((∀ page ∈ pages, columnsOf page <+: columnsOf (c.docs.take 1)) ↔ PagesAgree c.docs (batchOf batchSize)) := by
    intro whole
    have cut := paged.cut (by rw [whole, List.drop_zero])
    constructor
    · intro agree j
      by_cases empty : pageAt c.docs (batchOf batchSize) j = []
      · rw [empty]
        exact List.nil_prefix
      · exact agree _ ((cut _).mpr ⟨empty, j, (pageOf j).symm⟩)
    · intro agree page mem
      obtain ⟨_, j, rfl⟩ := (cut page).mp mem
      rw [pageOf]
      exact agree j
  constructor
  · rintro ⟨complete, placed⟩
    have size : pages.flatten.length = c.docs.length := by
      rw [placed.length_eq, List.length_flatMap, List.length_flatten]
      simp [flattenDocuments]
    have whole : pages.flatten = c.docs := by
      have inside := paged.within
      rw [List.drop_zero] at inside
      exact inside.eq_of_length size
    rw [← whole] at placed
    refine ⟨paged.wholeIff.mp (by rw [whole, List.drop_zero]), (columnsIff whole).mp fun page mem => ?_⟩
    have rows := (placedIff pages).mp placed page mem
    rw [whole] at rows
    refine (pageRight (columnsOnce _)).mp fun d stands => ⟨complete d ?_, rows d stands⟩
    rw [← whole]
    exact List.mem_flatten.mpr ⟨page, mem, stands⟩
  · rintro ⟨readWhole, agree⟩
    have whole : pages.flatten = c.docs := by
      have joined := paged.wholeIff.mpr readWhole
      rwa [List.drop_zero] at joined
    have right := fun page mem => (pageRight (columnsOnce _)).mpr ((columnsIff whole).mpr agree page mem)
    refine ⟨fun d stands => ?_, ?_⟩
    · rw [← whole] at stands
      obtain ⟨page, mem, inside⟩ := List.mem_flatten.mp stands
      exact (right page mem d inside).1
    · have rows := (placedIff pages).mpr fun page mem d stands => (right page mem d stands).2
      rwa [whole] at rows

def plainOrder : IdOrder Nat Nat := ⟨fun _ => 0, id⟩

def unlikeDocs : List (Document Nat) :=
  [⟨[(idField, 1), (units "a", 5)], by decide, 1, by decide⟩, ⟨[(idField, 2), (units "b", 6)], by decide, 2, by decide⟩]

theorem unlikeLost : ¬∀ (c : Collection plainOrder) (batchSize : Option Nat) (positions : Positions Nat),
    ∃ columns rows, exportDocuments plainOrder c.docs batchSize positions = some (columns, rows) ∧
      FieldsKept c.docs columns rows := by
  intro kept
  obtain ⟨columns, rows, made, fields⟩ := kept ⟨unlikeDocs, by decide⟩ none fun _ => none
  have header : ((exportDocuments plainOrder unlikeDocs none fun _ => none).map Prod.fst) = some [idField, units "a"] := rfl
  rw [made, Option.map_some, Option.some.injEq] at header
  have missing := fields.complete ⟨[(idField, 2), (units "b", 6)], by decide, 2, by decide⟩ (by simp [unlikeDocs])
    (units "b") (by decide)
  simp only at header
  rw [header] at missing
  exact absurd missing (by decide)

end Export

end DatabaseAdmin.DocumentExport
