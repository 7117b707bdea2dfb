import DatabaseAdmin.DocumentExport
import DatabaseAdmin.StepSystem

/-! The pages of a document collection in the order of `_id`: a remembered `_id` stands for the documents before a
page, and any number of calls may be under way. -/
namespace DatabaseAdmin.DocumentPaging
open CodeUnits StepSystem
open DocumentExport (Document IdOrder Before greater behind Collection idField maxPageSize)

variable {V ρ φ : Type}

structure Namespace where
  database : Text
  collection : Text

structure FindOpts where
  projection : Option (List (Text × Bool))
  sort : Option (List (Text × Bool))
  limit : Option ℤ
  skip : Option ℤ

def nonEmpty (spec : Option (List (Text × Bool))) : Option (List (Text × Bool)) := spec.filter fun fields => !fields.isEmpty

def clampPage (n : Option ℤ) (fallback : ℤ) : ℕ := (min (max (n.getD fallback) 1) maxPageSize).toNat

section Keys

def scanned : Bool → Text → Option Bool
  | inside, [] => some inside
  | true, 92 :: _ :: rest => scanned true rest
  | true, c :: rest => scanned (c ≠ 34) rest
  | false, c :: rest => if c = 92 ∨ c = 124 then none else scanned (c = 34) rest

inductive Spec (φ : Type) where
  | filter (query : φ)
  | projection (fields : List (Text × Bool))
  | sort (fields : List (Text × Bool))

structure Mongo (V ρ φ : Type) [LinearOrder ρ] where
  order : IdOrder V ρ
  contents : Namespace → Option (Collection order)
  selects : φ → Document V → Bool
  isEmpty : φ → Bool
  arrange : List (Text × Bool) → List (Document V) → List (Document V)
  ejsonText : φ → Text
  relaxedText : Spec φ → Text
  undotted : ∀ ns c, contents ns = some c → 46 ∉ ns.database
  wholly : ∀ query d, isEmpty query = true → selects query d = true
  spelled : ∀ query, scanned false (ejsonText query) = some false
  told : ∀ query query', ejsonText query = ejsonText query' → selects query = selects query'

def positionKey [LinearOrder ρ] (mongo : Mongo V ρ φ) (ns : Namespace) (query : φ) : Text :=
  ns.database ++ 46 :: (ns.collection ++ 124 :: mongo.ejsonText query)

end Keys

section Positions
variable [LinearOrder ρ] (mongo : Mongo V ρ φ)

structure PagePositions (V : Type) where
  boundaries : ℕ → Option V
  touchedAt : ℕ

abbrev Positions (V : Type) := List (Text × PagePositions V)

def positionCacheMax : ℕ := 64

def entryAt (positions : Positions V) (key : Text) : Option (PagePositions V) := (positions.find? (·.1 = key)).map Prod.snd

def setEntry (positions : Positions V) (key : Text) (entry : PagePositions V) : Positions V :=
  if positions.any (·.1 = key) then positions.map fun p => if p.1 = key then (key, entry) else p else positions ++ [(key, entry)]

def oldestKey (positions : Positions V) : Option Text :=
  (positions.foldl (fun oldest p =>
    match oldest with
    | none => some p
    | some q => if p.2.touchedAt < q.2.touchedAt then some p else some q) none).map Prod.fst

def pageBoundary (positions : Positions V) (ns : Namespace) (query : φ) (offset now : ℕ) : Option V × Positions V :=
  match entryAt positions (positionKey mongo ns query) with
  | none => (none, positions)
  | some entry => (entry.boundaries offset, setEntry positions (positionKey mongo ns query) { entry with touchedAt := now })

def rememberBoundary (positions : Positions V) (ns : Namespace) (query : φ) (offset : ℕ) (id : Option V) (now : ℕ) : Positions V :=
  match id with
  | none => positions
  | some id =>
      let key := positionKey mongo ns query
      match entryAt positions key with
      | some entry => setEntry positions key ⟨Function.update entry.boundaries offset (some id), now⟩
      | none =>
          let kept :=
            if positionCacheMax ≤ positions.length then
              match oldestKey positions with
              | some oldest => positions.filter (·.1 ≠ oldest)
              | none => positions
            else positions
          setEntry kept key ⟨Function.update (fun _ => none) offset (some id), now⟩

end Positions

section Finding
variable [LinearOrder ρ] (mongo : Mongo V ρ φ) (defaultPageSize : ℤ)

inductive Effective (V φ : Type) where
  | query (query : φ)
  | range (boundary : V)
  | both (query : φ) (boundary : V)

structure Plan (V φ : Type) where
  ns : Namespace
  query : φ
  sort : Option (List (Text × Bool))
  projection : Option (List (Text × Bool))
  limit : ℕ
  skip : ℕ
  effective : Effective V φ
  serverSkip : ℕ
  notices : List Text

def shownNumber (n : ℕ) : Text := units (toString n)

def cursorNotice (skip : ℕ) : Text := units "Paged with an _id range cursor instead of skip(" ++ shownNumber skip ++ units ")."

def skipNotice (skip : ℕ) : Text :=
  units "skip(" ++ shownNumber skip ++ units ") scans and discards " ++ shownNumber skip ++
    units " documents server-side; page forward to avoid it."

def boundaryOf (positions : Positions V) (ns : Namespace) (query : φ) (skip now : ℕ) : Option V × Positions V :=
  if 0 < skip then pageBoundary mongo positions ns query skip now else (none, positions)

def skipOf (opts : FindOpts) : ℕ := (max 0 (opts.skip.getD 0)).toNat

def planned (positions : Positions V) (ns : Namespace) (query : φ) (opts : FindOpts) (now : ℕ) : Plan V φ × Positions V :=
  let limit := clampPage opts.limit defaultPageSize
  let skip := skipOf opts
  let plan (effective : Effective V φ) (serverSkip : ℕ) (notices : List Text) : Plan V φ :=
    ⟨ns, query, nonEmpty opts.sort, nonEmpty opts.projection, limit, skip, effective, serverSkip, notices⟩
  match nonEmpty opts.sort with
  | some _ => (plan (.query query) skip [], positions)
  | none =>
      match boundaryOf mongo positions ns query skip now with
      | (some boundary, positions) =>
          (plan (if mongo.isEmpty query then .range boundary else .both query boundary) 0 [cursorNotice skip], positions)
      | (none, positions) => (plan (.query query) skip (if 0 < skip then [skipNotice skip] else []), positions)

def selected (effective : Effective V φ) (d : Document V) : Bool :=
  match effective with
  | .query query => mongo.selects query d
  | .range boundary => greater mongo.order boundary d
  | .both query boundary => mongo.selects query d && greater mongo.order boundary d

def served (plan : Plan V φ) (docs : List (Document V)) : List (Document V) :=
  let found := docs.filter (selected mongo plan.effective)
  let sorted := match plan.sort with
    | some sort => mongo.arrange sort found
    | none => found
  (sorted.drop plan.serverSkip).take (plan.limit + 1)

def truncateText (text : Text) : Text := if text.length ≤ 4000 then text else text.take 4000 ++ [8230]

def renderFind (plan : Plan V φ) : Text :=
  let projection := match plan.projection with
    | some fields => units ", " ++ mongo.relaxedText (.projection fields)
    | none => []
  let sort := match plan.sort with
    | some fields => units ".sort(" ++ mongo.relaxedText (.sort fields) ++ units ")"
    | none => []
  let skip := if 0 < plan.skip then units ".skip(" ++ shownNumber plan.skip ++ units ")" else []
  truncateText (plan.ns.database ++ units "." ++ plan.ns.collection ++ units ".find(" ++ mongo.relaxedText (.filter plan.query) ++
    projection ++ units ")" ++ sort ++ skip ++ units ".limit(" ++ shownNumber plan.limit ++ units ")")

def keepsId (projection : Option (List (Text × Bool))) : Bool := projection.all fun fields => !fields.contains (idField, false)

structure EditTarget where
  schema : Text
  table : Text
  keyColumns : List Text

structure ResultSet (V : Type) where
  statement : Text
  docs : List (Document V)
  truncated : Bool
  notices : Option (List Text)
  editTarget : Option EditTarget
  readOnlyReason : Option Text

def answered (plan : Plan V φ) (docs : List (Document V)) : ResultSet V :=
  let found := served mongo plan docs
  { statement := renderFind mongo plan
    docs := found.take plan.limit
    truncated := plan.limit < found.length
    notices := if plan.notices = [] then none else some plan.notices
    editTarget := if keepsId plan.projection then some ⟨plan.ns.database, plan.ns.collection, [idField]⟩ else none
    readOnlyReason :=
      if keepsId plan.projection then none else some (units "The projection excludes _id, so rows cannot be identified for editing.") }

def remembered (positions : Positions V) (plan : Plan V φ) (docs : List (Document V)) (now : ℕ) : Positions V :=
  match plan.sort, docs.getLast? with
  | none, some last =>
      rememberBoundary mongo positions plan.ns plan.query (plan.skip + docs.length)
        (if keepsId plan.projection then some last.id else none) now
  | _, _ => positions

inductive Outcome (V : Type) where
  | pending
  | failed
  | answered (result : ResultSet V)

structure State (V φ : Type) where
  positions : Positions V
  calls : List (Plan V φ × Outcome V)

def start : State V φ := ⟨[], []⟩

inductive Event (φ : Type) where
  | find (ns : Namespace) (query : φ) (opts : FindOpts) (now : ℕ)
  | answer (call now : ℕ)
  | fail (call : ℕ)

def step (s : State V φ) : Event φ → Option (State V φ)
  | .find ns query opts now =>
      let (plan, positions) := planned mongo defaultPageSize s.positions ns query opts now
      some ⟨positions, s.calls ++ [(plan, .pending)]⟩
  | .answer call now =>
      match s.calls[call]? with
      | some (plan, .pending) =>
          (mongo.contents plan.ns).map fun c =>
            let result := answered mongo plan c.docs
            ⟨remembered mongo s.positions plan result.docs now, s.calls.set call (plan, .answered result)⟩
      | _ => none
  | .fail call =>
      match s.calls[call]? with
      | some (plan, .pending) => some ⟨s.positions, s.calls.set call (plan, .failed)⟩
      | _ => none

def matched (query : φ) (c : Collection mongo.order) : List (Document V) := c.docs.filter (mongo.selects query)

end Finding

section KeyFacts

theorem scanPast {inside : Bool} {x y : Text} {r : Bool} (read : scanned inside (x ++ 124 :: y) = some r) : scanned true y = some r := by
  induction inside, x using scanned.induct with
  | case1 inside =>
    cases inside with
    | true => simpa [scanned] using read
    | false => simp [scanned] at read
  | case2 c rest ih => exact ih (by simpa [scanned] using read)
  | case3 c rest plain ih =>
    rcases rest with _ | ⟨d, rest⟩
    · by_cases escape : c = 92
      · subst escape
        simpa [scanned] using read
      · refine ih ?_
        rwa [List.cons_append, scanned] at read
        rintro _ _ rfl _
        exact escape rfl
    · refine ih ?_
      rwa [List.cons_append, scanned] at read
      rintro _ _ rfl same
      cases same
      exact plain _ _ rfl rfl
  | case4 c rest bar => simp [scanned, bar] at read
  | case5 c rest other ih => exact ih (by simpa [scanned, other] using read)

theorem scanApart {y : Text} {r r' : Bool} (first : scanned true y = some r) (last : scanned false y = some r') : r' = !r := by
  induction y generalizing r r' with
  | nil =>
    cases first
    cases last
    rfl
  | cons c y ih =>
    have plain : ¬(c = 92 ∨ c = 124) := fun bar => by simp [scanned, bar] at last
    have inside : scanned true (c :: y) = scanned (c ≠ 34) y := by
      rw [scanned]
      rintro _ _ rfl _
      exact plain (.inl rfl)
    rw [inside] at first
    rw [scanned, if_neg plain] at last
    by_cases quote : c = 34
    · subst quote
      have turned : r = !r' := ih last first
      rw [turned, Bool.not_not]
    · simp only [quote, ne_eq, not_false_eq_true, decide_true, decide_false] at first last
      exact ih first last

theorem splitAt {c : CodeUnit} {a a' b b' : Text} (absent : c ∉ a) (absent' : c ∉ a') (same : a ++ c :: b = a' ++ c :: b') :
    a = a' ∧ b = b' := by
  rcases List.append_eq_append_iff.mp same with ⟨more, rfl, rest⟩ | ⟨more, rfl, rest⟩
  · cases more with
    | nil => exact ⟨(List.append_nil a).symm, by simpa using rest⟩
    | cons d more =>
      cases rest
      simp at absent'
  · cases more with
    | nil => exact ⟨List.append_nil a', by simpa using rest.symm⟩
    | cons d more =>
      cases rest
      simp at absent

theorem barred {a a' t t' : Text} (closed : scanned false t = some false) (closed' : scanned false t' = some false)
    (same : a ++ 124 :: t = a' ++ 124 :: t') : a = a' ∧ t = t' := by
  rcases List.append_eq_append_iff.mp same with ⟨more, rfl, rest⟩ | ⟨more, rfl, rest⟩
  · cases more with
    | nil => exact ⟨(List.append_nil a).symm, by simpa using rest⟩
    | cons d more =>
      cases rest
      exact absurd (scanApart (scanPast closed) closed') (by decide)
  · cases more with
    | nil => exact ⟨List.append_nil a', by simpa using rest.symm⟩
    | cons d more =>
      cases rest
      exact absurd (scanApart (scanPast closed') closed) (by decide)

variable [LinearOrder ρ] {mongo : Mongo V ρ φ}

theorem keyTells {ns ns' : Namespace} {c c' : Collection mongo.order} (held : mongo.contents ns = some c)
    (held' : mongo.contents ns' = some c') {query query' : φ} (same : positionKey mongo ns query = positionKey mongo ns' query') :
    ns = ns' ∧ mongo.selects query = mongo.selects query' := by
  obtain ⟨database, rest⟩ := splitAt (mongo.undotted ns c held) (mongo.undotted ns' c' held') same
  obtain ⟨collection, text⟩ := barred (mongo.spelled query) (mongo.spelled query') rest
  refine ⟨?_, mongo.told query query' text⟩
  cases ns
  cases ns'
  exact congr (congrArg Namespace.mk database) collection

end KeyFacts

section Marks
variable [LinearOrder ρ] {mongo : Mongo V ρ φ}

def Marked (mongo : Mongo V ρ φ) (positions : Positions V) : Prop :=
  ∀ key entry, (key, entry) ∈ positions → ∀ ns query c, mongo.contents ns = some c → positionKey mongo ns query = key →
    ∀ offset id, entry.boundaries offset = some id → 0 < offset ∧ ((matched mongo query c)[offset - 1]?).map Document.id = some id

theorem entryMember {positions : Positions V} {key : Text} {entry : PagePositions V} (found : entryAt positions key = some entry) :
    (key, entry) ∈ positions := by
  obtain ⟨p, first, rfl⟩ := Option.map_eq_some_iff.mp found
  have same : p.1 = key := by simpa using List.find?_some first
  exact same ▸ List.mem_of_find?_eq_some first

theorem setMember {positions : Positions V} {key : Text} {entry : PagePositions V} {p : Text × PagePositions V}
    (member : p ∈ setEntry positions key entry) : p ∈ positions ∨ p = (key, entry) := by
  unfold setEntry at member
  split at member
  · obtain ⟨q, inside, rfl⟩ := List.mem_map.mp member
    split
    · exact .inr rfl
    · exact .inl inside
  · simpa using member

theorem markedSet {positions : Positions V} (marked : Marked mongo positions) {key : Text} {entry : PagePositions V}
    (right : ∀ ns query c, mongo.contents ns = some c → positionKey mongo ns query = key → ∀ offset id,
      entry.boundaries offset = some id → 0 < offset ∧ ((matched mongo query c)[offset - 1]?).map Document.id = some id) :
    Marked mongo (setEntry positions key entry) := by
  intro key' entry' member
  rcases setMember member with old | new
  · exact marked key' entry' old
  · cases new
    exact right

theorem markedBoundary {positions : Positions V} (marked : Marked mongo positions) (ns : Namespace) (query : φ) (offset now : ℕ) :
    Marked mongo (boundaryOf mongo positions ns query offset now).2 ∧ ∀ c, mongo.contents ns = some c → ∀ id,
      (boundaryOf mongo positions ns query offset now).1 = some id →
        0 < offset ∧ ((matched mongo query c)[offset - 1]?).map Document.id = some id := by
  unfold boundaryOf
  split
  · unfold pageBoundary
    split
    · exact ⟨marked, nofun⟩
    · rename_i entry found
      have known := marked _ entry (entryMember found)
      exact ⟨markedSet marked known, fun c held id remembered => known ns query c held rfl offset id remembered⟩
  · exact ⟨marked, nofun⟩

theorem markedRemember {positions : Positions V} (marked : Marked mongo positions) {ns : Namespace} {query : φ}
    {c : Collection mongo.order} (held : mongo.contents ns = some c) {offset : ℕ} {id : Option V}
    (right : ∀ d, id = some d → 0 < offset ∧ ((matched mongo query c)[offset - 1]?).map Document.id = some d) (now : ℕ) :
    Marked mongo (rememberBoundary mongo positions ns query offset id now) := by
  cases id with
  | none => exact marked
  | some id =>
    have new {boundaries : ℕ → Option V} (old : ∀ ns' query' c', mongo.contents ns' = some c' →
        positionKey mongo ns' query' = positionKey mongo ns query → ∀ offset' id', boundaries offset' = some id' →
          0 < offset' ∧ ((matched mongo query' c')[offset' - 1]?).map Document.id = some id') :
        ∀ ns' query' c', mongo.contents ns' = some c' → positionKey mongo ns' query' = positionKey mongo ns query → ∀ offset' id',
          Function.update boundaries offset (some id) offset' = some id' →
            0 < offset' ∧ ((matched mongo query' c')[offset' - 1]?).map Document.id = some id' := by
      intro ns' query' c' held' same offset' id' remembered
      by_cases here : offset' = offset
      · subst here
        rw [Function.update_self] at remembered
        obtain ⟨rfl, selects⟩ := keyTells held' held same
        have one : c' = c := Option.some.inj (held'.symm.trans held)
        subst one
        rw [matched, selects]
        exact right id' remembered
      · rw [Function.update_of_ne here] at remembered
        exact old ns' query' c' held' same offset' id' remembered
    unfold rememberBoundary
    dsimp only
    split
    · rename_i entry found
      exact markedSet marked (new (marked _ entry (entryMember found)))
    · refine markedSet ?_ (new nofun)
      split
      · split
        · exact fun key entry member => marked key entry (List.mem_of_mem_filter member)
        · exact marked
      · exact marked

end Marks

section Served
variable [LinearOrder ρ] {mongo : Mongo V ρ φ} {defaultPageSize : ℤ}

theorem plannedServed {positions : Positions V} (marked : Marked mongo positions) {ns : Namespace} {query : φ} {opts : FindOpts}
    (unsorted : nonEmpty opts.sort = none) {now : ℕ} {c : Collection mongo.order} (held : mongo.contents ns = some c) :
    (answered mongo (planned mongo defaultPageSize positions ns query opts now).1 c.docs).docs =
      (match (boundaryOf mongo positions ns query (skipOf opts) now).1 with
        | none => (matched mongo query c).drop (skipOf opts)
        | some id => ((matched mongo query c).drop (skipOf opts)).takeWhile fun d => mongo.order.kind d.id = mongo.order.kind id).take
          (clampPage opts.limit defaultPageSize) := by
  have known := (markedBoundary marked ns query (skipOf opts) now).2 c held
  have least (l : List (Document V)) (n : ℕ) : (l.take (n + 1)).take n = l.take n := by
    rw [List.take_take, Nat.min_eq_left (Nat.le_succ n)]
  cases boundary : boundaryOf mongo positions ns query (skipOf opts) now with
  | mk id positions' =>
    cases id with
    | none =>
      simp only [planned, unsorted, boundary, answered, served, least]
      rfl
    | some id =>
      rw [boundary] at known
      obtain ⟨later, there⟩ := known id rfl
      obtain ⟨d, inside, rfl⟩ := Option.map_eq_some_iff.mp there
      obtain ⟨bound, rfl⟩ := List.getElem?_eq_some_iff.mp inside
      have ordered : (matched mongo query c).Pairwise fun a b => Before mongo.order a.id b.id := c.ordered.filter _
      have found := behind ordered bound
      rw [Nat.sub_add_cancel later] at found
      simp only [planned, unsorted, boundary, answered, served, least, List.drop_zero, ← found]
      congr 1
      split
      · rename_i empty
        have all : matched mongo query c = c.docs := List.filter_eq_self.mpr fun d _ => mongo.wholly query d empty
        simp only [all]
        rfl
      · unfold matched
        rw [List.filter_filter]
        refine List.filter_congr fun d _ => ?_
        simp only [selected, Bool.and_comm]

def Sound (mongo : Mongo V ρ φ) (plan : Plan V φ) : Prop :=
  plan.sort = none → ∀ c, mongo.contents plan.ns = some c →
    (answered mongo plan c.docs).docs <+: (matched mongo plan.query c).drop plan.skip

theorem plannedKeeps (mongo : Mongo V ρ φ) (defaultPageSize : ℤ) (positions : Positions V) (ns : Namespace) (query : φ)
    (opts : FindOpts) (now : ℕ) :
    let plan := (planned mongo defaultPageSize positions ns query opts now).1
    plan.ns = ns ∧ plan.query = query ∧ plan.sort = nonEmpty opts.sort ∧ plan.skip = skipOf opts := by
  unfold planned
  dsimp only
  split
  · rename_i sort sorted
    exact ⟨rfl, rfl, sorted.symm ▸ rfl, rfl⟩
  · rename_i unsorted
    split <;> exact ⟨rfl, rfl, unsorted.symm ▸ rfl, rfl⟩

theorem plannedSound {positions : Positions V} (marked : Marked mongo positions) (ns : Namespace) (query : φ) (opts : FindOpts)
    (now : ℕ) :
    Sound mongo (planned mongo defaultPageSize positions ns query opts now).1 ∧
      Marked mongo (planned mongo defaultPageSize positions ns query opts now).2 := by
  obtain ⟨sameNs, sameQuery, sameSort, sameSkip⟩ := plannedKeeps mongo defaultPageSize positions ns query opts now
  refine ⟨fun unsorted c held => ?_, ?_⟩
  · rw [sameNs] at held
    rw [sameQuery, sameSkip, plannedServed marked (sameSort ▸ unsorted) held]
    split
    · exact List.take_prefix _ _
    · exact (List.take_prefix _ _).trans (List.takeWhile_prefix _)
  · have kept := (markedBoundary marked ns query (skipOf opts) now).1
    unfold planned
    dsimp only
    split
    · exact marked
    · split
      all_goals
        rename_i found
        rwa [found] at kept

theorem markedAnswer {positions : Positions V} (marked : Marked mongo positions) {plan : Plan V φ} (sound : Sound mongo plan)
    {c : Collection mongo.order} (held : mongo.contents plan.ns = some c) (now : ℕ) :
    Marked mongo (remembered mongo positions plan (answered mongo plan c.docs).docs now) := by
  unfold remembered
  split
  · rename_i last unsorted ends
    obtain ⟨rest, whole⟩ := sound unsorted c held
    rw [List.getLast?_eq_getElem?] at ends
    have inside := (List.getElem?_eq_some_iff.mp ends).1
    refine markedRemember marked held (fun d kept => ?_) now
    have this : last.id = d := by
      split at kept
      · exact Option.some.inj kept
      · cases kept
    have place : (matched mongo plan.query c)[plan.skip + ((answered mongo plan c.docs).docs.length - 1)]? = some last := by
      rw [← List.getElem?_drop, ← whole, List.getElem?_append_left inside, ends]
    refine ⟨by omega, ?_⟩
    rw [Nat.add_sub_assoc (by omega), place, Option.map_some, this]
  · exact marked

structure Good (mongo : Mongo V ρ φ) (s : State V φ) : Prop where
  marked : Marked mongo s.positions
  sound : ∀ (i : ℕ) plan (outcome : Outcome V), s.calls[i]? = some (plan, outcome) → Sound mongo plan
  told : ∀ (i : ℕ) plan (result : ResultSet V), s.calls[i]? = some (plan, .answered result) →
    ∃ c, mongo.contents plan.ns = some c ∧ result = answered mongo plan c.docs

theorem goodStart : Good mongo (start : State V φ) := ⟨nofun, nofun, nofun⟩

theorem goodStep {s s' : State V φ} {e : Event φ} (good : Good mongo s) (moved : step mongo defaultPageSize s e = some s') :
    Good mongo s' := by
  cases e with
  | find ns query opts now =>
    cases moved
    obtain ⟨sound, marked⟩ : Sound mongo (planned mongo defaultPageSize s.positions ns query opts now).1 ∧ _ :=
      plannedSound good.marked ns query opts now
    refine ⟨marked, fun i plan outcome call => ?_, fun i plan result call => ?_⟩
    · rcases appendFinds call with old | ⟨_, new⟩
      · exact good.sound i plan outcome old
      · cases new
        exact sound
    · rcases appendFinds call with old | ⟨_, new⟩
      · exact good.told i plan result old
      · cases new
  | answer call now =>
    rw [step] at moved
    split at moved
    · rename_i plan under
      obtain ⟨c, held, rfl⟩ := Option.map_eq_some_iff.mp moved
      refine ⟨markedAnswer good.marked (good.sound call plan _ under) held now, fun i plan' outcome here => ?_,
        fun i plan' result here => ?_⟩
      all_goals
        rw [setFinds under] at here
        split at here
      · cases here
        exact good.sound call plan _ under
      · exact good.sound i plan' outcome here
      · cases here
        exact ⟨c, held, rfl⟩
      · exact good.told i plan' result here
    · cases moved
  | fail call =>
    rw [step] at moved
    split at moved
    · rename_i plan under
      cases moved
      refine ⟨good.marked, fun i plan' outcome here => ?_, fun i plan' result here => ?_⟩
      all_goals
        rw [setFinds under] at here
        split at here
      · cases here
        exact good.sound call plan _ under
      · exact good.sound i plan' outcome here
      · cases here
      · exact good.told i plan' result here
    · cases moved

theorem planStep {s s' : State V φ} {e : Event φ} {i : ℕ} {plan : Plan V φ} (kept : ∃ outcome, s.calls[i]? = some (plan, outcome))
    (moved : step mongo defaultPageSize s e = some s') : ∃ outcome, s'.calls[i]? = some (plan, outcome) := by
  obtain ⟨outcome, here⟩ := kept
  have after {call : ℕ} {plan' : Plan V φ} {old : Outcome V} (under : s.calls[call]? = some (plan', old)) (new : Outcome V) :
      ∃ outcome, (s.calls.set call (plan', new))[i]? = some (plan, outcome) := by
    rw [setFinds under]
    split
    · rename_i same
      subst same
      cases under.symm.trans here
      exact ⟨new, rfl⟩
    · exact ⟨outcome, here⟩
  cases e with
  | find ns query opts now =>
    cases moved
    exact ⟨outcome, appendKeeps _ here⟩
  | answer call now =>
    rw [step] at moved
    split at moved
    · rename_i plan' under
      obtain ⟨c, _, rfl⟩ := Option.map_eq_some_iff.mp moved
      exact after under _
    · cases moved
  | fail call =>
    rw [step] at moved
    split at moved
    · rename_i plan' under
      cases moved
      exact after under _
    · cases moved

theorem takeSame {α : Type} (p : α → Bool) (l : List α) (n : ℕ) : (l.takeWhile p).take n = l.take n ↔ ∀ d ∈ l.take n, p d := by
  induction l generalizing n with
  | nil => simp
  | cons a l ih =>
    cases n with
    | zero => simp
    | succ n =>
      by_cases holds : p a = true
      · simp only [List.takeWhile_cons_of_pos holds, List.take_succ_cons, List.cons.injEq, true_and, ih, List.forall_mem_cons, holds]
      · simp [List.takeWhile_cons_of_neg holds, holds]

end Served

section Pages
variable [LinearOrder ρ] (mongo : Mongo V ρ φ)

def Seeks (positions : Positions V) (ns : Namespace) (query : φ) (skip : ℕ) : Prop :=
  0 < skip ∧ ∃ entry, entryAt positions (positionKey mongo ns query) = some entry ∧ entry.boundaries skip ≠ none

def page (query : φ) (c : Collection mongo.order) (skip limit : ℕ) : List (Document V) :=
  ((matched mongo query c).drop skip).take limit

def OneKind (query : φ) (c : Collection mongo.order) (skip limit : ℕ) : Prop :=
  ∀ last, (matched mongo query c)[skip - 1]? = some last → ∀ d ∈ page mongo query c skip limit, mongo.order.kind d.id = mongo.order.kind last.id

variable {mongo}

theorem seeksBoundary (positions : Positions V) (ns : Namespace) (query : φ) (skip now : ℕ) :
    Seeks mongo positions ns query skip ↔ (boundaryOf mongo positions ns query skip now).1 ≠ none := by
  unfold Seeks boundaryOf pageBoundary
  by_cases later : 0 < skip
  · cases found : entryAt positions (positionKey mongo ns query) <;> simp [later]
  · simp [later]

theorem askedWhole (mongo : Mongo V ρ φ) (defaultPageSize : ℤ) (before after : List (Event φ)) {s s' : State V φ}
    (ran : runSteps (step mongo defaultPageSize) start before = some s) (ns : Namespace) (query : φ) (opts : FindOpts) (now : ℕ)
    (unsorted : nonEmpty opts.sort = none) (more : runSteps (step mongo defaultPageSize) s (.find ns query opts now :: after) = some s')
    {c : Collection mongo.order} (held : mongo.contents ns = some c) {plan : Plan V φ} {result : ResultSet V}
    (call : s'.calls[s.calls.length]? = some (plan, .answered result)) :
    result.docs = page mongo query c (skipOf opts) (clampPage opts.limit defaultPageSize) ↔
      (Seeks mongo s.positions ns query (skipOf opts) → OneKind mongo query c (skipOf opts) (clampPage opts.limit defaultPageSize)) := by
  have good : Good mongo s := everyRunKeeps goodStep goodStart ran
  have good' : Good mongo s' := everyRunKeeps goodStep good more
  have mine : plan = (planned mongo defaultPageSize s.positions ns query opts now).1 := by
    have asked : runSteps (step mongo defaultPageSize)
        ⟨(planned mongo defaultPageSize s.positions ns query opts now).2,
          s.calls ++ [((planned mongo defaultPageSize s.positions ns query opts now).1, .pending)]⟩ after = some s' := more
    obtain ⟨outcome, kept⟩ := everyRunKeeps planStep ⟨.pending, List.getElem?_concat_length⟩ asked
    cases call.symm.trans kept
    rfl
  obtain ⟨c', held', rfl⟩ := good'.told _ _ _ call
  rw [mine, (plannedKeeps mongo defaultPageSize s.positions ns query opts now).1] at held'
  cases held.symm.trans held'
  have known := (markedBoundary good.marked ns query (skipOf opts) now).2 c held
  rw [mine, plannedServed good.marked unsorted held, seeksBoundary s.positions ns query (skipOf opts) now]
  cases boundary : (boundaryOf mongo s.positions ns query (skipOf opts) now).1 with
  | none => simp [page]
  | some id =>
    obtain ⟨_, there⟩ := known id boundary
    obtain ⟨last, place, rfl⟩ := Option.map_eq_some_iff.mp there
    simp only [page, takeSame, decide_eq_true_eq, OneKind, place, Option.some.injEq, forall_eq', ne_eq, reduceCtorEq, not_false_eq_true,
      forall_const]

inductive StockId where
  | number (n : ℕ)
  | objectId (bytes : ℕ)
deriving DecidableEq

def stockOrder : IdOrder StockId ℕ where
  kind
    | .number _ => 2
    | .objectId _ => 7
  rank
    | .number n => n
    | .objectId bytes => bytes

def stockDocument (id : StockId) : Document StockId where
  fields := [(idField, id)]
  once := List.nodup_singleton idField
  id := id
  keyed := List.mem_singleton.mpr rfl

def stock : Collection stockOrder where
  docs := [stockDocument (.number 1), stockDocument (.number 2), stockDocument (.objectId 1)]
  ordered := by decide

def stockAt : Namespace := ⟨units "shop", units "stock"⟩

def stockServer : Mongo StockId ℕ Unit where
  order := stockOrder
  contents ns := if 46 ∈ ns.database then none else some stock
  selects _ _ := true
  isEmpty _ := true
  arrange _ docs := docs
  ejsonText _ := units "\x7b\x7d"
  relaxedText _ := units "\x7b\x7d"
  undotted ns c held dotted := by simp [dotted] at held
  wholly _ _ _ := rfl
  spelled _ := by decide
  told _ _ _ := rfl

def pageOf (limit skip : ℤ) : FindOpts := ⟨none, none, some limit, some skip⟩

def firstPage : List (Event Unit) := [.find stockAt () (pageOf 1 0) 1, .answer 0 2]

def secondPage : List (Event Unit) := [.find stockAt () (pageOf 1 1) 3, .answer 1 4]

def stockAfter (events : List (Event Unit)) : State StockId Unit := (runSteps (step stockServer 100) start events).getD start

theorem secondWhole : ∃ plan result, (stockAfter (firstPage ++ secondPage)).calls[1]? = some (plan, .answered result) ∧
    result.docs = page stockServer () stock 1 1 := by
  have ran : runSteps (step stockServer 100) start firstPage = some (stockAfter firstPage) := rfl
  have more : runSteps (step stockServer 100) (stockAfter firstPage) secondPage = some (stockAfter (firstPage ++ secondPage)) := rfl
  refine ⟨_, _, rfl, (askedWhole stockServer 100 firstPage _ ran stockAt () (pageOf 1 1) 3 rfl more (c := stock) rfl rfl).mpr ?_⟩
  intro _ last first d inside
  cases first
  obtain rfl := List.mem_singleton.mp inside
  rfl

theorem laterKindMissed : ∃ plan result,
    (stockAfter [.find stockAt () (pageOf 2 0) 1, .answer 0 2, .find stockAt () (pageOf 2 2) 3, .answer 1 4]).calls[1]? =
      some (plan, .answered result) ∧ result.docs = [] ∧ page stockServer () stock 2 2 = [stockDocument (.objectId 1)] :=
  ⟨_, _, rfl, rfl, rfl⟩

end Pages

end DatabaseAdmin.DocumentPaging
