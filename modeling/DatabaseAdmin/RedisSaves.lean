import DatabaseAdmin.RedisValues

/-! Saving a Redis key unchanged: what the server shows of a key goes through the reader, the wire and the validator
and is written back. -/
namespace DatabaseAdmin.RedisValues
open CodeUnits RedisReplies ClusterScans SetPages MysqlLoads

section Records
variable {β : Type}

def names (r : List (Text × β)) : List Text := r.map Prod.fst

theorem entriesPerm (r : List (Text × β)) : (entriesOf r).Perm r := List.mergeSort_perm r _

theorem entriesSorted (r : List (Text × β)) : (entriesOf r).Pairwise fun a b => rank a.1 ≤ rank b.1 := by
  refine (List.pairwise_mergeSort (fun a b c first second => ?_) (fun a b => ?_) r).imp fun le => of_decide_eq_true le
  · exact decide_eq_true (le_trans (of_decide_eq_true first) (of_decide_eq_true second))
  · simpa using le_total (rank a.1) (rank b.1)

theorem entriesSame {r : List (Text × β)} (sorted : r.Pairwise fun a b => rank a.1 ≤ rank b.1) : entriesOf r = r :=
  List.mergeSort_of_pairwise (sorted.imp fun le => decide_eq_true le)

theorem entriesNames (r : List (Text × β)) : (names (entriesOf r)).Perm (names r) := (entriesPerm r).map Prod.fst

theorem setFresh {key value : Text} {r : Record} (fresh : key ∉ names r) : setField key value r = r ++ [(key, value)] := by
  induction r with
  | nil => rfl
  | cons m r ih =>
    rw [names, List.map_cons, List.mem_cons, not_or] at fresh
    rw [setField, if_neg (Ne.symm fresh.1), ih fresh.2, List.cons_append]

theorem setNames (key value : Text) (r : Record) :
    names (setField key value r) = if key ∈ names r then names r else names r ++ [key] := by
  induction r with
  | nil => rfl
  | cons m r ih =>
    rw [setField]
    by_cases here : m.1 = key
    · simp [names, here]
    · rw [if_neg here]
      simp only [names, List.map_cons, List.mem_cons] at ih ⊢
      rw [ih]
      by_cases member : key ∈ r.map Prod.fst <;> simp [Ne.symm here, member]

theorem freshNext {r pairs : Record} {m : Text × Text} (distinct : (names (r ++ m :: pairs)).Nodup) : m.1 ∉ names r := by
  intro member
  rw [names, List.map_append, List.map_cons, List.nodup_append] at distinct
  exact distinct.2.2 _ member _ List.mem_cons_self rfl

theorem collapseFrom (pairs r : Record) (distinct : (names (r ++ pairs)).Nodup) :
    pairs.foldl (fun r m => setField m.1 m.2 r) r = r ++ pairs := by
  induction pairs generalizing r with
  | nil => simp
  | cons m pairs ih =>
    have fresh := freshNext distinct
    rw [List.foldl_cons, setFresh fresh, ih _ (by simpa using distinct)]
    simp

theorem collapseSame {pairs : Record} (distinct : (names pairs).Nodup) : collapse pairs = pairs := collapseFrom pairs [] distinct

theorem collapseNames (pairs : Record) : (names (collapse pairs)).Nodup ∧ names (collapse pairs) ⊆ names pairs := by
  unfold collapse
  induction pairs using List.reverseRecOn with
  | nil => exact ⟨List.nodup_nil, List.Subset.refl _⟩
  | append_singleton pairs m ih =>
    rw [List.foldl_append, List.foldl_cons, List.foldl_nil, setNames]
    have grown : names (pairs ++ [m]) = names pairs ++ [m.1] := by simp [names]
    rw [grown]
    split
    · exact ⟨ih.1, fun name member => List.mem_append_left _ (ih.2 member)⟩
    · rename_i fresh
      refine ⟨List.nodup_append.mpr ⟨ih.1, List.nodup_singleton _, fun a known b alone same => ?_⟩, fun name member => ?_⟩
      · rw [List.mem_singleton] at alone
        exact fresh (alone ▸ same ▸ known)
      · exact List.mem_append.mpr ((List.mem_append.mp member).imp (fun old => ih.2 old) id)

theorem assignedFields (label : Text) (entries r : Record) (distinct : (names (r ++ entries)).Nodup) :
    assignFields label (wireRecord entries) r = .ok (r ++ unproto entries) := by
  induction entries generalizing r with
  | nil => simp [wireRecord, assignFields, unproto]
  | cons m entries ih =>
    have fresh := freshNext distinct
    have fewer : (names (r ++ entries)).Nodup :=
      distinct.sublist (List.Sublist.map _ (List.Sublist.append_left (List.sublist_cons_self m entries) r))
    rw [wireRecord, List.map_cons, assignFields, ← wireRecord]
    by_cases proto : m.1 = protoName
    · rw [if_pos proto, ih r fewer]
      simp [unproto, proto]
    · rw [if_neg proto, setFresh fresh, ih _ (by simpa using distinct)]
      simp [unproto, proto]

def rewritten (pairs : Record) : Record := entriesOf (unproto (entriesOf (collapse pairs)))

structure NamesKept (names : List Text) : Prop where
  distinct : names.Nodup
  plain : protoName ∉ names
  ordered : names.Pairwise fun a b => rank a ≤ rank b

theorem rewrittenSame {pairs : Record} (kept : NamesKept (names pairs)) : rewritten pairs = pairs := by
  have sorted : pairs.Pairwise fun a b => rank a.1 ≤ rank b.1 := (List.pairwise_map (f := Prod.fst) (R := fun a b => rank a ≤ rank b)).mp kept.ordered
  have plain : unproto pairs = pairs := List.filter_eq_self.mpr fun m member => by
    simpa using fun proto : m.1 = protoName => kept.plain (proto ▸ List.mem_map_of_mem member)
  rw [rewritten, collapseSame kept.distinct, entriesSame sorted, plain, entriesSame sorted]

theorem unprotoPart (r : Record) : (names (unproto r)).Sublist (names r) := List.Sublist.map _ List.filter_sublist

theorem rewrittenKept (pairs : Record) : NamesKept (names (rewritten pairs)) := by
  have whole := entriesNames (unproto (entriesOf (collapse pairs)))
  refine ⟨whole.nodup_iff.mpr (((entriesNames _).nodup_iff.mpr (collapseNames pairs).1).sublist (unprotoPart _)), fun member => ?_,
    List.pairwise_map.mpr (entriesSorted _)⟩
  obtain ⟨m, listed, same⟩ := List.mem_map.mp (whole.subset member)
  have other := (List.mem_filter.mp listed).2
  simp [same] at other

theorem rewrittenNames (pairs : Record) : names (rewritten pairs) ⊆ names pairs := fun _ member =>
  (collapseNames pairs).2 ((entriesNames _).subset ((unprotoPart _).subset ((entriesNames _).subset member)))

end Records

section Wire

theorem eachOk {α β : Type} {f : ℕ → WireValue → Except Text β} {w : α → WireValue} {g : α → β} (items : List α)
    (ok : ∀ i, ∀ x ∈ items, f i (w x) = .ok (g x)) (i : ℕ) : eachItem f i (items.map w) = .ok (items.map g) := by
  induction items generalizing i with
  | nil => rfl
  | cons x items ih =>
    rw [List.map_cons, eachItem, ok i x List.mem_cons_self, okThen,
      ih (fun j y member => ok j y (List.mem_cons_of_mem _ member)) (i + 1), okThen]
    rfl

theorem stringsParsed (field : String) (items : List Text) : eachItem (stringItem field) 0 (items.map .string) = .ok items := by
  rw [eachOk (g := id) items (fun _ _ _ => rfl) 0, List.map_id]

theorem listParsed (items : List Text) (total : ℕ) :
    parseTypedValue (wireValue (.list items total)) = .ok (.list items items.length) := by
  have read : parseTypedValue (wireValue (.list items total)) =
      (eachItem (stringItem "items") 0 (items.map .string)).map fun items => .list items items.length := rfl
  rw [read, stringsParsed]
  rfl

theorem setParsed (members : List Text) (total : ℕ) :
    parseTypedValue (wireValue (.set members total)) = .ok (.set members members.length) := by
  have read : parseTypedValue (wireValue (.set members total)) =
      (eachItem (stringItem "members") 0 (members.map .string)).map fun members => .set members members.length := rfl
  rw [read, stringsParsed]
  rfl

theorem zsetParsed {members : List (Text × Text)} (total : ℕ) (scores : ∀ m ∈ members, isRedisScore m.2 = true) :
    parseTypedValue (wireValue (.zset members total)) = .ok (.zset members members.length) := by
  have read : parseTypedValue (wireValue (.zset members total)) = (eachItem zsetItem 0 (members.map fun m =>
      .object [(units "member", .string m.1), (units "score", .string m.2)])).map fun members => .zset members members.length := rfl
  have item (i : ℕ) (m : Text × Text) (member : m ∈ members) :
      zsetItem i (.object [(units "member", .string m.1), (units "score", .string m.2)]) = .ok m := by
    have scored : (scoreText (List.lookup (units "score")
        [(units "member", .string m.1), (units "score", .string m.2)])).filter isRedisScore = some m.2 :=
      Option.filter_eq_some_iff.mpr ⟨rfl, scores m member⟩
    rw [zsetItem, asRecord, okThen, scored]
    rfl
  rw [read, eachOk (g := id) members item 0, List.map_id]
  rfl

theorem hashParsed (fields : List (Text × Text)) (total : ℕ) :
    parseTypedValue (wireValue (.hash fields total)) = .ok (.hash fields fields.length) := by
  have read : parseTypedValue (wireValue (.hash fields total)) = (eachItem hashItem 0 (fields.map fun f =>
      .object [(units "field", .string f.1), (units "value", .string f.2)])).map fun fields => .hash fields fields.length := rfl
  rw [read, eachOk (g := id) fields (fun _ _ _ => rfl) 0, List.map_id]
  rfl

theorem entriesWired (r : Record) : entriesOf (wireRecord (entriesOf r)) = wireRecord (entriesOf r) :=
  entriesSame (List.pairwise_map.mpr (entriesSorted r))

theorem streamParsed {entries : List (Text × Record)} (total : ℕ) (distinct : ∀ e ∈ entries, (names e.2).Nodup) :
    parseTypedValue (wireValue (.stream entries total)) =
      .ok (.stream (entries.map fun e => (e.1, unproto (entriesOf e.2))) entries.length) := by
  have read : parseTypedValue (wireValue (.stream entries total)) = (eachItem streamItem 0 (entries.map fun e => .object [(units "id",
      .string e.1), (units "fields", .object (wireRecord (entriesOf e.2)))])).map fun entries => .stream entries entries.length := rfl
  have item (i : ℕ) (e : Text × Record) (member : e ∈ entries) : streamItem i (.object [(units "id", .string e.1),
      (units "fields", .object (wireRecord (entriesOf e.2)))]) = .ok (e.1, unproto (entriesOf e.2)) := by
    have assigned := assignedFields (itemLabel "entries" i ++ units ".fields") (entriesOf e.2) []
      ((entriesNames e.2).nodup_iff.mpr (distinct e member))
    have fields : streamItem i (.object [(units "id", .string e.1), (units "fields", .object (wireRecord (entriesOf e.2)))]) = (do
        let fields ← assignFields (itemLabel "entries" i ++ units ".fields") (entriesOf (wireRecord (entriesOf e.2))) []
        return (e.1, fields)) := rfl
    rw [fields, entriesWired, assigned]
    rfl
  rw [read, eachOk entries item 0, Except.map, List.length_map]

end Wire

section Chunks
variable {σ : Type}

theorem chunkJoin {α : Type} (items : List α) : (chunk items).flatten = items := by
  unfold chunk
  split
  · split
    · rename_i none
      exact (List.length_eq_zero_iff.mp none).symm
    · simp
  · have joined := slicesJoin items writeChunk (pageCount items.length writeChunk)
    rw [List.flatMap] at joined
    rw [joined, List.take_of_length_le (pagesReach (by decide))]

theorem chunkSome {α : Type} {items : List α} (some' : items ≠ []) : chunk items ≠ [] := by
  intro none
  have joined := chunkJoin items
  rw [none] at joined
  exact some' joined.symm

theorem partsFold {α β γ : Type} (one : γ → β → γ) (code : α → β) (parts : List (List α)) (old : γ) :
    parts.foldl (fun old part => (part.map code).foldl one old) old = (parts.flatten.map code).foldl one old := by
  induction parts generalizing old with
  | nil => rfl
  | cons part parts ih => rw [List.foldl_cons, ih, List.flatten_cons, List.map_append, List.foldl_append]

theorem writtenChunks (server : RedisServer σ) {α β γ : Type} (wrap : γ → Content σ) (command : List α → Command)
    (one : γ → β → γ) (code : α → β) (start : γ) {items : List α} (some' : items ≠ [])
    (first : ∀ part, (∀ x ∈ part, x ∈ items) →
      execute server none (command part) = some (some ⟨wrap ((part.map code).foldl one start), none⟩))
    (next : ∀ part, (∀ x ∈ part, x ∈ items) → ∀ old,
      execute server (some ⟨wrap old, none⟩) (command part) = some (some ⟨wrap ((part.map code).foldl one old), none⟩)) :
    runAll server none ((chunk items).map command) = some ⟨wrap ((items.map code).foldl one start), none⟩ := by
  have inside : ∀ part ∈ chunk items, ∀ x ∈ part, x ∈ items := fun part listed x member =>
    chunkJoin items ▸ List.mem_flatten_of_mem listed member
  have behind : ∀ rest : List (List α), (∀ part ∈ rest, part ∈ chunk items) → ∀ old, runAll server (some ⟨wrap old, none⟩)
      (rest.map command) = some ⟨wrap (rest.foldl (fun old part => (part.map code).foldl one old) old), none⟩ := by
    intro rest
    induction rest with
    | nil => exact fun _ _ => rfl
    | cons part rest ih =>
      intro known old
      rw [runAll, List.map_cons, List.foldl_cons, next part (inside part (known part List.mem_cons_self)) old]
      exact ih (fun p member => known p (List.mem_cons_of_mem _ member)) _
  rw [← chunkJoin items, ← partsFold, chunkJoin]
  cases parts : chunk items with
  | nil => exact absurd parts (chunkSome some')
  | cons part rest =>
    rw [parts] at inside behind
    rw [runAll, List.map_cons, List.foldl_cons, first part (inside part List.mem_cons_self)]
    exact behind rest (fun p member => List.mem_cons_of_mem _ member) _

theorem putFresh {β : Type} {m : List (Bytes × β)} {pair : Bytes × β} (fresh : pair.1 ∉ m.map Prod.fst) :
    putPair m pair = m ++ [pair] := by
  refine if_neg fun known => fresh ?_
  obtain ⟨p, member, same⟩ := List.any_eq_true.mp known
  exact of_decide_eq_true same ▸ List.mem_map_of_mem member

theorem putPairs {β : Type} {m pairs : List (Bytes × β)} (distinct : ((m ++ pairs).map Prod.fst).Nodup) :
    pairs.foldl putPair m = m ++ pairs := by
  induction pairs generalizing m with
  | nil => simp
  | cons pair pairs ih =>
    have fresh : pair.1 ∉ m.map Prod.fst := by
      intro member
      rw [List.map_append, List.map_cons, List.nodup_append] at distinct
      exact distinct.2.2 _ member _ List.mem_cons_self rfl
    rw [List.foldl_cons, putFresh fresh, ih (by simpa using distinct)]
    simp

theorem putItems {m items : List Bytes} (distinct : (m ++ items).Nodup) : items.foldl putItem m = m ++ items := by
  induction items generalizing m with
  | nil => simp
  | cons item items ih =>
    have fresh : item ∉ m := fun member => (List.nodup_append.mp distinct).2.2 _ member _ List.mem_cons_self rfl
    rw [List.foldl_cons, putItem, if_neg fresh, ih (by simpa using distinct)]
    simp

end Chunks

section Runs
variable {σ : Type} {server : RedisServer σ}

theorem appendItems {β : Type} (items old : List β) : items.foldl (fun old x => old ++ [x]) old = old ++ items := by
  induction items generalizing old with
  | nil => simp
  | cons x items ih => rw [List.foldl_cons, ih, List.append_assoc, List.singleton_append]

theorem writtenList {items : List Text} (some' : items ≠ []) :
    runAll server none ((chunk items).map .rpush) = some ⟨.list (items.map octets), none⟩ := by
  have written := writtenChunks server .list .rpush (fun old x => old ++ [x]) octets [] some'
    (fun part _ => by rw [appendItems, List.nil_append]; rfl) (fun part _ old => by rw [appendItems]; rfl)
  rwa [appendItems, List.nil_append] at written

theorem writtenSet {members : List Text} (some' : members ≠ []) (distinct : (members.map octets).Nodup) :
    runAll server none ((chunk members).map .sadd) = some ⟨.set (members.map octets), none⟩ := by
  have written := writtenChunks server .set .sadd putItem octets [] some' (fun _ _ => rfl) (fun _ _ _ => rfl)
  rwa [putItems distinct] at written

theorem writtenHash {fields : List (Text × Text)} (some' : fields ≠ []) (distinct : ((bytePairs fields).map Prod.fst).Nodup) :
    runAll server none ((chunk fields).map .hset) = some ⟨.hash (bytePairs fields), none⟩ := by
  have written := writtenChunks server .hash .hset putPair (fun p => (octets p.1, octets p.2)) [] some' (fun _ _ => rfl)
    (fun _ _ _ => rfl)
  rwa [putPairs distinct] at written

def behind (a b : EntryId) : Prop := a.1 < b.1 ∨ a.1 = b.1 ∧ a.2 < b.2

instance (a b : EntryId) : Decidable (behind a b) := inferInstanceAs (Decidable (_ ∨ _))

def streamOf (entries : List (EntryId × Fields)) : Option (KeyState σ) :=
  entries.getLast?.map fun e => ⟨.stream entries e.1, none⟩

def keptEntries (entries : List (EntryId × Record)) : List (EntryId × Fields) :=
  (entries.filter fun e => decide (entriesOf e.2 ≠ [])).map fun e => (e.1, bytePairs (entriesOf e.2))

structure IdsTaken (server : RedisServer σ) (idText : EntryId → Text) (ids : List EntryId) : Prop where
  given : ∀ i ∈ ids, idText i ≠ [] ∧ idText i ≠ units "*"
  taken : ∀ i ∈ ids, ∀ last, behind last i → server.entryId (octets (idText i)) last = some i
  positive : ∀ i ∈ ids, behind (0, 0) i
  ordered : ids.Pairwise behind

theorem addedEntry {idText : EntryId → Text} {old : List (EntryId × Fields)} {id : EntryId} {fields : Record}
    (given : idText id ≠ [] ∧ idText id ≠ units "*")
    (taken : ∀ last, behind last id → server.entryId (octets (idText id)) last = some id)
    (positive : behind (0, 0) id) (later : ∀ o ∈ old, behind o.1 id) (some' : entriesOf fields ≠ []) :
    addCommand (idText id, fields) = some (.xadd (idText id) (entriesOf fields)) ∧
      execute server (streamOf old) (.xadd (idText id) (entriesOf fields)) =
        some (streamOf (old ++ [(id, bytePairs (entriesOf fields))])) := by
  refine ⟨by rw [addCommand, if_neg some', if_pos given], ?_⟩
  cases last : old.getLast? with
  | none =>
    rw [List.getLast?_eq_none_iff.mp last]
    simp [streamOf, execute, add, taken (0, 0) positive]
  | some e => simp [streamOf, last, execute, add, taken e.1 (later e (List.mem_of_getLast? last))]

theorem writtenStream {idText : EntryId → Text} {entries : List (EntryId × Record)}
    (old : List (EntryId × Fields)) (ids : IdsTaken server idText (entries.map Prod.fst))
    (later : ∀ e ∈ entries, ∀ o ∈ old, behind o.1 e.1) :
    runAll server (streamOf old) ((entries.map fun e => (idText e.1, e.2)).filterMap addCommand) =
      streamOf (old ++ keptEntries entries) := by
  induction entries generalizing old with
  | nil => simp [runAll, keptEntries]
  | cons e entries ih =>
    obtain ⟨given, taken, positive, ordered⟩ := ids
    rw [List.map_cons, List.forall_mem_cons] at given taken positive
    rw [List.map_cons, List.pairwise_cons] at ordered
    rw [List.forall_mem_cons] at later
    have rest : IdsTaken server idText (entries.map Prod.fst) := ⟨given.2, taken.2, positive.2, ordered.2⟩
    rw [List.map_cons]
    by_cases bare : entriesOf e.2 = []
    · have skipped : addCommand (idText e.1, e.2) = none := if_pos bare
      rw [List.filterMap_cons_none skipped, ih _ rest later.2, keptEntries, keptEntries, List.filter_cons_of_neg (by simp [bare])]
    · obtain ⟨command, done⟩ := addedEntry given.1 taken.1 positive.1 later.1 bare
      rw [List.filterMap_cons_some command, runAll, List.foldl_cons, done, Option.getD_some, ← runAll, ih _ rest ?_, keptEntries,
        keptEntries, List.filter_cons_of_pos (by simp [bare]), List.map_cons, List.append_assoc, List.singleton_append]
      intro f member o listed
      rcases List.mem_append.mp listed with known | here
      · exact later.2 f member o known
      · rw [List.mem_singleton] at here
        exact here ▸ ordered.1 f.1 (List.mem_map_of_mem member)

end Runs

section Server
variable {σ : Type}

structure Writes (σ : Type) where
  scoreText : σ → Text
  idText : EntryId → Text
  nested : Bool

def pairsReply (w : Bool) (pairs : List (Text × Text)) : Reply :=
  if w then .array (pairs.map fun p => .array [.bulk p.1, .bulk p.2] []) []
  else .array (pairs.flatMap fun p => [.bulk p.1, .bulk p.2]) []

def textPairs (fields : Fields) : Record := fields.map fun f => (utf8Text f.1, utf8Text f.2)

def scoredTexts (w : Writes σ) (members : List (Bytes × σ)) : List (Text × Text) :=
  members.map fun m => (utf8Text m.1, w.scoreText m.2)

def sizeOf : Content σ → ℕ
  | .string value => value.length
  | .list items => items.length
  | .set members => members.length
  | .zset members => members.length
  | .hash fields => fields.length
  | .stream entries _ => entries.length
  | .other .. => 0

def typeOf : Content σ → Text
  | .string _ => units "string"
  | .list _ => units "list"
  | .set _ => units "set"
  | .zset _ => units "zset"
  | .hash _ => units "hash"
  | .stream .. => units "stream"
  | .other type _ => type

def slice {α : Type} (items : List α) (start stop : ℕ) : List α := (items.drop start).take (stop + 1 - start)

def repliesOf (w : Writes σ) (scan : ℕ → List Text → Reply) (c : Content σ) : KeyReplies where
  size := sizeOf c
  getrange start stop := match c with
    | .string value => .bulk (utf8Text (slice value start stop))
    | _ => .error (units "WRONGTYPE")
  lrange start stop := match c with
    | .list items => .array ((slice items start stop).map fun item => .bulk (utf8Text item)) []
    | _ => .error (units "WRONGTYPE")
  zrange start stop := match c with
    | .zset members => pairsReply w.nested (scoredTexts w (slice members start stop))
    | _ => .error (units "WRONGTYPE")
  xrange count := match c with
    | .stream entries _ => .array ((entries.take count).map fun e => .array [.bulk (w.idText e.1), pairsReply w.nested (textPairs e.2)] []) []
    | _ => .error (units "WRONGTYPE")
  scan := scan

def Scans (scan : ℕ → List Text → Reply) : Content σ → Prop
  | .set members => ∃ order : List Bytes, order.Perm members ∧ ∃ (c : Collection 1) (s : Scan c),
      c.elements = order.map ([·]) ∧ scan = fun hint => answer (s.batches hint)
  | .hash fields => ∃ order : Fields, order.Perm fields ∧ ∃ (c : Collection 2) (s : Scan c),
      c.elements = (order.map fun f => [f.1, f.2]) ∧ scan = fun hint => answer (s.batches hint)
  | _ => True

def Utf8 (bytes : Bytes) : Prop := octets (utf8Text bytes) = bytes

def AllUtf8 : Content σ → Prop
  | .string value => Utf8 value
  | .list items => ∀ item ∈ items, Utf8 item
  | .set members => ∀ member ∈ members, Utf8 member
  | .zset members => ∀ m ∈ members, Utf8 m.1
  | .hash fields => ∀ f ∈ fields, Utf8 f.1 ∧ Utf8 f.2
  | .stream entries _ => ∀ e ∈ entries, ∀ f ∈ e.2, Utf8 f.1 ∧ Utf8 f.2
  | .other .. => True

def Fits (limit : ℕ) : Content σ → Prop
  | .string value => value.length ≤ maxStringBytes
  | c => sizeOf c ≤ limit

def Held (server : RedisServer σ) (w : Writes σ) : Content σ → Prop
  | .string _ => True
  | .list items => items ≠ []
  | .set members => members ≠ [] ∧ members.Nodup
  | .zset members => members ≠ [] ∧ (members.map Prod.fst).Nodup ∧
      ∀ m ∈ members, isRedisScore (w.scoreText m.2) = true ∧ server.score (octets (w.scoreText m.2)) = some m.2
  | .hash fields => fields ≠ [] ∧ (fields.map Prod.fst).Nodup
  | .stream entries _ => (∀ e ∈ entries, e.2 ≠ []) ∧ IdsTaken server w.idText (entries.map Prod.fst)
  | .other type _ => asValueType type = .none

def Same : Content σ → Content σ → Prop
  | .set a, .set b => a.Perm b
  | .zset a, .zset b => a.Perm b
  | .hash a, .hash b => a.Perm b
  | .stream a _, .stream b _ => a = b
  | a, b => a = b

def Saves (server : RedisServer σ) (w : Writes σ) (scan : ℕ → List Text → Reply) (limit : ℤ) (key : KeyState σ) : Prop :=
  ∃ value after, parseTypedValue (wireValue (readKey (repliesOf w scan key.content) (typeOf key.content) 0 limit)) = .ok value ∧
    runAll server (some key) (buildWriteCommands value none) = some after ∧ Same after.content key.content

def Kept : Content σ → Prop
  | .stream entries _ => entries ≠ [] ∧ ∀ e ∈ entries, NamesKept (names (textPairs e.2))
  | .other .. => False
  | _ => True

end Server

section Reads
variable {σ : Type} {w : Writes σ}

theorem pairsOfJoined (pairs : List (Text × Text)) : pairsOf (pairs.flatMap fun p => [p.1, p.2]) = pairs := by
  induction pairs with
  | nil => rfl
  | cons p pairs ih => rw [List.flatMap_cons, List.cons_append, List.cons_append, List.nil_append, pairsOf, ih]

theorem pairsReplied (nested : Bool) (pairs : List (Text × Text)) : pairsOf (flattenStrings (pairsReply nested pairs)) = pairs := by
  have flat : flattenStrings (pairsReply nested pairs) = pairs.flatMap fun p => [p.1, p.2] := by
    cases nested
    · simp only [pairsReply, Bool.false_eq_true, if_false, flattenStrings, List.flatMap_assoc]
      rfl
    · simp only [pairsReply, if_true, flattenStrings, List.flatMap_map]
      rfl
  rw [flat, pairsOfJoined]

theorem streamReplied (entries : List (EntryId × Fields)) : parseStreamEntries (.array (entries.map fun e =>
      .array [.bulk (w.idText e.1), pairsReply w.nested (textPairs e.2)] []) []) =
    entries.map fun e => (w.idText e.1, collapse (textPairs e.2)) := by
  rw [parseStreamEntries, List.filterMap_map, ← List.filterMap_eq_map]
  congr 1
  funext e
  exact congrArg (fun pairs => some (w.idText e.1, collapse pairs)) (pairsReplied w.nested (textPairs e.2))

theorem scannedGroups {stride : ℕ} {c : Collection stride} (positive : 0 < stride) (s : Scan c) (size limit : ℕ)
    (valid : ∀ g ∈ c.elements, ∀ b ∈ g, Utf8 b) (fits : c.elements.length ≤ limit) :
    (scanGroups (fun hint => answer (s.batches hint)) size 0 limit stride).groups = c.elements.map textsOf := by
  have paged := pageSlice positive s 0 limit
  have apart : ((c.elements.map textsOf).map List.head?).Nodup := by
    have heads : (c.elements.map textsOf).map List.head? = (c.elements.map List.head?).map (Option.map utf8Text) := by
      simp [textsOf]
    rw [heads]
    refine List.Nodup.map_on (fun a first b second same => ?_) c.distinct
    obtain ⟨g, listed, rfl⟩ := List.mem_map.mp first
    obtain ⟨h, listed', rfl⟩ := List.mem_map.mp second
    cases left : g.head? <;> cases right : h.head? <;> rw [left, right] at same
    · simp at same
    · simp at same
    · rename_i a b
      have text : utf8Text a = utf8Text b := Option.some.inj same
      have one : a = b := (valid g listed a (List.mem_of_head? left)).symm.trans
        ((congrArg octets text).trans (valid h listed' b (List.mem_of_head? right)))
      rw [one]
  rw [shownElements, firstSeenApart apart, List.drop_zero, List.take_of_length_le (by simpa using fits)] at paged
  exact paged

end Reads

section Saved
variable {σ : Type} {server : RedisServer σ} {w : Writes σ} {scan : ℕ → List Text → Reply} {limit : ℤ} {expiry : Option ℕ}

theorem limitSome (limit : ℤ) : 1 ≤ pageLimit limit := by
  rw [pageLimit]
  omega

theorem sliceWhole {α : Type} {items : List α} {limit : ℕ} (least : 1 ≤ limit) (fits : items.length ≤ limit) :
    slice items 0 (0 + limit - 1) = items := by
  rw [slice, List.drop_zero, List.take_of_length_le (by omega)]

theorem backTexts {items : List Bytes} (valid : ∀ item ∈ items, Utf8 item) : (items.map utf8Text).map octets = items := by
  rw [List.map_map]
  exact (List.map_congr_left valid).trans (List.map_id items)

theorem backPairs {fields : Fields} (valid : ∀ f ∈ fields, Utf8 f.1 ∧ Utf8 f.2) : bytePairs (textPairs fields) = fields := by
  rw [bytePairs, textPairs, List.map_map]
  refine (List.map_congr_left fun f member => ?_).trans (List.map_id fields)
  exact Prod.ext (valid f member).1 (valid f member).2

theorem built (key : KeyState σ) (value : TypedValue) :
    runAll server (some key) (buildWriteCommands value none) = runAll server none (valueCommands value) := by
  have commands : buildWriteCommands value none = .del :: valueCommands value := by
    cases value <;> simp [buildWriteCommands, valueCommands, expireCommands]
  rw [commands]
  rfl

theorem savedString {value : Bytes} (valid : Utf8 value) (fits : value.length ≤ maxStringBytes) :
    Saves server w scan limit ⟨.string value, expiry⟩ := by
  have read : readKey (repliesOf w scan (.string value)) (units "string") 0 limit = .string (utf8Text value) :=
    congrArg (fun b => TypedValue.string (utf8Text b)) (sliceWhole (by decide) fits)
  refine ⟨.string (utf8Text value), ⟨.string (octets (utf8Text value)), none⟩, ?_, rfl, congrArg Content.string valid⟩
  rw [typeOf, read]
  rfl

theorem savedList {items : List Bytes} (some' : items ≠ []) (valid : ∀ item ∈ items, Utf8 item)
    (fits : items.length ≤ pageLimit limit) : Saves server w scan limit ⟨.list items, expiry⟩ := by
  have read : readKey (repliesOf w scan (.list items)) (units "list") 0 limit = .list (items.map utf8Text) items.length := by
    have shown : itemTexts ((repliesOf w scan (.list items)).lrange 0 (0 + pageLimit limit - 1)) = items.map utf8Text := by
      simp only [repliesOf, itemTexts, sliceWhole (limitSome limit) fits, List.map_map]
      rfl
    exact congrArg (fun texts => TypedValue.list texts items.length) shown
  refine ⟨_, ⟨.list items, none⟩, by rw [typeOf, read]; exact listParsed _ _, ?_, rfl⟩
  rw [built, valueCommands, writtenList (by simpa using some'), backTexts valid]

theorem savedSet {members : List Bytes} (held : members ≠ [] ∧ members.Nodup) (valid : ∀ m ∈ members, Utf8 m)
    (fits : members.length ≤ pageLimit limit) (scans : Scans scan (.set members : Content σ)) :
    Saves server w scan limit ⟨.set members, expiry⟩ := by
  obtain ⟨order, same, c, s, elements, rfl⟩ := scans
  have validly : ∀ m ∈ order, Utf8 m := fun m member => valid m (same.subset member)
  have groups := scannedGroups Nat.one_pos s members.length (pageLimit limit)
    (by simpa [elements] using validly) (by simpa [elements, same.length_eq] using fits)
  have read : readKey (repliesOf w (fun hint => answer (s.batches hint)) (.set members)) (units "set") 0 limit =
      .set (order.map utf8Text) members.length := by
    have texts : (c.elements.map textsOf).map (fun g => g.head?.getD []) = order.map utf8Text := by
      simp [elements, textsOf]
    exact congrArg (fun groups : List Group => TypedValue.set (groups.map fun g => g.head?.getD []) members.length) groups |>.trans
      (congrArg (TypedValue.set · members.length) texts)
  refine ⟨_, ⟨.set order, none⟩, by rw [typeOf, read]; exact setParsed _ _, ?_, same⟩
  have some' : order ≠ [] := fun none => held.1 (List.nil_perm.mp (none ▸ same))
  rw [built, valueCommands, writtenSet (by simpa using some') (by rw [backTexts validly]; exact same.nodup_iff.mpr held.2),
    backTexts validly]

theorem savedHash {fields : Fields} (held : fields ≠ [] ∧ (fields.map Prod.fst).Nodup) (valid : ∀ f ∈ fields, Utf8 f.1 ∧ Utf8 f.2)
    (fits : fields.length ≤ pageLimit limit) (scans : Scans scan (.hash fields : Content σ)) :
    Saves server w scan limit ⟨.hash fields, expiry⟩ := by
  obtain ⟨order, same, c, s, elements, rfl⟩ := scans
  have validly : ∀ f ∈ order, Utf8 f.1 ∧ Utf8 f.2 := fun f member => valid f (same.subset member)
  have inGroups : ∀ g ∈ c.elements, ∀ b ∈ g, Utf8 b := by
    intro g listed b member
    obtain ⟨f, known, rfl⟩ := List.mem_map.mp (elements ▸ listed)
    rcases List.mem_cons.mp member with rfl | value
    · exact (validly f known).1
    · exact List.mem_singleton.mp value ▸ (validly f known).2
  have groups := scannedGroups Nat.two_pos s fields.length (pageLimit limit) inGroups
    (by simpa [elements, same.length_eq] using fits)
  have read : readKey (repliesOf w (fun hint => answer (s.batches hint)) (.hash fields)) (units "hash") 0 limit =
      .hash (textPairs order) fields.length := by
    have texts : (c.elements.map textsOf).map (fun g => (g.head?.getD [], (g[1]?).getD [])) = textPairs order := by
      simp [elements, textsOf, textPairs]
    exact congrArg (fun groups : List Group => TypedValue.hash (groups.map fun g => (g.head?.getD [], (g[1]?).getD []))
      fields.length) groups |>.trans (congrArg (TypedValue.hash · fields.length) texts)
  refine ⟨_, ⟨.hash order, none⟩, by rw [typeOf, read]; exact hashParsed _ _, ?_, same⟩
  have some' : order ≠ [] := fun none => held.1 (List.nil_perm.mp (none ▸ same))
  have distinct : ((bytePairs (textPairs order)).map Prod.fst).Nodup := by
    rw [backPairs validly]
    exact (same.map Prod.fst).nodup_iff.mpr held.2
  rw [built, valueCommands, writtenHash (by simpa [textPairs] using some') distinct, backPairs validly]

theorem chunkMap {α β : Type} (f : α → β) (items : List α) : chunk (items.map f) = (chunk items).map (List.map f) := by
  unfold chunk
  rw [List.length_map]
  split
  · split <;> rfl
  · rw [List.map_map]
    exact List.map_congr_left fun i _ => by simp [List.map_take, List.map_drop]

theorem writtenZset {members : List (Bytes × σ)} (held : Held server w (.zset members)) (valid : ∀ m ∈ members, Utf8 m.1) :
    runAll server none ((chunk (scoredTexts w members)).map fun part => .zadd (part.map Prod.swap)) =
      some ⟨.zset members, none⟩ := by
  obtain ⟨some', distinct, scores⟩ := held
  have taken (part : List (Bytes × σ)) (inside : ∀ m ∈ part, m ∈ members) :
      ((scoredTexts w part).map Prod.swap).mapM (scored server) = some (part.map id) := by
    induction part with
    | nil => rfl
    | cons m part ih =>
      rw [List.forall_mem_cons] at inside
      have here : scored server (w.scoreText m.2, utf8Text m.1) = some m := by
        rw [scored, (scores m inside.1).2, Option.map_some, valid m inside.1]
      rw [scoredTexts, List.map_cons, List.map_cons, List.mapM_cons, ← scoredTexts, ih inside.2, Prod.swap_prod_mk, here]
      rfl
  have written := writtenChunks server .zset (fun part => .zadd ((scoredTexts w part).map Prod.swap)) putPair id [] some'
    (fun part inside => by simp only [execute, add, taken part inside]; rfl)
    (fun part inside old => by simp only [execute, add, taken part inside]; rfl)
  rw [List.map_id, putPairs distinct] at written
  rw [scoredTexts, chunkMap, List.map_map]
  exact written

theorem savedZset {members : List (Bytes × σ)} (held : Held server w (.zset members)) (valid : ∀ m ∈ members, Utf8 m.1)
    (fits : members.length ≤ pageLimit limit) : Saves server w scan limit ⟨.zset members, expiry⟩ := by
  have read : readKey (repliesOf w scan (.zset members)) (units "zset") 0 limit = .zset (scoredTexts w members) members.length := by
    have shown : pairsOf (flattenStrings ((repliesOf w scan (.zset members)).zrange 0 (0 + pageLimit limit - 1))) =
        scoredTexts w members := by
      simp only [repliesOf, sliceWhole (limitSome limit) fits, pairsReplied]
    exact congrArg (fun pairs => TypedValue.zset pairs members.length) shown
  have accepted : ∀ m ∈ scoredTexts w members, isRedisScore m.2 = true := by
    intro m listed
    obtain ⟨own, member, rfl⟩ := List.mem_map.mp listed
    exact (held.2.2 own member).1
  refine ⟨_, ⟨.zset members, none⟩, by rw [typeOf, read]; exact zsetParsed _ accepted, ?_, List.Perm.refl _⟩
  rw [built, valueCommands, writtenZset held valid]

theorem streamWritten {entries : List (EntryId × Fields)} (ids : IdsTaken server w.idText (entries.map Prod.fst)) :
    runAll server none (valueCommands (.stream ((entries.map fun e => (w.idText e.1, collapse (textPairs e.2))).map fun e =>
        (e.1, unproto (entriesOf e.2))) entries.length)) =
      streamOf (keptEntries (entries.map fun e => (e.1, unproto (entriesOf (collapse (textPairs e.2)))))) := by
  have known : (entries.map fun e => (e.1, unproto (entriesOf (collapse (textPairs e.2))))).map Prod.fst = entries.map Prod.fst := by
    simp
  have written := writtenStream [] (known.symm ▸ ids) (fun _ _ => nofun)
  rw [List.nil_append, List.map_map] at written
  rw [valueCommands, List.map_map]
  exact written

theorem keptNames {entry : EntryId × Fields} (valid : ∀ f ∈ entry.2, Utf8 f.1 ∧ Utf8 f.2)
    (same : bytePairs (rewritten (textPairs entry.2)) = entry.2) : NamesKept (names (textPairs entry.2)) := by
  have shown : names (textPairs entry.2) = names (rewritten (textPairs entry.2)) := by
    have texts : names (textPairs entry.2) = (names (rewritten (textPairs entry.2))).map (utf8Text ∘ octets) := by
      conv_lhs => rw [← same]
      simp [names, textPairs, bytePairs]
    rw [texts]
    refine (List.map_congr_left fun name member => ?_).trans (List.map_id _)
    obtain ⟨f, listed, rfl⟩ := List.mem_map.mp (rewrittenNames _ member)
    obtain ⟨g, own, rfl⟩ := List.mem_map.mp listed
    exact congrArg utf8Text (valid g own).1
  rw [shown]
  exact rewrittenKept _

theorem keptWhole {entries : List (EntryId × Fields)} (held : ∀ e ∈ entries, e.2 ≠ [])
    (valid : ∀ e ∈ entries, ∀ f ∈ e.2, Utf8 f.1 ∧ Utf8 f.2) :
    keptEntries (entries.map fun e => (e.1, unproto (entriesOf (collapse (textPairs e.2))))) = entries ↔
      ∀ e ∈ entries, NamesKept (names (textPairs e.2)) := by
  induction entries with
  | nil => simp [keptEntries]
  | cons e entries ih =>
    rw [List.forall_mem_cons] at held valid ⊢
    have rest := ih held.2 valid.2
    have short (l : List (EntryId × Record)) : (keptEntries l).length ≤ l.length := by
      rw [keptEntries, List.length_map]
      exact List.length_filter_le _ _
    by_cases bare : rewritten (textPairs e.2) = []
    · have gone : keptEntries ((e :: entries).map fun e => (e.1, unproto (entriesOf (collapse (textPairs e.2))))) =
          keptEntries (entries.map fun e => (e.1, unproto (entriesOf (collapse (textPairs e.2))))) := by
        rw [keptEntries, List.map_cons, List.filter_cons_of_neg (by simpa [rewritten] using bare), ← keptEntries]
      refine ⟨fun same => ?_, fun kept => ?_⟩
      · have fewer := short (entries.map fun e => (e.1, unproto (entriesOf (collapse (textPairs e.2)))))
        rw [← gone, same, List.length_map, List.length_cons] at fewer
        omega
      · rw [rewrittenSame kept.1] at bare
        exact absurd (List.map_eq_nil_iff.mp bare) held.1
    · have stays : keptEntries ((e :: entries).map fun e => (e.1, unproto (entriesOf (collapse (textPairs e.2))))) =
          (e.1, bytePairs (rewritten (textPairs e.2))) ::
            keptEntries (entries.map fun e => (e.1, unproto (entriesOf (collapse (textPairs e.2))))) := by
        rw [keptEntries, List.map_cons, List.filter_cons_of_pos (by simpa [rewritten] using bare), List.map_cons, ← keptEntries]
        rfl
      rw [stays, List.cons_eq_cons, rest, Prod.ext_iff]
      refine and_congr_left' ⟨fun same => keptNames valid.1 same.2, fun kept => ⟨rfl, ?_⟩⟩
      rw [rewrittenSame kept, backPairs valid.1]

theorem savedStream {entries : List (EntryId × Fields)} {last : EntryId} (held : Held server w (.stream entries last))
    (valid : ∀ e ∈ entries, ∀ f ∈ e.2, Utf8 f.1 ∧ Utf8 f.2) (fits : entries.length ≤ pageLimit limit) :
    Saves server w scan limit ⟨.stream entries last, expiry⟩ ↔ Kept (.stream entries last : Content σ) := by
  have read : readKey (repliesOf w scan (.stream entries last)) (units "stream") 0 limit =
      .stream (entries.map fun e => (w.idText e.1, collapse (textPairs e.2))) entries.length := by
    have shown : (parseStreamEntries ((repliesOf w scan (.stream entries last)).xrange (0 + pageLimit limit))).drop 0 =
        entries.map fun e => (w.idText e.1, collapse (textPairs e.2)) := by
      have room : entries.length ≤ 0 + pageLimit limit := by omega
      simp only [repliesOf, List.drop_zero, List.take_of_length_le room, streamReplied]
    exact congrArg (fun entries' => TypedValue.stream entries' entries.length) shown
  have distinct : ∀ e ∈ entries.map fun e => (w.idText e.1, collapse (textPairs e.2)), (names e.2).Nodup := by
    intro e listed
    obtain ⟨own, _, rfl⟩ := List.mem_map.mp listed
    exact (collapseNames _).1
  have parsed := streamParsed entries.length distinct
  rw [List.length_map] at parsed
  have whole := keptWhole held.1 valid
  have written := streamWritten held.2
  refine ⟨fun ⟨value, after, sent, ran, same⟩ => ?_, fun kept => ?_⟩
  · rw [typeOf, read, parsed] at sent
    cases sent
    rw [built, written] at ran
    cases final : (keptEntries (entries.map fun e => (e.1, unproto (entriesOf (collapse (textPairs e.2)))))).getLast? with
    | none =>
      rw [streamOf, final] at ran
      contradiction
    | some e =>
      rw [streamOf, final] at ran
      cases ran
      have all : keptEntries (entries.map fun e => (e.1, unproto (entriesOf (collapse (textPairs e.2))))) = entries := same
      exact ⟨fun none => by rw [all, none] at final; contradiction, whole.mp all⟩
  · have all := whole.mpr kept.2
    obtain ⟨e, final⟩ := List.getLast?_isSome.mpr kept.1 |> Option.isSome_iff_exists.mp
    refine ⟨_, ⟨.stream entries e.1, none⟩, by rw [typeOf, read]; exact parsed, ?_, rfl⟩
    rw [built, written, all, streamOf, final]
    rfl

theorem lostOther {type : Text} {payload : Bytes} (held : asValueType type = .none) :
    ¬ Saves server w scan limit ⟨.other type payload, expiry⟩ := by
  rintro ⟨value, after, sent, ran, -⟩
  have read : readKey (repliesOf w scan (.other type payload)) type 0 limit = .none := by
    rw [readKey, held]
    rfl
  rw [typeOf, read] at sent
  cases sent
  cases ran

theorem savedUnchanged (server : RedisServer σ) (w : Writes σ) (scan : ℕ → List Text → Reply) (limit : ℤ) (key : KeyState σ)
    (held : Held server w key.content) (valid : AllUtf8 key.content) (fits : Fits (pageLimit limit) key.content)
    (scans : Scans scan key.content) : Saves server w scan limit key ↔ Kept key.content := by
  obtain ⟨content, expiry⟩ := key
  cases content with
  | string value => exact ⟨fun _ => trivial, fun _ => savedString valid fits⟩
  | list items => exact ⟨fun _ => trivial, fun _ => savedList held valid fits⟩
  | set members => exact ⟨fun _ => trivial, fun _ => savedSet held valid fits scans⟩
  | zset members => exact ⟨fun _ => trivial, fun _ => savedZset held valid fits⟩
  | hash fields => exact ⟨fun _ => trivial, fun _ => savedHash held valid fits scans⟩
  | stream entries last => exact savedStream held valid fits
  | other type payload => exact ⟨fun saves => absurd saves (lostOther held), fun kept => kept.elim⟩

def smallServer : RedisServer ℕ where
  score b := if b.length = 1 then (b.head?.map fun d => d.toNat - 48) else none
  entryId b last := if b = octets (units "5-1") ∧ behind last (5, 1) then some (5, 1) else none
  deadline ms := some ms.toNat

def smallWrites : Writes ℕ := ⟨cursorText, fun i => cursorText i.1 ++ units "-" ++ cursorText i.2, false⟩

def smallStream : KeyState ℕ := ⟨.stream [((5, 1), [([97], [49]), ([98], [50])])] (5, 1), none⟩

theorem smallStreamSaved : Saves smallServer smallWrites (fun _ _ => .nil) 200 smallStream := by
  have ids : IdsTaken smallServer smallWrites.idText [(5, 1)] := by
    refine ⟨by decide +kernel, ?_, by decide, List.pairwise_singleton _ _⟩
    intro i only last later
    rw [List.mem_singleton] at only
    subst only
    exact if_pos ⟨by decide +kernel, later⟩
  have fits : Fits (pageLimit 200) smallStream.content := show 1 ≤ pageLimit 200 by decide
  refine (savedUnchanged smallServer smallWrites (fun _ _ => .nil) 200 smallStream ⟨by decide, ids⟩ ?_ fits trivial).mpr
    ⟨by decide, ?_⟩
  · simp only [smallStream, AllUtf8, Utf8]
    decide +kernel
  · rw [List.forall_mem_singleton]
    exact ⟨by decide +kernel, by decide +kernel, by decide +kernel⟩

def moduleKey : KeyState ℕ := ⟨.other (units "ReJSON-RL") [], none⟩

theorem moduleKeyLost : Held smallServer smallWrites moduleKey.content ∧ AllUtf8 moduleKey.content ∧
    Fits (pageLimit 200) moduleKey.content ∧ Scans (fun _ _ => .nil) moduleKey.content ∧
    ¬ Saves smallServer smallWrites (fun _ _ => .nil) 200 moduleKey :=
  have held : asValueType (units "ReJSON-RL") = .none := by decide
  ⟨held, trivial, Nat.zero_le _, trivial, lostOther held⟩

end Saved

end DatabaseAdmin.RedisValues
