import DatabaseAdmin.RedisSaves

/-! A Redis write that fails. The commands run one after the other behind the DEL; what has been run stays when a
later one is rejected. -/
namespace DatabaseAdmin.RedisValues
open CodeUnits RedisReplies ClusterScans SetPages MysqlLoads

section Writing
variable {σ : Type} (server : RedisServer σ)

def fails : Option (KeyState σ) → List Command → Bool
  | _, [] => false
  | state, command :: rest => (execute server state command).isNone || fails ((execute server state command).getD state) rest

structure Written (σ : Type) where
  threw : Bool
  after : Option (KeyState σ)

def writeTypedValue (queued : Bool) (state : Option (KeyState σ)) (value : TypedValue) (ttlMs : Option ℤ) : Written σ :=
  if queued then ⟨fails server state (buildWriteCommands value ttlMs), runAll server state (buildWriteCommands value ttlMs)⟩
  else ⟨true, state⟩

def SameKey : Option (KeyState σ) → Option (KeyState σ) → Prop
  | none, none => True
  | some a, some b => Same a.content b.content ∧ a.expiry = b.expiry
  | _, _ => False

def LosesNothing (queued : Bool) (state : Option (KeyState σ)) (value : TypedValue) (ttlMs : Option ℤ) : Prop :=
  (writeTypedValue server queued state value ttlMs).threw = true →
    SameKey (writeTypedValue server queued state value ttlMs).after state

def scoreRead (m : Text × Text) : Prop := (server.score (octets m.2)).isSome = true

def idOf (id : Text) : Text := if id ≠ [] ∧ id ≠ units "*" then id else units "*"

def IdsRead : EntryId → List (Text × Record) → Prop
  | _, [] => True
  | last, e :: rest =>
      if entriesOf e.2 = [] then IdsRead last rest
      else ∃ id, server.entryId (octets (idOf e.1)) last = some id ∧ IdsRead id rest

def ValueRead : TypedValue → Prop
  | .zset members _ => ∀ m ∈ members, scoreRead server m
  | .stream entries _ => IdsRead server (0, 0) entries
  | _ => True

def Bare : TypedValue → Prop
  | .string _ => False
  | .list items _ => items = []
  | .set members _ => members = []
  | .zset members _ => members = []
  | .hash fields _ => fields = []
  | .stream entries _ => ∀ e ∈ entries, entriesOf e.2 = []
  | .none => True

structure Accepts (value : TypedValue) (ttlMs : Option ℤ) : Prop where
  readable : ValueRead server value
  expiry : ∀ ms, ttlMs = some ms → 0 < ms → ¬ Bare value → (server.deadline ms).isSome = true

def remnant (value : TypedValue) (ttlMs : Option ℤ) : Option (KeyState σ) :=
  runAll server none (buildWriteCommands value ttlMs)

end Writing

section Fails
variable {σ : Type} (server : RedisServer σ)

theorem failsAppend (state : Option (KeyState σ)) (a b : List Command) :
    fails server state (a ++ b) = (fails server state a || fails server (runAll server state a) b) := by
  induction a generalizing state with
  | nil => rfl
  | cons command a ih => rw [List.cons_append, fails, fails, ih, Bool.or_assoc, runAll, runAll, List.foldl_cons]

def Kind {γ : Type} (wrap : γ → Content σ) (state : Option (KeyState σ)) : Prop := ∀ key ∈ state, ∃ old, key.content = wrap old

theorem partsFail {α γ : Type} (wrap : γ → Content σ) (command : List α → Command) (ok : List α → Prop) (parts : List (List α))
    (takes : ∀ part state, Kind wrap state → ok part → ∃ key, execute server state (command part) = some (some key) ∧ Kind wrap (some key))
    (rejects : ∀ part state, ¬ ok part → execute server state (command part) = none) {state : Option (KeyState σ)}
    (kind : Kind wrap state) : (fails server state (parts.map command) = false ↔ ∀ part ∈ parts, ok part) ∧
      ((∀ part ∈ parts, ok part) → (runAll server state (parts.map command) = none ↔ state = none ∧ parts = [])) := by
  induction parts generalizing state with
  | nil => exact ⟨by simp [fails], fun _ => by simp [runAll]⟩
  | cons part parts ih =>
    rw [List.forall_mem_cons, List.map_cons, fails]
    by_cases fine : ok part
    · obtain ⟨key, done, later⟩ := takes part state kind fine
      obtain ⟨rest, left⟩ := ih later
      rw [done]
      refine ⟨by simpa [fine] using rest, fun all => ?_⟩
      have whole : runAll server state (command part :: parts.map command) = runAll server (some key) (parts.map command) := by
        rw [runAll, List.foldl_cons, done]
        rfl
      rw [whole, left all.2]
      simp
    · rw [rejects part state fine]
      exact ⟨by simp [fine], fun all => absurd all.1 fine⟩

theorem chunkAll {α : Type} {items : List α} {p : α → Prop} : (∀ part ∈ chunk items, ∀ x ∈ part, p x) ↔ ∀ x ∈ items, p x := by
  conv_rhs => rw [← chunkJoin items]
  simp only [List.mem_flatten]
  exact ⟨fun parts x ⟨part, listed, member⟩ => parts part listed x member, fun all part listed x member => all x ⟨part, listed, member⟩⟩

theorem chunkNone {α : Type} {items : List α} : chunk items = [] ↔ items = [] := by
  refine ⟨fun none => by_contra fun some' => chunkSome some' none, fun none => ?_⟩
  rw [none]
  rfl

theorem kindTakes {γ : Type} {wrap : γ → Content σ} (start : γ) {c : Command} {state : Option (KeyState σ)} (grow : γ → γ)
    (added : ∀ state, execute server state c =
      (add server (state.map KeyState.content) c).map fun content => some ⟨content, state.bind KeyState.expiry⟩)
    (fresh : add server none c = some (wrap (grow start))) (grown : ∀ old, add server (some (wrap old)) c = some (wrap (grow old)))
    (kind : Kind wrap state) : ∃ key, execute server state c = some (some key) ∧ Kind wrap (some key) := by
  rw [added]
  cases state with
  | none =>
    rw [Option.map_none, fresh]
    exact ⟨_, rfl, fun key here => by cases here; exact ⟨_, rfl⟩⟩
  | some key =>
    obtain ⟨old, same⟩ := kind key rfl
    rw [Option.map_some, same, grown]
    exact ⟨_, rfl, fun key here => by cases here; exact ⟨_, rfl⟩⟩

theorem chunksTaken {α γ : Type} (wrap : γ → Content σ) (command : List α → Command) (start : γ) (grow : List α → γ → γ) (items : List α)
    (added : ∀ part state, execute server state (command part) =
      (add server (state.map KeyState.content) (command part)).map fun content => some ⟨content, state.bind KeyState.expiry⟩)
    (fresh : ∀ part, add server none (command part) = some (wrap (grow part start)))
    (grown : ∀ part old, add server (some (wrap old)) (command part) = some (wrap (grow part old))) :
    fails server none ((chunk items).map command) = false ∧ (runAll server none ((chunk items).map command) = none ↔ items = []) := by
  obtain ⟨all, left⟩ := partsFail server wrap command (fun _ => True) (chunk items)
    (fun part state kind _ => kindTakes server start (grow part) (added part) (fresh part) (grown part) kind)
    (fun _ _ no => absurd trivial no) (fun _ none => nomatch none : Kind wrap none)
  exact ⟨by simpa using all, by simpa [chunkNone] using left fun _ _ => trivial⟩

theorem scoresFail {part : List (Text × Text)} (unread : ¬ ∀ m ∈ part, scoreRead server m) :
    (part.map Prod.swap).mapM (scored server) = none := by
  induction part with
  | nil => exact absurd (fun _ => nofun) unread
  | cons m part ih =>
    rw [List.forall_mem_cons, not_and_or] at unread
    rw [List.map_cons, List.mapM_cons]
    cases read : scored server m.swap with
    | none => rfl
    | some pair =>
      have here : scoreRead server m := by
        have some' : (scored server m.swap).isSome = true := by rw [read]; rfl
        simpa [scored, scoreRead] using some'
      rw [ih (unread.resolve_left fun unread => unread here)]
      rfl

theorem scoresRead {part : List (Text × Text)} (read : ∀ m ∈ part, scoreRead server m) :
    ∃ pairs, (part.map Prod.swap).mapM (scored server) = some pairs := by
  induction part with
  | nil => exact ⟨[], rfl⟩
  | cons m part ih =>
    rw [List.forall_mem_cons] at read
    obtain ⟨pairs, rest⟩ := ih read.2
    obtain ⟨score, here⟩ := Option.isSome_iff_exists.mp read.1
    have own : scored server m.swap = some (octets m.1, score) := by
      rw [scored, Prod.fst_swap, here]
      rfl
    exact ⟨(octets m.1, score) :: pairs, by rw [List.map_cons, List.mapM_cons, own, rest]; rfl⟩

def Behind (last : EntryId) (state : Option (KeyState σ)) : Prop :=
  (state = none ∧ last = (0, 0)) ∨ ∃ old expiry, state = some ⟨.stream old last, expiry⟩

theorem addTaken {last : EntryId} {state : Option (KeyState σ)} (behind : Behind last state) (id : Text) (fields : Record) :
    (server.entryId (octets id) last = none → execute server state (.xadd id fields) = none) ∧
      ∀ i, server.entryId (octets id) last = some i →
        ∃ key, execute server state (.xadd id fields) = some (some key) ∧ Behind i (some key) := by
  rcases behind with ⟨rfl, rfl⟩ | ⟨old, expiry, rfl⟩
  · refine ⟨fun rejected => by simp [execute, add, rejected], fun i taken => ?_⟩
    exact ⟨⟨.stream [(i, bytePairs fields)] i, none⟩, by simp [execute, add, taken], .inr ⟨_, _, rfl⟩⟩
  · refine ⟨fun rejected => by simp [execute, add, rejected], fun i taken => ?_⟩
    exact ⟨⟨.stream (old ++ [(i, bytePairs fields)]) i, expiry⟩, by simp [execute, add, taken], .inr ⟨_, _, rfl⟩⟩

theorem streamFails (entries : List (Text × Record)) {last : EntryId} {state : Option (KeyState σ)} (behind : Behind last state) :
    (fails server state (entries.filterMap addCommand) = false ↔ IdsRead server last entries) ∧ (IdsRead server last entries →
      (runAll server state (entries.filterMap addCommand) = none ↔ state = none ∧ ∀ e ∈ entries, entriesOf e.2 = [])) := by
  induction entries generalizing last state with
  | nil => exact ⟨by simp [fails, IdsRead], fun _ => by simp [runAll]⟩
  | cons e entries ih =>
    rw [IdsRead, List.forall_mem_cons]
    by_cases bare : entriesOf e.2 = []
    · have skipped : addCommand e = none := if_pos bare
      rw [List.filterMap_cons_none skipped, if_pos bare]
      simpa [bare] using ih behind
    · have command : addCommand e = some (.xadd (idOf e.1) (entriesOf e.2)) := if_neg bare
      obtain ⟨rejects, takes⟩ := addTaken server behind (idOf e.1) (entriesOf e.2)
      rw [List.filterMap_cons_some command, if_neg bare, fails, runAll, List.foldl_cons]
      cases read : server.entryId (octets (idOf e.1)) last with
      | none => simp [rejects read]
      | some i =>
        obtain ⟨key, done, later⟩ := takes i read
        obtain ⟨rest, left⟩ := ih later
        rw [done, ← runAll]
        refine ⟨by simpa using rest, ?_⟩
        rintro ⟨j, same, ids⟩
        cases same
        rw [Option.getD_some, left ids]
        simp [bare]

theorem valueFails (value : TypedValue) : (fails server none (valueCommands value) = false ↔ ValueRead server value) ∧
    (ValueRead server value → (runAll server none (valueCommands value) = none ↔ Bare value)) := by
  have noKind {γ : Type} (wrap : γ → Content σ) : Kind wrap none := fun _ => nofun
  cases value with
  | string value => exact ⟨by simp [valueCommands, fails, execute, ValueRead], fun _ => by simp [valueCommands, runAll, execute, Bare]⟩
  | list items total =>
    obtain ⟨all, left⟩ := chunksTaken server .list .rpush [] (fun part old => old ++ part.map octets) items
      (fun _ _ => rfl) (fun _ => rfl) fun _ _ => rfl
    exact ⟨by simpa [valueCommands, ValueRead] using all, fun _ => by simpa [valueCommands, Bare] using left⟩
  | set members total =>
    obtain ⟨all, left⟩ := chunksTaken server .set .sadd [] (fun part old => (part.map octets).foldl putItem old) members
      (fun _ _ => rfl) (fun _ => rfl) fun _ _ => rfl
    exact ⟨by simpa [valueCommands, ValueRead] using all, fun _ => by simpa [valueCommands, Bare] using left⟩
  | hash fields total =>
    obtain ⟨all, left⟩ := chunksTaken server .hash .hset [] (fun part old => (bytePairs part).foldl putPair old) fields
      (fun _ _ => rfl) (fun _ => rfl) fun _ _ => rfl
    exact ⟨by simpa [valueCommands, ValueRead] using all, fun _ => by simpa [valueCommands, Bare] using left⟩
  | zset members total =>
    obtain ⟨all, left⟩ := partsFail server .zset (fun part => .zadd (part.map Prod.swap))
      (fun part => ∀ m ∈ part, scoreRead server m) (chunk members) (fun part state kind read => by
        obtain ⟨pairs, taken⟩ := scoresRead server read
        exact kindTakes server [] (fun old => pairs.foldl putPair old) (fun _ => rfl) (by rw [add, taken]; rfl)
          (fun _ => by rw [add, taken]; rfl) kind)
      (fun part state unread => by simp [execute, add, scoresFail server unread]) (noKind _)
    rw [chunkAll] at all left
    exact ⟨by simpa [valueCommands, ValueRead] using all, fun read => by simpa [valueCommands, Bare, chunkNone] using left read⟩
  | stream entries total =>
    obtain ⟨all, left⟩ := streamFails server entries (.inl ⟨rfl, rfl⟩)
    exact ⟨all, fun read => by simpa [valueCommands, Bare] using left read⟩
  | none => exact ⟨by simp [valueCommands, fails, ValueRead], fun _ => by simp [valueCommands, runAll, Bare]⟩

theorem batchFails (state : Option (KeyState σ)) (value : TypedValue) (ttlMs : Option ℤ) :
    fails server state (buildWriteCommands value ttlMs) = false ↔ Accepts server value ttlMs := by
  obtain ⟨all, left⟩ := valueFails server value
  have expired (built : Option (KeyState σ)) : fails server built (expireCommands ttlMs) = false ↔
      ∀ ms, ttlMs = some ms → 0 < ms → built ≠ none → (server.deadline ms).isSome = true := by
    cases ttlMs with
    | none => simp [expireCommands, fails]
    | some ms =>
      by_cases positive : 0 < ms
      · have one : expireCommands (some ms) = [.pexpire ms] := by simp [expireCommands, Option.filter, positive]
        rw [one]
        cases built with
        | none => simp [fails, execute]
        | some key => cases deadline : server.deadline ms <;> simp [fails, positive, execute, deadline]
      · have nothing : expireCommands (some ms) = [] := by simp [expireCommands, Option.filter, positive]
        rw [nothing]
        simp [fails, positive]
  by_cases deletes : value = .none
  · subst deletes
    exact ⟨fun _ => ⟨trivial, fun _ _ _ some' => absurd trivial some'⟩, fun _ => rfl⟩
  · have commands : buildWriteCommands value ttlMs = .del :: (valueCommands value ++ expireCommands ttlMs) := by
      cases value <;> first | rfl | contradiction
    have behindDel : fails server state (.del :: (valueCommands value ++ expireCommands ttlMs)) =
        fails server none (valueCommands value ++ expireCommands ttlMs) := rfl
    rw [commands, behindDel, failsAppend, Bool.or_eq_false_iff, all, expired]
    refine ⟨fun both => ⟨both.1, fun ms same positive some' => ?_⟩, fun accepts => ⟨accepts.readable, fun ms same positive some' => ?_⟩⟩
    · exact both.2 ms same positive (mt (left both.1).mp some')
    · exact accepts.expiry ms same positive (mt (left accepts.readable).mpr some')

end Fails

theorem sameKeyRefl {σ : Type} (state : Option (KeyState σ)) : SameKey state state := by
  cases state with
  | none => trivial
  | some key =>
    obtain ⟨content, expiry⟩ := key
    refine ⟨?_, rfl⟩
    cases content <;> first | rfl | exact List.Perm.refl _

def nanScore : TypedValue := .zset [(units "a", units "nan")] 1

end DatabaseAdmin.RedisValues
