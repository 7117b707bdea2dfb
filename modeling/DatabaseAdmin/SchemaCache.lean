import DatabaseAdmin.StepSystem
import Mathlib.Order.Basic
import Mathlib.Data.List.Basic

/-! The schema cache: memo, persisted rows, introspections in flight, generations and floors.
Events are numbered, so that a model is known by when its introspection began. -/
namespace DatabaseAdmin.SchemaCache
open StepSystem Function

structure CacheKey (κ υ σ : Type) where
  connectionId : κ
  userId : υ
  scope : σ
  deriving DecidableEq

structure CachedModel where
  begun : Nat
  fetchedAt : Nat
  deriving DecidableEq

structure SchemaResult where
  model : CachedModel
  refreshFailed : Bool
  deriving DecidableEq

structure Caller where
  covered : Nat
  promised : Nat
  joined : Bool
  deriving DecidableEq

inductive Progress where
  | acquiring
  | reading (begun : Nat)
  | landed (result : Option SchemaResult)
  deriving DecidableEq

structure Introspection (κ υ σ : Type) where
  key : CacheKey κ υ σ
  generation : Nat
  allowStale : Bool
  progress : Progress
  callers : List Caller

structure Answer where
  caller : Caller
  result : SchemaResult

structure Written where
  begun : Nat
  covered : Nat
  bumped : Nat
  reread : Bool

structure CacheState (κ υ σ ι : Type) where
  now : Nat
  memo : List (CacheKey κ υ σ × CachedModel)
  rows : CacheKey κ υ σ → Option CachedModel
  inflight : CacheKey κ υ σ → Option ι
  introspections : ι → Option (Introspection κ υ σ)
  generations : κ → Option Nat
  floors : CacheKey κ υ σ → Option Nat
  events : Nat
  covered : CacheKey κ υ σ → Nat
  bumped : κ → Nat
  purged : CacheKey κ υ σ → Nat
  floored : CacheKey κ υ σ → Nat
  answers : List Answer
  writes : List Written

inductive CacheAction (κ υ σ ι : Type) where
  | getSchema (id : ι) (key : CacheKey κ υ σ) (ttlMs : Nat) (force allowStale : Bool)
  | peekSchema (key : CacheKey κ υ σ)
  | begin (id : ι)
  | land (id : ι)
  | fail (id : ι)
  | settle (id : ι)
  | invalidate (connectionId : κ) (userId : υ) (scope : Option σ)
  | invalidateAll
  | tick (ms : Nat)

def memoMax : Nat := 32

section Operations
variable {κ υ σ ι : Type} [DecidableEq κ] [DecidableEq υ] [DecidableEq σ] [DecidableEq ι]

def restarted (now : Nat) (persisted : CacheKey κ υ σ → Option Nat) : CacheState κ υ σ ι where
  now := now
  memo := []
  rows k := (persisted k).map fun fetchedAt => ⟨1, fetchedAt⟩
  inflight _ := none
  introspections _ := none
  generations _ := none
  floors _ := none
  events := 2
  covered _ := 0
  bumped _ := 0
  purged _ := 0
  floored _ := 0
  answers := []
  writes := []

def generationOf (s : CacheState κ υ σ ι) (c : κ) : Nat := (s.generations c).getD 0

def floorOf (s : CacheState κ υ σ ι) (k : CacheKey κ υ σ) : Nat := (s.floors k).getD 0

def wrote (s : CacheState κ υ σ ι) (k : CacheKey κ υ σ) (v : CachedModel) (reread : Bool) : CacheState κ υ σ ι :=
  { s with writes := ⟨v.begun, s.covered k, s.bumped k.connectionId, reread⟩ :: s.writes }

def memoGet (s : CacheState κ υ σ ι) (k : CacheKey κ υ σ) : Option CachedModel :=
  (s.memo.find? (·.1 = k)).map (·.2)

def memoSet (s : CacheState κ υ σ ι) (k : CacheKey κ υ σ) (v : CachedModel) : CacheState κ υ σ ι :=
  let memo := s.memo.filter (·.1 ≠ k) ++ [(k, v)]
  { s with memo := memo.drop (memo.length - memoMax) }

def readCache (s : CacheState κ υ σ ι) (k : CacheKey κ υ σ) : Option (CachedModel × CacheState κ υ σ ι) :=
  match memoGet s k with
  | some v => some (v, s)
  | none => (s.rows k).map fun v => (v, wrote (memoSet s k v) k v true)

def isFresh (s : CacheState κ υ σ ι) (k : CacheKey κ υ σ) (v : CachedModel) (ttlMs : Nat) : Bool :=
  if v.fetchedAt ≤ floorOf s k then false else s.now - v.fetchedAt < ttlMs

def callerOf (s : CacheState κ υ σ ι) (k : CacheKey κ υ σ) (joined : Bool) : Caller :=
  ⟨s.covered k, max (s.purged k) (s.floored k), joined⟩

def keep (s : CacheState κ υ σ ι) (id : ι) (r : Introspection κ υ σ) : CacheState κ υ σ ι :=
  { s with introspections := update s.introspections id (some r) }

def joinOrStart (s : CacheState κ υ σ ι) (id : ι) (k : CacheKey κ υ σ) (allowStale : Bool) :
    Option (CacheState κ υ σ ι) :=
  match s.inflight k with
  | some running => (s.introspections running).map fun r =>
      keep s running { r with callers := callerOf s k true :: r.callers }
  | none =>
      if s.introspections id = none then
        some { keep s id ⟨k, generationOf s k.connectionId, allowStale, .acquiring, [callerOf s k false]⟩ with
          inflight := update s.inflight k (some id) }
      else none

def getSchema (s : CacheState κ υ σ ι) (id : ι) (k : CacheKey κ υ σ) (ttlMs : Nat) (force allowStale : Bool) :
    Option (CacheState κ υ σ ι) :=
  if force then joinOrStart s id k allowStale
  else match readCache s k with
    | some (v, s') =>
        if isFresh s' k v ttlMs then
          some { s' with answers := ⟨callerOf s' k false, ⟨v, false⟩⟩ :: s'.answers }
        else joinOrStart s' id k allowStale
    | none => joinOrStart s id k allowStale

def peekSchema (s : CacheState κ υ σ ι) (k : CacheKey κ υ σ) : CacheState κ υ σ ι :=
  match readCache s k with
  | some (_, s') => s'
  | none => s

def progressTo (s : CacheState κ υ σ ι) (id : ι) (r : Introspection κ υ σ) (p : Progress) : CacheState κ υ σ ι :=
  keep s id { r with progress := p }

def begin (s : CacheState κ υ σ ι) (id : ι) (r : Introspection κ υ σ) : Option (CacheState κ υ σ ι) :=
  match r.progress with
  | .acquiring => some (progressTo s id r (.reading s.events))
  | _ => none

def putRow (s : CacheState κ υ σ ι) (k : CacheKey κ υ σ) (v : CachedModel) : CacheState κ υ σ ι :=
  wrote { memoSet s k v with rows := update s.rows k (some v) } k v false

def land (s : CacheState κ υ σ ι) (id : ι) (r : Introspection κ υ σ) : Option (CacheState κ υ σ ι) :=
  match r.progress with
  | .reading begun =>
      let v : CachedModel := ⟨begun, s.now⟩
      let s' := if generationOf s r.key.connectionId = r.generation then putRow s r.key v else s
      some (progressTo s' id r (.landed (some ⟨v, false⟩)))
  | _ => none

def fail (s : CacheState κ υ σ ι) (id : ι) (r : Introspection κ υ σ) : Option (CacheState κ υ σ ι) :=
  match r.progress with
  | .landed _ => none
  | _ =>
      if r.allowStale then
        match readCache s r.key with
        | some (v, s') => some (progressTo s' id r (.landed (some ⟨v, true⟩)))
        | none => some (progressTo s id r (.landed none))
      else some (progressTo s id r (.landed none))

def settle (s : CacheState κ υ σ ι) (id : ι) (r : Introspection κ υ σ) : Option (CacheState κ υ σ ι) :=
  match r.progress with
  | .landed result => some { s with
      inflight := if s.inflight r.key = some id then update s.inflight r.key none else s.inflight
      introspections := update s.introspections id none
      answers := result.elim [] (fun found => r.callers.map (⟨·, found⟩)) ++ s.answers }
  | _ => none

def bump (s : CacheState κ υ σ ι) (c : κ) : CacheState κ υ σ ι :=
  { s with
    generations := update s.generations c (some (generationOf s c + 1))
    bumped := update s.bumped c s.events }

def invalidate (s : CacheState κ υ σ ι) (c : κ) (u : υ) : Option σ → CacheState κ υ σ ι
  | none => { bump s c with
      rows := fun k => if k.connectionId = c ∧ k.userId = u then none else s.rows k
      memo := s.memo.filter (·.1.connectionId ≠ c)
      floors := fun k => if k.connectionId = c then none else s.floors k
      covered := fun k => if k.connectionId = c then s.events else s.covered k
      purged := fun k => if k.connectionId = c ∧ k.userId = u then s.events else s.purged k
      floored := fun k => if k.connectionId = c then 0 else s.floored k }
  | some scope => { bump s c with
      floors := update s.floors ⟨c, u, scope⟩ (some s.now)
      memo := s.memo.filter (·.1 ≠ ⟨c, u, scope⟩)
      covered := update s.covered ⟨c, u, scope⟩ s.events
      floored := update s.floored ⟨c, u, scope⟩ s.events }

def invalidateAll (s : CacheState κ υ σ ι) : CacheState κ υ σ ι :=
  { s with
    memo := []
    floors := fun _ => none
    generations := fun c => (s.generations c).map (· + 1)
    covered := fun _ => s.events
    floored := fun _ => 0 }

def act (s : CacheState κ υ σ ι) : CacheAction κ υ σ ι → Option (CacheState κ υ σ ι)
  | .getSchema id k ttlMs force allowStale => getSchema s id k ttlMs force allowStale
  | .peekSchema k => some (peekSchema s k)
  | .begin id => (s.introspections id).bind (begin s id)
  | .land id => (s.introspections id).bind (land s id)
  | .fail id => (s.introspections id).bind (fail s id)
  | .settle id => (s.introspections id).bind (settle s id)
  | .invalidate c u scope => some (invalidate s c u scope)
  | .invalidateAll => some (invalidateAll s)
  | .tick ms => some { s with now := s.now + ms }

def step (s : CacheState κ υ σ ι) (a : CacheAction κ υ σ ι) : Option (CacheState κ υ σ ι) :=
  (act s a).map fun s' => { s' with events := s'.events + 1 }

end Operations

section Promises
variable {κ υ σ ι : Type}

def NeverStale (s : CacheState κ υ σ ι) : Prop :=
  (∀ a ∈ s.answers, a.caller.covered < a.result.model.begun) ∧ ∀ w ∈ s.writes, w.covered < w.begun

structure KeepsPromises (s : CacheState κ υ σ ι) : Prop where
  answers : ∀ a ∈ s.answers, a.caller.joined = false → a.result.refreshFailed = false →
    a.caller.promised < a.result.model.begun
  writes : ∀ w ∈ s.writes, w.reread = false → w.bumped < w.begun

structure Usable (now purged floored floor : Nat) (v : CachedModel) : Prop where
  past : v.fetchedAt ≤ now
  current : purged < v.begun
  readable : floored < v.begun ∨ v.fetchedAt ≤ floor

structure Pending (generation bumped events : Nat) (r : Introspection κ υ σ) : Prop where
  known : r.generation ≤ generation
  begun : ∀ b, r.progress = .reading b → r.generation = generation → bumped < b
  asked : ∀ c ∈ r.callers, c.joined = false → c.promised < events
  reading : ∀ c ∈ r.callers, c.joined = false → ∀ b, r.progress = .reading b → c.promised < b
  landed : ∀ c ∈ r.callers, c.joined = false → ∀ v, r.progress = .landed (some ⟨v, false⟩) → c.promised < v.begun

structure Kept (s : CacheState κ υ σ ι) : Prop where
  bumped : ∀ c, s.bumped c < s.events
  purged : ∀ k, s.purged k ≤ s.bumped k.connectionId
  floored : ∀ k, s.floored k ≤ s.bumped k.connectionId
  memo : ∀ k v, (k, v) ∈ s.memo → Usable s.now (s.purged k) (s.floored k) (floorOf s k) v
  rows : ∀ k v, s.rows k = some v → Usable s.now (s.purged k) (s.floored k) (floorOf s k) v
  introspections : ∀ id r, s.introspections id = some r →
    Pending (generationOf s r.key.connectionId) (s.bumped r.key.connectionId) s.events r
  answers : ∀ a ∈ s.answers, a.caller.joined = false → a.result.refreshFailed = false →
    a.caller.promised < a.result.model.begun
  writes : ∀ w ∈ s.writes, w.reread = false → w.bumped < w.begun

variable {s s' : CacheState κ υ σ ι} {id : ι} {k : CacheKey κ υ σ} {v : CachedModel} {r : Introspection κ υ σ}

theorem callerPromised (kept : Kept s) (k : CacheKey κ υ σ) (joined : Bool) :
    (callerOf s k joined).promised ≤ s.bumped k.connectionId :=
  Nat.max_le.mpr ⟨kept.purged k, kept.floored k⟩

theorem keptRestarted (now : Nat) (persisted : CacheKey κ υ σ → Option Nat)
    (past : ∀ k, ∀ fetchedAt ∈ persisted k, fetchedAt ≤ now) :
    Kept (restarted now persisted : CacheState κ υ σ ι) := by
  refine ⟨fun _ => by simp [restarted], fun _ => Nat.le_refl 0, fun _ => Nat.le_refl 0, nofun, ?_, nofun, nofun, nofun⟩
  intro k v stored
  obtain ⟨fetchedAt, known, rfl⟩ := Option.map_eq_some_iff.mp stored
  exact ⟨past k fetchedAt known, Nat.one_pos, Or.inl Nat.one_pos⟩

theorem keptWrote (kept : Kept s) {reread : Bool} (fresh : reread = false → s.bumped k.connectionId < v.begun) :
    Kept (wrote s k v reread) := by
  obtain ⟨bumped, purged, floored, memo, rows, introspections, answers, writes⟩ := kept
  refine ⟨bumped, purged, floored, memo, rows, introspections, answers, ?_⟩
  intro w logged
  cases logged with
  | head => exact fresh
  | tail _ earlier => exact writes w earlier

theorem keptInvalidateAll (kept : Kept s) : Kept (invalidateAll s) := by
  obtain ⟨bumped, purged, floored, memo, rows, introspections, answers, writes⟩ := kept
  refine ⟨bumped, purged, fun _ => Nat.zero_le _, nofun, ?_, ?_, answers, writes⟩
  · intro key value stored
    obtain ⟨past, after, -⟩ := rows key value stored
    exact ⟨past, after, Or.inl (Nat.zero_lt_of_lt after)⟩
  · intro id r running
    obtain ⟨generation, begun, asked, reading, landed⟩ := introspections id r running
    cases known : s.generations r.key.connectionId with
    | none =>
      simp only [generationOf, invalidateAll, known] at generation begun ⊢
      exact ⟨generation, begun, asked, reading, landed⟩
    | some g =>
      simp only [generationOf, invalidateAll, known] at generation begun ⊢
      refine ⟨Nat.le_succ_of_le generation, ?_, asked, reading, landed⟩
      intro b _ same
      simp at same generation
      omega

theorem keptLater (kept : Kept s) : Kept { s with events := s.events + 1 } := by
  obtain ⟨bumped, purged, floored, memo, rows, introspections, answers, writes⟩ := kept
  refine ⟨fun c => Nat.lt_succ_of_lt (bumped c), purged, floored, memo, rows, ?_, answers, writes⟩
  intro id r running
  obtain ⟨known, begun, asked, reading, landed⟩ := introspections id r running
  exact ⟨known, begun, fun c mine first => Nat.lt_succ_of_lt (asked c mine first), reading, landed⟩

theorem keptTick (kept : Kept s) (ms : Nat) : Kept { s with now := s.now + ms } := by
  obtain ⟨bumped, purged, floored, memo, rows, introspections, answers, writes⟩ := kept
  have later {purged floored floor : Nat} {v : CachedModel} (usable : Usable s.now purged floored floor v) :
      Usable (s.now + ms) purged floored floor v :=
    ⟨Nat.le_add_right_of_le usable.past, usable.current, usable.readable⟩
  exact ⟨bumped, purged, floored, fun k v stored => later (memo k v stored),
    fun k v stored => later (rows k v stored), introspections, answers, writes⟩

theorem pendingFailed {generation bumped events : Nat} (pending : Pending generation bumped events r)
    {result : Option SchemaResult} (failed : ∀ found ∈ result, found.refreshFailed = true) :
    Pending generation bumped events { r with progress := .landed result } := by
  refine ⟨pending.known, nofun, pending.asked, nofun, ?_⟩
  rintro c - - v ⟨⟩
  exact absurd (failed _ rfl) (by simp)

section Runs
variable [DecidableEq ι]

theorem keptKeep (kept : Kept s) (pending : Pending (generationOf s r.key.connectionId)
    (s.bumped r.key.connectionId) s.events r) : Kept (keep s id r) := by
  obtain ⟨bumped, purged, floored, memo, rows, introspections, answers, writes⟩ := kept
  refine ⟨bumped, purged, floored, memo, rows, ?_, answers, writes⟩
  intro other found running
  by_cases same : other = id
  · subst same
    have mine : r = found := by simpa [keep] using running
    exact mine ▸ pending
  · simp only [keep, update_of_ne same] at running
    exact introspections other found running

theorem keptBegin (kept : Kept s) (here : s.introspections id = some r) (moved : begin s id r = some s') :
    Kept s' := by
  simp only [begin] at moved
  split at moved
  · cases moved
    obtain ⟨known, -, asked, -, -⟩ := kept.introspections id r here
    refine keptKeep kept ⟨known, ?_, asked, ?_, nofun⟩
    · rintro b ⟨⟩ -
      exact kept.bumped r.key.connectionId
    · rintro c mine first b ⟨⟩
      exact asked c mine first
  · contradiction

end Runs

variable [DecidableEq κ] [DecidableEq υ] [DecidableEq σ]

theorem memoGetMem (found : memoGet s k = some v) : (k, v) ∈ s.memo := by
  obtain ⟨⟨key, value⟩, first, rfl⟩ := Option.map_eq_some_iff.mp found
  have same : key = k := by simpa using List.find?_some first
  exact same ▸ List.mem_of_find?_eq_some first

theorem keptMemoSet (kept : Kept s) (usable : Usable s.now (s.purged k) (s.floored k) (floorOf s k) v) :
    Kept (memoSet s k v) := by
  obtain ⟨bumped, purged, floored, memo, rows, introspections, answers, writes⟩ := kept
  refine ⟨bumped, purged, floored, ?_, rows, introspections, answers, writes⟩
  intro key value stored
  rcases List.mem_append.mp (List.mem_of_mem_drop stored) with old | new
  · exact memo key value (List.mem_of_mem_filter old)
  · cases List.mem_singleton.mp new
    exact usable

theorem readCacheKept (kept : Kept s) (found : readCache s k = some (v, s')) :
    Kept s' ∧ Usable s'.now (s'.purged k) (s'.floored k) (floorOf s' k) v ∧
      s'.introspections = s.introspections := by
  simp only [readCache] at found
  split at found
  · rename_i value hit
    cases found
    exact ⟨kept, kept.memo k v (memoGetMem hit), rfl⟩
  · obtain ⟨_, stored, same⟩ := Option.map_eq_some_iff.mp found
    cases same
    have usable := kept.rows k v stored
    exact ⟨keptWrote (keptMemoSet kept usable) nofun, usable, rfl⟩

theorem keptPeek (kept : Kept s) (k : CacheKey κ υ σ) : Kept (peekSchema s k) := by
  simp only [peekSchema]
  split
  · exact (readCacheKept kept ‹_›).1
  · exact kept

theorem keptPutRow (kept : Kept s) (past : v.fetchedAt ≤ s.now) (fresh : s.bumped k.connectionId < v.begun) :
    Kept (putRow s k v) := by
  have usable : Usable s.now (s.purged k) (s.floored k) (floorOf s k) v :=
    ⟨past, Nat.lt_of_le_of_lt (kept.purged k) fresh, Or.inl (Nat.lt_of_le_of_lt (kept.floored k) fresh)⟩
  obtain ⟨bumped, purged, floored, memo, rows, introspections, answers, writes⟩ := keptMemoSet kept usable
  have stored : Kept { memoSet s k v with rows := update s.rows k (some v) } := by
    refine ⟨bumped, purged, floored, memo, ?_, introspections, answers, writes⟩
    intro key value stored
    by_cases same : key = k
    · subst same
      have new : v = value := by simpa using stored
      exact new ▸ usable
    · simp only [update_of_ne same] at stored
      exact rows key value stored
  exact keptWrote stored fun _ => fresh

section Invalidations
omit [DecidableEq υ] [DecidableEq σ]

theorem pendingBumped (c : κ) (pending : Pending (generationOf s r.key.connectionId)
    (s.bumped r.key.connectionId) s.events r) :
    Pending (generationOf (bump s c) r.key.connectionId) ((bump s c).bumped r.key.connectionId) (s.events + 1) r := by
  obtain ⟨known, begun, asked, reading, landed⟩ := pending
  have later : ∀ c ∈ r.callers, c.joined = false → c.promised < s.events + 1 :=
    fun c mine first => Nat.lt_succ_of_lt (asked c mine first)
  by_cases same : r.key.connectionId = c
  · subst same
    refine ⟨?_, ?_, later, reading, landed⟩
    · simp only [generationOf, bump, update_self, Option.getD_some] at known ⊢
      omega
    · intro b _ current
      simp only [generationOf, bump, update_self, Option.getD_some] at known current
      omega
  · simp only [generationOf, bump, update_of_ne same] at known begun ⊢
    exact ⟨known, begun, later, reading, landed⟩

theorem bumpedBefore (kept : Kept s) (c d : κ) :
    s.bumped d ≤ (bump s c).bumped d ∧ (bump s c).bumped d < s.events + 1 := by
  have before := kept.bumped d
  by_cases same : d = c
  · subst same
    simp only [bump, update_self]
    omega
  · simp only [bump, update_of_ne same]
    omega

theorem bumpedHere (s : CacheState κ υ σ ι) (c : κ) : (bump s c).bumped c = s.events := by simp [bump]

end Invalidations

theorem keptInvalidateConnection (kept : Kept s) (c : κ) (u : υ) :
    Kept { invalidate s c u none with events := s.events + 1 } := by
  refine ⟨fun d => (bumpedBefore kept c d).2, ?_, ?_, ?_, ?_, ?_, kept.answers, kept.writes⟩
  · intro key
    simp only [invalidate]
    split
    · rename_i covered
      rw [covered.1]
      exact Nat.le_of_eq (bumpedHere s c).symm
    · exact Nat.le_trans (kept.purged key) (bumpedBefore kept c _).1
  · intro key
    simp only [invalidate]
    split
    · exact Nat.zero_le _
    · exact Nat.le_trans (kept.floored key) (bumpedBefore kept c _).1
  · intro key value stored
    obtain ⟨old, elsewhere⟩ := List.mem_filter.mp stored
    have apart : key.connectionId ≠ c := by simpa using elsewhere
    simpa [invalidate, floorOf, apart, bump] using kept.memo key value old
  · intro key value stored
    simp only [invalidate] at stored
    split at stored
    · contradiction
    · rename_i other
      obtain ⟨past, current, readable⟩ := kept.rows key value stored
      by_cases same : key.connectionId = c
      · have floorless : 0 < value.begun := Nat.zero_lt_of_lt current
        exact ⟨past, by simpa [invalidate, other] using current, Or.inl (by simpa [invalidate, same] using floorless)⟩
      · exact ⟨past, by simpa [invalidate, other] using current, by simpa [invalidate, floorOf, same] using readable⟩
  · intro id r running
    exact pendingBumped c (kept.introspections id r running)

theorem keptInvalidateScope (kept : Kept s) (c : κ) (u : υ) (scope : σ) :
    Kept { invalidate s c u (some scope) with events := s.events + 1 } := by
  refine ⟨fun d => (bumpedBefore kept c d).2, ?_, ?_, ?_, ?_, ?_, kept.answers, kept.writes⟩
  · exact fun key => Nat.le_trans (kept.purged key) (bumpedBefore kept c _).1
  · intro key
    by_cases same : key = ⟨c, u, scope⟩
    · subst same
      simp [invalidate, bumpedHere]
    · simpa [invalidate, same] using Nat.le_trans (kept.floored key) (bumpedBefore kept c _).1
  · intro key value stored
    obtain ⟨old, elsewhere⟩ := List.mem_filter.mp stored
    have apart : key ≠ ⟨c, u, scope⟩ := by simpa using elsewhere
    simpa [invalidate, floorOf, apart, bump] using kept.memo key value old
  · intro key value stored
    obtain ⟨past, current, readable⟩ := kept.rows key value stored
    by_cases same : key = ⟨c, u, scope⟩
    · subst same
      exact ⟨past, current, Or.inr (by simpa [invalidate, floorOf] using past)⟩
    · exact ⟨past, current, by simpa [invalidate, floorOf, same] using readable⟩
  · intro id r running
    exact pendingBumped c (kept.introspections id r running)

variable [DecidableEq ι]

theorem keptJoinOrStart (kept : Kept s) {allowStale : Bool} (moved : joinOrStart s id k allowStale = some s') :
    Kept s' := by
  simp only [joinOrStart] at moved
  split at moved
  · rename_i running _
    obtain ⟨r, here, rfl⟩ := Option.map_eq_some_iff.mp moved
    obtain ⟨known, begun, asked, reading, landed⟩ := kept.introspections running r here
    refine keptKeep kept ⟨known, begun, ?_, ?_, ?_⟩
    · rintro c (_ | ⟨_, mine⟩) first
      · contradiction
      · exact asked c mine first
    · rintro c (_ | ⟨_, mine⟩) first
      · contradiction
      · exact reading c mine first
    · rintro c (_ | ⟨_, mine⟩) first
      · contradiction
      · exact landed c mine first
  · split at moved
    · cases moved
      have promised : (callerOf s k false).promised < s.events :=
        Nat.lt_of_le_of_lt (callerPromised kept k false) (kept.bumped k.connectionId)
      have started : Kept (keep s id
          ⟨k, generationOf s k.connectionId, allowStale, .acquiring, [callerOf s k false]⟩) :=
        keptKeep kept ⟨Nat.le_refl _, nofun, by simpa using fun _ => promised, nofun, nofun⟩
      obtain ⟨bumped, purged, floored, memo, rows, introspections, answers, writes⟩ := started
      exact ⟨bumped, purged, floored, memo, rows, introspections, answers, writes⟩
    · contradiction

theorem keptGetSchema (kept : Kept s) {ttlMs : Nat} {force allowStale : Bool}
    (moved : getSchema s id k ttlMs force allowStale = some s') : Kept s' := by
  simp only [getSchema] at moved
  split at moved
  · exact keptJoinOrStart kept moved
  · split at moved
    · rename_i v read found
      obtain ⟨keptRead, usable, -⟩ := readCacheKept kept found
      split at moved
      · rename_i fresh
        cases moved
        obtain ⟨bumped, purged, floored, memo, rows, introspections, answers, writes⟩ := keptRead
        refine ⟨bumped, purged, floored, memo, rows, introspections, ?_, writes⟩
        have above : ¬ v.fetchedAt ≤ floorOf read k := by
          intro below
          simp [isFresh, below] at fresh
        intro a answered
        cases answered with
        | head => exact fun _ _ => Nat.max_lt.mpr ⟨usable.current, usable.readable.resolve_right above⟩
        | tail _ earlier => exact answers a earlier
      · exact keptJoinOrStart keptRead moved
    · exact keptJoinOrStart kept moved

theorem keptLand (kept : Kept s) (here : s.introspections id = some r) (moved : land s id r = some s') :
    Kept s' := by
  simp only [land] at moved
  split at moved
  · rename_i b began
    cases moved
    obtain ⟨known, begun, asked, reading, -⟩ := kept.introspections id r here
    split
    · rename_i current
      have stored : Kept (putRow s r.key ⟨b, s.now⟩) := keptPutRow kept (Nat.le_refl _) (begun b began current.symm)
      refine keptKeep stored ⟨known, nofun, asked, nofun, ?_⟩
      rintro c mine first v ⟨⟩
      exact reading c mine first b began
    · refine keptKeep kept ⟨known, nofun, asked, nofun, ?_⟩
      rintro c mine first v ⟨⟩
      exact reading c mine first b began
  · contradiction

theorem keptFail (kept : Kept s) (here : s.introspections id = some r) (moved : fail s id r = some s') :
    Kept s' := by
  have pending := kept.introspections id r here
  simp only [fail] at moved
  split at moved
  · contradiction
  · split at moved
    · split at moved
      · rename_i v read found
        cases moved
        obtain ⟨keptRead, -, same⟩ := readCacheKept kept found
        exact keptKeep keptRead (pendingFailed (keptRead.introspections id r (same ▸ here)) (by simp))
      · cases moved
        exact keptKeep kept (pendingFailed pending (by simp))
    · cases moved
      exact keptKeep kept (pendingFailed pending (by simp))

theorem keptSettle (kept : Kept s) (here : s.introspections id = some r) (moved : settle s id r = some s') :
    Kept s' := by
  simp only [settle] at moved
  split at moved
  · rename_i result landed
    cases moved
    have pending := kept.introspections id r here
    obtain ⟨bumped, purged, floored, memo, rows, introspections, answers, writes⟩ := kept
    refine ⟨bumped, purged, floored, memo, rows, ?_, ?_, writes⟩
    · intro other found running
      by_cases same : other = id
      · simp [same] at running
      · simp only [update_of_ne same] at running
        exact introspections other found running
    · intro a answered first fresh
      rcases List.mem_append.mp answered with new | old
      · cases result with
        | none => cases new
        | some found =>
          obtain ⟨c, mine, rfl⟩ := List.mem_map.mp new
          obtain ⟨model, failed⟩ := found
          cases fresh
          exact pending.landed c mine first model landed
      · exact answers a old first fresh
  · contradiction

theorem stepKept {a : CacheAction κ υ σ ι} (kept : Kept s) (moved : step s a = some s') : Kept s' := by
  obtain ⟨after, acted, rfl⟩ := Option.map_eq_some_iff.mp moved
  cases a <;> simp only [act] at acted
  case getSchema => exact keptLater (keptGetSchema kept acted)
  case peekSchema =>
    cases acted
    exact keptLater (keptPeek kept _)
  case invalidate c u scope =>
    cases acted
    cases scope with
    | none => exact keptInvalidateConnection kept c u
    | some scope => exact keptInvalidateScope kept c u scope
  case invalidateAll =>
    cases acted
    exact keptLater (keptInvalidateAll kept)
  case tick ms =>
    cases acted
    exact keptLater (keptTick kept ms)
  all_goals obtain ⟨r, here, acted⟩ := Option.bind_eq_some_iff.mp acted
  case begin => exact keptLater (keptBegin kept here acted)
  case land => exact keptLater (keptLand kept here acted)
  case fail => exact keptLater (keptFail kept here acted)
  case settle => exact keptLater (keptSettle kept here acted)

theorem promisesKept {now : Nat} {persisted : CacheKey κ υ σ → Option Nat} {acts : List (CacheAction κ υ σ ι)}
    (past : ∀ k, ∀ fetchedAt ∈ persisted k, fetchedAt ≤ now)
    (ran : runSteps step (restarted now persisted) acts = some s) : KeepsPromises s := by
  have kept : Kept s := StepSystem.everyRunKeeps stepKept (keptRestarted now persisted past) ran
  exact ⟨kept.answers, kept.writes⟩

end Promises

section Runs

instance (s : CacheState Nat Nat Nat Nat) : Decidable (NeverStale s) :=
  inferInstanceAs (Decidable ((∀ a ∈ s.answers, a.caller.covered < a.result.model.begun) ∧
    ∀ w ∈ s.writes, w.covered < w.begun))

def fresh : CacheState Nat Nat Nat Nat := restarted 100 fun _ => none

def users : CacheKey Nat Nat Nat := ⟨1, 1, 0⟩

def introspected (id : Nat) : List (CacheAction Nat Nat Nat Nat) :=
  [.getSchema id users 60000 false true, .begin id, .land id, .settle id]

def joinsOlder : List (CacheAction Nat Nat Nat Nat) :=
  [.getSchema 1 users 60000 false true, .begin 1, .invalidate 1 1 none, .getSchema 2 users 60000 true false,
   .land 1, .settle 1]

def readsPersisted : List (CacheAction Nat Nat Nat Nat) :=
  introspected 1 ++ [.invalidateAll, .getSchema 2 users 60000 false true]

def failsOver : List (CacheAction Nat Nat Nat Nat) :=
  introspected 1 ++ [.invalidate 1 1 (some 0), .getSchema 2 users 60000 true true, .fail 2, .settle 2]

def ServesOlder (acts : List (CacheAction Nat Nat Nat Nat)) : Prop :=
  ∃ s, runSteps step fresh acts = some s ∧ ¬ NeverStale s

theorem servedOlder : ServesOlder joinsOlder ∧ ServesOlder readsPersisted ∧ ServesOlder failsOver :=
  ⟨⟨_, rfl, by decide⟩, ⟨_, rfl, by decide⟩, ⟨_, rfl, by decide⟩⟩

def invalidatedInFlight : List (CacheAction Nat Nat Nat Nat) :=
  [.getSchema 1 users 60000 true true, .begin 1, .invalidate 1 1 (some 0), .land 1, .settle 1,
   .getSchema 2 users 60000 false true, .begin 2, .tick 3, .land 2, .settle 2, .getSchema 3 users 60000 false true]

def persistedEarlier (_ : CacheKey Nat Nat Nat) : Option Nat := some 90

def restartedBefore : CacheState Nat Nat Nat Nat := restarted 100 persistedEarlier

theorem invalidatedInFlightKept :
    ∃ s, runSteps step restartedBefore invalidatedInFlight = some s ∧ KeepsPromises s := by
  have past : ∀ k, ∀ fetchedAt ∈ persistedEarlier k, fetchedAt ≤ 100 := by simp [persistedEarlier]
  refine ⟨_, rfl, ?_⟩
  exact promisesKept past (rfl : runSteps step restartedBefore invalidatedInFlight = some _)

end Runs

end DatabaseAdmin.SchemaCache
