import DatabaseAdmin.StepSystem
import Mathlib.Data.Fintype.Basic

/-! The manager's run and session registries between users. Both are keyed by an id alone, and
run ids come with the request; only what goes through `acquire` is checked against the owner of
the connection. What each connector was asked to do is logged. -/
namespace DatabaseAdmin.OwnedHandles
open StepSystem Function

structure Connections (κ υ : Type) where
  owner : κ → υ
  isSql : κ → Bool

structure RunRecord (κ τ : Type) where
  connection : κ
  controller : τ

structure RunHandle (κ ρ υ : Type) where
  user : υ
  connection : κ
  runId : ρ
  aborted : Bool

structure SessionInfo where
  inTransaction : Bool
  autoCommit : Bool

structure SessionRecord (κ : Type) where
  connection : κ
  info : SessionInfo

inductive Phase where
  | live
  | closing
  deriving DecidableEq

inductive SessionCmd where
  | begin
  | commit
  | rollback
  deriving DecidableEq

inductive Order (ρ σ : Type) where
  | cancel (runId : ρ)
  | closeSession (id : σ)
  | sessionCommand (id : σ) (cmd : SessionCmd)

structure Registry (κ ρ σ τ υ : Type) where
  entries : κ → Option Phase
  runs : ρ → Option (RunRecord κ τ)
  handles : τ → Option (RunHandle κ ρ υ)
  sessions : σ → Option (SessionRecord κ)
  orders : κ → List (Order ρ σ)

def empty (κ ρ σ τ υ : Type) : Registry κ ρ σ τ υ :=
  ⟨fun _ => none, fun _ => none, fun _ => none, fun _ => none, fun _ => []⟩

inductive Request (κ ρ σ τ υ : Type) where
  | registerRun (handle : τ) (user : υ) (connection : κ) (runId : ρ)
  | done (handle : τ)
  | cancel (user : υ) (runId : ρ)
  | openSession (user : υ) (connection : κ) (id : σ)
  | closeSession (user : υ) (id : σ)
  | sessionCommand (user : υ) (id : σ) (cmd : SessionCmd) (ok : Bool)
  | getSession (user : υ) (id : σ)
  | opened (connection : κ)
  | linkLost (connection : κ)
  | disposed (connection : κ)

inductive Reply (κ : Type) where
  | done
  | noConnection (connection : κ)
  | cancelled (found : Bool)
  | noSession
  | failed
  | session (info : Option SessionInfo)

section Operations
variable {κ ρ σ τ υ : Type} [DecidableEq κ] [DecidableEq ρ] [DecidableEq σ] [DecidableEq τ] [DecidableEq υ]

def abort (s : Registry κ ρ σ τ υ) (t : τ) : Registry κ ρ σ τ υ :=
  { s with handles := update s.handles t ((s.handles t).map fun h => { h with aborted := true }) }

def ask (s : Registry κ ρ σ τ υ) (c : κ) (o : Order ρ σ) : Registry κ ρ σ τ υ :=
  { s with orders := update s.orders c (o :: s.orders c) }

def registerRun (m : Connections κ υ) (s : Registry κ ρ σ τ υ) (t : τ) (u : υ) (c : κ) (r : ρ) :
    Option (Registry κ ρ σ τ υ × Reply κ) :=
  if m.owner c ≠ u then some (s, .noConnection c)
  else match s.handles t with
    | some _ => none
    | none => some ({ s with
        runs := update s.runs r (some ⟨c, t⟩)
        handles := update s.handles t (some ⟨u, c, r, false⟩) }, .done)

-- By id alone, whoever's record is there by now.
def finishRun (s : Registry κ ρ σ τ υ) (t : τ) : Option (Registry κ ρ σ τ υ × Reply κ) :=
  match s.handles t with
  | none => none
  | some h => some ({ s with
      runs := update s.runs h.runId none
      handles := update s.handles t none }, .done)

def cancel (m : Connections κ υ) (s : Registry κ ρ σ τ υ) (r : ρ) : Registry κ ρ σ τ υ × Reply κ :=
  match s.runs r with
  | none => (s, .cancelled false)
  | some run =>
      let aborted := abort s run.controller
      if s.entries run.connection = some .live ∧ m.isSql run.connection then
        (ask aborted run.connection (.cancel r), .cancelled true)
      else (aborted, .cancelled true)

def openSession (m : Connections κ υ) (s : Registry κ ρ σ τ υ) (u : υ) (c : κ) (id : σ) :
    Option (Registry κ ρ σ τ υ × Reply κ) :=
  if m.owner c ≠ u then some (s, .noConnection c)
  else match s.sessions id with
    | some _ => none
    | none => some ({ s with sessions := update s.sessions id (some ⟨c, ⟨false, true⟩⟩) },
        .session (some ⟨false, true⟩))

def closeSession (m : Connections κ υ) (s : Registry κ ρ σ τ υ) (id : σ) : Registry κ ρ σ τ υ × Reply κ :=
  match s.sessions id with
  | none => (s, .done)
  | some x =>
      let closed := { s with sessions := update s.sessions id none }
      if s.entries x.connection ≠ none ∧ m.isSql x.connection then
        (ask closed x.connection (.closeSession id), .done)
      else (closed, .done)

def sessionCommand (m : Connections κ υ) (s : Registry κ ρ σ τ υ) (u : υ) (id : σ) (cmd : SessionCmd) (ok : Bool) :
    Registry κ ρ σ τ υ × Reply κ :=
  match s.sessions id with
  | none => (s, .noSession)
  | some x =>
      if m.owner x.connection ≠ u then (s, .noConnection x.connection)
      else
        let asked := ask s x.connection (.sessionCommand id cmd)
        if ok then
          let info := ⟨cmd = .begin, cmd ≠ .begin⟩
          ({ asked with sessions := update s.sessions id (some { x with info := info }) }, .session (some info))
        else (asked, .failed)

def getSession (s : Registry κ ρ σ τ υ) (id : σ) : Registry κ ρ σ τ υ × Reply κ :=
  (s, .session ((s.sessions id).map SessionRecord.info))

def linkLost (s : Registry κ ρ σ τ υ) (c : κ) : Registry κ ρ σ τ υ :=
  { s with
    entries := update s.entries c (some .closing)
    runs := fun r => (s.runs r).filter fun run => run.connection ≠ c
    handles := fun t => (s.handles t).map fun h =>
      if (s.runs h.runId).any fun run => run.connection = c ∧ run.controller = t then { h with aborted := true } else h
    sessions := fun id => (s.sessions id).filter fun x => x.connection ≠ c }

def serve (m : Connections κ υ) (s : Registry κ ρ σ τ υ) :
    Request κ ρ σ τ υ → Option (Registry κ ρ σ τ υ × Reply κ)
  | .registerRun t u c r => registerRun m s t u c r
  | .done t => finishRun s t
  | .cancel _ r => some (cancel m s r)
  | .openSession u c id => openSession m s u c id
  | .closeSession _ id => some (closeSession m s id)
  | .sessionCommand u id cmd ok => some (sessionCommand m s u id cmd ok)
  | .getSession _ id => some (getSession s id)
  | .opened c => some ({ s with entries := update s.entries c (some .live) }, .done)
  | .linkLost c => some (linkLost s c, .done)
  | .disposed c => some ({ s with entries := update s.entries c none }, .done)

def step (m : Connections κ υ) (s : Registry κ ρ σ τ υ) (a : Request κ ρ σ τ υ) : Option (Registry κ ρ σ τ υ) :=
  (serve m s a).map Prod.fst

end Operations

section Owners
variable {κ ρ σ τ υ : Type}

def user (s : Registry κ ρ σ τ υ) : Request κ ρ σ τ υ → Option υ
  | .registerRun _ u _ _ | .cancel u _ | .openSession u _ _ | .closeSession u _ | .sessionCommand u _ _ _
  | .getSession u _ => some u
  | .done t => (s.handles t).map RunHandle.user
  | .opened _ | .linkLost _ | .disposed _ => none

def alone [DecidableEq υ] (m : Connections κ υ) (s : Registry κ ρ σ τ υ) (u : υ) : Registry κ ρ σ τ υ :=
  { s with
    runs := fun r => (s.runs r).filter fun run => m.owner run.connection = u
    handles := fun t => (s.handles t).filter fun h => h.user = u
    sessions := fun id => (s.sessions id).filter fun x => m.owner x.connection = u }

-- A request leaves every run and session of the other users as it was, asks nothing of their
-- connectors, and its reply does not depend on them.
structure ConfinedTo [DecidableEq κ] [DecidableEq ρ] [DecidableEq σ] [DecidableEq τ] [DecidableEq υ]
    (m : Connections κ υ) (s : Registry κ ρ σ τ υ) (a : Request κ ρ σ τ υ) (u : υ)
    (s' : Registry κ ρ σ τ υ) (reply : Reply κ) : Prop where
  runs : ∀ r run, s.runs r = some run → m.owner run.connection ≠ u → s'.runs r = some run
  handles : ∀ t h, s.handles t = some h → h.user ≠ u → s'.handles t = some h
  sessions : ∀ id x, s.sessions id = some x → m.owner x.connection ≠ u → s'.sessions id = some x
  orders : ∀ c, m.owner c ≠ u → s'.orders c = s.orders c
  blind : (serve m (alone m s u) a).map Prod.snd = some reply

def Confined [DecidableEq κ] [DecidableEq ρ] [DecidableEq σ] [DecidableEq τ] [DecidableEq υ]
    (m : Connections κ υ) (s : Registry κ ρ σ τ υ) (a : Request κ ρ σ τ υ) : Prop :=
  ∀ u, user s a = some u → ∀ s' reply, serve m s a = some (s', reply) → ConfinedTo m s a u s' reply

def OwnIds (m : Connections κ υ) (s : Registry κ ρ σ τ υ) : Request κ ρ σ τ υ → Prop
  | .registerRun _ u _ r => ∀ t, ∀ h ∈ s.handles t, h.runId = r → h.user = u
  | .cancel u r => ∀ run ∈ s.runs r, m.owner run.connection = u
  | .closeSession u id | .sessionCommand u id _ _ | .getSession u id =>
      ∀ x ∈ s.sessions id, m.owner x.connection = u
  | _ => True

structure Sound (m : Connections κ υ) (s : Registry κ ρ σ τ υ) : Prop where
  runs : ∀ r run, s.runs r = some run →
    ∃ h, s.handles run.controller = some h ∧ h.connection = run.connection ∧ h.runId = r
  owns : ∀ t h, s.handles t = some h → m.owner h.connection = h.user
  apart : ∀ t t' h h', s.handles t = some h → s.handles t' = some h' → h.runId = h'.runId → h.user = h'.user

theorem soundEmpty (m : Connections κ υ) : Sound m (empty κ ρ σ τ υ) := ⟨nofun, nofun, nofun⟩

variable {m : Connections κ υ} {s : Registry κ ρ σ τ υ}

theorem runOwner (sound : Sound m s) {r : ρ} {run : RunRecord κ τ} (here : s.runs r = some run) :
    ∃ h, s.handles run.controller = some h ∧ h.runId = r ∧ h.user = m.owner run.connection := by
  obtain ⟨h, held, same, key⟩ := sound.runs r run here
  exact ⟨h, held, key, by rw [← same, sound.owns _ _ held]⟩

def RunHandle.bare (h : RunHandle κ ρ υ) : υ × κ × ρ := (h.user, h.connection, h.runId)

theorem soundFewer (sound : Sound m s) {t : Registry κ ρ σ τ υ}
    (runs : ∀ r run, t.runs r = some run → s.runs r = some run)
    (handles : ∀ k, (t.handles k).map RunHandle.bare = (s.handles k).map RunHandle.bare) : Sound m t := by
  have before {k : τ} {h : RunHandle κ ρ υ} (here : t.handles k = some h) :
      ∃ h', s.handles k = some h' ∧ h'.bare = h.bare := by
    have same := handles k
    rw [here] at same
    exact Option.map_eq_some_iff.mp same.symm
  have after {k : τ} {h : RunHandle κ ρ υ} (here : s.handles k = some h) :
      ∃ h', t.handles k = some h' ∧ h'.bare = h.bare := by
    have same := handles k
    rw [here] at same
    exact Option.map_eq_some_iff.mp same
  simp only [RunHandle.bare, Prod.mk.injEq] at before after
  constructor
  · intro r run here
    obtain ⟨h, held, connection, key⟩ := sound.runs r run (runs r run here)
    obtain ⟨h', held', -, connection', key'⟩ := after held
    exact ⟨h', held', connection'.trans connection, key'.trans key⟩
  · intro k h here
    obtain ⟨h', held, user, connection, -⟩ := before here
    rw [← user, ← connection]
    exact sound.owns k h' held
  · intro k k' h h' here here' same
    obtain ⟨g, held, user, -, key⟩ := before here
    obtain ⟨g', held', user', -, key'⟩ := before here'
    rw [← user, ← user']
    exact sound.apart k k' g g' held held' (by rw [key, key', same])

theorem soundAbort [DecidableEq τ] (sound : Sound m s) (t : τ) : Sound m (abort s t) := by
  refine soundFewer sound (fun _ _ here => here) (fun k => ?_)
  by_cases same : k = t
  · subst same
    cases held : s.handles k <;> simp [abort, held, RunHandle.bare]
  · simp [abort, update_of_ne same]

theorem soundLinkLost [DecidableEq κ] [DecidableEq τ] (sound : Sound m s) (c : κ) : Sound m (linkLost s c) := by
  refine soundFewer sound (fun r run here => ?_) (fun k => ?_)
  · simp only [linkLost, Option.filter_eq_some_iff] at here
    exact here.1
  · cases held : s.handles k with
    | none => simp [linkLost, held]
    | some h =>
      simp only [linkLost, held, Option.map_some]
      split <;> rfl

variable [DecidableEq ρ] [DecidableEq τ]

theorem soundRegisterRun [DecidableEq υ] (sound : Sound m s) {t : τ} {u : υ} {c : κ} {r : ρ}
    {s' : Registry κ ρ σ τ υ} {reply : Reply κ} (own : OwnIds m s (.registerRun t u c r))
    (moved : registerRun m s t u c r = some (s', reply)) : Sound m s' := by
  simp only [registerRun] at moved
  split at moved
  · cases moved
    exact sound
  · rename_i mine
    split at moved
    · contradiction
    · rename_i fresh
      cases moved
      obtain ⟨runs, owns, apart⟩ := sound
      simp only [OwnIds] at own
      refine ⟨fun r' run here => ?_, ?_, ?_⟩
      · dsimp only at here ⊢
        by_cases same : r' = r
        · subst same
          rw [update_self] at here
          cases here
          exact ⟨_, update_self .., rfl, rfl⟩
        · rw [update_of_ne same] at here
          obtain ⟨h, held, rest⟩ := runs r' run here
          have other : run.controller ≠ t := fun equal => by simp [equal, fresh] at held
          exact ⟨h, by rw [update_of_ne other, held], rest⟩
      · grind [update_apply]
      · grind [update_apply]

theorem soundFinishRun (sound : Sound m s) {t : τ} {s' : Registry κ ρ σ τ υ} {reply : Reply κ}
    (moved : finishRun s t = some (s', reply)) : Sound m s' := by
  simp only [finishRun] at moved
  split at moved
  · contradiction
  · rename_i h here
    cases moved
    obtain ⟨runs, owns, apart⟩ := sound
    refine ⟨?_, ?_, ?_⟩ <;> grind [update_apply]

variable [DecidableEq κ] [DecidableEq σ] [DecidableEq υ]

theorem stepSound (sound : Sound m s) {a : Request κ ρ σ τ υ} {s' : Registry κ ρ σ τ υ} (own : OwnIds m s a)
    (moved : step m s a = some s') : Sound m s' := by
  simp only [step, Option.map_eq_some_iff] at moved
  obtain ⟨⟨next, reply⟩, moved, rfl⟩ := moved
  have same {t : Registry κ ρ σ τ υ} (runs : t.runs = s.runs) (handles : t.handles = s.handles) : Sound m t :=
    soundFewer sound (fun _ _ here => runs ▸ here) (fun _ => by rw [handles])
  cases a with
  | registerRun t u c r => exact soundRegisterRun sound own moved
  | done t => exact soundFinishRun sound moved
  | cancel u r =>
    simp only [serve, cancel, Option.some.injEq] at moved
    split at moved
    · cases moved
      exact sound
    · rename_i run here
      have aborted := soundAbort sound run.controller
      split at moved
      · cases moved
        exact ⟨aborted.runs, aborted.owns, aborted.apart⟩
      · cases moved
        exact aborted
  | openSession u c id =>
    simp only [serve, openSession] at moved
    split at moved
    · cases moved
      exact sound
    · split at moved
      · contradiction
      · cases moved
        exact same rfl rfl
  | closeSession u id =>
    simp only [serve, closeSession, Option.some.injEq] at moved
    split at moved
    · cases moved
      exact sound
    · split at moved
      · cases moved
        exact same rfl rfl
      · cases moved
        exact same rfl rfl
  | sessionCommand u id cmd ok =>
    simp only [serve, sessionCommand, Option.some.injEq] at moved
    split at moved
    · cases moved
      exact sound
    · split at moved
      · cases moved
        exact sound
      · split at moved
        · cases moved
          exact same rfl rfl
        · cases moved
          exact same rfl rfl
  | getSession u id =>
    cases moved
    exact sound
  | opened c =>
    cases moved
    exact same rfl rfl
  | linkLost c =>
    cases moved
    exact soundLinkLost sound c
  | disposed c =>
    cases moved
    exact same rfl rfl

theorem confinedStill {a : Request κ ρ σ τ υ} {u : υ} {reply : Reply κ}
    (blind : (serve m (alone m s u) a).map Prod.snd = some reply) : ConfinedTo m s a u s reply :=
  ⟨fun _ _ here _ => here, fun _ _ here _ => here, fun _ _ here _ => here, fun _ _ => rfl, blind⟩

theorem registerRunConfined (sound : Sound m s) {t : τ} {u : υ} {c : κ} {r : ρ}
    {s' : Registry κ ρ σ τ υ} {reply : Reply κ} (own : OwnIds m s (.registerRun t u c r))
    (moved : registerRun m s t u c r = some (s', reply)) :
    ConfinedTo m s (.registerRun t u c r) u s' reply := by
  simp only [registerRun] at moved
  split at moved
  · rename_i foreign
    cases moved
    exact confinedStill (by simp [serve, registerRun, foreign])
  · rename_i mine
    split at moved
    · contradiction
    · rename_i fresh
      cases moved
      refine ⟨fun r' run here other => ?_, fun k h here other => ?_, fun _ _ here _ => here, fun _ _ => rfl, ?_⟩
      · have apart : r' ≠ r := by
          rintro rfl
          obtain ⟨h, held, key, owner⟩ := runOwner sound here
          exact other (by rw [← owner, own _ h held key])
        exact (update_of_ne apart _ _).trans here
      · have apart : k ≠ t := fun equal => by simp [equal, fresh] at here
        exact (update_of_ne apart _ _).trans here
      · simp [serve, registerRun, mine, alone, fresh]

theorem finishRunConfined (sound : Sound m s) {t : τ} {u : υ} {s' : Registry κ ρ σ τ υ} {reply : Reply κ}
    (mine : (s.handles t).map RunHandle.user = some u) (moved : finishRun s t = some (s', reply)) :
    ConfinedTo m s (.done t) u s' reply := by
  simp only [finishRun] at moved
  split at moved
  · contradiction
  · rename_i h held
    cases moved
    obtain rfl : h.user = u := by simpa [held] using mine
    refine ⟨fun r run here other => ?_, fun k h' here other => ?_, fun _ _ here _ => here, fun _ _ => rfl, ?_⟩
    · have apart : r ≠ h.runId := by
        rintro rfl
        obtain ⟨h', held', key, owner⟩ := runOwner sound here
        exact other (by rw [← owner, sound.apart _ _ h' h held' held key])
      exact (update_of_ne apart _ _).trans here
    · have apart : k ≠ t := by
        rintro rfl
        rw [held] at here
        cases here
        exact other rfl
      exact (update_of_ne apart _ _).trans here
    · have kept : (alone m s h.user).handles t = some h := by simp [alone, held]
      simp [serve, finishRun, kept]

theorem cancelConfined (sound : Sound m s) {u : υ} {r : ρ} (own : OwnIds m s (.cancel u r)) :
    ConfinedTo m s (.cancel u r) u (cancel m s r).1 (cancel m s r).2 := by
  have told (t : Registry κ ρ σ τ υ) : (cancel m t r).2 = .cancelled (t.runs r).isSome := by
    simp only [cancel]
    split
    · rename_i gone
      rw [gone]
      rfl
    · rename_i run here
      rw [here]
      split <;> rfl
  have blind : (serve m (alone m s u) (.cancel u r)).map Prod.snd = some (cancel m s r).2 := by
    simp only [serve, Option.map_some, told, alone, Option.some.injEq, Reply.cancelled.injEq]
    cases here : s.runs r with
    | none => rfl
    | some run => simp [own run here]
  cases here : s.runs r with
  | none => simpa [cancel, here] using confinedStill (by simpa [cancel, here] using blind)
  | some run =>
    obtain ⟨h, held, -, owner⟩ := runOwner sound here
    have mine : m.owner run.connection = u := own run here
    have handles : ∀ k g, s.handles k = some g → g.user ≠ u → (abort s run.controller).handles k = some g := by
      intro k g here' other
      have apart : k ≠ run.controller := by
        rintro rfl
        rw [held] at here'
        cases here'
        exact other (owner.trans mine)
      exact (update_of_ne apart _ _).trans here'
    simp only [cancel, here] at blind ⊢
    split at blind
    · rename_i reached
      rw [if_pos reached]
      refine ⟨fun _ _ here _ => here, handles, fun _ _ here _ => here, fun c other => ?_, blind⟩
      exact update_of_ne (fun same : c = run.connection => other (same ▸ mine)) _ _
    · rename_i unreached
      rw [if_neg unreached]
      exact ⟨fun _ _ here _ => here, handles, fun _ _ here _ => here, fun _ _ => rfl, blind⟩

theorem openSessionConfined {u : υ} {c : κ} {id : σ} {s' : Registry κ ρ σ τ υ} {reply : Reply κ}
    (moved : openSession m s u c id = some (s', reply)) :
    ConfinedTo m s (.openSession u c id) u s' reply := by
  simp only [openSession] at moved
  split at moved
  · rename_i foreign
    cases moved
    exact confinedStill (by simp [serve, openSession, foreign])
  · rename_i mine
    split at moved
    · contradiction
    · rename_i fresh
      cases moved
      refine ⟨fun _ _ here _ => here, fun _ _ here _ => here, fun k x here _ => ?_, fun _ _ => rfl, ?_⟩
      · have apart : k ≠ id := fun equal => by simp [equal, fresh] at here
        exact (update_of_ne apart _ _).trans here
      · simp [serve, openSession, mine, alone, fresh]

theorem sessionConfined {a : Request κ ρ σ τ υ} {u : υ} {id : σ} {x : SessionRecord κ} {o : Option (SessionRecord κ)}
    {orders : κ → List (Order ρ σ)} {reply : Reply κ} (here : s.sessions id = some x)
    (mine : m.owner x.connection = u) (told : ∀ c, c ≠ x.connection → orders c = s.orders c)
    (blind : (serve m (alone m s u) a).map Prod.snd = some reply) :
    ConfinedTo m s a u { s with sessions := update s.sessions id o, orders := orders } reply := by
  refine ⟨fun _ _ here _ => here, fun _ _ here _ => here, fun k y here' other => ?_, fun c other => ?_, blind⟩
  · have apart : k ≠ id := by
      rintro rfl
      rw [here] at here'
      cases here'
      exact other mine
    exact (update_of_ne apart _ _).trans here'
  · exact told c (fun same => other (same ▸ mine))

theorem closeSessionConfined {u : υ} {id : σ} (own : OwnIds m s (.closeSession u id)) :
    ConfinedTo m s (.closeSession u id) u (closeSession m s id).1 (closeSession m s id).2 := by
  have told (t : Registry κ ρ σ τ υ) : (closeSession m t id).2 = .done := by
    simp only [closeSession]
    split
    · rfl
    · split <;> rfl
  have blind : (serve m (alone m s u) (.closeSession u id)).map Prod.snd = some .done := by
    simp [serve, told]
  rw [told]
  cases here : s.sessions id with
  | none => simpa [closeSession, here] using confinedStill blind
  | some x =>
    simp only [closeSession, here]
    split
    · exact sessionConfined here (own x here) (fun c apart => update_of_ne apart _ _) blind
    · exact sessionConfined here (own x here) (fun _ _ => rfl) blind

theorem sessionCommandConfined {u : υ} {id : σ} {cmd : SessionCmd} {ok : Bool}
    (own : OwnIds m s (.sessionCommand u id cmd ok)) :
    ConfinedTo m s (.sessionCommand u id cmd ok) u
      (sessionCommand m s u id cmd ok).1 (sessionCommand m s u id cmd ok).2 := by
  cases here : s.sessions id with
  | none =>
    have blind : (serve m (alone m s u) (.sessionCommand u id cmd ok)).map Prod.snd = some .noSession := by
      simp [serve, sessionCommand, alone, here]
    simpa [sessionCommand, here] using confinedStill blind
  | some x =>
    have mine : m.owner x.connection = u := own x here
    have kept : (alone m s u).sessions id = some x := by simp [alone, here, mine]
    have elsewhere : ∀ c, c ≠ x.connection →
        (ask s x.connection (.sessionCommand id cmd)).orders c = s.orders c :=
      fun c apart => update_of_ne apart _ _
    cases ok with
    | true =>
      have blind : (serve m (alone m s u) (.sessionCommand u id cmd true)).map Prod.snd =
          some (.session (some ⟨cmd = .begin, cmd ≠ .begin⟩)) := by
        simp [serve, sessionCommand, kept, mine]
      simpa [sessionCommand, ask, here, mine] using sessionConfined here mine elsewhere blind
    | false =>
      have blind : (serve m (alone m s u) (.sessionCommand u id cmd false)).map Prod.snd = some .failed := by
        simp [serve, sessionCommand, kept, mine]
      have same := sessionConfined (o := some x) here mine elsewhere blind
      simp only [← here, update_eq_self] at same
      simpa [sessionCommand, ask, here, mine] using same

theorem requestConfined (sound : Sound m s) {a : Request κ ρ σ τ υ} (own : OwnIds m s a) : Confined m s a := by
  intro u actor s' reply moved
  cases a with
  | registerRun t v c r =>
    cases actor
    exact registerRunConfined sound own moved
  | done t => exact finishRunConfined sound actor moved
  | cancel v r =>
    cases actor
    have confined := cancelConfined sound own
    rwa [Option.some.inj moved] at confined
  | openSession v c id =>
    cases actor
    exact openSessionConfined moved
  | closeSession v id =>
    cases actor
    have confined := closeSessionConfined own
    rwa [Option.some.inj moved] at confined
  | sessionCommand v id cmd ok =>
    cases actor
    have confined := sessionCommandConfined own
    rwa [Option.some.inj moved] at confined
  | getSession v id =>
    cases actor
    cases moved
    refine confinedStill ?_
    cases here : s.sessions id with
    | none => simp [serve, getSession, alone, here]
    | some x => simp [serve, getSession, alone, here, own x here]
  | opened => cases actor
  | linkLost => cases actor
  | disposed => cases actor

theorem handlesAreConfined {acts : List (Request κ ρ σ τ υ)}
    (own : Along (OwnIds m) (step m) (empty κ ρ σ τ υ) acts) :
    Along (Confined m) (step m) (empty κ ρ σ τ υ) acts :=
  alongGives (fun sound own moved => stepSound sound own moved) (fun sound own => requestConfined sound own)
    (soundEmpty m) own

instance ownIdsDecidable [Fintype τ] (m : Connections κ υ) (s : Registry κ ρ σ τ υ) :
    ∀ a, Decidable (OwnIds m s a)
  | .registerRun _ u _ r => inferInstanceAs (Decidable (∀ t, ∀ h ∈ s.handles t, h.runId = r → h.user = u))
  | .cancel u r => inferInstanceAs (Decidable (∀ run ∈ s.runs r, m.owner run.connection = u))
  | .closeSession u id | .sessionCommand u id _ _ | .getSession u id =>
      inferInstanceAs (Decidable (∀ x ∈ s.sessions id, m.owner x.connection = u))
  | .done _ | .openSession .. | .opened _ | .linkLost _ | .disposed _ => isTrue trivial

def twoUsers : Connections Bool Bool := ⟨id, fun _ => true⟩

def ownRequests : List (Request Bool Bool Bool Bool Bool) :=
  [.opened false, .opened true, .registerRun false false false true, .registerRun true true true false,
    .openSession true true true, .sessionCommand true true .begin true, .cancel false true, .done false,
    .registerRun false true true true, .getSession true true, .closeSession true true]

theorem ownRequestsAreConfined :
    Along (Confined twoUsers) (step twoUsers) (empty Bool Bool Bool Bool Bool) ownRequests := by
  have own : Along (OwnIds twoUsers) (step twoUsers) (empty Bool Bool Bool Bool Bool) ownRequests := by decide
  exact handlesAreConfined own

def cancelsAnother : List (Request Bool Bool Bool Bool Bool) :=
  [.opened false, .registerRun false false false true, .cancel true true]

def takesTheRunId : List (Request Bool Bool Bool Bool Bool) :=
  [.registerRun false false false true, .registerRun true true true true]

theorem runIdsReachAnotherUser :
    ¬ Along (Confined twoUsers) (step twoUsers) (empty Bool Bool Bool Bool Bool) cancelsAnother ∧
    ¬ Along (Confined twoUsers) (step twoUsers) (empty Bool Bool Bool Bool Bool) takesTheRunId := by
  constructor
  · rintro ⟨-, -, confined, -⟩
    have aborted := (confined true rfl _ _ rfl).handles false _ rfl (by decide)
    exact absurd (congrArg (Option.map RunHandle.aborted) aborted) (by decide)
  · rintro ⟨-, confined, -⟩
    have replaced := (confined true rfl _ _ rfl).runs true _ rfl (by decide)
    exact absurd (congrArg (Option.map RunRecord.connection) replaced) (by decide)

end Owners

end DatabaseAdmin.OwnedHandles
