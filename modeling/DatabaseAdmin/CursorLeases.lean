import DatabaseAdmin.Custody
import DatabaseAdmin.StepSystem
import Mathlib.Data.Fintype.Basic

/-! Whose connection a cursor reads from, in the PostgreSQL and the MySQL connector alike. A
lease on a pooled client goes from the query to its cursor and is given back once; a lease in a
session is the session's to give back. What awaits the server in between is a step of its own. -/
namespace DatabaseAdmin.CursorLeases
open Custody StepSystem Function

inductive Holder (ι : Type) where
  | query (id : ι)
  | cursor (id : ι)
  | closing (id : ι)
  | session (id : ι)
  | ending (id : ι)
  deriving DecidableEq

structure Lease (κ ι : Type) where
  client : κ
  session : Option ι
  deriving DecidableEq

structure LeaseState (κ ι : Type) where
  holder : κ → Option (Holder ι)
  queries : ι → Option (Lease κ ι)
  cursors : ι → Option (Lease κ ι)
  closing : ι → Option (Lease κ ι)
  sessions : ι → Option κ
  ending : ι → Option κ
  checkouts : κ → Nat
  returns : κ → Nat

def opened (κ ι : Type) : LeaseState κ ι :=
  ⟨fun _ => none, fun _ => none, fun _ => none, fun _ => none, fun _ => none, fun _ => none,
    fun _ => 0, fun _ => 0⟩

inductive LeaseAction (κ ι : Type) where
  | acquire (query : ι) (client : κ)
  | acquireInSession (query session : ι)
  | finishQuery (query : ι) (keeps : Option ι)
  | fetchMore (cursor : ι) (ends : Bool)
  | closeCursor (cursor : ι)
  | cursorClosed (cursor : ι)
  | openSession (session : ι) (client : κ)
  | closeSession (session : ι)
  | sessionClosed (session : ι)

section Operations
variable {κ ι : Type} [DecidableEq κ] [DecidableEq ι]

def connect (s : LeaseState κ ι) (c : κ) (h : Holder ι) : LeaseState κ ι :=
  { s with holder := update s.holder c (some h), checkouts := update s.checkouts c (s.checkouts c + 1) }

def release (s : LeaseState κ ι) (c : κ) : LeaseState κ ι :=
  { s with holder := update s.holder c none, returns := update s.returns c (s.returns c + 1) }

def pass (s : LeaseState κ ι) (l : Lease κ ι) (h : Holder ι) : LeaseState κ ι :=
  if l.session.isSome then s else { s with holder := update s.holder l.client (some h) }

def giveBack (s : LeaseState κ ι) (l : Lease κ ι) : LeaseState κ ι :=
  if l.session.isSome then s else release s l.client

def acquire (s : LeaseState κ ι) (q : ι) (c : κ) : Option (LeaseState κ ι) :=
  if s.holder c = none ∧ s.queries q = none then
    some { connect s c (.query q) with queries := update s.queries q (some ⟨c, none⟩) }
  else none

def acquireInSession (s : LeaseState κ ι) (q id : ι) : Option (LeaseState κ ι) :=
  match s.sessions id with
  | none => some s
  | some c =>
      if s.queries q = none then some { s with queries := update s.queries q (some ⟨c, some id⟩) }
      else none

def finishQuery (s : LeaseState κ ι) (q : ι) (keeps : Option ι) : Option (LeaseState κ ι) :=
  match s.queries q with
  | none => none
  | some l =>
      let s := { s with queries := update s.queries q none }
      match keeps with
      | none => some (giveBack s l)
      | some id =>
          if s.cursors id = none ∧ s.closing id = none then
            some (pass { s with cursors := update s.cursors id (some l) } l (.cursor id))
          else none

def closeCursor (s : LeaseState κ ι) (id : ι) : Option (LeaseState κ ι) :=
  match s.cursors id with
  | none => some s
  | some l => some (pass { s with
      cursors := update s.cursors id none, closing := update s.closing id (some l) } l (.closing id))

def fetchMore (s : LeaseState κ ι) (id : ι) (ends : Bool) : Option (LeaseState κ ι) :=
  if ends then closeCursor s id else some s

def cursorClosed (s : LeaseState κ ι) (id : ι) : Option (LeaseState κ ι) :=
  match s.closing id with
  | none => none
  | some l => some (giveBack { s with closing := update s.closing id none } l)

def openSession (s : LeaseState κ ι) (id : ι) (c : κ) : Option (LeaseState κ ι) :=
  if s.holder c = none ∧ s.sessions id = none ∧ s.ending id = none then
    some { connect s c (.session id) with sessions := update s.sessions id (some c) }
  else none

def closeSession (s : LeaseState κ ι) (id : ι) : Option (LeaseState κ ι) :=
  match s.sessions id with
  | none => some s
  | some c => some { s with
      sessions := update s.sessions id none
      ending := update s.ending id (some c)
      holder := update s.holder c (some (.ending id)) }

def sessionClosed (s : LeaseState κ ι) (id : ι) : Option (LeaseState κ ι) :=
  match s.ending id with
  | none => none
  | some c => some (release { s with ending := update s.ending id none } c)

def step (s : LeaseState κ ι) : LeaseAction κ ι → Option (LeaseState κ ι)
  | .acquire q c => acquire s q c
  | .acquireInSession q id => acquireInSession s q id
  | .finishQuery q keeps => finishQuery s q keeps
  | .fetchMore id ends => fetchMore s id ends
  | .closeCursor id => closeCursor s id
  | .cursorClosed id => cursorClosed s id
  | .openSession id c => openSession s id c
  | .closeSession id => closeSession s id
  | .sessionClosed id => sessionClosed s id

end Operations

section Owners
variable {κ ι : Type}

def Lease.custody (l : Lease κ ι) : κ × Option (Holder ι) := (l.client, l.session.map Holder.session)

def place (s : LeaseState κ ι) : Holder ι → Option (κ × Option (Holder ι))
  | .query q => (s.queries q).map Lease.custody
  | .cursor id => (s.cursors id).map Lease.custody
  | .closing id => (s.closing id).map Lease.custody
  | .session id => (s.sessions id).map (fun c => (c, none))
  | .ending id => (s.ending id).map (fun c => (c, none))

def Brief : Holder ι → Prop
  | .closing _ => True
  | _ => False

def Apart (s : LeaseState κ ι) : Prop :=
  (∀ id, s.cursors id = none ∨ s.closing id = none) ∧ ∀ id, s.sessions id = none ∨ s.ending id = none

structure Owned (s : LeaseState κ ι) : Prop where
  kept : Kept Brief s.holder (place s)
  apart : Apart s
  balanced : Balanced s.holder s.checkouts s.returns

theorem ownedOpened : Owned (opened κ ι) := by
  refine ⟨?_, ⟨fun _ => Or.inl rfl, fun _ => Or.inl rfl⟩, fun _ => rfl⟩
  have empty : place (opened κ ι) = fun _ => none := by
    funext h
    cases h <;> rfl
  rw [empty]
  exact keptEmpty

theorem custodyPinned {l : Lease κ ι} {c : κ} {h : Holder ι} (pinned : l.custody = (c, some h)) :
    ∃ id, l = ⟨c, some id⟩ ∧ h = .session id := by
  obtain ⟨client, session⟩ := l
  cases session with
  | none => simp [Lease.custody] at pinned
  | some id =>
    simp only [Lease.custody, Option.map_some, Prod.mk.injEq, Option.some.injEq] at pinned
    obtain ⟨rfl, rfl⟩ := pinned
    exact ⟨id, rfl, rfl⟩

theorem placePinned {s : LeaseState κ ι} {p h : Holder ι} {c : κ} (here : place s p = some (c, some h)) :
    ∃ id, h = .session id := by
  have leased {o : Option (Lease κ ι)} (found : o.map Lease.custody = some (c, some h)) :
      ∃ id, h = .session id := by
    obtain ⟨l, -, pinned⟩ := Option.map_eq_some_iff.mp found
    obtain ⟨id, -, home⟩ := custodyPinned pinned
    exact ⟨id, home⟩
  cases p with
  | query => exact leased here
  | cursor => exact leased here
  | closing => exact leased here
  | session => simp [place] at here
  | ending => simp [place] at here

theorem onlySessions {s : LeaseState κ ι} {h : Holder ι} (other : ∀ id, h ≠ .session id) :
    Unpinned Brief (place s) h := by
  intro p c here
  obtain ⟨id, home⟩ := placePinned here
  exact absurd home (other id)

def SessionUnused (s : LeaseState κ ι) : LeaseAction κ ι → Prop
  | .closeSession id => (∀ k, ∀ l ∈ s.cursors k, l.session ≠ some id) ∧
      ∀ q, ∀ l ∈ s.queries q, l.session ≠ some id
  | _ => True

variable {s s' : LeaseState κ ι}

theorem unusedUnpinned {id : ι} (unused : SessionUnused s (.closeSession id)) :
    Unpinned Brief (place s) (.session id) := by
  intro p c here
  have leased {o : Option (Lease κ ι)} (found : o.map Lease.custody = some (c, some (.session id))) :
      o = some ⟨c, some id⟩ := by
    obtain ⟨l, here, pinned⟩ := Option.map_eq_some_iff.mp found
    obtain ⟨id', rfl, home⟩ := custodyPinned pinned
    cases home
    exact here
  cases p with
  | query q => exact absurd rfl (unused.2 q _ (leased here))
  | cursor k => exact absurd rfl (unused.1 k _ (leased here))
  | closing => trivial
  | session => simp [place] at here
  | ending => simp [place] at here

structure CursorsOwn (s : LeaseState κ ι) : Prop where
  own : ∀ id l, s.cursors id = some l →
    s.holder l.client = some (l.session.elim (.cursor id) Holder.session)
  once : ∀ c, s.checkouts c = s.returns c + if s.holder c = none then 0 else 1
  held : ∀ c h, s.holder c = some h → place s h = some (c, none)

theorem ownedCursors (owned : Owned s) : CursorsOwn s := by
  refine ⟨fun id l here => ?_, owned.balanced, owned.kept.held⟩
  have lies : place s (.cursor id) = some l.custody := by simp [place, here]
  obtain ⟨c, session⟩ := l
  cases session with
  | none => exact owned.kept.lies _ _ lies
  | some sid => exact owned.kept.pinned _ _ _ lies nofun

variable [DecidableEq ι]

theorem acquireInSessionOwned (owned : Owned s) {q id : ι} (moved : acquireInSession s q id = some s') :
    Owned s' := by
  unfold acquireInSession at moved
  split at moved
  · cases moved
    exact owned
  · rename_i c here
    split at moved
    · rename_i fresh
      cases moved
      have placed : place { s with queries := update s.queries q (some ⟨c, some id⟩) } =
          update (place s) (.query q) (some (c, some (.session id))) := by
        funext h
        cases h <;> simp [place, update_apply, apply_ite (Option.map Lease.custody), Lease.custody]
      refine ⟨?_, owned.apart, owned.balanced⟩
      rw [placed]
      exact keptPin owned.kept (owned.kept.lies (.session id) c (by simp [place, here]))
        (by simp [place, fresh])
    · contradiction

variable [DecidableEq κ]

theorem acquireOwned (owned : Owned s) {q : ι} {c : κ} (moved : acquire s q c = some s') : Owned s' := by
  unfold acquire at moved
  split at moved
  · rename_i free
    cases moved
    have placed : place { connect s c (.query q) with queries := update s.queries q (some ⟨c, none⟩) } =
        update (place s) (.query q) (some (c, none)) := by
      funext h
      cases h <;> simp [place, connect, update_apply, apply_ite (Option.map Lease.custody), Lease.custody]
    refine ⟨?_, owned.apart, balancedOut owned.balanced free.1 _⟩
    rw [placed]
    exact keptEnter owned.kept free.1 (by simp [place, free.2])
  · contradiction

theorem giveBackOwned (owned : Owned s) {t : LeaseState κ ι} {l : Lease κ ι} {p : Holder ι}
    (same : t.holder = s.holder ∧ t.checkouts = s.checkouts ∧ t.returns = s.returns)
    (apart : Apart t) (lies : place s p = some l.custody)
    (placed : place t = update (place s) p none) (loose : Unpinned Brief (place s) p) :
    Owned (giveBack t l) := by
  obtain ⟨holder, checkouts, returns⟩ := same
  obtain ⟨c, session⟩ := l
  cases session with
  | none =>
    have tables : place (giveBack t ⟨c, none⟩) = place t := by
      funext h
      cases h <;> rfl
    have here := owned.kept.lies p c lies
    refine ⟨?_, apart, ?_⟩
    · rw [tables, placed]
      simpa [giveBack, release, holder] using keptLeave owned.kept lies loose
    · simpa [giveBack, release, holder, checkouts, returns] using balancedBack owned.balanced here
  | some id =>
    refine ⟨?_, apart, ?_⟩
    · simpa [giveBack, placed, holder] using keptUnpin owned.kept lies
    · simpa [giveBack, holder, checkouts, returns] using owned.balanced

theorem passOwned (owned : Owned s) {t : LeaseState κ ι} {l : Lease κ ι} {p q : Holder ι}
    (same : t.holder = s.holder ∧ t.checkouts = s.checkouts ∧ t.returns = s.returns)
    (apart : Apart t) (lies : place s p = some l.custody)
    (empty : place s q = none) (placed : place t = update (update (place s) p none) q (some l.custody))
    (lasting : ¬ Brief p) (loose : Unpinned Brief (place s) p) : Owned (pass t l q) := by
  obtain ⟨holder, checkouts, returns⟩ := same
  obtain ⟨c, session⟩ := l
  cases session with
  | none =>
    have tables : place (pass t ⟨c, none⟩ q) = place t := by
      funext h
      cases h <;> rfl
    have here := owned.kept.lies p c lies
    refine ⟨?_, apart, ?_⟩
    · rw [tables, placed]
      simpa [pass, holder, Lease.custody] using keptMove owned.kept lies empty loose
    · simpa [pass, holder, checkouts, returns] using balancedPass owned.balanced here q
  | some id =>
    have home := owned.kept.pinned p c (.session id) lies lasting
    have vacant : update (place s) p none q = none := by
      rw [update_apply]
      split
      · rfl
      · exact empty
    refine ⟨?_, apart, ?_⟩
    · simpa [pass, placed, holder, Lease.custody] using keptPin (keptUnpin owned.kept lies) home vacant
    · simpa [pass, holder, checkouts, returns] using owned.balanced

theorem finishQueryOwned (owned : Owned s) {q : ι} {keeps : Option ι}
    (moved : finishQuery s q keeps = some s') : Owned s' := by
  unfold finishQuery at moved
  split at moved
  · contradiction
  · rename_i l here
    have lies : place s (.query q) = some l.custody := by simp [place, here]
    have loose : Unpinned Brief (place s) (.query q) := onlySessions nofun
    dsimp only at moved
    split at moved
    · cases moved
      refine giveBackOwned owned ⟨rfl, rfl, rfl⟩ owned.apart lies ?_ loose
      funext h
      cases h <;> simp [place, update_apply, apply_ite (Option.map Lease.custody)]
    · rename_i id
      split at moved
      · rename_i fresh
        cases moved
        have apart : ∀ k, update s.cursors id (some l) k = none ∨ s.closing k = none := by
          intro k
          rw [update_apply]
          split
          · rename_i same
            exact Or.inr (same ▸ fresh.2)
          · exact owned.apart.1 k
        refine passOwned owned ⟨rfl, rfl, rfl⟩ ⟨apart, owned.apart.2⟩ lies (by simp [place, fresh.1]) ?_ nofun loose
        funext h
        cases h <;> simp [place, update_apply, apply_ite (Option.map Lease.custody)]
      · contradiction

theorem closeCursorOwned (owned : Owned s) {id : ι} (moved : closeCursor s id = some s') : Owned s' := by
  unfold closeCursor at moved
  split at moved
  · cases moved
    exact owned
  · rename_i l here
    cases moved
    have lies : place s (.cursor id) = some l.custody := by simp [place, here]
    have vacant : s.closing id = none := (owned.apart.1 id).resolve_left (by simp [here])
    have apart : ∀ k, update s.cursors id none k = none ∨ update s.closing id (some l) k = none := by
      intro k
      rw [update_apply, update_apply]
      split
      · exact Or.inl rfl
      · exact owned.apart.1 k
    refine passOwned owned ⟨rfl, rfl, rfl⟩ ⟨apart, owned.apart.2⟩ lies (by simp [place, vacant]) ?_ nofun
      (onlySessions nofun)
    funext h
    cases h <;> simp [place, update_apply, apply_ite (Option.map Lease.custody)]

theorem cursorClosedOwned (owned : Owned s) {id : ι} (moved : cursorClosed s id = some s') : Owned s' := by
  unfold cursorClosed at moved
  split at moved
  · contradiction
  · rename_i l here
    cases moved
    have apart : ∀ k, s.cursors k = none ∨ update s.closing id none k = none := by
      intro k
      rw [update_apply]
      split
      · exact Or.inr rfl
      · exact owned.apart.1 k
    have lies : place s (.closing id) = some l.custody := by simp [place, here]
    refine giveBackOwned owned ⟨rfl, rfl, rfl⟩ ⟨apart, owned.apart.2⟩ lies ?_ (onlySessions nofun)
    funext h
    cases h <;> simp [place, update_apply, apply_ite (Option.map Lease.custody)]

theorem openSessionOwned (owned : Owned s) {id : ι} {c : κ} (moved : openSession s id c = some s') :
    Owned s' := by
  unfold openSession at moved
  split at moved
  · rename_i free
    cases moved
    have placed : place { connect s c (.session id) with sessions := update s.sessions id (some c) } =
        update (place s) (.session id) (some (c, none)) := by
      funext h
      cases h <;> simp [place, connect, update_apply, apply_ite (Option.map fun c => (c, none))]
    have apart : ∀ k, update s.sessions id (some c) k = none ∨ s.ending k = none := by
      intro k
      rw [update_apply]
      split
      · rename_i same
        exact Or.inr (same ▸ free.2.2)
      · exact owned.apart.2 k
    refine ⟨?_, ⟨owned.apart.1, apart⟩, balancedOut owned.balanced free.1 _⟩
    rw [placed]
    exact keptEnter owned.kept free.1 (by simp [place, free.2.1])
  · contradiction

theorem closeSessionOwned (owned : Owned s) {id : ι} (unused : SessionUnused s (.closeSession id))
    (moved : closeSession s id = some s') : Owned s' := by
  unfold closeSession at moved
  split at moved
  · cases moved
    exact owned
  · rename_i c here
    cases moved
    have lies : place s (.session id) = some (c, none) := by simp [place, here]
    have vacant : s.ending id = none := (owned.apart.2 id).resolve_left (by simp [here])
    have apart : ∀ k, update s.sessions id none k = none ∨ update s.ending id (some c) k = none := by
      intro k
      rw [update_apply, update_apply]
      split
      · exact Or.inl rfl
      · exact owned.apart.2 k
    have placed : place { s with
        sessions := update s.sessions id none
        ending := update s.ending id (some c)
        holder := update s.holder c (some (.ending id)) } =
        update (update (place s) (.session id) none) (.ending id) (some (c, none)) := by
      funext h
      cases h <;> simp [place, update_apply, apply_ite (Option.map fun c => (c, none))]
    refine ⟨?_, ⟨owned.apart.1, apart⟩, balancedPass owned.balanced (owned.kept.lies _ _ lies) _⟩
    rw [placed]
    exact keptMove owned.kept lies (by simp [place, vacant]) (unusedUnpinned unused)

theorem sessionClosedOwned (owned : Owned s) {id : ι} (moved : sessionClosed s id = some s') : Owned s' := by
  unfold sessionClosed at moved
  split at moved
  · contradiction
  · rename_i c here
    cases moved
    have lies : place s (.ending id) = some (c, none) := by simp [place, here]
    have apart : ∀ k, s.sessions k = none ∨ update s.ending id none k = none := by
      intro k
      rw [update_apply]
      split
      · exact Or.inr rfl
      · exact owned.apart.2 k
    have placed : place (release { s with ending := update s.ending id none } c) =
        update (place s) (.ending id) none := by
      funext h
      cases h <;> simp [place, release, update_apply, apply_ite (Option.map fun c => (c, none))]
    refine ⟨?_, ⟨owned.apart.1, apart⟩, balancedBack owned.balanced (owned.kept.lies _ _ lies)⟩
    rw [placed]
    exact keptLeave owned.kept lies (onlySessions nofun)

theorem stepOwned (owned : Owned s) {a : LeaseAction κ ι} (unused : SessionUnused s a)
    (moved : step s a = some s') : Owned s' := by
  cases a with
  | acquire => exact acquireOwned owned moved
  | acquireInSession => exact acquireInSessionOwned owned moved
  | finishQuery => exact finishQueryOwned owned moved
  | fetchMore id ends =>
    simp only [step, fetchMore] at moved
    split at moved
    · exact closeCursorOwned owned moved
    · cases moved
      exact owned
  | closeCursor => exact closeCursorOwned owned moved
  | cursorClosed => exact cursorClosedOwned owned moved
  | openSession => exact openSessionOwned owned moved
  | closeSession => exact closeSessionOwned owned unused moved
  | sessionClosed => exact sessionClosedOwned owned moved

theorem cursorsOwnTheirClients {acts : List (LeaseAction κ ι)} {s : LeaseState κ ι}
    (unused : Along SessionUnused step (opened κ ι) acts) (ran : runSteps step (opened κ ι) acts = some s) :
    CursorsOwn s :=
  ownedCursors (runKeeps (fun owned unused moved => stepOwned owned unused moved) ownedOpened unused ran)

instance sessionUnusedDecidable [Fintype ι] (s : LeaseState κ ι) : ∀ a, Decidable (SessionUnused s a)
  | .closeSession id => inferInstanceAs (Decidable ((∀ k, ∀ l ∈ s.cursors k, l.session ≠ some id) ∧
      ∀ q, ∀ l ∈ s.queries q, l.session ≠ some id))
  | .acquire .. | .acquireInSession .. | .finishQuery .. | .fetchMore .. | .closeCursor _
  | .cursorClosed _ | .openSession .. | .sessionClosed _ => isTrue trivial

def readInSession : List (LeaseAction Bool Bool) :=
  [.openSession false true, .acquireInSession false false, .finishQuery false (some true),
    .fetchMore true false]

theorem cursorReadBeforeItsSessionCloses : ∃ s,
    runSteps step (opened Bool Bool)
      (readInSession ++ [.closeCursor true, .cursorClosed true, .closeSession false, .sessionClosed false]) =
      some s ∧ CursorsOwn s := by
  have unused : Along SessionUnused step (opened Bool Bool)
      (readInSession ++ [.closeCursor true, .cursorClosed true, .closeSession false,
        .sessionClosed false]) := by decide
  exact ⟨_, rfl, cursorsOwnTheirClients unused rfl⟩

theorem closedSessionLeavesItsCursor : ∃ s,
    runSteps step (opened Bool Bool) (readInSession ++ [.closeSession false, .sessionClosed false]) = some s ∧
      s.cursors true = some ⟨true, some false⟩ ∧ s.holder true = none ∧ ¬ CursorsOwn s := by
  refine ⟨_, rfl, rfl, rfl, fun owns => ?_⟩
  have held := owns.own true ⟨true, some false⟩ rfl
  contradiction

end Owners

end DatabaseAdmin.CursorLeases
