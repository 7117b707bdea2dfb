import DatabaseAdmin.CodeUnits
import DatabaseAdmin.StepSystem

/-! Who holds each pooled client, and what the server and the connector's cache say of it. -/
namespace DatabaseAdmin.ConnectorPool
open CodeUnits Function

inductive Holder (ι : Type) where
  | request
  | session (id : ι)
  | cursor (id : ι)
  deriving DecidableEq

structure SessionEntry (κ : Type) where
  client : κ
  inTransaction : Bool
  deriving DecidableEq

structure CursorEntry (κ : Type) where
  client : κ
  pinned : Bool
  deriving DecidableEq

structure Sent (κ τ : Type) where
  client : κ
  asked : τ
  found : τ
  deriving DecidableEq

structure PoolState (κ ι ρ τ : Type) where
  server : κ → ρ
  holder : κ → Option (Holder ι)
  sessions : ι → Option (SessionEntry κ)
  cursors : ι → Option (CursorEntry κ)
  cache : κ → Option Text
  sent : List (Sent κ τ)

inductive LeaseOf (κ ι : Type) where
  | pooled (client : κ)
  | session (id : ι)
  deriving DecidableEq

section Operations
variable {κ ι ρ τ : Type} [DecidableEq κ] [DecidableEq ι]

def opened (κ ι τ : Type) (fresh : ρ) : PoolState κ ι ρ τ :=
  ⟨fun _ => fresh, fun _ => none, fun _ => none, fun _ => none, fun _ => none, []⟩

def answer (s : PoolState κ ι ρ τ) (c : κ) (f : ρ → ρ) : PoolState κ ι ρ τ :=
  { s with server := update s.server c (f (s.server c)) }

def send (setting : ρ → τ) (s : PoolState κ ι ρ τ) (c : κ) (asked : τ) (f : ρ → ρ) :
    PoolState κ ι ρ τ :=
  answer { s with sent := ⟨c, asked, setting (s.server c)⟩ :: s.sent } c f

def remember (s : PoolState κ ι ρ τ) (c : κ) (value : Text) : PoolState κ ι ρ τ :=
  { s with cache := update s.cache c (some value) }

def hold (s : PoolState κ ι ρ τ) (c : κ) (holder : Option (Holder ι)) : PoolState κ ι ρ τ :=
  { s with holder := update s.holder c holder }

def checkout (s : PoolState κ ι ρ τ) (c : κ) : Option (PoolState κ ι ρ τ) :=
  if s.holder c = none then some (hold s c (some .request)) else none

def release (s : PoolState κ ι ρ τ) (c : κ) : PoolState κ ι ρ τ := hold s c none

def openSession (s : PoolState κ ι ρ τ) (id : ι) (c : κ) : Option (PoolState κ ι ρ τ) :=
  if s.holder c = none ∧ s.sessions id = none then
    some { hold s c (some (.session id)) with sessions := update s.sessions id (some ⟨c, false⟩) }
  else none

def flagSession (s : PoolState κ ι ρ τ) (id : ι) (c : κ) (inTransaction : Bool) :
    PoolState κ ι ρ τ :=
  { s with sessions := update s.sessions id (some ⟨c, inTransaction⟩) }

def endSession (s : PoolState κ ι ρ τ) (id : ι) (c : κ) : PoolState κ ι ρ τ :=
  { release s c with sessions := update s.sessions id none }

def openCursor (s : PoolState κ ι ρ τ) (id : ι) (c : κ) (pinned : Bool) : PoolState κ ι ρ τ :=
  { s with
    cursors := update s.cursors id (some ⟨c, pinned⟩),
    holder := if pinned then s.holder else update s.holder c (some (.cursor id)) }

def closeCursor (s : PoolState κ ι ρ τ) (id : ι) : PoolState κ ι ρ τ :=
  match s.cursors id with
  | none => s
  | some cursor =>
      { s with
        cursors := update s.cursors id none,
        holder := if cursor.pinned then s.holder else update s.holder cursor.client none }

def fetchMore (s : PoolState κ ι ρ τ) (id : ι) (ends : Bool) : PoolState κ ι ρ τ :=
  if ends then closeCursor s id else s

def finishRead (s : PoolState κ ι ρ τ) (c : κ) (pinned : Bool) (keeps : Option ι) :
    Option (PoolState κ ι ρ τ) :=
  match keeps with
  | some id => if s.cursors id = none then some (openCursor s id c pinned) else none
  | none => some (if pinned then s else release s c)

def withLease (s : PoolState κ ι ρ τ) (lease : LeaseOf κ ι)
    (body : PoolState κ ι ρ τ → κ → Bool → Option (PoolState κ ι ρ τ)) :
    Option (PoolState κ ι ρ τ) :=
  match lease with
  | .pooled c => (checkout s c).bind (fun s => body s c false)
  | .session id => match s.sessions id with
    | none => some s
    | some e => body s e.client true

def leaseClient (s : PoolState κ ι ρ τ) : LeaseOf κ ι → Option κ
  | .pooled c => some c
  | .session id => (s.sessions id).map SessionEntry.client

end Operations

section Idle
variable {κ ι ρ τ : Type}

structure Idle (clean : ρ → Prop) (s : PoolState κ ι ρ τ) : Prop where
  pinned : ∀ id e, s.sessions id = some e → s.holder e.client = some (Holder.session id)
  parked : ∀ id k, s.cursors id = some k → k.pinned = false →
    s.holder k.client = some (Holder.cursor id)
  free : ∀ c, s.holder c = none → clean (s.server c)
  waiting : ∀ c id, s.holder c = some (Holder.cursor id) → clean (s.server c)

def Busy (s : PoolState κ ι ρ τ) (c : κ) : Prop :=
  s.holder c = some .request ∨ ∃ id, s.holder c = some (.session id)

variable {clean : ρ → Prop} {s : PoolState κ ι ρ τ}

theorem idleOpened {fresh : ρ} (new : clean fresh) : Idle clean (opened κ ι τ fresh) := by
  refine ⟨fun id e here => ?_, fun id k here => ?_, fun c _ => new, fun c id here => ?_⟩
  · contradiction
  · contradiction
  · contradiction

theorem idleFlag [DecidableEq ι] (idle : Idle clean s) {id : ι} {e : SessionEntry κ} (here : s.sessions id = some e)
    (inTransaction : Bool) : Idle clean (flagSession s id e.client inTransaction) := by
  refine ⟨fun other entry there => ?_, idle.parked, idle.free, idle.waiting⟩
  simp only [flagSession, update_apply] at there
  split at there
  · rename_i same
    cases there
    rw [same]
    exact idle.pinned id e here
  · exact idle.pinned other entry there

variable [DecidableEq κ]

@[simp] theorem holdServer (s : PoolState κ ι ρ τ) (c : κ) (h : Option (Holder ι)) :
    (hold s c h).server = s.server :=
  rfl

@[simp] theorem answerSelf (s : PoolState κ ι ρ τ) (c : κ) (f : ρ → ρ) :
    (answer s c f).server c = f (s.server c) :=
  update_self _ _ _

theorem answerOther (s : PoolState κ ι ρ τ) {c d : κ} (f : ρ → ρ) (different : d ≠ c) :
    (answer s c f).server d = s.server d :=
  update_of_ne different _ _

@[simp] theorem sendSelf (setting : ρ → τ) (s : PoolState κ ι ρ τ) (c : κ) (asked : τ) (f : ρ → ρ) :
    (send setting s c asked f).server c = f (s.server c) :=
  update_self _ _ _

theorem idleAnswer (idle : Idle clean s) {c : κ} (busy : Busy s c) (f : ρ → ρ) :
    Idle clean (answer s c f) := by
  have other {d : κ} (here : s.holder d = none ∨ ∃ id, s.holder d = some (.cursor id)) : d ≠ c := by
    rintro rfl
    rcases busy with request | ⟨id, session⟩
    · simp [request] at here
    · simp [session] at here
  refine ⟨idle.pinned, idle.parked, fun d here => ?_, fun d id here => ?_⟩
  · rw [answerOther s f (other (Or.inl here))]
    exact idle.free d here
  · rw [answerOther s f (other (Or.inr ⟨id, here⟩))]
    exact idle.waiting d id here

theorem idleSend (idle : Idle clean s) {c : κ} (busy : Busy s c) (setting : ρ → τ) (asked : τ)
    (f : ρ → ρ) : Idle clean (send setting s c asked f) := by
  have logged : Idle clean { s with sent := ⟨c, asked, setting (s.server c)⟩ :: s.sent } :=
    ⟨idle.pinned, idle.parked, idle.free, idle.waiting⟩
  exact idleAnswer logged busy f

theorem idleRemember (idle : Idle clean s) (c : κ) (value : Text) :
    Idle clean (remember s c value) :=
  ⟨idle.pinned, idle.parked, idle.free, idle.waiting⟩

theorem idleHold (idle : Idle clean s) {c : κ} {next : Option (Holder ι)}
    (loose : s.holder c = none ∨ s.holder c = some .request)
    (stays : next ≠ some .request → clean (s.server c)) : Idle clean (hold s c next) := by
  have other {d : κ} {h : Holder ι} (held : s.holder d = some h) (named : h ≠ .request) : d ≠ c := by
    rintro rfl
    rcases loose with none | request
    · rw [none] at held
      contradiction
    · rw [request] at held
      cases held
      contradiction
  refine ⟨fun id e here => ?_, fun id k here unpinned => ?_, fun d here => ?_, fun d id here => ?_⟩
  · have held := idle.pinned id e here
    exact (update_of_ne (other held nofun) next s.holder).trans held
  · have held := idle.parked id k here unpinned
    exact (update_of_ne (other held nofun) next s.holder).trans held
  · simp only [hold, update_apply] at here
    split at here
    · rename_i same
      rw [same]
      exact stays (by rw [here]; nofun)
    · exact idle.free d here
  · simp only [hold, update_apply] at here
    split at here
    · rename_i same
      rw [same]
      exact stays (by rw [here]; nofun)
    · exact idle.waiting d id here

theorem idleCheckout (idle : Idle clean s) {c : κ} {s' : PoolState κ ι ρ τ}
    (taken : checkout s c = some s') : Idle clean s' ∧ s'.holder c = some .request ∧
      s' = hold s c (some .request) ∧ clean (s.server c) := by
  unfold checkout at taken
  split at taken
  · rename_i free
    cases taken
    exact ⟨idleHold idle (Or.inl free) (fun no => absurd rfl no), update_self _ _ _, rfl,
      idle.free c free⟩
  · contradiction

theorem idleRelease (idle : Idle clean s) {c : κ} (request : s.holder c = some .request)
    (done : clean (s.server c)) : Idle clean (release s c) :=
  idleHold idle (Or.inr request) (fun _ => done)

variable [DecidableEq ι]

theorem idleOpenSession (idle : Idle clean s) {id : ι} {c : κ} {s' : PoolState κ ι ρ τ}
    (taken : openSession s id c = some s') : Idle clean s' := by
  unfold openSession at taken
  split at taken
  · rename_i fresh
    cases taken
    have held : Idle clean (hold s c (some (.session id))) :=
      idleHold idle (Or.inl fresh.1) (fun _ => idle.free c fresh.1)
    refine ⟨fun other e here => ?_, held.parked, held.free, held.waiting⟩
    simp only [update_apply] at here
    split at here
    · rename_i same
      cases here
      rw [same]
      exact update_self _ _ _
    · exact held.pinned other e here
  · contradiction

theorem idleEndSession (idle : Idle clean s) {id : ι} {e : SessionEntry κ}
    (here : s.sessions id = some e) (done : clean (s.server e.client)) :
    Idle clean (endSession s id e.client) := by
  have held := idle.pinned id e here
  have other {d : κ} {h : Holder ι} (there : s.holder d = some h) (named : h ≠ .session id) :
      d ≠ e.client := by
    rintro rfl
    rw [held] at there
    cases there
    contradiction
  refine ⟨fun id' e' there => ?_, fun id' k there unpinned => ?_, fun d there => ?_,
    fun d id' there => ?_⟩
  · simp only [endSession, update_apply] at there
    split at there
    · contradiction
    · rename_i different
      have held' := idle.pinned id' e' there
      exact (update_of_ne (other held' (by rintro ⟨⟩; exact different rfl)) none s.holder).trans held'
  · have held' := idle.parked id' k there unpinned
    exact (update_of_ne (other held' nofun) none s.holder).trans held'
  · simp only [endSession, release, hold, update_apply] at there
    split at there
    · rename_i same
      rw [same]
      exact done
    · exact idle.free d there
  · simp only [endSession, release, hold, update_apply] at there
    split at there
    · contradiction
    · exact idle.waiting d id' there

theorem idleCloseCursor (idle : Idle clean s) (id : ι) : Idle clean (closeCursor s id) := by
  unfold closeCursor
  split
  · exact idle
  · rename_i k here
    by_cases unpinned : k.pinned = false
    · have held := idle.parked id k here unpinned
      simp only [unpinned, Bool.false_eq_true, if_false]
      have other {d : κ} {h : Holder ι} (there : s.holder d = some h) (named : h ≠ .cursor id) :
          d ≠ k.client := by
        rintro rfl
        rw [held] at there
        cases there
        contradiction
      refine ⟨fun id' e there => ?_, fun id' k' there unpinned' => ?_, fun d there => ?_,
        fun d id' there => ?_⟩
      · have held' := idle.pinned id' e there
        exact (update_of_ne (other held' nofun) none s.holder).trans held'
      · simp only [update_apply] at there
        split at there
        · contradiction
        · rename_i different
          have held' := idle.parked id' k' there unpinned'
          exact (update_of_ne (other held' (by rintro ⟨⟩; exact different rfl)) none s.holder).trans
            held'
      · simp only [update_apply] at there
        split at there
        · rename_i same
          rw [same]
          exact idle.waiting k.client id held
        · exact idle.free d there
      · simp only [update_apply] at there
        split at there
        · contradiction
        · exact idle.waiting d id' there
    · simp only [unpinned, if_true]
      refine ⟨idle.pinned, fun id' k' there unpinned' => ?_, idle.free, idle.waiting⟩
      simp only [update_apply] at there
      split at there
      · contradiction
      · exact idle.parked id' k' there unpinned'

theorem idleFetchMore (idle : Idle clean s) (id : ι) (ends : Bool) : Idle clean (fetchMore s id ends) := by
  unfold fetchMore
  split
  · exact idleCloseCursor idle id
  · exact idle

theorem idleFinishRead (idle : Idle clean s) {c : κ} {pinned : Bool} {keeps : Option ι}
    {s' : PoolState κ ι ρ τ} (loose : pinned = false → s.holder c = some .request ∧ clean (s.server c))
    (done : finishRead s c pinned keeps = some s') : Idle clean s' := by
  unfold finishRead at done
  split at done
  · rename_i id
    split at done
    · rename_i fresh
      cases done
      cases pinned with
      | true =>
        refine ⟨idle.pinned, fun id' k there unpinned => ?_, idle.free, idle.waiting⟩
        simp only [openCursor, update_apply] at there
        split at there
        · cases there
          contradiction
        · exact idle.parked id' k there unpinned
      | false =>
        obtain ⟨request, clean'⟩ := loose rfl
        have held : Idle clean (hold s c (some (.cursor id))) :=
          idleHold idle (Or.inr request) (fun _ => clean')
        refine ⟨held.pinned, fun id' k there unpinned => ?_, held.free, held.waiting⟩
        simp only [openCursor, update_apply] at there
        split at there
        · rename_i same
          cases there
          rw [same]
          exact update_self _ _ _
        · exact held.parked id' k there unpinned
    · contradiction
  · cases done
    split
    · exact idle
    · rename_i unpinned
      obtain ⟨request, clean'⟩ := loose (by simpa using unpinned)
      exact idleRelease idle request clean'

theorem idleLeased (idle : Idle clean s) {lease : LeaseOf κ ι} (setting : ρ → τ) (asked : τ) (f : ρ → ρ) (keeps : Option ι)
    (settle : PoolState κ ι ρ τ → κ → Option (PoolState κ ι ρ τ)) {body : PoolState κ ι ρ τ → κ → Bool → Option (PoolState κ ι ρ τ)}
    (reads : ∀ s c pinned, body s c pinned = match settle s c with
      | none => finishRead s c pinned none
      | some s => finishRead (send setting s c asked f) c pinned keeps)
    (settles : ∀ {s s' : PoolState κ ι ρ τ} {c}, Idle clean s → Busy s c → settle s c = some s' →
      Idle clean s' ∧ s'.holder = s.holder)
    (held : ∀ s c h, settle (hold s c h) c = (settle s c).map fun s => hold s c h)
    (leaves : ∀ c, lease = .pooled c → ∀ s' ∈ settle s c, clean (f (s'.server c)))
    {s' : PoolState κ ι ρ τ} (moved : withLease s lease body = some s') : Idle clean s' := by
  cases lease with
  | pooled c =>
    obtain ⟨s1, taken, moved⟩ := Option.bind_eq_some_iff.mp moved
    obtain ⟨idle1, request, rfl, before⟩ := idleCheckout idle taken
    rw [reads] at moved
    split at moved
    · exact idleFinishRead idle1 (fun _ => ⟨request, before⟩) moved
    · rename_i s2 ensured
      obtain ⟨idle2, holder⟩ := settles idle1 (Or.inl request) ensured
      have request2 : s2.holder c = some .request := holder ▸ request
      rw [held] at ensured
      obtain ⟨s3, before, rfl⟩ := Option.map_eq_some_iff.mp ensured
      have done := leaves c rfl s3 before
      refine idleFinishRead (idleSend idle2 (Or.inl request2) _ _ _) (fun _ => ⟨request2, ?_⟩) moved
      simpa [send, answer, hold] using done
  | session id =>
    unfold withLease at moved
    dsimp only at moved
    split at moved
    · cases moved
      exact idle
    · rename_i e here
      have busy : Busy s e.client := Or.inr ⟨id, idle.pinned id e here⟩
      rw [reads] at moved
      split at moved
      · exact idleFinishRead idle (fun no : true = false => nomatch no) moved
      · rename_i s2 ensured
        obtain ⟨idle2, holder⟩ := settles idle busy ensured
        have busy2 : Busy s2 e.client := by
          unfold Busy
          rw [holder]
          exact busy
        exact idleFinishRead (idleSend idle2 busy2 _ _ _) (fun no : true = false => nomatch no) moved

end Idle

section Settled
variable {κ ι ρ τ : Type}

structure Settled (setting : ρ → τ) (reading : Option Text → τ) (s : PoolState κ ι ρ τ) : Prop where
  coherent : ∀ c, setting (s.server c) = reading (s.cache c)
  truthful : ∀ e ∈ s.sent, e.found = e.asked

variable {setting : ρ → τ} {reading : Option Text → τ} {s s' : PoolState κ ι ρ τ}

theorem settledOpened {fresh : ρ} (new : setting fresh = reading none) :
    Settled setting reading (opened κ ι τ fresh) :=
  ⟨fun _ => new, fun _ member => nomatch member⟩

theorem settledMove (settled : Settled setting reading s) (c : κ)
    (others : ∀ d, d ≠ c → s'.server d = s.server d)
    (here : setting (s'.server c) = setting (s.server c)) (cache : s'.cache = s.cache)
    (sent : ∀ e ∈ s'.sent, e ∈ s.sent ∨ e.found = e.asked) : Settled setting reading s' := by
  refine ⟨fun d => ?_, fun e member => ?_⟩
  · rw [cache]
    by_cases same : d = c
    · rw [same, here]
      exact settled.coherent c
    · rw [others d same]
      exact settled.coherent d
  · rcases sent e member with old | new
    · exact settled.truthful e old
    · exact new

theorem settledSame (settled : Settled setting reading s) (server : s'.server = s.server)
    (cache : s'.cache = s.cache) (sent : s'.sent = s.sent) : Settled setting reading s' := by
  refine ⟨fun c => ?_, ?_⟩
  · rw [server, cache]
    exact settled.coherent c
  · rw [sent]
    exact settled.truthful

variable [DecidableEq κ]

theorem settledAnswer (settled : Settled setting reading s) {c : κ} {f : ρ → ρ}
    (keeps : setting (f (s.server c)) = setting (s.server c)) :
    Settled setting reading (answer s c f) :=
  settledMove settled c (fun _ different => answerOther s f different) (by rw [answerSelf, keeps]) rfl
    (fun _ member => Or.inl member)

theorem settledSend (settled : Settled setting reading s) {c : κ} {asked : τ} {f : ρ → ρ}
    (found : setting (s.server c) = asked)
    (keeps : setting (f (s.server c)) = setting (s.server c)) :
    Settled setting reading (send setting s c asked f) := by
  refine settledMove settled c (fun d different => answerOther _ f different)
    (by rw [sendSelf, keeps]) rfl (fun e member => ?_)
  rcases List.mem_cons.mp member with rfl | old
  · exact Or.inr found
  · exact Or.inl old

theorem settledCache (settled : Settled setting reading s) {c : κ} {value : Text}
    (same : setting (s.server c) = reading (some value)) :
    Settled setting reading (remember s c value) := by
  refine ⟨fun d => ?_, settled.truthful⟩
  simp only [remember, update_apply]
  split
  · rename_i here
    rw [here]
    exact same
  · exact settled.coherent d

theorem settledSet (settled : Settled setting reading s) {c : κ} {f : ρ → ρ} {value : Text}
    (set : setting (f (s.server c)) = reading (some value)) :
    Settled setting reading (remember (answer s c f) c value) := by
  refine ⟨fun d => ?_, settled.truthful⟩
  by_cases same : d = c
  · subst same
    simpa [remember, answer] using set
  · simpa [remember, answer, update_of_ne same] using settled.coherent d

theorem settledFinish [DecidableEq ι] (settled : Settled setting reading s) {c : κ} {pinned : Bool}
    {keeps : Option ι} (done : finishRead s c pinned keeps = some s') : Settled setting reading s' := by
  unfold finishRead at done
  split at done
  · split at done
    · cases done
      exact settledSame settled rfl rfl rfl
    · contradiction
  · cases done
    split <;> exact settledSame settled rfl rfl rfl

theorem settledFetchMore [DecidableEq ι] (settled : Settled setting reading s) (id : ι) (ends : Bool) :
    Settled setting reading (fetchMore s id ends) := by
  unfold fetchMore closeCursor
  split
  · split <;> exact settledSame settled rfl rfl rfl
  · exact settled

theorem checkoutHold {c : κ} (taken : checkout s c = some s') : s' = hold s c (some .request) := by
  unfold checkout at taken
  split at taken
  · exact (Option.some.inj taken).symm
  · contradiction

end Settled

end DatabaseAdmin.ConnectorPool
