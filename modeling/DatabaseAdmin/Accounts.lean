import DatabaseAdmin.CodeUnits
import DatabaseAdmin.StepSystem
import Mathlib.Data.List.Nodup

/-! Accounts, sessions and credential vaults of one server, over every interleaving of its requests:
each `await` is a point where other requests run. -/
namespace DatabaseAdmin.Accounts
open CodeUnits StepSystem Function

-- scrypt, and AES-256-GCM with the nonce in the blob: a blob opens under one key only.
structure Crypto (σ κ β : Type) where
  scrypt : Text → σ → κ
  encryptWith : κ → Text → β
  decryptWith : κ → β → Option Text
  zeros : κ
  opens (key : κ) (plaintext : Text) : decryptWith key (encryptWith key plaintext) = some plaintext
  alone {key key' : κ} {blob : β} {p p' : Text} : decryptWith key blob = some p → decryptWith key' blob = some p' → key = key'

structure UserRecord (σ κ : Type) where
  id : ℕ
  username : Text
  salt : σ
  verifier : κ

structure VaultMeta (σ β : Type) where
  salt : σ
  check : β

structure Session where
  id : ℕ
  userId : ℕ
  username : Text

structure Failure where
  message : Text
  status : Option ℕ
  code : Option String

-- What a request waits for; `registering` draws the request's number as the user's id.
inductive Stage (σ κ β : Type) where
  | registering (username password : Text)
  | verifying (username password : Text)
  | checking (user : Option (UserRecord σ κ)) (password : Text)
  | unlocking (user : UserRecord σ κ) (password : Text) (stored : VaultMeta σ β)
  | reopening (userId : ℕ) (password : Text) (stored : VaultMeta σ β)
  | confirming (userId : ℕ) (current next : Text) (stored : VaultMeta σ β)
  | rekeying (userId : ℕ) (next : Text) (oldKey : κ) (stored : VaultMeta σ β)
  | rekeyed (userId : ℕ) (next : Text)
  | storing (userId : ℕ) (next : Text) (data : List (UserRecord σ κ))
  | done (answer : Except Failure (Option Session))

-- `saved` is the text that was put in; the code does not keep it.
structure Secret (β : Type) where
  owner : ℕ
  blob : β
  saved : Text

structure ServerState (σ κ β : Type) where
  users : List (UserRecord σ κ) := []
  metas : ℕ → Option (VaultMeta σ β) := fun _ => none
  keys : ℕ → Option κ := fun _ => none
  sessions : List Session := []
  nextSession : ℕ := 0
  secrets : List (Secret β) := []
  requests : List (Stage σ κ β) := []

-- `cleared` are the requests whose old key is the buffer that a lock overwrites with zeros.
inductive Action (σ : Type) where
  | register (username password : Text)
  | signIn (username password : Text)
  | unlock (session : ℕ) (password : Text)
  | change (session : ℕ) (current next : Text)
  | save (session : ℕ) (plaintext : Text)
  | signOut (session : ℕ) (cleared : List ℕ)
  | lock (session : ℕ) (cleared : List ℕ)
  | expire (session : ℕ)
  | resume (request : ℕ) (salt : σ)
  | restart

variable {σ κ β : Type}

def accountError (message : String) (status : ℕ) (code : String) : Failure := ⟨units message, some status, some code⟩

def checkPlaintext : Text := units "dbadmin-vault-v1"

def minPassword : ℕ := 8

def usernameUnit (c : CodeUnit) : Bool :=
  (48 ≤ c && c ≤ 57) || (65 ≤ c && c ≤ 90) || (97 ≤ c && c ≤ 122) || (units "_.@ -").contains c

def normalizeUsername (raw : Text) : Except Failure Text :=
  let value := trim raw
  if value.length < 3 || 64 < value.length then
    .error (accountError "Username must be between 3 and 64 characters." 400 "USERNAME_LENGTH")
  else if !value.all usernameUnit then
    .error (accountError "Username may contain letters, numbers, spaces and . _ - @ only." 400 "USERNAME_CHARS")
  else .ok value

def usernameTaken : Failure := accountError "That username is already taken." 409 "USERNAME_TAKEN"

def badCredentials : Failure := accountError "Incorrect username or password." 401 "BAD_CREDENTIALS"

def Stage.clear (zeros : κ) (userId : ℕ) : Stage σ κ β → Stage σ κ β
  | .rekeying owner next oldKey stored => .rekeying owner next (if owner = userId then zeros else oldKey) stored
  | stage => stage

def Stage.cut : Stage σ κ β → Stage σ κ β
  | .done answer => .done answer
  | _ => .done (.error ⟨units "ECONNRESET", none, none⟩)

namespace ServerState
variable (s : ServerState σ κ β)

def ask (stage : Stage σ κ β) : ServerState σ κ β := { s with requests := s.requests ++ [stage] }

def goto (r : ℕ) (stage : Stage σ κ β) : ServerState σ κ β := { s with requests := s.requests.set r stage }

def lock (zeros : κ) (userId : ℕ) (cleared : List ℕ) : ServerState σ κ β :=
  { s with
    keys := update s.keys userId none
    requests := s.requests.mapIdx fun r stage => if r ∈ cleared then stage.clear zeros userId else stage }

def newSession (r : ℕ) (user : UserRecord σ κ) : ServerState σ κ β :=
  goto { s with sessions := s.sessions ++ [⟨s.nextSession, user.id, user.username⟩], nextSession := s.nextSession + 1 } r
    (.done (.ok (some ⟨s.nextSession, user.id, user.username⟩)))

def session (id : ℕ) : Option Session := s.sessions.find? (·.id = id)

def signOut (zeros : κ) (session : Session) (cleared : List ℕ) : ServerState σ κ β :=
  let left : ServerState σ κ β := { s with sessions := s.sessions.filter (·.id ≠ session.id) }
  if left.sessions.any (·.userId = session.userId) then left else left.lock zeros session.userId cleared

end ServerState

section Steps
variable [DecidableEq κ] (c : Crypto σ κ β) (lower : Text → Text) (s : ServerState σ κ β)

def findUser (username : Text) : Option (UserRecord σ κ) :=
  s.users.find? fun u => lower u.username = lower (trim username)

def register (username password : Text) : Stage σ κ β :=
  match normalizeUsername username with
  | .error refusal => .done (.error refusal)
  | .ok username =>
      if password.length < minPassword then .done (.error (accountError "Password must be at least 8 characters." 400 "PASSWORD_LENGTH"))
      else if (findUser lower s username).isSome then .done (.error usernameTaken)
      else .registering username password

def unlock (userId : ℕ) (password : Text) : Stage σ κ β :=
  if password = [] then .done (.error ⟨units "\"password\" is required.", some 400, none⟩)
  else (s.metas userId).elim (.done (.error (accountError "This account has no vault. Create the account again." 409 "VAULT_UNINITIALIZED")))
    (.reopening userId password)

def change (userId : ℕ) (current next : Text) : Stage σ κ β :=
  match s.metas userId with
  | none => .done (.error (accountError "This account has no vault." 409 "VAULT_UNINITIALIZED"))
  | some stored =>
      if current = [] then .done (.error ⟨units "\"current\" is required.", some 400, none⟩)
      else if next = [] then .done (.error ⟨units "\"next\" is required.", some 400, none⟩)
      else if next.length < minPassword then
        .done (.error ⟨units "The password must be at least 8 characters.", some 400, none⟩)
      else .confirming userId current next stored

def rewrapAll (userId : ℕ) (oldKey newKey : κ) : Option (List (Secret β)) :=
  s.secrets.mapM fun secret =>
    if secret.owner = userId then
      (c.decryptWith oldKey secret.blob).map fun plaintext => { secret with blob := c.encryptWith newKey plaintext }
    else some secret

def accepts (key : κ) (stored : VaultMeta σ β) : Bool := c.decryptWith key stored.check = some checkPlaintext

-- The first record of the id is changed in place.
def setVerifier (userId : ℕ) (salt : σ) (verifier : κ) : List (UserRecord σ κ) → List (UserRecord σ κ)
  | [] => []
  | u :: rest =>
      if u.id = userId then { u with salt := salt, verifier := verifier } :: rest
      else u :: setVerifier userId salt verifier rest

def resume (r : ℕ) (salt : σ) : Stage σ κ β → Option (ServerState σ κ β)
  | .registering username password =>
      let key := c.scrypt password salt
      some ({ s with
        metas := update s.metas r (some ⟨salt, c.encryptWith key checkPlaintext⟩)
        keys := update s.keys r (some key) }.goto r (.verifying username password))
  | .verifying username password =>
      if s.users.any fun u => lower u.username = lower username then some ((s.lock c.zeros r []).goto r (.done (.error usernameTaken)))
      else
        let user := ⟨r, username, salt, c.scrypt password salt⟩
        some ({ s with users := s.users ++ [user] }.newSession r user)
  | .checking none _ => some (s.goto r (.done (.error badCredentials)))
  | .checking (some user) password =>
      if c.scrypt password user.salt = user.verifier then
        some (s.goto r ((s.metas user.id).elim (.done (.error ⟨units "Vault not initialized", none, none⟩))
          (.unlocking user password)))
      else some (s.goto r (.done (.error badCredentials)))
  | .unlocking user password stored =>
      let key := c.scrypt password stored.salt
      if accepts c key stored then some ({ s with keys := update s.keys user.id (some key) }.newSession r user)
      else some (s.goto r (.done (.error (accountError ("Signed in, but your credential vault did not accept that password. " ++
        "Its file may be missing or from another install.") 500 "VAULT_MISMATCH"))))
  | .reopening userId password stored =>
      let key := c.scrypt password stored.salt
      if accepts c key stored then some ({ s with keys := update s.keys userId (some key) }.goto r (.done (.ok none)))
      else some (s.goto r (.done (.error (accountError "That password is not correct." 401 "VAULT_PASSWORD"))))
  | .confirming userId current next stored =>
      let key := c.scrypt current stored.salt
      if accepts c key stored then
        some ({ s with keys := update s.keys userId (some key) }.goto r ((s.metas userId).elim
          (.done (.error ⟨units "ENOENT", none, none⟩)) (.rekeying userId next key)))
      else some (s.goto r (.done (.error ⟨units "Current password is incorrect", none, none⟩)))
  | .rekeying userId next oldKey stored =>
      let newKey := c.scrypt next stored.salt
      match rewrapAll c s userId oldKey newKey with
      | none => some (s.goto r (.done (.error ⟨units "Unsupported state or unable to authenticate data", none, none⟩)))
      | some secrets => some ({ s with
          secrets := secrets
          metas := update s.metas userId (some ⟨stored.salt, c.encryptWith newKey checkPlaintext⟩)
          keys := update s.keys userId (some newKey) }.goto r (.rekeyed userId next))
  | .rekeyed userId next =>
      some (s.goto r (if s.users.any (·.id = userId) then .storing userId next s.users
        else .done (.error (accountError "No such account." 404 "NO_ACCOUNT"))))
  | .storing userId next data =>
      some ({ s with users := setVerifier userId salt (c.scrypt next salt) data }.goto r (.done (.ok none)))
  | .done _ => none

def step (s : ServerState σ κ β) : Action σ → Option (ServerState σ κ β)
  | .register username password => some (s.ask (register lower s username password))
  | .signIn username password => some (s.ask (.checking (findUser lower s username) password))
  | .unlock session password => (s.session session).map fun own => s.ask (unlock s own.userId password)
  | .change session current next => (s.session session).map fun own => s.ask (change s own.userId current next)
  | .save session plaintext => (s.session session).bind fun own => (s.keys own.userId).map fun key =>
      { s with secrets := s.secrets ++ [⟨own.userId, c.encryptWith key plaintext, plaintext⟩] }
  | .signOut session cleared => (s.session session).map fun own => s.signOut c.zeros own cleared
  | .lock session cleared => (s.session session).map fun own => s.lock c.zeros own.userId cleared
  | .expire session => some { s with sessions := s.sessions.filter (·.id ≠ session) }
  | .resume r salt => (s.requests[r]?).bind (resume c lower s r salt)
  | .restart => some { s with
      keys := fun _ => none
      sessions := []
      requests := s.requests.map Stage.cut }

end Steps

section Found
variable {s : ServerState σ κ β} {r r' : ℕ} {stage other : Stage σ κ β}

theorem askFound (found : (s.ask stage).requests[r']? = some other) :
    (r' = s.requests.length ∧ other = stage) ∨ s.requests[r']? = some other := by
  simp only [ServerState.ask, List.getElem?_append] at found
  split at found
  · exact .inr found
  · obtain ⟨last, rfl⟩ := List.getElem?_eq_some_iff.mp found
    simp only [List.length_singleton] at last
    exact .inl ⟨by omega, by simp⟩

theorem lockFound {zeros : κ} {userId : ℕ} {cleared : List ℕ}
    (found : (s.lock zeros userId cleared).requests[r']? = some other) :
    ∃ old, s.requests[r']? = some old ∧ (other = old ∨ other = old.clear zeros userId) := by
  simp only [ServerState.lock, List.getElem?_mapIdx, Option.map_eq_some_iff] at found
  obtain ⟨old, here, rfl⟩ := found
  refine ⟨old, here, ?_⟩
  split
  · exact .inr rfl
  · exact .inl rfl

end Found

theorem verifierSame (userId : ℕ) (salt : σ) (verifier : κ) (data : List (UserRecord σ κ)) :
    (setVerifier userId salt verifier data).map (fun u => (u.id, u.username)) = data.map fun u => (u.id, u.username) := by
  induction data with
  | nil => rfl
  | cons u rest ih =>
    rw [setVerifier]
    split <;> simp_all

section Names
variable {lower : Text → Text} {s s' : ServerState σ κ β} {r : ℕ} {stage : Stage σ κ β}

def Distinct (lower : Text → Text) (users : List (UserRecord σ κ)) : Prop := (users.map fun u => lower u.username).Nodup

def Stage.Named (lower : Text → Text) : Stage σ κ β → Prop
  | .storing _ _ data => Distinct lower data
  | _ => True

structure Named (lower : Text → Text) (s : ServerState σ κ β) : Prop where
  users : Distinct lower s.users
  requests : ∀ stage ∈ s.requests, stage.Named lower

theorem namedStored {userId : ℕ} {salt : σ} {verifier : κ} {data : List (UserRecord σ κ)} (distinct : Distinct lower data) :
    Distinct lower (setVerifier userId salt verifier data) := by
  have same := congrArg (List.map fun p => lower p.2) (verifierSame userId salt verifier data)
  simp only [List.map_map, Function.comp_def] at same
  rwa [Distinct, same]

theorem namedAsk (named : Named lower s) (next : stage.Named lower) : Named lower (s.ask stage) :=
  ⟨named.users, by simpa [ServerState.ask, or_imp, forall_and] using ⟨named.requests, next⟩⟩

theorem namedGoto (named : Named lower s) (next : stage.Named lower) : Named lower (s.goto r stage) := by
  refine ⟨named.users, fun other member => ?_⟩
  rcases List.mem_or_eq_of_mem_set member with before | rfl
  · exact named.requests other before
  · exact next

theorem namedLock {zeros : κ} {userId : ℕ} {cleared : List ℕ} (named : Named lower s) :
    Named lower (s.lock zeros userId cleared) := by
  refine ⟨named.users, fun other member => ?_⟩
  obtain ⟨r, found⟩ := List.mem_iff_getElem?.mp member
  obtain ⟨old, here, rfl | rfl⟩ := lockFound found
  · exact named.requests _ (List.mem_of_getElem? here)
  · have held := named.requests old (List.mem_of_getElem? here)
    cases old <;> exact held

variable [DecidableEq κ] {c : Crypto σ κ β} {salt : σ} {a : Action σ}

theorem namedResume (named : Named lower s) (here : stage ∈ s.requests) (moved : resume c lower s r salt stage = some s') :
    Named lower s' := by
  have same (s' : ServerState σ κ β) (users : s'.users = s.users) (requests : s'.requests = s.requests) : Named lower s' :=
    ⟨users ▸ named.users, requests ▸ named.requests⟩
  cases stage with
  | registering username password =>
    cases moved
    exact namedGoto (same _ rfl rfl) trivial
  | verifying username password =>
    rw [resume] at moved
    split at moved <;> cases moved
    · exact namedGoto (namedLock named) trivial
    · rename_i free
      refine namedGoto ⟨?_, named.requests⟩ trivial
      rw [Distinct, List.map_append, List.nodup_append]
      exact ⟨named.users, by simp, by simpa using free⟩
  | rekeyed userId next =>
    cases moved
    refine namedGoto named ?_
    split
    · exact named.users
    · trivial
  | storing userId next data =>
    cases moved
    exact namedGoto ⟨namedStored (named.requests _ here), named.requests⟩ trivial
  | checking user password =>
    cases user with
    | none => cases moved; exact namedGoto named trivial
    | some user =>
      rw [resume] at moved
      split at moved <;> cases moved
      · refine namedGoto named ?_
        cases s.metas user.id <;> trivial
      · exact namedGoto named trivial
  | confirming userId current next stored =>
    rw [resume] at moved
    split at moved <;> cases moved
    · refine namedGoto (same _ rfl rfl) ?_
      cases s.metas userId <;> trivial
    · exact namedGoto named trivial
  | done answer => cases moved
  | _ =>
    rw [resume] at moved
    split at moved <;> cases moved <;> exact namedGoto (same _ rfl rfl) trivial

theorem namedStep (named : Named lower s) (moved : step c lower s a = some s') : Named lower s' := by
  cases a with
  | register username password =>
    cases moved
    refine namedAsk named ?_
    rw [register]
    repeat' split
    all_goals trivial
  | signIn username password =>
    cases moved
    exact namedAsk named trivial
  | unlock session password =>
    obtain ⟨own, -, rfl⟩ := Option.map_eq_some_iff.mp moved
    refine namedAsk named ?_
    rw [unlock]
    split
    · trivial
    · cases s.metas own.userId <;> trivial
  | change session current next =>
    obtain ⟨own, -, rfl⟩ := Option.map_eq_some_iff.mp moved
    refine namedAsk named ?_
    rw [change]
    repeat' split
    all_goals trivial
  | save session plaintext =>
    obtain ⟨own, -, kept⟩ := Option.bind_eq_some_iff.mp moved
    obtain ⟨key, -, rfl⟩ := Option.map_eq_some_iff.mp kept
    exact ⟨named.users, named.requests⟩
  | signOut session cleared =>
    obtain ⟨own, -, rfl⟩ := Option.map_eq_some_iff.mp moved
    rw [ServerState.signOut]
    split
    · exact ⟨named.users, named.requests⟩
    · exact namedLock ⟨named.users, named.requests⟩
  | lock session cleared =>
    obtain ⟨own, -, rfl⟩ := Option.map_eq_some_iff.mp moved
    exact namedLock named
  | expire session =>
    cases moved
    exact ⟨named.users, named.requests⟩
  | resume r salt =>
    obtain ⟨stage, here, moved⟩ := Option.bind_eq_some_iff.mp moved
    exact namedResume named (List.mem_of_getElem? here) moved
  | restart =>
    cases moved
    refine ⟨named.users, fun other member => ?_⟩
    obtain ⟨old, -, rfl⟩ := List.mem_map.mp member
    cases old <;> trivial

end Names

end DatabaseAdmin.Accounts
