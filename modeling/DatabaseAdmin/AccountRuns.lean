import DatabaseAdmin.Accounts

/-! One password signs in and opens the vault with everything saved in it, along every orderly run. -/
namespace DatabaseAdmin.Accounts
open CodeUnits StepSystem Function

variable {σ κ β : Type}

section Order
variable {s : ServerState σ κ β} {r : ℕ} {stage : Stage σ κ β}

-- The vault whose file a request has read or is moving on.
def Stage.vaultOf : Stage σ κ β → Option ℕ
  | .unlocking user _ _ => some user.id
  | .reopening id _ _ | .confirming id _ _ _ | .rekeying id _ _ _ | .rekeyed id _ | .storing id _ _ => some id
  | _ => none

def Stage.finishing : Stage σ κ β → Option ℕ
  | .rekeyed id _ | .storing id _ _ => some id
  | _ => none

def Stage.isStoring : Stage σ κ β → Bool
  | .storing .. => true
  | _ => false

def Stage.isRegistering : Stage σ κ β → Bool
  | .registering .. => true
  | _ => false

def Stage.disturbed (other : Stage σ κ β) : Stage σ κ β → Bool
  | .rekeying id _ _ _ => other.vaultOf = some id
  | .verifying .. | .storing .. => other.isStoring
  | _ => false

-- No vault is re-keyed while another request has read its file, no list of accounts is written while another
-- request holds an older one, and the server does not restart before a changed password's verifier is stored.
def Orderly (s : ServerState σ κ β) : Action σ → Prop
  | .resume r _ => ∀ p ∈ s.requests.zipIdx, p.2 ≠ r → (s.requests[r]?).any p.1.disturbed = false
  | .restart => ∀ stage ∈ s.requests, stage.finishing = none
  | _ => True

end Order

section Sound
variable (c : Crypto σ κ β) {metas metas' : ℕ → Option (VaultMeta σ β)} {users users' : List (UserRecord σ κ)}
  {r : ℕ} {stage old : Stage σ κ β} {s s' : ServerState σ κ β}

def Unlocks (metas : ℕ → Option (VaultMeta σ β)) (id : ℕ) (password : Text) : Prop :=
  ∃ stored, metas id = some stored ∧ accepts c (c.scrypt password stored.salt) stored = true

def Agrees (metas : ℕ → Option (VaultMeta σ β)) (u : UserRecord σ κ) : Prop :=
  ∃ password, u.verifier = c.scrypt password u.salt ∧ Unlocks c metas u.id password

def Stage.Sound (metas : ℕ → Option (VaultMeta σ β)) (users : List (UserRecord σ κ)) (r : ℕ) : Stage σ κ β → Prop
  | .registering _ _ => True
  | .verifying _ password => r ∉ users.map (·.id) ∧ Unlocks c metas r password
  | .checking user _ => ∀ u ∈ user, u.id ∈ users.map (·.id)
  | .unlocking user _ stored => user.id ∈ users.map (·.id) ∧ metas user.id = some stored
  | .reopening id _ stored => id ∈ users.map (·.id) ∧ metas id = some stored
  | .confirming id _ _ stored => id ∈ users.map (·.id) ∧ metas id = some stored
  | .rekeying id _ _ stored => id ∈ users.map (·.id) ∧ metas id = some stored
  | .rekeyed id next => id ∈ users.map (·.id) ∧ Unlocks c metas id next
  | .storing id next data => id ∈ users.map (·.id) ∧ Unlocks c metas id next ∧ data = users
  | .done answer => ∀ own, answer = .ok (some own) → own.userId ∈ users.map (·.id)

theorem stageMoved (held : stage.Sound c metas users r) (grown : ∀ id ∈ users.map (·.id), id ∈ users'.map (·.id))
    (fresh : r ∉ users.map (·.id) → r ∉ users'.map (·.id)) (data : users' = users ∨ stage.isStoring = false)
    (vault : ∀ id, stage.vaultOf = some id ∨ (id = r ∧ r ∉ users.map (·.id)) → ∀ m, metas id = some m → metas' id = some m) :
    stage.Sound c metas' users' r := by
  have kept {id : ℕ} {password : Text} (own : stage.vaultOf = some id ∨ (id = r ∧ r ∉ users.map (·.id)))
      (unlocks : Unlocks c metas id password) : Unlocks c metas' id password := by
    obtain ⟨stored, there, opens⟩ := unlocks
    exact ⟨stored, vault id own stored there, opens⟩
  cases stage with
  | registering => trivial
  | verifying username password => exact ⟨fresh held.1, kept (.inr ⟨rfl, held.1⟩) held.2⟩
  | checking user password => exact fun u member => grown _ (held u member)
  | unlocking user password stored => exact ⟨grown _ held.1, vault _ (.inl rfl) _ held.2⟩
  | reopening id password stored => exact ⟨grown _ held.1, vault _ (.inl rfl) _ held.2⟩
  | confirming id current next stored => exact ⟨grown _ held.1, vault _ (.inl rfl) _ held.2⟩
  | rekeying id next oldKey stored => exact ⟨grown _ held.1, vault _ (.inl rfl) _ held.2⟩
  | rekeyed id next => exact ⟨grown _ held.1, kept (.inl rfl) held.2⟩
  | storing id next list =>
    rcases data with rfl | other
    · exact ⟨held.1, kept (.inl rfl) held.2.1, held.2.2⟩
    · cases other
  | done answer => exact fun own same => grown _ (held own same)

structure Sound (s : ServerState σ κ β) : Prop where
  vaults : ∀ id m, s.metas id = some m → ∃ stage : Stage σ κ β, s.requests[id]? = some stage ∧ stage.isRegistering = false
  keys : ∀ id key, s.keys id = some key → ∃ m, s.metas id = some m ∧ accepts c key m = true
  stages : ∀ (r : ℕ) (stage : Stage σ κ β), s.requests[r]? = some stage → stage.Sound c s.metas s.users r
  secrets : ∀ x ∈ s.secrets, ∃ m key, s.metas x.owner = some m ∧ accepts c key m = true ∧ c.decryptWith key x.blob = some x.saved
  users : ∀ u ∈ s.users, Agrees c s.metas u ∨ ∃ (r : ℕ) (stage : Stage σ κ β), s.requests[r]? = some stage ∧ stage.finishing = some u.id
  unique : (s.users.map (·.id)).Nodup
  sessions : ∀ own ∈ s.sessions, own.userId ∈ s.users.map (·.id)

variable {c}

theorem askKept (here : s.requests[r]? = some old) : (s.ask stage).requests[r]? = some old := by
  rw [ServerState.ask, List.getElem?_append_left (List.getElem?_eq_some_iff.mp here).1, here]

theorem soundAsk (sound : Sound c s) (next : stage.Sound c s.metas s.users s.requests.length) : Sound c (s.ask stage) where
  vaults id m there := by
    obtain ⟨old, here, plain⟩ := sound.vaults id m there
    exact ⟨old, askKept here, plain⟩
  keys := sound.keys
  stages r' other found := by
    rcases askFound found with ⟨rfl, rfl⟩ | before
    · exact next
    · exact sound.stages r' other before
  secrets := sound.secrets
  users u member := by
    refine (sound.users u member).imp_right ?_
    rintro ⟨r', other, here, own⟩
    exact ⟨r', other, askKept here, own⟩
  unique := sound.unique
  sessions := sound.sessions

-- The list of the requests after one of them has moved on.
theorem soundMove (sound : Sound c s) (here : s.requests[r]? = some old) (requests : s'.requests = s.requests.set r stage)
    (plain : stage.isRegistering = false) (next : stage.Sound c s'.metas s'.users r)
    (others : ∀ r' other, r' ≠ r → s.requests[r']? = some other → other.Sound c s'.metas s'.users r')
    (metas : ∀ id m, s'.metas id = some m → id = r ∨ ∃ m, s.metas id = some m)
    (keys : ∀ id key, s'.keys id = some key → ∃ m, s'.metas id = some m ∧ accepts c key m = true)
    (secrets : ∀ x ∈ s'.secrets, ∃ m key, s'.metas x.owner = some m ∧ accepts c key m = true ∧ c.decryptWith key x.blob = some x.saved)
    (users : ∀ u ∈ s'.users, Agrees c s'.metas u ∨ stage.finishing = some u.id ∨
      ∃ r' other, r' ≠ r ∧ s.requests[r']? = some other ∧ other.finishing = some u.id)
    (unique : (s'.users.map (·.id)).Nodup) (sessions : ∀ own ∈ s'.sessions, own.userId ∈ s'.users.map (·.id)) : Sound c s' := by
  have own : s'.requests[r]? = some stage := by
    rw [requests, List.getElem?_set_self (List.getElem?_eq_some_iff.mp here).1]
  have rest {r' : ℕ} (apart : r' ≠ r) : s'.requests[r']? = s.requests[r']? := by
    rw [requests, List.getElem?_set_ne apart.symm]
  refine ⟨fun id m there => ?_, keys, fun r' other found => ?_, secrets, fun u member => ?_, unique, sessions⟩
  · by_cases same : id = r
    · exact ⟨stage, same ▸ own, plain⟩
    · obtain ⟨m, before⟩ := (metas id m there).resolve_left same
      obtain ⟨other, found, calm⟩ := sound.vaults id m before
      exact ⟨other, (rest same).trans found, calm⟩
  · by_cases same : r' = r
    · subst same
      cases own.symm.trans found
      exact next
    · exact others r' other same ((rest same).symm.trans found)
  · rcases users u member with agrees | finishes | ⟨r', other, apart, found, finishes⟩
    · exact .inl agrees
    · exact .inr ⟨r, stage, own, finishes⟩
    · exact .inr ⟨r', other, (rest apart).trans found, finishes⟩

theorem usersMove {u : UserRecord σ κ} (sound : Sound c s) (here : s.requests[r]? = some old) (member : u ∈ s.users) :
    Agrees c s.metas u ∨ old.finishing = some u.id ∨
      ∃ r' other, r' ≠ r ∧ s.requests[r']? = some other ∧ other.finishing = some u.id := by
  rcases sound.users u member with agrees | ⟨r', other, found, finishes⟩
  · exact .inl agrees
  · by_cases same : r' = r
    · subst same
      cases here.symm.trans found
      exact .inr (.inl finishes)
    · exact .inr (.inr ⟨r', other, same, found, finishes⟩)

theorem soundGoto (sound : Sound c s) (here : s.requests[r]? = some old) (plain : stage.isRegistering = false)
    (next : stage.Sound c s.metas s.users r) (finishes : ∀ id, old.finishing = some id → stage.finishing = some id) :
    Sound c (s.goto r stage) :=
  soundMove sound here rfl plain next (fun r' other _ found => sound.stages r' other found) (fun _ m there => .inr ⟨m, there⟩)
    sound.keys sound.secrets (fun u member => (usersMove sound here member).imp_right (Or.imp_left (finishes u.id)))
    sound.unique sound.sessions

theorem soundKey {id : ℕ} {key : κ} {m : VaultMeta σ β} (sound : Sound c s) (there : s.metas id = some m)
    (opens : accepts c key m = true) : Sound c { s with keys := update s.keys id (some key) } := by
  refine { sound with keys := fun id' key' found => ?_ }
  simp only [update_apply] at found
  split at found
  · rename_i same
    cases found
    exact ⟨m, same ▸ there, opens⟩
  · exact sound.keys id' key' found

theorem soundSessions {sessions : List Session} {n : ℕ} (sound : Sound c s)
    (own : ∀ x ∈ sessions, x.userId ∈ s.users.map (·.id)) : Sound c { s with sessions := sessions, nextSession := n } :=
  { sound with sessions := own }

theorem soundLock {userId : ℕ} {cleared : List ℕ} (sound : Sound c s) : Sound c (s.lock c.zeros userId cleared) := by
  have moved {r' : ℕ} {old : Stage σ κ β} (here : s.requests[r']? = some old) :
      ∃ stage, (s.lock c.zeros userId cleared).requests[r']? = some stage ∧ stage.isRegistering = old.isRegistering ∧
        stage.finishing = old.finishing := by
    refine ⟨_, by rw [ServerState.lock, List.getElem?_mapIdx, here, Option.map_some], ?_⟩
    split
    · cases old <;> exact ⟨rfl, rfl⟩
    · exact ⟨rfl, rfl⟩
  refine ⟨fun id m there => ?_, fun id key found => ?_, fun r' other found => ?_, sound.secrets, fun u member => ?_, sound.unique,
    sound.sessions⟩
  · obtain ⟨old, here, plain⟩ := sound.vaults id m there
    obtain ⟨stage, now, same, -⟩ := moved here
    exact ⟨stage, now, same.trans plain⟩
  · simp only [ServerState.lock, update_apply] at found
    split at found
    · cases found
    · exact sound.keys id key found
  · obtain ⟨old, here, rfl | rfl⟩ := lockFound found
    · exact sound.stages r' _ here
    · have held := sound.stages r' old here
      cases old <;> exact held
  · rcases sound.users u member with agrees | ⟨r', other, found, own⟩
    · exact .inl agrees
    · obtain ⟨stage, now, -, same⟩ := moved found
      exact .inr ⟨r', stage, now, same.trans own⟩

theorem userVault (sound : Sound c s) {u : UserRecord σ κ} (member : u ∈ s.users) : ∃ m, s.metas u.id = some m := by
  rcases sound.users u member with ⟨password, -, m, there, -⟩ | ⟨r', other, found, own⟩
  · exact ⟨m, there⟩
  · have held := sound.stages r' other found
    cases other with
    | rekeyed id next => cases own; obtain ⟨-, m, there, -⟩ := held; exact ⟨m, there⟩
    | storing id next data => cases own; obtain ⟨-, ⟨m, there, -⟩, -⟩ := held; exact ⟨m, there⟩
    | _ => cases own

theorem idVault (sound : Sound c s) {id : ℕ} (listed : id ∈ s.users.map (·.id)) : ∃ m, s.metas id = some m := by
  obtain ⟨u, member, rfl⟩ := List.mem_map.mp listed
  exact userVault sound member

theorem vaultListed {id : ℕ} (held : stage.Sound c metas users r) (mine : stage.vaultOf = some id) : id ∈ users.map (·.id) := by
  cases stage <;> first | (cases mine; exact held.1) | cases mine

theorem orderlyApart {r' : ℕ} {salt : σ} {other : Stage σ κ β} (orderly : Orderly s (.resume r salt)) (here : s.requests[r]? = some old)
    (found : s.requests[r']? = some other) (apart : r' ≠ r) : other.disturbed old = false := by
  have alone := orderly (other, r') (List.mk_mem_zipIdx_iff_getElem?.mpr found) apart
  rwa [here] at alone

theorem acceptsOwn (key : κ) (salt : σ) : accepts c key ⟨salt, c.encryptWith key checkPlaintext⟩ = true := by
  simp [accepts, c.opens]

theorem rewrapMember {userId : ℕ} {oldKey newKey : κ} {secrets : List (Secret β)} (ok : rewrapAll c s userId oldKey newKey = some secrets) :
    ∀ y ∈ secrets, ∃ x ∈ s.secrets, y.owner = x.owner ∧ (x.owner ≠ userId → y = x) ∧ (x.owner = userId →
      ∃ plaintext, c.decryptWith oldKey x.blob = some plaintext ∧ y = { x with blob := c.encryptWith newKey plaintext }) := by
  rw [rewrapAll] at ok
  generalize s.secrets = xs at ok
  induction xs generalizing secrets with
  | nil => cases ok; simp
  | cons x xs ih =>
    rw [List.mapM_cons, Option.bind_eq_bind, Option.bind_eq_some_iff] at ok
    obtain ⟨y, made, rest⟩ := ok
    obtain ⟨ys, later, same⟩ := Option.bind_eq_some_iff.mp rest
    cases same
    intro z member
    rcases List.mem_cons.mp member with rfl | tail
    · refine ⟨x, by simp, ?_⟩
      split at made
      · rename_i own
        obtain ⟨plaintext, read, rfl⟩ := Option.map_eq_some_iff.mp made
        exact ⟨rfl, fun other => absurd own other, fun _ => ⟨plaintext, read, rfl⟩⟩
      · rename_i other
        cases made
        exact ⟨rfl, fun _ => rfl, fun own => absurd own other⟩
    · obtain ⟨x', inside, facts⟩ := ih later z tail
      exact ⟨x', by simp [inside], facts⟩

theorem verifierMember {id : ℕ} {salt : σ} {verifier : κ} (unique : (users.map (·.id)).Nodup) :
    ∀ u ∈ setVerifier id salt verifier users, (u.id = id ∧ u.salt = salt ∧ u.verifier = verifier) ∨ (u.id ≠ id ∧ u ∈ users) := by
  induction users with
  | nil => simp [setVerifier]
  | cons first rest ih =>
    rw [List.map_cons, List.nodup_cons] at unique
    intro u member
    rw [setVerifier] at member
    split at member <;> rename_i same <;> rcases List.mem_cons.mp member with rfl | tail
    · exact .inl ⟨same, rfl, rfl⟩
    · refine .inr ⟨fun again => unique.1 ?_, by simp [tail]⟩
      rw [same, ← again]
      exact List.mem_map_of_mem tail
    · exact .inr ⟨same, by simp⟩
    · exact (ih unique.2 u tail).imp_right fun other => ⟨other.1, by simp [other.2]⟩

section Special
variable {salt : σ} {username password next : Text} {userId : ℕ} {oldKey : κ} {stored : VaultMeta σ β}

theorem rekeyMove {id : ℕ} {key : κ} {secrets : List (Secret β)} (sound : Sound c s) (here : s.requests[r]? = some old)
    (plain : stage.isRegistering = false) (idle : old.finishing = none) (known : id = r ∨ ∃ m, s.metas id = some m)
    (next : stage.Sound c (update s.metas id (some ⟨salt, c.encryptWith key checkPlaintext⟩)) s.users r)
    (alone : ∀ r' other, r' ≠ r → s.requests[r']? = some other →
      other.vaultOf ≠ some id ∧ (r' ∉ s.users.map (·.id) → r' ≠ id))
    (kept : ∀ x ∈ secrets, (x.owner = id ∧ c.decryptWith key x.blob = some x.saved) ∨ (x.owner ≠ id ∧ x ∈ s.secrets))
    (users : ∀ u ∈ s.users, u.id = id → stage.finishing = some id) : Sound c ({ s with
      secrets := secrets
      metas := update s.metas id (some ⟨salt, c.encryptWith key checkPlaintext⟩)
      keys := update s.keys id (some key) }.goto r stage) := by
  have own : update s.metas id (some ⟨salt, c.encryptWith key checkPlaintext⟩) id = some ⟨salt, c.encryptWith key checkPlaintext⟩ :=
    update_self ..
  have same {id' : ℕ} (apart : id' ≠ id) :
      update s.metas id (some ⟨salt, c.encryptWith key checkPlaintext⟩) id' = s.metas id' := update_of_ne apart ..
  refine soundMove sound here rfl plain next (fun r' other apart found => ?_) (fun id' m there => ?_) (fun id' key' found => ?_)
    (fun x member => ?_) (fun u member => ?_) sound.unique sound.sessions
  · obtain ⟨vault, fresh⟩ := alone r' other apart found
    refine stageMoved c (sound.stages r' other found) (fun _ listed => listed) (fun outside => outside) (.inl rfl) fun id' held m there => (same ?_).trans there
    rintro rfl
    rcases held with mine | ⟨rfl, outside⟩
    · exact vault mine
    · exact fresh outside rfl
  · by_cases mine : id' = id
    · exact mine ▸ known
    · exact .inr ⟨m, (same mine).symm.trans there⟩
  · simp only [ServerState.goto, update_apply] at found
    split at found
    · rename_i mine
      cases found
      cases mine
      exact ⟨_, own, acceptsOwn _ _⟩
    · rename_i apart
      obtain ⟨m, there, opens⟩ := sound.keys id' key' found
      exact ⟨m, (same apart).trans there, opens⟩
  · rcases kept x member with ⟨rfl, reads⟩ | ⟨apart, before⟩
    · exact ⟨_, key, own, acceptsOwn _ _, reads⟩
    · obtain ⟨m, key', there, facts⟩ := sound.secrets x before
      exact ⟨m, key', (same apart).trans there, facts⟩
  · by_cases mine : u.id = id
    · exact .inr (.inl (mine ▸ users u member mine))
    · rcases usersMove sound here member with ⟨password, signs, m, there, opens⟩ | finishes | later
      · exact .inl ⟨password, signs, m, (same mine).trans there, opens⟩
      · rw [idle] at finishes
        cases finishes
      · exact .inr (.inr later)

theorem registeringKeeps (sound : Sound c s) (here : s.requests[r]? = some (.registering username password)) :
    Sound c ({ s with
      metas := update s.metas r (some ⟨salt, c.encryptWith (c.scrypt password salt) checkPlaintext⟩)
      keys := update s.keys r (some (c.scrypt password salt)) }.goto r (.verifying username password)) := by
  have empty (m : VaultMeta σ β) : s.metas r ≠ some m := fun there => by
    obtain ⟨stage, found, plain⟩ := sound.vaults r m there
    cases here.symm.trans found
    cases plain
  have unlisted : r ∉ s.users.map (·.id) := fun listed => (idVault sound listed).elim empty
  refine rekeyMove sound here rfl rfl (.inl rfl) ⟨unlisted, _, update_self .., acceptsOwn _ _⟩ (fun r' other apart found => ?_)
    (fun x member => ?_) fun u member same => absurd (same ▸ List.mem_map_of_mem member) unlisted
  · exact ⟨fun mine => unlisted (vaultListed (sound.stages r' other found) mine), fun _ => apart⟩
  · obtain ⟨m, -, there, -⟩ := sound.secrets x member
    exact .inr ⟨fun same => empty m (same ▸ there), member⟩

theorem rekeyingKeeps {secrets : List (Secret β)} (sound : Sound c s)
    (here : s.requests[r]? = some (.rekeying userId next oldKey stored)) (orderly : Orderly s (.resume r salt))
    (rewrapped : rewrapAll c s userId oldKey (c.scrypt next stored.salt) = some secrets) :
    Sound c ({ s with
      secrets := secrets
      metas := update s.metas userId (some ⟨stored.salt, c.encryptWith (c.scrypt next stored.salt) checkPlaintext⟩)
      keys := update s.keys userId (some (c.scrypt next stored.salt)) }.goto r (.rekeyed userId next)) := by
  obtain ⟨listed, -⟩ := sound.stages r _ here
  refine rekeyMove sound here rfl rfl (.inr (idVault sound listed)) ⟨listed, _, update_self .., acceptsOwn _ _⟩
    (fun r' other apart found => ⟨?_, ?_⟩) (fun y member => ?_) fun _ _ _ => rfl
  · simpa [Stage.disturbed] using orderlyApart orderly here found apart
  · rintro outside rfl
    exact outside listed
  · obtain ⟨x, inside, owner, other, mine⟩ := rewrapMember rewrapped y member
    by_cases same : x.owner = userId
    · obtain ⟨plaintext, read, rfl⟩ := mine same
      obtain ⟨-, key, -, -, reads⟩ := sound.secrets x inside
      cases c.alone read reads
      cases read.symm.trans reads
      exact .inl ⟨same, c.opens _ _⟩
    · cases other same
      exact .inr ⟨same, inside⟩

theorem usersWritten {list : List (UserRecord σ κ)} {sessions : List Session} {n : ℕ} {answer : Except Failure (Option Session)}
    (sound : Sound c s) (here : s.requests[r]? = some old)
    (apart : ∀ r' other, r' ≠ r → s.requests[r']? = some other → other.isStoring = false)
    (grown : ∀ id ∈ s.users.map (·.id), id ∈ list.map (·.id))
    (fresh : ∀ r', r' ≠ r → r' ∉ s.users.map (·.id) → r' ∉ list.map (·.id))
    (agrees : ∀ u ∈ list, Agrees c s.metas u ∨ (u ∈ s.users ∧ old.finishing ≠ some u.id))
    (unique : (list.map (·.id)).Nodup)
    (answered : ∀ own, answer = .ok (some own) → own.userId ∈ list.map (·.id))
    (owned : ∀ own ∈ sessions, own.userId ∈ list.map (·.id)) :
    Sound c ({ s with users := list, sessions := sessions, nextSession := n }.goto r (.done answer)) := by
  refine soundMove sound here rfl rfl answered (fun r' other away found => ?_) (fun _ m there => .inr ⟨m, there⟩) sound.keys
    sound.secrets (fun u member => ?_) unique owned
  · exact stageMoved c (sound.stages r' other found) grown (fresh r' away) (.inr (apart r' other away found)) fun _ _ _ there => there
  · rcases agrees u member with agrees | ⟨before, quiet⟩
    · exact .inl agrees
    · exact (usersMove sound here before).imp_right fun later => .inr (later.resolve_left quiet)

theorem verifyingKeeps {u : UserRecord σ κ} (sound : Sound c s) (here : s.requests[r]? = some (.verifying u.username password))
    (orderly : Orderly s (.resume r salt)) (id : u.id = r) (verifier : u.verifier = c.scrypt password u.salt) :
    Sound c ({ s with users := s.users ++ [u] }.newSession r u) := by
  obtain ⟨unlisted, unlocks⟩ := sound.stages r _ here
  have ids : (s.users ++ [u]).map (·.id) = s.users.map (·.id) ++ [r] := by simp [id]
  refine usersWritten (s := s) sound here (fun r' other apart found => orderlyApart orderly here found apart) (fun x listed => ?_)
    (fun r' apart outside => ?_) (fun x member => ?_) ?_ ?_ fun own member => ?_
  · exact ids ▸ List.mem_append_left _ listed
  · simpa [ids, apart] using outside
  · rcases List.mem_append.mp member with before | last
    · exact .inr ⟨before, by rintro ⟨⟩⟩
    · cases List.mem_singleton.mp last
      exact .inl ⟨password, verifier, id ▸ unlocks⟩
  · exact ids ▸ List.nodup_append.mpr ⟨sound.unique, by simp, by simpa using unlisted⟩
  · rintro own ⟨⟩
    simp
  · rcases List.mem_append.mp member with before | last
    · exact ids ▸ List.mem_append_left _ (sound.sessions own before)
    · cases List.mem_singleton.mp last
      simp

theorem storingKeeps {data : List (UserRecord σ κ)} (sound : Sound c s)
    (here : s.requests[r]? = some (.storing userId next data)) (orderly : Orderly s (.resume r salt)) :
    Sound c ({ s with users := setVerifier userId salt (c.scrypt next salt) data }.goto r (.done (.ok none))) := by
  obtain ⟨-, unlocks, rfl⟩ := sound.stages r _ here
  have same := verifierSame userId salt (c.scrypt next salt) s.users
  have ids : (setVerifier userId salt (c.scrypt next salt) s.users).map (·.id) = s.users.map (·.id) := by
    simpa [Function.comp_def] using congrArg (List.map Prod.fst) same
  refine usersWritten sound here (fun r' other apart found => orderlyApart orderly here found apart)
    (fun id listed => ids ▸ listed) (fun r' _ outside => ids ▸ outside) (fun u member => ?_) (ids ▸ sound.unique)
    (by rintro own ⟨⟩) fun own member => ids ▸ sound.sessions own member
  rcases verifierMember sound.unique u member with ⟨own, salted, verified⟩ | ⟨apart, before⟩
  · exact .inl ⟨next, by rw [salted, verified], own ▸ unlocks⟩
  · exact .inr ⟨before, fun finishes => apart (Option.some.inj finishes).symm⟩

end Special

section Steps
variable [DecidableEq κ] {lower : Text → Text} {salt : σ} {a : Action σ}

omit [DecidableEq κ] in
theorem soundSession {u : UserRecord σ κ} (sound : Sound c s) (here : s.requests[r]? = some old) (idle : old.finishing = none)
    (listed : u.id ∈ s.users.map (·.id)) : Sound c (s.newSession r u) := by
  refine soundGoto (soundSessions sound fun x member => ?_) here rfl ?_ (by simp [idle])
  · rcases List.mem_append.mp member with before | last
    · exact sound.sessions x before
    · cases List.mem_singleton.mp last
      exact listed
  · rintro own ⟨⟩
    exact listed

theorem soundResume (sound : Sound c s) (orderly : Orderly s (.resume r salt)) (here : s.requests[r]? = some old)
    (moved : resume c lower s r salt old = some s') : Sound c s' := by
  have held := sound.stages r old here
  have ended (answer : Except Failure (Option Session)) (idle : old.finishing = none) (none' : ∀ own, answer ≠ .ok (some own)) :
      Sound c (s.goto r (.done answer)) :=
    soundGoto sound here rfl (fun own same => absurd same (none' own)) (by simp [idle])
  cases old with
  | registering username password =>
    cases moved
    exact registeringKeeps sound here
  | verifying username password =>
    rw [resume] at moved
    split at moved
    · cases moved
      have locked : (s.lock c.zeros r []).requests = s.requests := List.ext_getElem? (by simp [ServerState.lock])
      exact soundGoto (soundLock sound) (locked ▸ here) rfl (by rintro own ⟨⟩) (by simp [Stage.finishing])
    · cases moved
      exact verifyingKeeps sound here orderly rfl rfl
  | checking user password =>
    cases user with
    | none => cases moved; exact ended _ rfl (by rintro own ⟨⟩)
    | some user =>
      rw [resume] at moved
      split at moved <;> cases moved
      · have listed := held user rfl
        obtain ⟨m, there⟩ := idVault sound listed
        rw [there, Option.elim_some]
        exact soundGoto sound here rfl ⟨listed, there⟩ (by simp [Stage.finishing])
      · exact ended _ rfl (by rintro own ⟨⟩)
  | unlocking user password stored =>
    rw [resume] at moved
    split at moved <;> cases moved
    · rename_i opens
      exact soundSession (soundKey sound held.2 opens) here rfl held.1
    · exact ended _ rfl (by rintro own ⟨⟩)
  | reopening userId password stored =>
    rw [resume] at moved
    split at moved <;> cases moved
    · rename_i opens
      exact soundGoto (soundKey sound held.2 opens) here rfl (by rintro own ⟨⟩) (by simp [Stage.finishing])
    · exact ended _ rfl (by rintro own ⟨⟩)
  | confirming userId current next stored =>
    rw [resume] at moved
    split at moved <;> cases moved
    · rename_i opens
      rw [held.2, Option.elim_some]
      exact soundGoto (soundKey sound held.2 opens) here rfl held (by simp [Stage.finishing])
    · exact ended _ rfl (by rintro own ⟨⟩)
  | rekeying userId next oldKey stored =>
    rw [resume] at moved
    split at moved <;> cases moved
    · exact ended _ rfl (by rintro own ⟨⟩)
    · rename_i rewrapped
      exact rekeyingKeeps sound here orderly rewrapped
  | rekeyed userId next =>
    cases moved
    rw [if_pos (by simpa using held.1)]
    exact soundGoto sound here rfl ⟨held.1, held.2, rfl⟩ fun _ same => same
  | storing userId next data =>
    cases moved
    exact storingKeeps sound here orderly
  | done answer => cases moved

theorem soundRestart (sound : Sound c s) (orderly : Orderly s (.restart : Action σ))
    (moved : step c lower s .restart = some s') : Sound c s' := by
  cases moved
  refine ⟨fun id m there => ?_, fun id key found => (by cases found), fun r stage found => ?_, sound.secrets, fun u member => ?_,
    sound.unique, by simp⟩
  · obtain ⟨old, here, plain⟩ := sound.vaults id m there
    refine ⟨old.cut, by simp [here], ?_⟩
    cases old <;> rfl
  · rw [List.getElem?_map, Option.map_eq_some_iff] at found
    obtain ⟨old, here, rfl⟩ := found
    have held := sound.stages r old here
    cases old with
    | done answer => exact held
    | _ => rintro own ⟨⟩
  · rcases sound.users u member with agrees | ⟨r, other, found, finishes⟩
    · exact .inl agrees
    · rw [orderly other (List.mem_of_getElem? found)] at finishes
      cases finishes

theorem soundStep (sound : Sound c s) (orderly : Orderly s a) (moved : step c lower s a = some s') : Sound c s' := by
  have signed {session : ℕ} {own : Session} (found : s.session session = some own) : own.userId ∈ s.users.map (·.id) :=
    sound.sessions own (List.mem_of_find?_eq_some found)
  have fewer (session : ℕ) (n : ℕ) : Sound c { s with sessions := s.sessions.filter (·.id ≠ session), nextSession := n } :=
    soundSessions sound fun x member => sound.sessions x (List.mem_of_mem_filter member)
  cases a with
  | register username password =>
    cases moved
    refine soundAsk sound ?_
    rw [register]
    repeat' split
    all_goals first | trivial | rintro own ⟨⟩
  | signIn username password =>
    cases moved
    exact soundAsk sound fun u found => List.mem_map_of_mem (List.mem_of_find?_eq_some found)
  | unlock session password =>
    obtain ⟨own, found, rfl⟩ := Option.map_eq_some_iff.mp moved
    obtain ⟨m, there⟩ := idVault sound (signed found)
    refine soundAsk sound ?_
    rw [unlock, there, Option.elim_some]
    split
    · rintro own ⟨⟩
    · exact ⟨signed found, there⟩
  | change session current next =>
    obtain ⟨own, found, rfl⟩ := Option.map_eq_some_iff.mp moved
    obtain ⟨m, there⟩ := idVault sound (signed found)
    refine soundAsk sound ?_
    simp only [change, there]
    repeat' split
    all_goals first | exact ⟨signed found, there⟩ | rintro own ⟨⟩
  | save session plaintext =>
    obtain ⟨own, -, kept⟩ := Option.bind_eq_some_iff.mp moved
    obtain ⟨key, held, rfl⟩ := Option.map_eq_some_iff.mp kept
    obtain ⟨m, there, opens⟩ := sound.keys own.userId key held
    refine { sound with secrets := fun x member => ?_ }
    rcases List.mem_append.mp member with before | last
    · exact sound.secrets x before
    · cases List.mem_singleton.mp last
      exact ⟨m, key, there, opens, c.opens key plaintext⟩
  | signOut session cleared =>
    obtain ⟨own, -, rfl⟩ := Option.map_eq_some_iff.mp moved
    rw [ServerState.signOut]
    split
    · exact fewer own.id _
    · exact soundLock (fewer own.id _)
  | lock session cleared =>
    obtain ⟨own, -, rfl⟩ := Option.map_eq_some_iff.mp moved
    exact soundLock sound
  | expire session =>
    cases moved
    exact fewer session _
  | resume r salt =>
    obtain ⟨stage, here, moved⟩ := Option.bind_eq_some_iff.mp moved
    exact soundResume sound orderly here moved
  | restart => exact soundRestart sound orderly moved

omit [DecidableEq κ] in
theorem soundFresh : Sound c {} := by
  refine ⟨?_, ?_, ?_, ?_, ?_, ?_, ?_⟩ <;> simp

theorem namesStayDistinct {acts : List (Action σ)} (ran : runSteps (step c lower) {} acts = some s') : Distinct lower s'.users :=
  have named : Named lower s' := everyRunKeeps namedStep ⟨by simp [Distinct], by simp⟩ ran
  named.users

theorem passwordOpens {acts : List (Action σ)} (orderly : Along Orderly (step c lower) {} acts)
    (ran : runSteps (step c lower) {} acts = some s') :
    (∀ (r : ℕ) (own : Session), s'.requests[r]? = some (.done (.ok (some own))) → ∃ u ∈ s'.users, u.id = own.userId) ∧
    ∀ u ∈ s'.users, (∀ stage ∈ s'.requests, stage.finishing ≠ some u.id) → ∃ password stored,
        u.verifier = c.scrypt password u.salt ∧ s'.metas u.id = some stored ∧
          accepts c (c.scrypt password stored.salt) stored = true ∧
            ∀ x ∈ s'.secrets, x.owner = u.id → c.decryptWith (c.scrypt password stored.salt) x.blob = some x.saved := by
  have sound : Sound c s' := runKeeps soundStep soundFresh orderly ran
  refine ⟨fun r own found => ?_, fun u member idle => ?_⟩
  · exact List.mem_map.mp (sound.stages r _ found own rfl)
  · rcases sound.users u member with ⟨password, signs, stored, there, opens⟩ | ⟨r, stage, found, finishes⟩
    · refine ⟨password, stored, signs, there, opens, fun x inside own => ?_⟩
      obtain ⟨m, key, same, accepted, reads⟩ := sound.secrets x inside
      rw [own, there] at same
      cases same
      simp only [accepts, decide_eq_true_eq] at opens accepted
      exact c.alone accepted opens ▸ reads
    · exact absurd finishes (idle stage (List.mem_of_getElem? found))

instance (s : ServerState σ κ β) (a : Action σ) : Decidable (Orderly s a) := by
  cases a <;> unfold Orderly <;> infer_instance

end Steps

def plainCrypto : Crypto ℕ (Text × ℕ) ((Text × ℕ) × Text) where
  scrypt password salt := (password, salt)
  encryptWith key plaintext := (key, plaintext)
  decryptWith key blob := if key = blob.1 then some blob.2 else none
  zeros := ([], 0)
  opens := by simp
  alone := by
    intro key key' blob p p' own other
    split at own
    · rename_i same
      split at other
      · rename_i same'
        exact same.trans same'.symm
      · cases other
    · cases own

-- Two sign-ups race for one name.
def sameName : List (Action ℕ) :=
  [.register (units "ann") (units "12345678"), .register (units " ann") (units "87654321"), .resume 0 1, .resume 1 2, .resume 1 3, .resume 0 4]

theorem sameNameOnce : ∃ s', runSteps (step plainCrypto id) {} sameName = some s' ∧ s'.users.length = 1 ∧ Distinct id s'.users := by
  have ends : ((runSteps (step plainCrypto id) {} sameName).any fun s' => s'.users.length = 1) = true := by decide +kernel
  obtain ⟨s', ran, one⟩ := (Option.any_eq_true _ _).mp ends
  exact ⟨s', ran, by simpa using one, namesStayDistinct ran⟩

-- Ann signs up, saves a secret, changes her password and signs in with the new one.
def changedPassword : List (Action ℕ) :=
  [.register (units "ann ") (units "12345678"), .resume 0 1, .resume 0 2, .save 0 (units "s3cret"),
    .change 0 (units "12345678") (units "87654321"), .resume 1 0, .resume 1 0, .resume 1 0, .resume 1 5,
    .signIn (units "ann") (units "87654321"), .resume 2 0, .resume 2 0]

theorem changedPasswordOpens : ∃ s', runSteps (step plainCrypto id) {} changedPassword = some s' ∧ s'.sessions.length = 2 ∧
    ∀ u ∈ s'.users, ∃ password stored, u.verifier = (password, u.salt) ∧ s'.metas u.id = some stored ∧
      accepts plainCrypto (password, stored.salt) stored = true ∧
        ∀ x ∈ s'.secrets, x.owner = u.id → plainCrypto.decryptWith (password, stored.salt) x.blob = some x.saved := by
  have ends : ((runSteps (step plainCrypto id) {} changedPassword).any fun s' =>
      s'.sessions.length = 2 && s'.requests.all fun stage => stage.finishing = none) = true := by decide +kernel
  obtain ⟨s', ran, facts⟩ := (Option.any_eq_true _ _).mp ends
  simp only [Bool.and_eq_true, decide_eq_true_eq, List.all_eq_true] at facts
  refine ⟨s', ran, facts.1, fun u member => (passwordOpens (by decide +kernel) ran).2 u member fun stage inside => ?_⟩
  rw [facts.2 stage inside]
  rintro ⟨⟩

end Sound

end DatabaseAdmin.Accounts
