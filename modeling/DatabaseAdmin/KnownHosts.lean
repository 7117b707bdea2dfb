import DatabaseAdmin.BinaryText
import DatabaseAdmin.MysqlLoads

/-! The verdict on a presented host key, read off the known_hosts file. The loop stops at the
first line that decides; what the file as a whole asks for is stated over its lines. -/
namespace DatabaseAdmin.KnownHosts
open CodeUnits BinaryText

-- What the verifier takes from its platform: the case folding of regular expressions,
-- the decoding of a buffer and HMAC-SHA1.
structure Platform where
  canonicalize : CodeUnit → CodeUnit
  utf8 : List UInt8 → Text
  hmacSha1 : List UInt8 → List UInt8 → List UInt8

inductive Marker where
  | revoked | certAuthority
  deriving DecidableEq

structure KnownHostEntry where
  marker : Option Marker
  hosts : List Text
  keyType : Text
  key : Text
  deriving DecidableEq

section Parsing

def spaceFields : Text → List Text
  | [] => [[]]
  | c :: rest =>
    if isWhite c then
      if rest.head?.any isWhite then spaceFields rest else [] :: spaceFields rest
    else match spaceFields rest with
      | [] => [[c]]
      | field :: fields => (c :: field) :: fields

def joinSpace (fields : List Text) : Text := (fields.intersperse [(' ' : CodeUnit)]).flatten

def markerOf (m : Text) : Option Marker :=
  if m = units "@revoked" then some .revoked
  else if m = units "@cert-authority" then some .certAuthority
  else none

def unmark (line : Text) : Option Marker × Text :=
  if startsWith ['@'] line then
    match spaceFields line with
    | m :: tail => (markerOf m, joinSpace tail)
    | [] => (none, [])
  else (none, line)

def knownHostEntry (rawLine : Text) : Option KnownHostEntry :=
  let line := trim rawLine
  if line = [] ∨ startsWith ['#'] line then none
  else
    let unmarked := unmark line
    match spaceFields unmarked.2 with
    | hosts :: keyType :: key :: _ => some ⟨unmarked.1, hosts.splitOn (',' : CodeUnit), keyType, key⟩
    | _ => none

def loadKnownHosts (content : Text) : List KnownHostEntry :=
  (content.splitOn newline).filterMap knownHostEntry

end Parsing

section Matching
variable (platform : Platform)

def lineEnd (c : CodeUnit) : Bool := c = 10 || c = 13 || c = 0x2028 || c = 0x2029

def starMatches (rest : Text → Bool) : Text → Bool
  | [] => rest []
  | c :: text => rest (c :: text) || (!lineEnd c && starMatches rest text)

def patternMatches : Text → Text → Bool
  | [], text => text.isEmpty
  | p :: pattern, text =>
    if p = '*' then starMatches (patternMatches pattern) text
    else match text with
      | [] => false
      | c :: rest =>
          (if p = '?' then !lineEnd c else platform.canonicalize p = platform.canonicalize c)
            && patternMatches pattern rest

def knownHostNames (host : Text) (port : Nat) : List Text :=
  if port = 22 then [host] else [('[' : CodeUnit) :: host ++ units "]:" ++ units (toString port), host]

def hashedName (salt name : Text) : Text :=
  base64Text (platform.hmacSha1 (base64Bytes salt) (MysqlLoads.octets name))

def knownHostMatches (pattern : Text) (candidates : List Text) : Bool :=
  if startsWith (units "|1|") pattern then
    match pattern.splitOn ('|' : CodeUnit) with
    | _ :: _ :: salt :: hash :: _ =>
        if salt = [] ∨ hash = [] then false
        else candidates.any fun name => hashedName platform salt name = hash
    | _ => false
  else candidates.any (patternMatches platform pattern)

def keyBlobType (key : List UInt8) : Text :=
  match key with
  | a :: b :: c :: d :: rest =>
      let len := ((a.toNat * 256 + b.toNat) * 256 + c.toNat) * 256 + d.toNat
      if len = 0 ∨ rest.length < len then [] else platform.utf8 (rest.take len)
  | _ => []

def matchesEntry (candidates : List Text) (entry : KnownHostEntry) : Bool :=
  entry.hosts.any fun h => knownHostMatches platform h candidates

def verify (candidates : List Text) (presented presentedType : Text) : Bool → List KnownHostEntry → Bool
  | sawHost, [] => !sawHost
  | sawHost, entry :: rest =>
    if !matchesEntry platform candidates entry then verify candidates presented presentedType sawHost rest
    else if entry.marker = some .revoked ∧ entry.key = presented then false
    else if entry.marker ≠ none then verify candidates presented presentedType sawHost rest
    else if entry.keyType ≠ presentedType then verify candidates presented presentedType sawHost rest
    else if entry.key = presented then true
    else verify candidates presented presentedType true rest

def makeHostVerifier (content host : Text) (port : Nat) (key : List UInt8) : Bool :=
  verify platform (knownHostNames host port) (base64Text key) (keyBlobType platform key) false
    (loadKnownHosts content)

end Matching

section Rules
variable (platform : Platform)

def lineMarker (rawLine : Text) : Option Text :=
  if startsWith ['@'] (trim rawLine) then (spaceFields (trim rawLine)).head? else none

def negated (pattern : Text) : Bool := startsWith ['!'] pattern

def ListMatches (hosts : List Text) (name : Text) : Prop :=
  (∃ h ∈ hosts, negated h = false ∧ knownHostMatches platform h [name] = true)
    ∧ ∀ h ∈ hosts, negated h = true → patternMatches platform (h.drop 1) name = false

def Lists (content host : Text) (port : Nat) (marker : Option Text) (entry : KnownHostEntry) : Prop :=
  ∃ rawLine ∈ content.splitOn newline, knownHostEntry rawLine = some entry ∧ lineMarker rawLine = marker
    ∧ ∃ name ∈ knownHostNames host port, ListMatches platform entry.hosts name

def Revoked (content host : Text) (port : Nat) (key : List UInt8) : Prop :=
  ∃ entry, Lists platform content host port (some (units "@revoked")) entry ∧ entry.key = base64Text key

def Substituted (content host : Text) (port : Nat) (key : List UInt8) : Prop :=
  ∃ entry, Lists platform content host port none entry ∧ entry.keyType = keyBlobType platform key
    ∧ entry.key ≠ base64Text key

def Recorded (content host : Text) (port : Nat) (key : List UInt8) : Prop :=
  ∃ entry, Lists platform content host port none entry ∧ entry.key = base64Text key

def decides (candidates : List Text) (presented presentedType : Text) (entry : KnownHostEntry) : Bool :=
  matchesEntry platform candidates entry && decide (entry.key = presented)
    && (decide (entry.marker = some .revoked)
      || decide (entry.marker = none) && decide (entry.keyType = presentedType))

def deciding (content host : Text) (port : Nat) (key : List UInt8) : Option KnownHostEntry :=
  (loadKnownHosts content).find?
    (decides platform (knownHostNames host port) (base64Text key) (keyBlobType platform key))

end Rules

section Verdict
variable {platform : Platform} {content host : Text} {port : Nat} {key : List UInt8}
  {candidates : List Text} {presented presentedType : Text}

theorem verifyIs (sawHost : Bool) (entries : List KnownHostEntry) :
    verify platform candidates presented presentedType sawHost entries
      = match entries.find? (decides platform candidates presented presentedType) with
        | some entry => decide (entry.marker ≠ some .revoked)
        | none => !(sawHost || entries.any fun entry => matchesEntry platform candidates entry
            && decide (entry.marker = none) && decide (entry.keyType = presentedType)) := by
  induction entries generalizing sawHost with
  | nil => simp [verify]
  | cons entry rest ih =>
    unfold verify
    simp only [List.find?_cons, List.any_cons]
    cases matched : matchesEntry platform candidates entry with
    | false => simp [decides, matched, ih]
    | true =>
      simp only [Bool.not_true, Bool.false_eq_true, if_false]
      split
      · rename_i revoked
        simp [decides, matched, revoked]
      · rename_i unrevoked
        split
        · rename_i marked
          have undecided : decides platform candidates presented presentedType entry = false := by
            simp [decides, matched, marked]
            tauto
          simp [undecided, ih, marked]
        · rename_i unmarked
          simp only [ne_eq, not_not] at unmarked
          split
          · rename_i other
            have undecided : decides platform candidates presented presentedType entry = false := by
              simp [decides, unmarked, other]
            simp [undecided, ih, other]
          · rename_i same
            simp only [ne_eq, not_not] at same
            split
            · rename_i known
              simp [decides, matched, known, unmarked, same]
            · rename_i changed
              have undecided : decides platform candidates presented presentedType entry = false := by
                simp [decides, changed]
              simp [undecided, ih, unmarked, same]

theorem matchesMore {pattern name : Text} (inside : name ∈ candidates)
    (found : knownHostMatches platform pattern [name] = true) :
    knownHostMatches platform pattern candidates = true := by
  unfold knownHostMatches at found ⊢
  split
  · rename_i hashed
    rw [if_pos hashed] at found
    split
    · rename_i salt hash _ parts
      simp only [parts] at found
      split
      · rename_i blank
        simp [blank] at found
      · rename_i given
        rw [if_neg given, List.any_cons, List.any_nil, Bool.or_false] at found
        exact List.any_eq_true.mpr ⟨name, inside, found⟩
    · rename_i short
      split at found
      · rename_i parts
        exact absurd parts (short _ _ _ _ _)
      · exact found
  · rename_i plain
    rw [if_neg plain, List.any_cons, List.any_nil, Bool.or_false] at found
    exact List.any_eq_true.mpr ⟨name, inside, found⟩

theorem entryMarker {rawLine : Text} {entry : KnownHostEntry} (read : knownHostEntry rawLine = some entry) :
    (lineMarker rawLine = none → entry.marker = none)
      ∧ (lineMarker rawLine = some (units "@revoked") → entry.marker = some .revoked) := by
  have marker : entry.marker = (unmark (trim rawLine)).1 := by
    simp only [knownHostEntry] at read
    split at read
    · cases read
    · split at read <;> cases read
      rfl
  rw [marker]
  unfold unmark lineMarker
  split
  · cases fields : spaceFields (trim rawLine) with
    | nil => simp
    | cons m tail => simp +contextual [markerOf]
  · simp

theorem listed {entry : KnownHostEntry} {marker : Option Text}
    (lists : Lists platform content host port marker entry) :
    entry ∈ loadKnownHosts content
      ∧ matchesEntry platform (knownHostNames host port) entry = true
      ∧ (marker = none → entry.marker = none)
      ∧ (marker = some (units "@revoked") → entry.marker = some .revoked) := by
  obtain ⟨rawLine, inside, read, rfl, name, named, ⟨h, among, -, matched⟩, -⟩ := lists
  exact ⟨List.mem_filterMap.mpr ⟨rawLine, inside, read⟩,
    List.any_eq_true.mpr ⟨h, among, matchesMore named matched⟩, entryMarker read⟩

theorem decidesRevoked (revoked : Revoked platform content host port key) :
    ∃ entry, deciding platform content host port key = some entry := by
  obtain ⟨entry, lists, known⟩ := revoked
  obtain ⟨inside, matched, -, marked⟩ := listed lists
  refine Option.isSome_iff_exists.mp (List.find?_isSome.mpr ⟨entry, inside, ?_⟩)
  simp [decides, matched, known, marked rfl]

theorem verifierRejects : (Revoked platform content host port key ∨
      Substituted platform content host port key ∧ ¬ Recorded platform content host port key →
        makeHostVerifier platform content host port key = false)
    ↔ ∀ entry, deciding platform content host port key = some entry → entry.marker ≠ some .revoked →
        ¬ Revoked platform content host port key
        ∧ (Substituted platform content host port key → Recorded platform content host port key) := by
  have verdict : makeHostVerifier platform content host port key = _ := verifyIs false (loadKnownHosts content)
  constructor
  · intro rejects entry found accepted
    have accepts : makeHostVerifier platform content host port key = true := by
      rw [verdict, show List.find? _ _ = some entry from found]
      simp [accepted]
    refine ⟨fun revoked => ?_, fun substituted => by_contra fun unrecorded => ?_⟩
    · simp [accepts, revoked] at rejects
    · simp [accepts, substituted, unrecorded] at rejects
  · intro condition must
    rw [verdict]
    cases found : deciding platform content host port key with
    | some entry =>
      rw [show List.find? _ _ = some entry from found]
      by_cases revoked : entry.marker = some .revoked
      · simp [revoked]
      · have holds := condition entry found revoked
        rcases must with must | ⟨substituted, unrecorded⟩
        · exact absurd must holds.1
        · exact absurd (holds.2 substituted) unrecorded
    | none =>
      rw [show List.find? _ _ = none from found]
      have blank : ¬ Revoked platform content host port key := fun revoked => by
        obtain ⟨entry, decided⟩ := decidesRevoked revoked
        simp [found] at decided
      obtain ⟨entry, lists, type, -⟩ := (must.resolve_left blank).1
      obtain ⟨inside, matched, unmarked, -⟩ := listed lists
      simp only [Bool.false_or, Bool.not_eq_false', List.any_eq_true]
      exact ⟨entry, inside, by simp [matched, unmarked rfl, type]⟩

def ascii : Platform where
  canonicalize c := if 97 ≤ c ∧ c ≤ 122 then c - 32 else c
  utf8 bytes := bytes.map UInt8.toNat
  hmacSha1 _ _ := []

def presentedKey : List UInt8 := [0, 0, 0, 11] ++ "ssh-ed25519".toUTF8.toList ++ [0, 0, 0, 1, 5]

def rotated : Text :=
  units "db.internal ssh-ed25519 " ++ base64Text presentedKey ++ units "\n@revoked db.internal ssh-ed25519 "
    ++ base64Text presentedKey

theorem revokedLaterAccepted : ¬ ∀ (platform : Platform) (content host : Text) (port : Nat)
    (key : List UInt8), (Revoked platform content host port key → makeHostVerifier platform content host port key = false)
      ∧ (Substituted platform content host port key ∧ ¬ Recorded platform content host port key →
        makeHostVerifier platform content host port key = false) := by
  intro claim
  have accepts : makeHostVerifier ascii rotated (units "db.internal") 22 presentedKey = true := by
    decide +kernel
  have revoked : Revoked ascii rotated (units "db.internal") 22 presentedKey := by
    refine ⟨⟨some .revoked, [units "db.internal"], units "ssh-ed25519", base64Text presentedKey⟩,
      ⟨units "@revoked db.internal ssh-ed25519 " ++ base64Text presentedKey, ?_, ?_, ?_, ?_⟩, rfl⟩
    · decide +kernel
    · decide +kernel
    · decide +kernel
    · refine ⟨units "db.internal", by decide, ⟨units "db.internal", by decide, by decide +kernel⟩, by decide +kernel⟩
  exact absurd ((claim ascii rotated (units "db.internal") 22 presentedKey).1 revoked) (by simp [accepts])

end Verdict

end DatabaseAdmin.KnownHosts
