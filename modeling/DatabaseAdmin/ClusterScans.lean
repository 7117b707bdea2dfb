import DatabaseAdmin.RedisReplies
import Mathlib.Algebra.Order.BigOperators.Group.List
import Mathlib.Algebra.Order.Ring.Nat
import Mathlib.Data.List.Nodup

/-! The keyspace browser's pages. -/
namespace DatabaseAdmin.ClusterScans
open CodeUnits RedisReplies

section Validator

inductive WireValue where
  | null
  | boolean (value : Bool)
  | number (text : Text) (whole : Option ℤ)
  | string (text : Text)
  | array (items : List WireValue)
  | object (members : List (Text × WireValue))

abbrev Members := List (Text × WireValue)

def asRecord (value : WireValue) (what : Text) : Except Text Members :=
  match value with
  | .object members => .ok members
  | _ => .error (what ++ units " must be a JSON object.")

def isDigit (c : CodeUnit) : Bool := 48 ≤ c && c ≤ 57

def digitsValue (t : Text) : ℕ := t.foldl (fun n c => 10 * n + (c - 48)) 0

def numberLimit : ℕ := 2 ^ 1024 - 2 ^ 970

def wholeText (raw : Text) : Option ℤ :=
  let t := trim raw
  let digits := if t.head? = some '-' then t.tail else t
  if digits = [] ∨ digits.any (fun c => !isDigit c) ∨ numberLimit ≤ digitsValue digits then none
  else some (if t.head? = some '-' then -digitsValue digits else digitsValue digits)

def wholeOf : WireValue → Option ℤ
  | .string raw => wholeText raw
  | .number _ whole => whole
  | _ => none

structure Bounds where
  min : Option ℤ
  max : Option ℤ

def quoted (label : Text) : Text := doubleQuote :: (label ++ [doubleQuote])

def intFrom (raw : WireValue) (label : Text) (opts : Bounds) : Except Text ℤ :=
  match wholeOf raw with
  | none => .error (quoted label ++ units " must be an integer.")
  | some value =>
      if let some min := opts.min.filter (value < ·) then
        .error (quoted label ++ units " must be at least " ++ units (toString min) ++ units ".")
      else if let some max := opts.max.filter (· < value) then
        .error (quoted label ++ units " must be at most " ++ units (toString max) ++ units ".")
      else .ok value

def optionalInt (obj : Members) (field label : Text) (opts : Bounds) : Except Text (Option ℤ) :=
  match obj.lookup field with
  | none | some .null | some (.string []) => .ok none
  | some raw => (intFrom raw label opts).map some

structure ScanCursor where
  cursor : Text
  glob : Option Text
  count : Option ℤ
  db : Option ℤ
  nodeCursors : Option (List (Text × Text))
  deriving DecidableEq

def cursorField : Option WireValue → Except Text Text
  | none | some .null => .ok zeroCursor
  | some (.string text) => .ok text
  | some (.number text whole) => (intFrom (.number text whole) (units "cursor.cursor") ⟨none, none⟩).map fun _ => text
  | some raw => (intFrom raw (units "cursor.cursor") ⟨none, none⟩).map fun _ => []

def globField : Option WireValue → Except Text (Option Text)
  | none | some .null => .ok none
  | some (.string text) => .ok (if text = [] then none else some text)
  | some _ => .error (units "\"cursor.match\" must be a glob string, e.g. \"user:*\".")

def protoName : Text := units "__proto__"

def mappedCursors : Members → Except Text (List (Text × Text))
  | [] => .ok []
  | (node, .string value) :: rest =>
      (mappedCursors rest).map fun mapped => if node = protoName then mapped else (node, value) :: mapped
  | (node, _) :: _ => .error (units "\"cursor.nodeCursors." ++ node ++ units "\" must be a string.")

def nodeField : Option WireValue → Except Text (Option (List (Text × Text)))
  | none | some .null => .ok none
  | some value => do
      let record ← asRecord value (units "\"cursor.nodeCursors\"")
      return some (← mappedCursors record)

def parseCursor (input : Option WireValue) (defaultCount : ℤ) : Except Text ScanCursor :=
  match input with
  | none | some .null => .ok ⟨zeroCursor, none, some defaultCount, none, none⟩
  | some input => do
      let obj ← asRecord input (units "\"cursor\"")
      let cursor ← cursorField (obj.lookup (units "cursor"))
      let glob ← globField (obj.lookup (units "match"))
      let count ← optionalInt obj (units "count") (units "cursor.count") ⟨some 1, some 10000⟩
      let db ← optionalInt obj (units "db") (units "cursor.db") ⟨some 0, some 255⟩
      let nodeCursors ← nodeField (obj.lookup (units "nodeCursors"))
      return ⟨orZero cursor, glob, some (count.getD defaultCount), db, nodeCursors⟩

def wireInt (n : ℤ) : WireValue := .number (units (toString n)) (some n)

def wireField (name : String) (value : Option WireValue) : Members := (value.map (units name, ·)).toList

def wireRecord (record : List (Text × Text)) : Members := record.map fun m => (m.1, .string m.2)

def wireMembers (cur : ScanCursor) : Members :=
  (units "cursor", .string cur.cursor) :: wireField "match" (cur.glob.map .string) ++
    wireField "count" (cur.count.map wireInt) ++ wireField "db" (cur.db.map wireInt) ++
    wireField "nodeCursors" (cur.nodeCursors.map fun record => .object (wireRecord record))

def wireCursor (cur : ScanCursor) : WireValue := .object (wireMembers cur)

end Validator

section Connector

structure Node where
  host : Option Text
  port : Option ℕ
  deriving DecidableEq

def nodeKey (node : Node) : Text :=
  node.host.getD (units "?") ++ (':' : CodeUnit) :: cursorText (node.port.getD 0)

inductive Client where
  | master (key : Text)
  | database (db : ℤ)
  deriving DecidableEq

structure Request where
  cursor : Text
  glob : Text
  count : ℤ
  deriving DecidableEq

abbrev Sent := Client → List Request

abbrev Server := Client → List Request → Reply

def send (sent : Sent) (client : Client) (request : Request) : Sent :=
  Function.update sent client (sent client ++ [request])

structure Page where
  cursor : Text
  keys : List Text

def readPage : Reply → Except Text Page
  | .error message => .error (units "SCAN: " ++ message)
  | reply => .ok ⟨(parseScanReply reply).cursor, (parseScanReply reply).items.map toText⟩

structure Redis where
  isCluster : Bool
  masters : List Node
  activeDb : ℤ

structure KeyPage (μ : Type) where
  keys : List μ
  next : ScanCursor
  done : Bool

structure Outcome (μ : Type) where
  activeDb : ℤ
  sent : Sent
  result : Except Text (KeyPage μ)

def setField (key value : Text) : List (Text × Text) → List (Text × Text)
  | [] => [(key, value)]
  | (k, v) :: rest => if k = key then (k, value) :: rest else (k, v) :: setField key value rest

def doneMark : Text := units "done"

def cursorOf (previous : Option (List (Text × Text))) (key : Text) : Text :=
  ((previous.getD []).lookup key).getD zeroCursor

def effectiveGlob (cur : ScanCursor) : Text :=
  match cur.glob with
  | some (c :: rest) => c :: rest
  | _ => units "*"

def effectiveCount (cur : ScanCursor) : ℤ := min (max (cur.count.getD 500) 10) 10000

def clientOf (node : Node) : Client := .master (nodeKey node)

def requestTo (cur : ScanCursor) (node : Node) : Request :=
  ⟨cursorOf cur.nodeCursors (nodeKey node), effectiveGlob cur, effectiveCount cur⟩

def pendingOf (masters : List Node) (cur : ScanCursor) : List Node :=
  masters.filter fun node => cursorOf cur.nodeCursors (nodeKey node) ≠ doneMark

def sendAll (cur : ScanCursor) (sent : Sent) (pending : List Node) : Sent :=
  pending.foldl (fun sent node => send sent (clientOf node) (requestTo cur node)) sent

def markScan (record : List (Text × Text)) (scan : Node × Page) : List (Text × Text) :=
  setField (nodeKey scan.1) (if scan.2.cursor = zeroCursor then doneMark else scan.2.cursor) record

def markUnasked (record : List (Text × Text)) (node : Node) : List (Text × Text) :=
  if (record.lookup (nodeKey node)).isSome then record else setField (nodeKey node) zeroCursor record

def scansOf (server : Server) (sent : Sent) (pending : List Node) : Except Text (List (Node × Page)) :=
  pending.mapM fun node => (readPage (server (clientOf node) (sent (clientOf node)))).map (node, ·)

variable {μ : Type} (server : Server) (describeKeys : Client → List Text → List μ)

def clusterPage (masters : List Node) (cur : ScanCursor) (scans : List (Node × Page)) : KeyPage μ :=
  let nodeCursors := masters.foldl markUnasked (scans.foldl markScan (cur.nodeCursors.getD []))
  let done := masters.all fun node => nodeCursors.lookup (nodeKey node) = some doneMark
  ⟨scans.flatMap fun scan => if scan.2.keys = [] then [] else describeKeys (clientOf scan.1) scan.2.keys,
    ⟨if done then zeroCursor else units "cluster", some (effectiveGlob cur), some (effectiveCount cur), some 0,
      some nodeCursors⟩, done⟩

def singlePage (client : Client) (cur : ScanCursor) (db : ℤ) (page : Page) : KeyPage μ :=
  ⟨describeKeys client page.keys, ⟨page.cursor, some (effectiveGlob cur), some (effectiveCount cur), some db, none⟩,
    page.cursor = zeroCursor⟩

def scanKeys (redis : Redis) (sent : Sent) (cur : ScanCursor) : Outcome μ :=
  if redis.isCluster then
    if redis.masters = [] then ⟨redis.activeDb, sent, .error (units "No cluster master is reachable.")⟩
    else
      let pending := pendingOf redis.masters cur
      let asked := sendAll cur sent pending
      ⟨redis.activeDb, asked, (scansOf server asked pending).map (clusterPage describeKeys redis.masters cur)⟩
  else
    let db := cur.db.getD redis.activeDb
    let asked := send sent (.database db) ⟨orZero cur.cursor, effectiveGlob cur, effectiveCount cur⟩
    ⟨db, asked, (readPage (server (.database db) (asked (.database db)))).map
      (singlePage describeKeys (.database db) cur db)⟩

end Connector

section Chains

structure Answer where
  cursor : ℕ
  keys : List Text

def nextOf (answers : List Request → Answer) (asked : List Request) : Option ℕ :=
  if asked = [] then some 0 else if (answers asked).cursor = 0 then none else some (answers asked).cursor

def chain (answers : List Request → Answer) (glob : Text) (count : ℤ) : ℕ → List Request
  | 0 => []
  | n + 1 => match nextOf answers (chain answers glob count n) with
    | none => chain answers glob count n
    | some cursor => chain answers glob count n ++ [⟨cursorText cursor, glob, count⟩]

def Ended (answers : List Request → Answer) (glob : Text) (count : ℤ) (n : ℕ) : Prop :=
  nextOf answers (chain answers glob count n) = none

theorem chainNext {answers : List Request → Answer} {glob : Text} {count : ℤ} {n cursor : ℕ}
    (next : nextOf answers (chain answers glob count n) = some cursor) :
    chain answers glob count (n + 1) = chain answers glob count n ++ [⟨cursorText cursor, glob, count⟩] := by
  rw [chain, next]

theorem chainEnded {answers : List Request → Answer} {glob : Text} {count : ℤ} {n : ℕ} (past : Ended answers glob count n) :
    chain answers glob count (n + 1) = chain answers glob count n := by
  rw [Ended] at past
  rw [chain, past]

theorem endedNext {answers : List Request → Answer} {glob : Text} {count : ℤ} {n : ℕ} (past : Ended answers glob count n) :
    Ended answers glob count (n + 1) := by
  rw [Ended, chainEnded past]
  exact past

theorem endedFrom {answers : List Request → Answer} {glob : Text} {count : ℤ} {m n : ℕ} (past : Ended answers glob count m)
    (later : m ≤ n) : Ended answers glob count n := by
  induction n, later using Nat.le_induction with
  | base => exact past
  | succ n _ ih => exact endedNext ih

def markOf : Option ℕ → Text
  | none => doneMark
  | some cursor => cursorText cursor

theorem cursorNotDone (n : ℕ) : cursorText n ≠ doneMark := by
  intro same
  have member : ('d' : CodeUnit) ∈ cursorText n := same ▸ by decide
  exact absurd (cursorTextDigits member) (by decide)

theorem markDone {next : Option ℕ} : markOf next = doneMark ↔ next = none := by
  cases next with
  | none => exact ⟨fun _ => rfl, fun _ => rfl⟩
  | some n => exact ⟨fun same => absurd same (cursorNotDone n), nofun⟩

end Chains

section Records

theorem setSame (key value : Text) (record : List (Text × Text)) : (setField key value record).lookup key = some value := by
  induction record with
  | nil => simp [setField]
  | cons m record ih =>
    obtain ⟨k, v⟩ := m
    rw [setField]
    split
    · rename_i same
      simp [same]
    · rename_i other
      simp [List.lookup_cons, beq_false_of_ne (Ne.symm other), ih]

theorem setOther {key other : Text} (apart : other ≠ key) (value : Text) (record : List (Text × Text)) :
    (setField key value record).lookup other = record.lookup other := by
  induction record with
  | nil => simp [setField, List.lookup_cons, beq_false_of_ne apart]
  | cons m record ih =>
    obtain ⟨k, v⟩ := m
    rw [setField]
    split
    · rename_i same
      subst same
      simp [List.lookup_cons, beq_false_of_ne apart]
    · simp only [List.lookup_cons, ih]

theorem markedOther {key : Text} {scans : List (Node × Page)} (absent : ∀ scan ∈ scans, nodeKey scan.1 ≠ key)
    (record : List (Text × Text)) : (scans.foldl markScan record).lookup key = record.lookup key := by
  induction scans generalizing record with
  | nil => rfl
  | cons scan scans ih =>
    rw [List.forall_mem_cons] at absent
    rw [List.foldl_cons, ih absent.2, markScan, setOther absent.1.symm]

theorem markedMember {scans : List (Node × Page)} (distinct : (scans.map fun scan => nodeKey scan.1).Nodup) {scan : Node × Page}
    (member : scan ∈ scans) (record : List (Text × Text)) : (scans.foldl markScan record).lookup (nodeKey scan.1) =
      some (if scan.2.cursor = zeroCursor then doneMark else scan.2.cursor) := by
  induction scans generalizing record with
  | nil => contradiction
  | cons first scans ih =>
    obtain ⟨absent, later⟩ := List.nodup_cons.mp distinct
    rw [List.foldl_cons]
    rcases List.mem_cons.mp member with rfl | listed
    · have others : ∀ other ∈ scans, nodeKey other.1 ≠ nodeKey scan.1 :=
        fun other listed same => absent (List.mem_map.mpr ⟨other, listed, same⟩)
      rw [markedOther others, markScan, setSame]
    · exact ih later listed _

theorem unaskedKept {masters : List Node} {record : List (Text × Text)}
    (known : ∀ node ∈ masters, (record.lookup (nodeKey node)).isSome = true) : masters.foldl markUnasked record = record := by
  induction masters with
  | nil => rfl
  | cons node masters ih =>
    rw [List.forall_mem_cons] at known
    rw [List.foldl_cons, markUnasked, if_pos known.1, ih known.2]

end Records

section Sends

variable {cur : ScanCursor}

theorem sendAllOther {client : Client} {pending : List Node} (absent : ∀ node ∈ pending, clientOf node ≠ client) (sent : Sent) :
    sendAll cur sent pending client = sent client := by
  induction pending generalizing sent with
  | nil => rfl
  | cons node pending ih =>
    rw [List.forall_mem_cons] at absent
    rw [sendAll, List.foldl_cons, ← sendAll, ih absent.2, send, Function.update_of_ne absent.1.symm]

theorem sendAllMember {pending : List Node} (distinct : (pending.map clientOf).Nodup) {node : Node} (member : node ∈ pending)
    (sent : Sent) : sendAll cur sent pending (clientOf node) = sent (clientOf node) ++ [requestTo cur node] := by
  induction pending generalizing sent with
  | nil => contradiction
  | cons first pending ih =>
    obtain ⟨absent, later⟩ := List.nodup_cons.mp distinct
    have unlike : ∀ node ∈ pending, clientOf node ≠ clientOf first :=
      fun node listed same => absent (same ▸ List.mem_map_of_mem listed)
    rw [sendAll, List.foldl_cons, ← sendAll]
    cases member with
    | head => rw [sendAllOther unlike, send, Function.update_self]
    | tail _ listed => rw [ih later listed, send, Function.update_of_ne (unlike node listed)]

end Sends

section Validated

theorem okThen {α β : Type} (a : α) (f : α → Except Text β) : (Except.ok a >>= f) = f a := rfl

def unproto (record : List (Text × Text)) : List (Text × Text) := record.filter fun m => m.1 ≠ protoName

theorem mappedBack (record : List (Text × Text)) : mappedCursors (wireRecord record) = .ok (unproto record) := by
  induction record with
  | nil => rfl
  | cons m record ih =>
    rw [wireRecord, List.map_cons, mappedCursors, ← wireRecord, ih, Except.map]
    by_cases proto : m.1 = protoName <;> simp [unproto, proto]

theorem unprotoLookup {key : Text} (other : key ≠ protoName) (record : List (Text × Text)) :
    (unproto record).lookup key = record.lookup key := by
  induction record with
  | nil => rfl
  | cons m record ih =>
    obtain ⟨k, v⟩ := m
    rw [unproto] at ih ⊢
    by_cases proto : k = protoName
    · simp [proto, List.lookup_cons, beq_false_of_ne other, ← ih]
    · simp [proto, List.lookup_cons, ← ih]

theorem integerAccepted {n low high : ℤ} (least : low ≤ n) (most : n ≤ high) (obj : Members) (field label : Text)
    (sent : obj.lookup field = some (wireInt n)) : optionalInt obj field label ⟨some low, some high⟩ = .ok (some n) := by
  have inLow : (some low).filter (fun low => decide (n < low)) = none := by simpa [Option.filter] using least
  have inHigh : (some high).filter (fun high => decide (high < n)) = none := by simpa [Option.filter] using most
  rw [optionalInt, sent, wireInt]
  simp only [intFrom, wholeOf, inLow, inHigh, Except.map]

theorem cursorBack {cursor glob : Text} {count : ℤ} (asked : cursor ≠ []) (some' : glob ≠ []) (least : 1 ≤ count) (most : count ≤ 10000)
    (record : List (Text × Text)) (defaultCount : ℤ) :
    parseCursor (some (wireCursor ⟨cursor, some glob, some count, some 0, some record⟩)) defaultCount =
      .ok ⟨cursor, some glob, some count, some 0, some (unproto record)⟩ := by
  let obj := wireMembers ⟨cursor, some glob, some count, some 0, some record⟩
  have counted := integerAccepted least most obj (units "count") (units "cursor.count") rfl
  have based := integerAccepted (n := 0) (show (0 : ℤ) ≤ 0 from le_rfl) (show (0 : ℤ) ≤ 255 by decide) obj (units "db") (units "cursor.db") rfl
  have named : nodeField (some (.object (wireRecord record))) = .ok (some (unproto record)) := by
    simp only [nodeField, asRecord, okThen, mappedBack]
    rfl
  have read : parseCursor (some (.object obj)) defaultCount = (do
      let cursor ← cursorField (some (.string cursor))
      let glob ← globField (some (.string glob))
      let count ← optionalInt obj (units "count") (units "cursor.count") ⟨some 1, some 10000⟩
      let db ← optionalInt obj (units "db") (units "cursor.db") ⟨some 0, some 255⟩
      let nodeCursors ← nodeField (some (.object (wireRecord record)))
      return ⟨orZero cursor, glob, some (count.getD defaultCount), db, nodeCursors⟩) := rfl
  rw [wireCursor, read, counted, based, named]
  simp only [cursorField, globField, if_neg some', orZero, if_neg asked, okThen, Option.getD_some]
  rfl

end Validated

section Calls

variable {μ : Type} (describeKeys : Client → List Text → List μ) (answers : Client → List Request → Answer)

def serverOf : Server := fun client asked => scanReply (answers client asked).cursor (answers client asked).keys

def pageOf (asked : Sent) (node : Node) : Node × Page :=
  (node, ⟨cursorText (answers (clientOf node) (asked (clientOf node))).cursor,
    (answers (clientOf node) (asked (clientOf node))).keys⟩)

variable {answers}

theorem scansAnswered (asked : Sent) (pending : List Node) :
    scansOf (serverOf answers) asked pending = .ok (pending.map (pageOf answers asked)) := by
  have each : (fun node => (readPage (serverOf answers (clientOf node) (asked (clientOf node)))).map (node, ·)) =
      fun node => (pure (pageOf answers asked node) : Except Text (Node × Page)) := by
    funext node
    have read : readPage (serverOf answers (clientOf node) (asked (clientOf node))) =
        .ok ⟨(parseScanReply (serverOf answers (clientOf node) (asked (clientOf node)))).cursor,
          (parseScanReply (serverOf answers (clientOf node) (asked (clientOf node)))).items.map toText⟩ := rfl
    rw [read, serverOf, scanReplyParsed, bulkTexts]
    rfl
  rw [scansOf, each, List.mapM_pure]
  rfl

variable {masters : List Node} {glob : Text} {count : ℤ} {n : ℕ} {cur : ScanCursor} {sent : Sent}

structure Holds (answers : Client → List Request → Answer) (masters : List Node) (glob : Text) (count : ℤ) (n : ℕ)
    (cur : ScanCursor) (sent : Sent) : Prop where
  matched : effectiveGlob cur = glob
  counted : effectiveCount cur = count
  marks : ∀ node ∈ masters, cursorOf cur.nodeCursors (nodeKey node) =
    markOf (nextOf (answers (clientOf node)) (chain (answers (clientOf node)) glob count n))
  logged : ∀ node ∈ masters, sent (clientOf node) = chain (answers (clientOf node)) glob count n
  others : ∀ client ∉ masters.map clientOf, sent client = []

theorem pendingNext (held : Holds answers masters glob count n cur sent) {node : Node} (member : node ∈ masters) :
    node ∈ pendingOf masters cur ↔ ¬ Ended (answers (clientOf node)) glob count n := by
  simp only [pendingOf, List.mem_filter, member, true_and, decide_eq_true_eq, held.marks node member, Ended, ne_eq, markDone]

theorem pendingDistinct (distinct : (masters.map nodeKey).Nodup) (cur : ScanCursor) :
    ((pendingOf masters cur).map nodeKey).Nodup := (List.filter_sublist.map nodeKey).nodup distinct

theorem clientsDistinct {nodes : List Node} (distinct : (nodes.map nodeKey).Nodup) : (nodes.map clientOf).Nodup := by
  have split : nodes.map clientOf = (nodes.map nodeKey).map Client.master := by rw [List.map_map]; rfl
  rw [split]
  exact distinct.map fun _ _ same => Client.master.inj same

theorem askedNext (distinct : (masters.map nodeKey).Nodup) (held : Holds answers masters glob count n cur sent) {node : Node}
    (member : node ∈ masters) : sendAll cur sent (pendingOf masters cur) (clientOf node) =
      chain (answers (clientOf node)) glob count (n + 1) := by
  by_cases past : Ended (answers (clientOf node)) glob count n
  · have absent : ∀ other ∈ pendingOf masters cur, clientOf other ≠ clientOf node := by
      intro other listed same
      have one : other = node := List.inj_on_of_nodup_map (clientsDistinct distinct) (List.mem_filter.mp listed).1 member same
      exact (pendingNext held member).mp (one ▸ listed) past
    rw [sendAllOther absent, held.logged node member, chainEnded past]
  · have listed := (pendingNext held member).mpr past
    obtain ⟨cursor, next⟩ := Option.ne_none_iff_exists'.mp past
    have request : requestTo cur node = ⟨cursorText cursor, glob, count⟩ := by
      rw [requestTo, held.marks node member, next, held.matched, held.counted]
      rfl
    rw [sendAllMember (clientsDistinct (pendingDistinct distinct cur)) listed, held.logged node member, request, chainNext next]

theorem askedOthers (held : Holds answers masters glob count n cur sent) {client : Client} (foreign : client ∉ masters.map clientOf) :
    sendAll cur sent (pendingOf masters cur) client = [] := by
  have absent : ∀ node ∈ pendingOf masters cur, clientOf node ≠ client := fun node listed same =>
    foreign (same ▸ List.mem_map_of_mem (List.mem_filter.mp listed).1)
  rw [sendAllOther absent, held.others client foreign]

theorem markedNext (distinct : (masters.map nodeKey).Nodup) (held : Holds answers masters glob count n cur sent) {node : Node}
    (member : node ∈ masters) :
    (((pendingOf masters cur).map (pageOf answers (sendAll cur sent (pendingOf masters cur)))).foldl markScan
        (cur.nodeCursors.getD [])).lookup (nodeKey node) =
      some (markOf (nextOf (answers (clientOf node)) (chain (answers (clientOf node)) glob count (n + 1)))) := by
  by_cases past : Ended (answers (clientOf node)) glob count n
  · have absent : ∀ scan ∈ (pendingOf masters cur).map (pageOf answers (sendAll cur sent (pendingOf masters cur))),
        nodeKey scan.1 ≠ nodeKey node := by
      intro scan scanned same
      obtain ⟨other, listed, rfl⟩ := List.mem_map.mp scanned
      have one : other = node := List.inj_on_of_nodup_map distinct (List.mem_filter.mp listed).1 member same
      exact (pendingNext held member).mp (one ▸ listed) past
    have marked := held.marks node member
    have ended : nextOf (answers (clientOf node)) (chain (answers (clientOf node)) glob count n) = none := past
    rw [markedOther absent, chainEnded past, ended]
    rw [ended, cursorOf] at marked
    cases found : (cur.nodeCursors.getD []).lookup (nodeKey node) with
    | none =>
      rw [found] at marked
      exact absurd marked (by decide)
    | some mark =>
      rw [found] at marked
      exact congrArg some marked
  · have listed := (pendingNext held member).mpr past
    have keys : (((pendingOf masters cur).map (pageOf answers (sendAll cur sent (pendingOf masters cur)))).map
        fun scan => nodeKey scan.1) = (pendingOf masters cur).map nodeKey := by
      rw [List.map_map]
      rfl
    have unlike := pendingDistinct distinct cur
    rw [← keys] at unlike
    obtain ⟨cursor, next⟩ := Option.ne_none_iff_exists'.mp past
    have found := markedMember unlike (List.mem_map_of_mem listed) (cur.nodeCursors.getD [])
    have asked : chain (answers (clientOf node)) glob count (n + 1) ≠ [] := by
      rw [chainNext next]
      simp
    rw [pageOf, askedNext distinct held member] at found
    rw [found, nextOf, if_neg asked]
    by_cases zero : (answers (clientOf node) (chain (answers (clientOf node)) glob count (n + 1))).cursor = 0
    · rw [if_pos (cursorTextZero.mpr zero), if_pos zero]
      rfl
    · rw [if_neg (mt cursorTextZero.mp zero), if_neg zero]
      rfl

theorem effectiveSome (cur : ScanCursor) : effectiveGlob cur ≠ [] := by
  unfold effectiveGlob
  split
  · exact List.cons_ne_nil _ _
  · decide

theorem effectiveRange (cur : ScanCursor) : 10 ≤ effectiveCount cur ∧ effectiveCount cur ≤ 10000 := by
  unfold effectiveCount
  omega

theorem keyNotProto (node : Node) : nodeKey node ≠ protoName := by
  intro same
  have member : (':' : CodeUnit) ∈ nodeKey node := List.mem_append_right _ List.mem_cons_self
  rw [same] at member
  exact absurd member (by decide)

theorem callHolds (distinct : (masters.map nodeKey).Nodup) (some' : masters ≠ []) (held : Holds answers masters glob count n cur sent)
    (activeDb defaultCount : ℤ) : ∃ page : KeyPage μ, ∃ asked : Sent, ∃ next : ScanCursor,
      scanKeys (serverOf answers) describeKeys ⟨true, masters, activeDb⟩ sent cur = ⟨activeDb, asked, .ok page⟩ ∧
      (page.done = true ↔ ∀ node ∈ masters, Ended (answers (clientOf node)) glob count (n + 1)) ∧
      parseCursor (some (wireCursor page.next)) defaultCount = .ok next ∧
      Holds answers masters glob count (n + 1) next asked := by
  let asked := sendAll cur sent (pendingOf masters cur)
  let scans := (pendingOf masters cur).map (pageOf answers asked)
  let record := scans.foldl markScan (cur.nodeCursors.getD [])
  have marked : ∀ node ∈ masters, record.lookup (nodeKey node) =
      some (markOf (nextOf (answers (clientOf node)) (chain (answers (clientOf node)) glob count (n + 1)))) :=
    fun node member => markedNext distinct held member
  have known : masters.foldl markUnasked record = record :=
    unaskedKept fun node member => by rw [marked node member]; rfl
  have every : (masters.all fun node => record.lookup (nodeKey node) = some doneMark) = true ↔
      ∀ node ∈ masters, Ended (answers (clientOf node)) glob count (n + 1) := by
    rw [List.all_eq_true]
    refine forall₂_congr fun node member => ?_
    rw [marked node member, decide_eq_true_eq, Option.some.injEq, markDone, Ended]
  have outcome : scanKeys (serverOf answers) describeKeys ⟨true, masters, activeDb⟩ sent cur =
      ⟨activeDb, asked, .ok (clusterPage describeKeys masters cur scans)⟩ := by
    have run : scanKeys (serverOf answers) describeKeys ⟨true, masters, activeDb⟩ sent cur =
        if masters = [] then ⟨activeDb, sent, .error (units "No cluster master is reachable.")⟩
        else ⟨activeDb, asked, (scansOf (serverOf answers) asked (pendingOf masters cur)).map
          (clusterPage describeKeys masters cur)⟩ := rfl
    rw [run, if_neg some', scansAnswered]
    rfl
  have spelled : (if (clusterPage describeKeys masters cur scans).done then zeroCursor else units "cluster") ≠ [] := by
    split <;> decide
  have next : (clusterPage describeKeys masters cur scans).next =
      ⟨if (clusterPage describeKeys masters cur scans).done then zeroCursor else units "cluster", some (effectiveGlob cur),
        some (effectiveCount cur), some 0, some (masters.foldl markUnasked record)⟩ := rfl
  obtain ⟨least, most⟩ := effectiveRange cur
  have back := cursorBack spelled (effectiveSome cur) (by omega) most record defaultCount
  refine ⟨_, asked, _, outcome, ?_, by rw [next, known]; exact back, ?_⟩
  · have done : (clusterPage describeKeys masters cur scans).done =
        masters.all fun node => (masters.foldl markUnasked record).lookup (nodeKey node) = some doneMark := rfl
    rw [done, known]
    exact every
  · exact {
      matched := by
        rw [← held.matched]
        obtain ⟨c, rest, shown⟩ := List.exists_cons_of_ne_nil (effectiveSome cur)
        rw [shown]
        rfl
      counted := by
        rw [← held.counted]
        unfold effectiveCount
        simp only [Option.getD_some]
        omega
      marks := fun node member => by
        rw [cursorOf, Option.getD_some, unprotoLookup (keyNotProto node), marked node member, Option.getD_some]
      logged := fun node member => askedNext distinct held member
      others := fun client foreign => askedOthers held foreign }

end Calls

section Runs

structure ScanState where
  input : Option WireValue
  sent : Sent
  done : Bool

variable {μ : Type} (server : Server) (describeKeys : Client → List Text → List μ) (redis : Redis) (defaults : ℕ → ℤ)
  (first : Option WireValue)

def callAgain (defaultCount : ℤ) (s : ScanState) : Except Text ScanState :=
  if s.done then .ok s
  else do
    let cur ← parseCursor s.input defaultCount
    let outcome := scanKeys server describeKeys redis s.sent cur
    let page ← outcome.result
    return ⟨some (wireCursor page.next), outcome.sent, page.done⟩

def calls : ℕ → Except Text ScanState
  | 0 => .ok ⟨first, fun _ => [], false⟩
  | n + 1 => do callAgain server describeKeys redis (defaults n) (← calls n)

variable {answers : Client → List Request → Answer} {masters : List Node} {glob : Text} {count : ℤ} {n : ℕ}

structure Scanned (answers : Client → List Request → Answer) (masters : List Node) (glob : Text) (count : ℤ) (n : ℕ)
    (s : ScanState) : Prop where
  logged : ∀ node ∈ masters, s.sent (clientOf node) = chain (answers (clientOf node)) glob count n
  others : ∀ client ∉ masters.map clientOf, s.sent client = []
  finished : s.done = true ↔ ∀ node ∈ masters, Ended (answers (clientOf node)) glob count n

variable {defaults first}

theorem callScanned (distinct : (masters.map nodeKey).Nodup) (some' : masters ≠ []) (activeDb defaultCount later : ℤ) {s : ScanState}
    (scanned : Scanned answers masters glob count n s)
    (going : s.done = false → ∃ cur, parseCursor s.input defaultCount = .ok cur ∧ Holds answers masters glob count n cur s.sent) :
    ∃ s', callAgain (serverOf answers) describeKeys ⟨true, masters, activeDb⟩ defaultCount s = .ok s' ∧
      Scanned answers masters glob count (n + 1) s' ∧
      (s'.done = false → ∃ cur, parseCursor s'.input later = .ok cur ∧ Holds answers masters glob count (n + 1) cur s'.sent) := by
  cases past : s.done with
  | true =>
    have ended := scanned.finished.mp past
    refine ⟨s, by rw [callAgain, if_pos past], ⟨fun node member => ?_, scanned.others, fun _ node member => endedNext (ended node member),
      fun _ => past⟩, fun more => absurd past (by rw [more]; decide)⟩
    rw [scanned.logged node member, chainEnded (ended node member)]
  | false =>
    obtain ⟨cur, read, held⟩ := going past
    obtain ⟨page, asked, next, outcome, done, back, after⟩ := callHolds describeKeys distinct some' held activeDb later
    refine ⟨⟨some (wireCursor page.next), asked, page.done⟩, ?_, ⟨after.logged, after.others, done⟩, fun _ => ⟨next, back, after⟩⟩
    rw [callAgain, if_neg (by rw [past]; decide), read, okThen, outcome]
    rfl

theorem scanComplete (answers : Client → List Request → Answer) (masters : List Node) (defaults : ℕ → ℤ) (first : Option WireValue)
    (distinct : (masters.map nodeKey).Nodup) (some' : masters ≠ []) (activeDb : ℤ) {cur : ScanCursor}
    (accepted : parseCursor first (defaults 0) = .ok cur)
    (fresh : ∀ node ∈ masters, cursorOf cur.nodeCursors (nodeKey node) = zeroCursor) :
    (∀ n, ∃ s, calls (serverOf answers) describeKeys ⟨true, masters, activeDb⟩ defaults first n = .ok s ∧
      Scanned answers masters (effectiveGlob cur) (effectiveCount cur) n s) ∧
    ((∀ node ∈ masters, ∃ n, Ended (answers (clientOf node)) (effectiveGlob cur) (effectiveCount cur) n) →
      ∃ n s, calls (serverOf answers) describeKeys ⟨true, masters, activeDb⟩ defaults first n = .ok s ∧ s.done = true) := by
  have each : ∀ n, ∃ s, calls (serverOf answers) describeKeys ⟨true, masters, activeDb⟩ defaults first n = .ok s ∧
      Scanned answers masters (effectiveGlob cur) (effectiveCount cur) n s ∧
      (s.done = false → ∃ cur', parseCursor s.input (defaults n) = .ok cur' ∧
        Holds answers masters (effectiveGlob cur) (effectiveCount cur) n cur' s.sent) := by
    intro n
    induction n with
    | zero =>
      obtain ⟨node, member⟩ := List.exists_mem_of_ne_nil masters some'
      have unended : ¬ ∀ node ∈ masters, Ended (answers (clientOf node)) (effectiveGlob cur) (effectiveCount cur) 0 :=
        fun ended => nomatch ended node member
      exact ⟨_, rfl, ⟨fun _ _ => rfl, fun _ _ => rfl, ⟨nofun, fun ended => absurd ended unended⟩⟩,
        fun _ => ⟨cur, accepted, ⟨rfl, rfl, fresh, fun _ _ => rfl, fun _ _ => rfl⟩⟩⟩
    | succ n ih =>
      obtain ⟨s, ran, scanned, going⟩ := ih
      obtain ⟨s', moved, after, more⟩ := callScanned describeKeys distinct some' activeDb (defaults n) (defaults (n + 1)) scanned going
      exact ⟨s', by rw [calls, ran, okThen]; exact moved, after, more⟩
  refine ⟨fun n => ?_, fun ends => ?_⟩
  · obtain ⟨s, ran, scanned, _⟩ := each n
    exact ⟨s, ran, scanned⟩
  · choose! last ended using ends
    obtain ⟨s, ran, scanned, _⟩ := each ((masters.map last).sum)
    refine ⟨_, s, ran, scanned.finished.mpr fun node member => endedFrom (ended node member) ?_⟩
    exact List.le_sum_of_mem (List.mem_map_of_mem member)

def twoMasters : List Node := [⟨some (units "a"), some 7000⟩, ⟨some (units "b"), some 7000⟩]

def twoAnswers (client : Client) (asked : List Request) : Answer :=
  if client = .master (units "b:7000") then if asked.length = 1 then ⟨17, []⟩ else ⟨0, [units "k"]⟩ else ⟨0, []⟩

theorem twoScanned : ∃ s, calls (serverOf twoAnswers) (fun _ keys => keys) ⟨true, twoMasters, 0⟩ (fun _ => 500) none 2 = .ok s ∧
    s.done = true := by
  obtain ⟨s, ran, scanned⟩ := (scanComplete (fun _ keys => keys) twoAnswers twoMasters (fun _ => 500) none (by decide +kernel)
    (by decide) 0 rfl (fun _ _ => rfl)).1 2
  refine ⟨s, ran, scanned.finished.mpr ?_⟩
  unfold Ended
  decide +kernel

end Runs

end DatabaseAdmin.ClusterScans
