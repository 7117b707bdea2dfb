import DatabaseAdmin.SetPages
import DatabaseAdmin.ClusterScans
import DatabaseAdmin.MysqlLoads
import DatabaseAdmin.NumberTexts

/-! The value of a Redis key on its way to the editor and back: the reader of each type, the validator of an edited
value, the commands that write it, and what the server makes of them. -/
namespace DatabaseAdmin.RedisValues
open CodeUnits RedisReplies ClusterScans SetPages

section Records

abbrev Record := List (Text × Text)

def arrayIndex (name : Text) : Option ℕ :=
  if name ≠ [] ∧ name.all ClusterScans.isDigit = true ∧ (name.head? = some 48 → name = [48]) ∧
      ClusterScans.digitsValue name < 2 ^ 32 - 1 then
    some (ClusterScans.digitsValue name)
  else none

def rank (name : Text) : ℕ := (arrayIndex name).getD (2 ^ 32)

-- `Object.entries`: array indices come first, by number, and other names in the order they were set.
def entriesOf {β : Type} (r : List (Text × β)) : List (Text × β) := r.mergeSort fun a b => decide (rank a.1 ≤ rank b.1)

def pairsOf : List Text → Record
  | a :: b :: rest => (a, b) :: pairsOf rest
  | _ => []

def collapse (pairs : Record) : Record := pairs.foldl (fun r m => setField m.1 m.2 r) []

end Records

section Reading

inductive RedisValueType where
  | string | list | set | zset | hash | stream | none
  deriving DecidableEq

def RedisValueType.name : RedisValueType → Text
  | .string => units "string"
  | .list => units "list"
  | .set => units "set"
  | .zset => units "zset"
  | .hash => units "hash"
  | .stream => units "stream"
  | .none => units "none"

def valueTypes : List RedisValueType := [.string, .list, .set, .zset, .hash, .stream, .none]

def asValueType (raw : Text) : RedisValueType :=
  (valueTypes.find? fun t => t.name = (trim raw).map lowerUnit).getD .none

inductive TypedValue where
  | string (value : Text)
  | list (items : List Text) (total : ℕ)
  | set (members : List Text) (total : ℕ)
  | zset (members : List (Text × Text)) (total : ℕ)
  | hash (fields : List (Text × Text)) (total : ℕ)
  | stream (entries : List (Text × Record)) (total : ℕ)
  | none

structure KeyReplies where
  size : ℕ
  getrange : ℕ → ℕ → Reply
  lrange : ℕ → ℕ → Reply
  zrange : ℕ → ℕ → Reply
  xrange : ℕ → Reply
  scan : ℕ → List Text → Reply

def parseStreamEntry : Reply → Option (Text × Record)
  | .array (id :: rest) _ => some (toText id, collapse (pairsOf (flattenStrings (rest.head?.getD .nil))))
  | _ => none

def parseStreamEntries : Reply → List (Text × Record)
  | .array entries _ => entries.filterMap parseStreamEntry
  | _ => []

def itemTexts : Reply → List Text
  | .array items _ => items.map toText
  | _ => []

def maxStringBytes : ℕ := 2 ^ 20

def pageOffset (offset : ℤ) : ℕ := offset.toNat

def pageLimit (limit : ℤ) : ℕ := (min (max 1 limit) 5000).toNat

def readTypedValue (r : KeyReplies) (type : RedisValueType) (offset limit : ℕ) : TypedValue :=
  match type with
  | .string => .string (toText (r.getrange offset (offset + maxStringBytes - 1)))
  | .list => .list (itemTexts (r.lrange offset (offset + limit - 1))) r.size
  | .set =>
      let page := scanGroups r.scan r.size offset limit 1
      .set (page.groups.map fun g => g.head?.getD []) page.total
  | .zset => .zset (pairsOf (flattenStrings (r.zrange offset (offset + limit - 1)))) r.size
  | .hash =>
      let page := scanGroups r.scan r.size offset limit 2
      .hash (page.groups.map fun g => (g.head?.getD [], (g[1]?).getD [])) page.total
  | .stream => .stream ((parseStreamEntries (r.xrange (offset + limit))).drop offset) r.size
  | .none => .none

def readKey (r : KeyReplies) (type : Text) (offset limit : ℤ) : TypedValue :=
  readTypedValue r (asValueType type) (pageOffset offset) (pageLimit limit)

end Reading

section Wire

def typed (type : String) (members : Members) : WireValue := .object ((units "type", .string (units type)) :: members)

def wireValue : TypedValue → WireValue
  | .string value => typed "string" [(units "value", .string value)]
  | .list items total => typed "list" [(units "items", .array (items.map .string)), (units "total", wireInt total)]
  | .set members total => typed "set" [(units "members", .array (members.map .string)), (units "total", wireInt total)]
  | .zset members total => typed "zset" [(units "members", .array (members.map fun m =>
      .object [(units "member", .string m.1), (units "score", .string m.2)])), (units "total", wireInt total)]
  | .hash fields total => typed "hash" [(units "fields", .array (fields.map fun f =>
      .object [(units "field", .string f.1), (units "value", .string f.2)])), (units "total", wireInt total)]
  | .stream entries total => typed "stream" [(units "entries", .array (entries.map fun e =>
      .object [(units "id", .string e.1), (units "fields", .object (wireRecord (entriesOf e.2)))])), (units "total", wireInt total)]
  | .none => typed "none" []

end Wire

section Validator

def fieldText (obj : Members) (field : String) (label : Text) : Except Text Text :=
  match obj.lookup (units field) with
  | some (.string v) => .ok v
  | _ => .error (quoted label ++ units " must be a string.")

def eachItem {α : Type} (f : ℕ → WireValue → Except Text α) : ℕ → List WireValue → Except Text (List α)
  | _, [] => .ok []
  | i, item :: rest => do
      let a ← f i item
      let more ← eachItem f (i + 1) rest
      return a :: more

def arrayField {α : Type} (obj : Members) (field what : String) (f : ℕ → WireValue → Except Text α) : Except Text (List α) :=
  match obj.lookup (units field) with
  | some (.array items) => eachItem f 0 items
  | _ => .error (quoted (units field) ++ units (" must be an array of " ++ what ++ "."))

def itemLabel (field : String) (i : ℕ) : Text := units field ++ units "[" ++ cursorText i ++ units "]"

def stringItem (field : String) (i : ℕ) : WireValue → Except Text Text
  | .string v => .ok v
  | _ => .error (quoted (itemLabel field i) ++ units " must be a string.")

def stringList (obj : Members) (field : String) : Except Text (List Text) := arrayField obj field "strings" (stringItem field)

def radixDigit (base : ℕ) (c : CodeUnit) : Option ℕ :=
  let v := if 48 ≤ c ∧ c ≤ 57 then c - 48 else if 97 ≤ c ∧ c ≤ 122 then c - 87 else base
  if v < base then some v else none

def radixValue (base : ℕ) (digits : Text) : Option ℕ :=
  if digits = [] then none else (digits.mapM (radixDigit base)).map fun ds => ds.foldl (fun n d => base * n + d) 0

def numberValue : Text → Option ℚ
  | 48 :: 120 :: digits => (radixValue 16 digits).map Nat.cast
  | 48 :: 111 :: digits => (radixValue 8 digits).map Nat.cast
  | 48 :: 98 :: digits => (radixValue 2 digits).map Nat.cast
  | token => NumberTexts.numeral token

def scoreWords : List Text := ["inf", "+inf", "-inf", "infinity", "-infinity", "nan"].map units

def isRedisScore (value : Text) : Bool :=
  let token := (trim value).map lowerUnit
  decide (token ∈ scoreWords) || (numberValue token).any fun q => (Doubles.toDouble |q|).isSome

def scoreText : Option WireValue → Option Text
  | some (.number text _) => some text
  | some (.string text) => some text
  | _ => none

def zsetItem (i : ℕ) (entry : WireValue) : Except Text (Text × Text) := do
  let item ← asRecord entry (quoted (itemLabel "members" i))
  match (scoreText (item.lookup (units "score"))).filter isRedisScore with
  | none => .error (quoted (itemLabel "members" i ++ units ".score") ++ units " must be a number, \"inf\", \"-inf\" or \"nan\".")
  | some score => do
      let member ← fieldText item "member" (itemLabel "members" i ++ units ".member")
      return (member, score)

def hashItem (i : ℕ) (entry : WireValue) : Except Text (Text × Text) := do
  let item ← asRecord entry (quoted (itemLabel "fields" i))
  let field ← fieldText item "field" (itemLabel "fields" i ++ units ".field")
  let value ← fieldText item "value" (itemLabel "fields" i ++ units ".value")
  return (field, value)

def assignFields (label : Text) : Members → Record → Except Text Record
  | [], r => .ok r
  | (name, .string value) :: rest, r => assignFields label rest (if name = protoName then r else setField name value r)
  | (name, _) :: _, _ => .error (quoted (label ++ units "." ++ name) ++ units " must be a string.")

def streamItem (i : ℕ) (entry : WireValue) : Except Text (Text × Record) := do
  let item ← asRecord entry (quoted (itemLabel "entries" i))
  let label := itemLabel "entries" i ++ units ".fields"
  let fieldMap ← match item.lookup (units "fields") with
    | none | some .null => .ok []
    | some fields => asRecord fields (quoted label)
  let fields ← assignFields label (entriesOf fieldMap) []
  match item.lookup (units "id") with
  | none | some .null => return (units "*", fields)
  | some _ => do
      let id ← fieldText item "id" (itemLabel "entries" i ++ units ".id")
      return (id, fields)

def parseTypedValue (input : WireValue) : Except Text TypedValue := do
  let obj ← asRecord input (quoted (units "value"))
  match obj.lookup (units "type") with
  | some (.string type) =>
    match valueTypes.find? fun t => t.name = type with
    | some .string => (fieldText obj "value" (units "value.value")).map .string
    | some .list => (stringList obj "items").map fun items => .list items items.length
    | some .set => (stringList obj "members").map fun members => .set members members.length
    | some .zset => (arrayField obj "members" "\x7b member, score \x7d" zsetItem).map fun members => .zset members members.length
    | some .hash => (arrayField obj "fields" "\x7b field, value \x7d" hashItem).map fun fields => .hash fields fields.length
    | some .stream => (arrayField obj "entries" "\x7b id, fields \x7d" streamItem).map fun entries => .stream entries entries.length
    | some .none => .ok .none
    | none => .error (units "\"value.type\" must be one of: string, list, set, zset, hash, stream, none.")
  | _ => .error (units "\"value.type\" must be one of: string, list, set, zset, hash, stream, none.")

end Validator

section Writing

def writeChunk : ℕ := 500

def chunk {α : Type} (items : List α) : List (List α) :=
  if items.length ≤ writeChunk then (if items.length = 0 then [] else [items])
  else (List.range (pageCount items.length writeChunk)).map fun i => (items.drop (i * writeChunk)).take writeChunk

inductive Command where
  | del
  | set (value : Text)
  | rpush (items : List Text)
  | sadd (members : List Text)
  | zadd (pairs : List (Text × Text))
  | hset (pairs : List (Text × Text))
  | xadd (id : Text) (pairs : Record)
  | pexpire (ms : ℤ)

def addCommand (entry : Text × Record) : Option Command :=
  let fields := entriesOf entry.2
  if fields = [] then none else some (.xadd (if entry.1 ≠ [] ∧ entry.1 ≠ units "*" then entry.1 else units "*") fields)

def valueCommands : TypedValue → List Command
  | .string value => [.set value]
  | .list items _ => (chunk items).map .rpush
  | .set members _ => (chunk members).map .sadd
  | .zset members _ => (chunk members).map fun part => .zadd (part.map Prod.swap)
  | .hash fields _ => (chunk fields).map .hset
  | .stream entries _ => entries.filterMap addCommand
  | .none => []

def expireCommands (ttlMs : Option ℤ) : List Command := ((ttlMs.filter (0 < ·)).map .pexpire).toList

def buildWriteCommands (value : TypedValue) (ttlMs : Option ℤ) : List Command :=
  .del :: match value with
    | .none => []
    | value => valueCommands value ++ expireCommands ttlMs

end Writing

section Server

abbrev EntryId := ℕ × ℕ

abbrev Fields := List (Bytes × Bytes)

inductive Content (σ : Type) where
  | string (value : Bytes)
  | list (items : List Bytes)
  | set (members : List Bytes)
  | zset (members : List (Bytes × σ))
  | hash (fields : Fields)
  | stream (entries : List (EntryId × Fields)) (last : EntryId)
  | other (type : Text) (payload : Bytes)

structure KeyState (σ : Type) where
  content : Content σ
  expiry : Option ℕ

-- The readings of the server: ZADD's of a score, XADD's of an id behind the last one, PEXPIRE's of a time to live.
structure RedisServer (σ : Type) where
  score : Bytes → Option σ
  entryId : Bytes → EntryId → Option EntryId
  deadline : ℤ → Option ℕ

def putPair {β : Type} (m : List (Bytes × β)) (pair : Bytes × β) : List (Bytes × β) :=
  if m.any fun p => p.1 = pair.1 then m.map fun p => if p.1 = pair.1 then pair else p else m ++ [pair]

def putItem (m : List Bytes) (item : Bytes) : List Bytes := if item ∈ m then m else m ++ [item]

def bytePairs (pairs : List (Text × Text)) : Fields := pairs.map fun p => (MysqlLoads.octets p.1, MysqlLoads.octets p.2)

variable {σ : Type} (server : RedisServer σ)

def scored (pair : Text × Text) : Option (Bytes × σ) := (server.score (MysqlLoads.octets pair.1)).map (MysqlLoads.octets pair.2, ·)

def add (content : Option (Content σ)) : Command → Option (Content σ)
  | .rpush items => match content with
    | none => some (.list (items.map MysqlLoads.octets))
    | some (.list old) => some (.list (old ++ items.map MysqlLoads.octets))
    | _ => none
  | .sadd members => match content with
    | none => some (.set ((members.map MysqlLoads.octets).foldl putItem []))
    | some (.set old) => some (.set ((members.map MysqlLoads.octets).foldl putItem old))
    | _ => none
  | .zadd pairs => (pairs.mapM (scored server)).bind fun pairs => match content with
    | none => some (.zset (pairs.foldl putPair []))
    | some (.zset old) => some (.zset (pairs.foldl putPair old))
    | _ => none
  | .hset pairs => match content with
    | none => some (.hash ((bytePairs pairs).foldl putPair []))
    | some (.hash old) => some (.hash ((bytePairs pairs).foldl putPair old))
    | _ => none
  | .xadd id pairs => match content with
    | none => (server.entryId (MysqlLoads.octets id) (0, 0)).map fun i => .stream [(i, bytePairs pairs)] i
    | some (.stream old last) => (server.entryId (MysqlLoads.octets id) last).map fun i => .stream (old ++ [(i, bytePairs pairs)]) i
    | _ => none
  | _ => none

def execute (state : Option (KeyState σ)) : Command → Option (Option (KeyState σ))
  | .del => some none
  | .set value => some (some ⟨.string (MysqlLoads.octets value), none⟩)
  | .pexpire ms => match state with
    | none => some none
    | some key => (server.deadline ms).map fun time => some { key with expiry := some time }
  | command => (add server (state.map KeyState.content) command).map fun content => some ⟨content, state.bind KeyState.expiry⟩

def runAll (state : Option (KeyState σ)) (commands : List Command) : Option (KeyState σ) :=
  commands.foldl (fun state command => (execute server state command).getD state) state

end Server

end DatabaseAdmin.RedisValues
