import DatabaseAdmin.KnownHosts
import DatabaseAdmin.NumberTexts

/-! Reading ssh_config: a file and the files it includes become a list of blocks, and a lookup takes its
settings from the blocks whose patterns match the alias. -/
namespace DatabaseAdmin.SshConfig
open CodeUnits BinaryText

section Lines

def keywordUnit (c : CodeUnit) : Bool := (65 ≤ c && c ≤ 90) || (97 ≤ c && c ≤ 122) || (48 ≤ c && c ≤ 57) || c == 95 || c == 45

def behindKeyword (rest : Text) : Option Text :=
  match rest.dropWhile isWhite with
  | 61 :: value => some (value.dropWhile isWhite)
  | value => if value = rest then none else some value

def splitDirective (line : Text) : Option (Text × Text) :=
  let trimmed := trim line
  if trimmed = [] ∨ startsWith ['#'] trimmed then none
  else
    let keyword := trimmed.takeWhile keywordUnit
    if keyword = [] then none
    else match behindKeyword (trimmed.dropWhile keywordUnit) with
      | some value => if value.any KnownHosts.lineEnd then none else some (keyword.map lowerUnit, trim value)
      | none => none

def argsFrom : Nat → Text → List Text
  | _, [] => []
  | skip + 1, _ :: t => argsFrom skip t
  | 0, c :: t =>
    if isWhite c then argsFrom 0 t
    else match if c = doubleQuote then indexOf [doubleQuote] t else none with
      | some n => t.take n :: argsFrom (n + 1) t
      | none => (c :: t).takeWhile (!isWhite ·) :: argsFrom (t.takeWhile (!isWhite ·)).length t

def splitArgs (value : Text) : List Text := argsFrom 0 value

end Lines

structure FileSystem where
  canonicalize : CodeUnit → CodeUnit
  homedir : Text
  isAbsolute : Text → Bool
  join : Text → Text → Text
  dirname : Text → Text
  basename : Text → Text
  files : List (Text × Text)
  existsSync : Text → Bool
  readdirSync : Text → Option (List Text)
  isFile : Text → Option Bool
  signature : Text → Option Text

variable (fs : FileSystem)

section Matching

def matchesPattern (pattern host : Text) : Bool :=
  KnownHosts.patternMatches ⟨fs.canonicalize, fun _ => [], fun _ _ => []⟩ pattern host

def patternsFrom (host : Text) : Bool → List Text → Bool
  | matched, [] => matched
  | matched, raw :: rest =>
    let negated := startsWith ['!'] raw
    if !matchesPattern fs (if negated then raw.drop 1 else raw) host then patternsFrom host matched rest
    else if negated then false
    else patternsFrom host true rest

def patternsMatch (patterns : List Text) (host : Text) : Bool := patternsFrom fs host false patterns

end Matching

section Reading

def expandTilde (p : Text) : Text :=
  if p = ['~'] then fs.homedir else if startsWith (units "~/") p then fs.join fs.homedir (p.drop 2) else p

def expandIncludeGlob (spec baseDir : Text) : List Text :=
  let abs := if fs.isAbsolute spec then spec else fs.join baseDir (expandTilde fs spec)
  let resolved := expandTilde fs abs
  if ('*' : CodeUnit) ∉ resolved ∧ ('?' : CodeUnit) ∉ resolved then if fs.existsSync resolved then [resolved] else []
  else match fs.readdirSync (fs.dirname resolved) with
    | none => []
    | some names =>
      let found := (names.filter (matchesPattern fs (fs.basename resolved))).map (fs.join (fs.dirname resolved))
      if found.any fun f => (fs.isFile f).isNone then []
      else (found.filter fun f => fs.isFile f = some true).mergeSort fun a b => decide (a ≤ b)

def included (value baseDir : Text) : List Text := (splitArgs value).flatMap fun spec => expandIncludeGlob fs spec baseDir

structure ConfigBlock where
  patterns : List Text
  settings : List (Text × Text)
  deriving DecidableEq

structure Blocks where
  blocks : List ConfigBlock
  seen : List Text

structure Cursor where
  closed : List ConfigBlock
  current : ConfigBlock
  seen : List Text

def Cursor.blocks (c : Cursor) : List ConfigBlock := c.closed ++ [c.current]

def Cursor.enter (c : Cursor) (patterns : List Text) : Cursor := ⟨c.blocks, ⟨patterns, []⟩, c.seen⟩

def readDirective (deeper : Text → Blocks → Blocks) (baseDir : Text) (c : Cursor) (line : Text) : Cursor :=
  match splitDirective line with
  | none => c
  | some (keyword, value) =>
    if keyword = units "host" then c.enter (splitArgs value)
    else if keyword = units "match" then c.enter []
    else if keyword = units "include" then
      let read := (included fs value baseDir).foldl (fun r file => deeper file r) ⟨c.blocks, c.seen⟩
      ⟨read.blocks, ⟨c.current.patterns, []⟩, read.seen⟩
    else { c with current := { c.current with settings := c.current.settings ++ [(keyword, value)] } }

def everyHost : List Text := [['*']]

def readConfigInto : Nat → Text → Blocks → Blocks
  | 0, _, r => r
  | left + 1, file, r =>
    if file ∈ r.seen then r
    else match fs.files.lookup file with
      | none => ⟨r.blocks, file :: r.seen⟩
      | some text =>
        let c := (text.splitOn newline).foldl (readDirective fs (readConfigInto left) (fs.dirname file))
          ⟨r.blocks, ⟨everyHost, []⟩, file :: r.seen⟩
        ⟨c.blocks, c.seen⟩

def freshBlocks (dir : Text) : List ConfigBlock := (readConfigInto fs 9 (fs.join dir (units "config")) ⟨[], []⟩).blocks

end Reading

section Cache

structure ConfigCache where
  blocks : List ConfigBlock
  readAt : Int
  signature : Option Text

abbrev Caches := Text → Option ConfigCache

def cacheTtlMs : Int := 5000

def loadConfigBlocks (caches : Caches) (now : Int) (dir : Text) : List ConfigBlock × Caches :=
  let signature := fs.signature (fs.join dir (units "config"))
  let load := (freshBlocks fs dir, Function.update caches dir (some ⟨freshBlocks fs dir, now, signature⟩))
  match caches dir with
  | some cached => if cached.signature = signature ∧ now - cached.readAt < cacheTtlMs then (cached.blocks, caches) else load
  | none => load

end Cache

section Lookup

structure SshConfigEntry where
  hostName : Option Text
  port : Option ℚ
  user : Option Text
  identityFiles : List Text
  proxyJump : Option Text
  deriving DecidableEq

def parsePort (value : Text) : Option ℚ :=
  let trimmed := value.dropWhile isWhite
  let digits := (if startsWith ['-'] trimmed ∨ startsWith ['+'] trimmed then trimmed.drop 1 else trimmed).takeWhile isDigit
  if digits = [] then none
  else (Doubles.toDouble (NumberTexts.digitsValue digits)).map fun n => if startsWith ['-'] trimmed then -n else n

def applySetting (entry : SshConfigEntry) (setting : Text × Text) : SshConfigEntry :=
  let (keyword, value) := setting
  if keyword = units "hostname" then { entry with hostName := entry.hostName.or (some value) }
  else if keyword = units "port" then { entry with port := entry.port.or (parsePort value) }
  else if keyword = units "user" then { entry with user := entry.user.or (some value) }
  else if keyword = units "identityfile" then
    { entry with identityFiles := entry.identityFiles ++ (splitArgs value).map (expandTilde fs) }
  else if keyword = units "proxyjump" then { entry with proxyJump := entry.proxyJump.or (some value) }
  else entry

def substitution (before matched after : Text) : Text → Text
  | 36 :: 36 :: t => 36 :: substitution before matched after t
  | 36 :: 38 :: t => matched ++ substitution before matched after t
  | 36 :: 96 :: t => before ++ substitution before matched after t
  | 36 :: 39 :: t => after ++ substitution before matched after t
  | c :: t => c :: substitution before matched after t
  | [] => []

def replaceHost (alias' : Text) : Text → Text → Text
  | before, 37 :: 104 :: t => substitution before (units "%h") t alias' ++ replaceHost alias' (before ++ units "%h") t
  | before, c :: t => c :: replaceHost alias' (before ++ [c]) t
  | _, [] => []

def noEntry : SshConfigEntry := ⟨none, none, none, [], none⟩

def lookupBlocks (blocks : List ConfigBlock) (host : Text) : SshConfigEntry :=
  let entry := blocks.foldl (fun entry block =>
    if patternsMatch fs block.patterns host then block.settings.foldl (applySetting fs) entry else entry) noEntry
  { entry with hostName := entry.hostName.map (replaceHost host []) }

def lookupSshConfig (caches : Caches) (now : Int) (host dir : Text) : SshConfigEntry × Caches :=
  if host = [] then (noEntry, caches)
  else
    let loaded := loadConfigBlocks fs caches now dir
    (lookupBlocks fs loaded.1 host, loaded.2)

def lookups (earlier : List (Int × Text × Text)) : Caches :=
  earlier.foldl (fun caches (now, host, dir) => (lookupSshConfig fs caches now host dir).2) fun _ => none

end Lookup

end DatabaseAdmin.SshConfig
