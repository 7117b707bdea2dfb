import DatabaseAdmin.SshConfig
import Mathlib.Data.List.Perm.Subperm

/-! What an ssh_config asks for, from its lines in reading order: an include stands for the lines of
its file, under the block that it stands in and all that are around it. -/
namespace DatabaseAdmin.SshConfig
open CodeUnits

section Survey

structure ConfigLine where
  keyword : Text
  value : Text
  own : Option (List Text)
  around : List (Option (List Text))
  read : Bool

structure Survey where
  lines : List ConfigLine
  seen : List Text

abbrev Place := Option (List Text) × Survey

variable (fs : FileSystem)

def surveyLine (deeper : Option (List Text) → Text → Survey → Survey) (baseDir : Text) (around : List (Option (List Text)))
    (read : Bool) (place : Place) (line : Text) : Place :=
  match splitDirective line with
  | none => place
  | some (keyword, value) =>
    if keyword = units "host" then (some (splitArgs value), place.2)
    else if keyword = units "match" then (some [], place.2)
    else if keyword = units "include" then (place.1, (included fs value baseDir).foldl (fun s file => deeper place.1 file s) place.2)
    else (place.1, { place.2 with lines := place.2.lines ++ [⟨keyword, value, place.1, around, read⟩] })

def survey : Nat → List Text → List (Option (List Text)) → Bool → Text → Survey → Survey
  | 0, _, _, _, _, s => s
  | fuel + 1, chain, around, read, file, s =>
    if file ∈ chain then s
    else
      let read := read && decide (chain.length ≤ 8) && decide (file ∉ s.seen)
      let s : Survey := if read then ⟨s.lines, file :: s.seen⟩ else s
      match fs.files.lookup file with
      | none => s
      | some text => ((text.splitOn newline).foldl
          (surveyLine fs (fun own => survey fuel (file :: chain) (own :: around) read) (fs.dirname file) around read) (none, s)).2

def configLines (dir : Text) : List ConfigLine :=
  (survey fs (fs.files.length + 1) [] [] true (fs.join dir (units "config")) ⟨[], []⟩).lines

def blockMatches (host : Text) : Option (List Text) → Bool
  | none => true
  | some patterns => patternsMatch fs patterns host

def inForce (host : Text) (l : ConfigLine) : Bool := blockMatches fs host l.own && l.around.all (blockMatches fs host)

end Survey

section Agreement
variable (fs : FileSystem)

def patternsOf (own : Option (List Text)) : List Text := own.getD everyHost

abbrev Setting := List Text × Text × Text

def flat (blocks : List ConfigBlock) : List Setting := blocks.flatMap fun b => b.settings.map (b.patterns, ·)

def shown (lines : List ConfigLine) : List Setting := (lines.filter ConfigLine.read).map fun l => (patternsOf l.own, l.keyword, l.value)

theorem surveyUnread (fuel : Nat) (chain : List Text) (around : List (Option (List Text))) (file : Text) (s : Survey) :
    (survey fs fuel chain around false file s).seen = s.seen ∧ shown (survey fs fuel chain around false file s).lines = shown s.lines := by
  induction fuel generalizing chain around file s with
  | zero => exact ⟨rfl, rfl⟩
  | succ fuel ih =>
    rw [survey]
    split
    · exact ⟨rfl, rfl⟩
    · simp only [Bool.false_and, Bool.false_eq_true, if_false]
      split
      · exact ⟨rfl, rfl⟩
      · rename_i text _
        refine List.foldlRecOn (motive := fun place : Place => place.2.seen = s.seen ∧ shown place.2.lines = shown s.lines)
          (text.splitOn newline) _ ⟨rfl, rfl⟩ fun place kept line _ => ?_
        unfold surveyLine
        split
        · exact kept
        · split
          · exact kept
          · split
            · exact kept
            · split
              · refine List.foldlRecOn (motive := fun s' : Survey => s'.seen = s.seen ∧ shown s'.lines = shown s.lines) _ _ kept
                  fun s' kept' file' _ => ?_
                exact ⟨(ih _ _ file' s').1.trans kept'.1, (ih _ _ file' s').2.trans kept'.2⟩
              · exact ⟨kept.1, by simpa [shown] using kept.2⟩

theorem surveyQuiet (fuel : Nat) {chain : List Text} (around : List (Option (List Text))) {file : Text} {s : Survey}
    (unread : (decide (chain.length ≤ 8) && decide (file ∉ s.seen)) = false) :
    survey fs fuel chain around true file s = survey fs fuel chain around false file s := by
  cases fuel with
  | zero => rfl
  | succ fuel =>
    rw [survey, survey]
    simp only [Bool.true_and, Bool.false_and, unread]

structure Agree (chain : List Text) (r : Blocks) (s : Survey) : Prop where
  flat : flat r.blocks = shown s.lines
  seen : r.seen = s.seen
  chain : chain ⊆ s.seen

structure AgreeIn (chain : List Text) (c : Cursor) (place : Place) : Prop where
  blocks : Agree chain ⟨c.blocks, c.seen⟩ place.2
  patterns : c.current.patterns = patternsOf place.1

theorem flatEntered (blocks : List ConfigBlock) (patterns : List Text) : flat (blocks ++ [⟨patterns, []⟩]) = flat blocks := by
  simp [flat]

theorem enterAgrees {chain : List Text} {c : Cursor} {place : Place} (agree : AgreeIn chain c place) {patterns : List Text}
    {own : Option (List Text)} (same : patterns = patternsOf own) : AgreeIn chain (c.enter patterns) (own, place.2) :=
  ⟨⟨(flatEntered c.blocks patterns).trans agree.blocks.flat, agree.blocks.seen, agree.blocks.chain⟩, same⟩

theorem directiveAgrees (baseDir : Text) (around : List (Option (List Text))) {chain : List Text}
    {deeper : Text → Blocks → Blocks} {deeper' : Option (List Text) → Text → Survey → Survey}
    (inner : ∀ own file r s, Agree chain r s → Agree chain (deeper file r) (deeper' own file s))
    {c : Cursor} {place : Place} (line : Text) (agree : AgreeIn chain c place) :
    AgreeIn chain (readDirective fs deeper baseDir c line) (surveyLine fs deeper' baseDir around true place line) := by
  unfold readDirective surveyLine
  cases splitDirective line with
  | none => exact agree
  | some directive =>
    obtain ⟨keyword, value⟩ := directive
    dsimp only
    split
    · exact enterAgrees agree rfl
    · split
      · exact enterAgrees agree rfl
      · split
        · have read : Agree chain ((included fs value baseDir).foldl (fun r file => deeper file r) ⟨c.blocks, c.seen⟩)
              ((included fs value baseDir).foldl (fun s file => deeper' place.1 file s) place.2) :=
            List.foldl_rel agree.blocks fun file _ r s held => inner place.1 file r s held
          exact ⟨⟨(flatEntered _ _).trans read.flat, read.seen, read.chain⟩, agree.patterns⟩
        · refine ⟨⟨?_, agree.blocks.seen, agree.blocks.chain⟩, agree.patterns⟩
          have before := agree.blocks.flat
          simp only [Cursor.blocks, flat, List.flatMap_append, List.flatMap_singleton, List.map_append, List.map_singleton,
            agree.patterns] at before ⊢
          rw [← List.append_assoc, before]
          simp [shown]

theorem readAgrees (fuel left : Nat) (chain : List Text) (around : List (Option (List Text))) (file : Text) (r : Blocks) (s : Survey)
    (depth : left = 9 - chain.length) (enough : fuel + chain.length = fs.files.length + 1) (apart : chain.Nodup)
    (open' : chain ⊆ fs.files.map Prod.fst) (agree : Agree chain r s) :
    Agree chain (readConfigInto fs left file r) (survey fs fuel chain around true file s) := by
  induction fuel generalizing left chain around file r s with
  | zero =>
    have few := (List.subperm_of_subset apart open').length_le
    rw [List.length_map] at few
    omega
  | succ fuel ih =>
    have quiet (idle : readConfigInto fs left file r = r) (unread : (decide (chain.length ≤ 8) && decide (file ∉ s.seen)) = false) :
        Agree chain (readConfigInto fs left file r) (survey fs (fuel + 1) chain around true file s) := by
      have same := surveyUnread fs (fuel + 1) chain around file s
      rw [idle, surveyQuiet fs (fuel + 1) around unread]
      exact ⟨agree.flat.trans same.2.symm, agree.seen.trans same.1.symm, same.1 ▸ agree.chain⟩
    by_cases again : file ∈ chain
    · have known : file ∈ r.seen := agree.seen ▸ agree.chain again
      rw [survey, if_pos again]
      cases left with
      | zero => exact agree
      | succ left => rw [readConfigInto, if_pos known]; exact agree
    · cases left with
      | zero => exact quiet rfl (by simp; omega)
      | succ left =>
        by_cases known : file ∈ r.seen
        · exact quiet (by rw [readConfigInto, if_pos known]) (by simp [← agree.seen, known])
        · have shallow : chain.length ≤ 8 := by omega
          rw [readConfigInto, if_neg known, survey, if_neg again]
          simp only [shallow, ← agree.seen, known, not_false_eq_true, decide_true, Bool.and_self, if_true]
          have deeper : chain ⊆ file :: r.seen := fun f member => List.mem_cons_of_mem _ (agree.seen ▸ agree.chain member)
          cases found : fs.files.lookup file with
          | none => exact ⟨agree.flat, rfl, deeper⟩
          | some text =>
            have listed : file ∈ fs.files.map Prod.fst := by
              obtain ⟨before, after, split, -⟩ := List.lookup_eq_some_iff.mp found
              simp [split]
            have start : AgreeIn (file :: chain) ⟨r.blocks, ⟨everyHost, []⟩, file :: r.seen⟩ (none, ⟨s.lines, file :: r.seen⟩) :=
              ⟨⟨(flatEntered r.blocks everyHost).trans agree.flat, rfl,
                List.cons_subset.mpr ⟨List.mem_cons_self, deeper⟩⟩, rfl⟩
            have whole := List.foldl_rel (l := text.splitOn newline) start fun line _ c place held =>
              directiveAgrees fs (fs.dirname file) around (fun own file' r s held =>
                ih left (file :: chain) (own :: around) file' r s (by simp only [List.length_cons]; omega)
                  (by simp only [List.length_cons]; omega) (List.nodup_cons.mpr ⟨again, apart⟩)
                  (List.cons_subset.mpr ⟨listed, open'⟩) held) line held
            exact ⟨whole.blocks.flat, whole.blocks.seen, (List.cons_subset.mp whole.blocks.chain).2⟩

theorem blocksShown (dir : Text) : flat (freshBlocks fs dir) = shown (configLines fs dir) :=
  (readAgrees fs (fs.files.length + 1) 9 [] [] (fs.join dir (units "config")) ⟨[], []⟩ ⟨[], []⟩ rfl (by simp) List.nodup_nil (by simp)
    ⟨rfl, rfl, by simp⟩).flat

end Agreement

section Picking
variable {α β : Type}

def FirstAlike (f : α → Option β) (p q : α → Bool) (l : List α) : Prop :=
  match l.find? fun x => (f x).isSome && (p x || q x) with
  | none => True
  | some x => (p x = true ∧ q x = true) ∨ (q x = false ∧ (l.filter q).findSome? f = f x) ∨
      (p x = false ∧ (l.filter p).findSome? f = f x)

theorem firstSame (f : α → Option β) (p q : α → Bool) (l : List α) :
    (l.filter p).findSome? f = (l.filter q).findSome? f ↔ FirstAlike f p q l := by
  induction l with
  | nil => simp [FirstAlike]
  | cons x l ih =>
    cases reading : f x with
    | none => cases first : p x <;> cases second : q x <;> simpa [FirstAlike, reading, first, second] using ih
    | some v =>
      cases first : p x <;> cases second : q x
      · simpa [FirstAlike, reading, first, second] using ih
      · simp [FirstAlike, reading, first, second]
      · simp [FirstAlike, reading, first, second, eq_comm]
      · simp [FirstAlike, reading, first, second]

def AllAlike (g : α → List β) (p q : α → Bool) (l : List α) : Prop :=
  if (∃ x ∈ l, g x ≠ [] ∧ p x = true ∧ q x = false) ∧ ∃ x ∈ l, g x ≠ [] ∧ q x = true ∧ p x = false then
    (l.filter p).flatMap g = (l.filter q).flatMap g
  else ∀ x ∈ l, p x ≠ q x → g x = []

theorem widerLength {g : α → List β} {p q : α → Bool} {l : List α} (wider : ∀ x ∈ l, q x = true → p x = true ∨ g x = []) :
    ((l.filter p).flatMap g).length = ((l.filter q).flatMap g).length + ((l.filter fun x => p x && !q x).flatMap g).length := by
  induction l with
  | nil => rfl
  | cons x l ih =>
    rw [List.forall_mem_cons] at wider
    have rest := ih wider.2
    cases first : p x <;> cases second : q x <;>
      simp only [List.filter_cons, first, second, List.flatMap_cons, List.length_append, if_true, Bool.false_eq_true, if_false,
        Bool.not_true, Bool.not_false, Bool.and_true, Bool.and_false]
    · exact rest
    · have blank := (wider.1 second).resolve_left (by simp [first])
      rw [blank, List.length_nil]
      omega
    · omega
    · omega

theorem widerSame {g : α → List β} {p q : α → Bool} {l : List α} (wider : ∀ x ∈ l, q x = true → p x = true ∨ g x = [])
    (same : ((l.filter p).flatMap g).length = ((l.filter q).flatMap g).length) : ∀ x ∈ l, p x ≠ q x → g x = [] := by
  have none : (l.filter fun x => p x && !q x).flatMap g = [] := List.length_eq_zero_iff.mp (by have := widerLength wider; omega)
  intro x member apart
  cases second : q x with
  | true => exact (wider x member second).resolve_left fun first => apart (first.trans second.symm)
  | false =>
    have first : p x = true := by simpa [second] using apart
    exact List.flatMap_eq_nil_iff.mp none x (List.mem_filter.mpr ⟨member, by simp [first, second]⟩)

theorem astrayBlank {g : α → List β} {p q : α → Bool} {l : List α} (blank : ∀ x ∈ l, p x ≠ q x → g x = []) :
    (l.filter p).flatMap g = (l.filter q).flatMap g := by
  induction l with
  | nil => rfl
  | cons x l ih =>
    rw [List.forall_mem_cons] at blank
    have rest := ih blank.2
    have here := blank.1
    cases first : p x <;> cases second : q x <;> simp_all

theorem allSame (g : α → List β) (p q : α → Bool) (l : List α) :
    (l.filter p).flatMap g = (l.filter q).flatMap g ↔ AllAlike g p q l := by
  unfold AllAlike
  split
  · exact Iff.rfl
  · rename_i oneSided
    refine ⟨fun same => ?_, astrayBlank⟩
    rcases not_and_or.mp oneSided with noStray | noMissed
    · have wider : ∀ x ∈ l, p x = true → q x = true ∨ g x = [] := by
        intro x member first
        by_contra other
        exact noStray ⟨x, member, fun blank => other (.inr blank), first, by simpa using fun second => other (.inl second)⟩
      exact fun x member apart => widerSame wider (congrArg List.length same.symm) x member apart.symm
    · have wider : ∀ x ∈ l, q x = true → p x = true ∨ g x = [] := by
        intro x member second
        by_contra other
        exact noMissed ⟨x, member, fun blank => other (.inr blank), second, by simpa using fun first => other (.inl first)⟩
      exact widerSame wider (congrArg List.length same)

end Picking

section Lookups
variable (fs : FileSystem)

def hostNameOf (host : Text) (l : ConfigLine) : Option Text :=
  if l.keyword = units "hostname" then some (replaceHost host [] l.value) else none

def portOf (l : ConfigLine) : Option ℚ := if l.keyword = units "port" then parsePort l.value else none

def userOf (l : ConfigLine) : Option Text := if l.keyword = units "user" then some l.value else none

def proxyJumpOf (l : ConfigLine) : Option Text := if l.keyword = units "proxyjump" then some l.value else none

def identityFilesOf (l : ConfigLine) : List Text :=
  if l.keyword = units "identityfile" then (splitArgs l.value).map (expandTilde fs) else []

def firstOf (host : Text) (pick : ConfigLine → Bool) (lines : List ConfigLine) : SshConfigEntry where
  hostName := (lines.filter pick).findSome? (hostNameOf host)
  port := (lines.filter pick).findSome? portOf
  user := (lines.filter pick).findSome? userOf
  identityFiles := (lines.filter pick).flatMap (identityFilesOf fs)
  proxyJump := (lines.filter pick).findSome? proxyJumpOf

def requested (host dir : Text) : SshConfigEntry := firstOf fs host (inForce fs host) (configLines fs dir)

def taken (host : Text) (l : ConfigLine) : Bool := decide (host ≠ []) && l.read && patternsMatch fs (patternsOf l.own) host

structure TakenAlike (host dir : Text) : Prop where
  hostName : FirstAlike (hostNameOf host) (taken fs host) (inForce fs host) (configLines fs dir)
  port : FirstAlike portOf (taken fs host) (inForce fs host) (configLines fs dir)
  user : FirstAlike userOf (taken fs host) (inForce fs host) (configLines fs dir)
  identityFiles : AllAlike (identityFilesOf fs) (taken fs host) (inForce fs host) (configLines fs dir)
  proxyJump : FirstAlike proxyJumpOf (taken fs host) (inForce fs host) (configLines fs dir)

theorem firstOfSame (host dir : Text) :
    firstOf fs host (taken fs host) (configLines fs dir) = requested fs host dir ↔ TakenAlike fs host dir := by
  simp only [requested, firstOf, SshConfigEntry.mk.injEq, firstSame, allSame]
  exact ⟨fun ⟨a, b, c, d, e⟩ => ⟨a, b, c, d, e⟩, fun ⟨a, b, c, d, e⟩ => ⟨a, b, c, d, e⟩⟩

theorem lookupFlat (host : Text) (blocks : List ConfigBlock) (entry : SshConfigEntry) : blocks.foldl (fun entry block =>
      if patternsMatch fs block.patterns host then block.settings.foldl (applySetting fs) entry else entry) entry =
    ((flat blocks).filter fun s => patternsMatch fs s.1 host).foldl (fun entry s => applySetting fs entry s.2) entry := by
  induction blocks generalizing entry with
  | nil => rfl
  | cons b blocks ih =>
    have here : (b.settings.map (b.patterns, ·)).filter (fun s => patternsMatch fs s.1 host) =
        if patternsMatch fs b.patterns host then b.settings.map (b.patterns, ·) else [] := by
      split <;> rename_i own <;> simp [List.filter_map, Function.comp_def, own]
    have whole : flat (b :: blocks) = b.settings.map (b.patterns, ·) ++ flat blocks := List.flatMap_cons
    rw [List.foldl_cons, ih, whole, List.filter_append, List.foldl_append, here]
    split
    · rw [List.foldl_map]
    · rfl

theorem settingTaken (host : Text) (l : ConfigLine) (entry : SshConfigEntry) :
    let next := applySetting fs entry (l.keyword, l.value)
    next.hostName.map (replaceHost host []) = (entry.hostName.map (replaceHost host [])).or (hostNameOf host l) ∧
    next.port = entry.port.or (portOf l) ∧ next.user = entry.user.or (userOf l) ∧
    next.identityFiles = entry.identityFiles ++ identityFilesOf fs l ∧ next.proxyJump = entry.proxyJump.or (proxyJumpOf l) := by
  obtain ⟨keyword, value, own, around, read⟩ := l
  simp only [applySetting, hostNameOf, portOf, userOf, identityFilesOf, proxyJumpOf]
  split
  · rename_i here
    cases entry.hostName <;> simp +decide [here]
  · split
    · rename_i here
      simp +decide [here]
    · split
      · rename_i here
        simp +decide [here]
      · split
        · rename_i here
          simp +decide [here]
        · split <;> simp_all

theorem settingsTaken (host : Text) (lines : List ConfigLine) (entry : SshConfigEntry) :
    let whole := lines.foldl (fun entry l => applySetting fs entry (l.keyword, l.value)) entry
    whole.hostName.map (replaceHost host []) = (entry.hostName.map (replaceHost host [])).or (lines.findSome? (hostNameOf host)) ∧
    whole.port = entry.port.or (lines.findSome? portOf) ∧ whole.user = entry.user.or (lines.findSome? userOf) ∧
    whole.identityFiles = entry.identityFiles ++ lines.flatMap (identityFilesOf fs) ∧
    whole.proxyJump = entry.proxyJump.or (lines.findSome? proxyJumpOf) := by
  have stepped {α : Type} (known : Option α) (f : ConfigLine → Option α) (l : ConfigLine) (lines : List ConfigLine) :
      (known.or (f l)).or (lines.findSome? f) = known.or ((l :: lines).findSome? f) := by
    rw [Option.or_assoc, List.findSome?_cons]
    cases f l <;> simp
  induction lines generalizing entry with
  | nil => simp
  | cons l lines ih =>
    have here := settingTaken fs host l entry
    have rest := ih (applySetting fs entry (l.keyword, l.value))
    dsimp only at here rest ⊢
    rw [List.foldl_cons, rest.1, rest.2.1, rest.2.2.1, rest.2.2.2.1, rest.2.2.2.2, here.1, here.2.1, here.2.2.1, here.2.2.2.1,
      here.2.2.2.2, stepped, stepped, stepped, stepped, List.append_assoc]
    exact ⟨rfl, rfl, rfl, rfl, rfl⟩

theorem lookupFirst (host dir : Text) (some' : host ≠ []) :
    lookupBlocks fs (freshBlocks fs dir) host = firstOf fs host (taken fs host) (configLines fs dir) := by
  have chosen : ((flat (freshBlocks fs dir)).filter fun s => patternsMatch fs s.1 host) =
      ((configLines fs dir).filter (taken fs host)).map fun l => (patternsOf l.own, l.keyword, l.value) := by
    rw [blocksShown, shown, List.filter_map, List.filter_filter]
    congr 2
    funext l
    simp [taken, some', Bool.and_comm]
  have fields := settingsTaken fs host ((configLines fs dir).filter (taken fs host)) noEntry
  unfold lookupBlocks
  dsimp only at fields ⊢
  rw [lookupFlat fs, chosen, List.foldl_map, SshConfigEntry.mk.injEq]
  exact ⟨fields.1.trans (by simp [noEntry, firstOf]), fields.2.1.trans (by simp [noEntry, firstOf]),
    fields.2.2.1.trans (by simp [noEntry, firstOf]), fields.2.2.2.1.trans (by simp [noEntry, firstOf]),
    fields.2.2.2.2.trans (by simp [noEntry, firstOf])⟩

theorem lookupEmpty (dir : Text) : noEntry = firstOf fs [] (taken fs []) (configLines fs dir) := by
  have nothing : (configLines fs dir).filter (taken fs []) = [] := List.filter_eq_nil_iff.mpr fun l _ => by simp [taken]
  simp [firstOf, nothing, noEntry]

end Lookups

section Caches
variable {fs : FileSystem}

def Fresh (fs : FileSystem) (caches : Caches) : Prop := ∀ dir cached, caches dir = some cached → cached.blocks = freshBlocks fs dir

theorem loadFresh {caches : Caches} (fresh : Fresh fs caches) (now : Int) (dir : Text) :
    (loadConfigBlocks fs caches now dir).1 = freshBlocks fs dir ∧ Fresh fs (loadConfigBlocks fs caches now dir).2 := by
  have loaded (signature : Option Text) : Fresh fs (Function.update caches dir (some ⟨freshBlocks fs dir, now, signature⟩)) := by
    intro other cached found
    by_cases same : other = dir
    · subst same
      rw [Function.update_self] at found
      cases found
      rfl
    · rw [Function.update_of_ne same] at found
      exact fresh other cached found
  unfold loadConfigBlocks
  dsimp only
  split
  · rename_i cached found
    split
    · exact ⟨fresh dir cached found, fresh⟩
    · exact ⟨rfl, loaded _⟩
  · exact ⟨rfl, loaded _⟩

theorem lookupFresh {caches : Caches} (fresh : Fresh fs caches) (now : Int) (host dir : Text) :
    (lookupSshConfig fs caches now host dir).1 = firstOf fs host (taken fs host) (configLines fs dir) ∧
      Fresh fs (lookupSshConfig fs caches now host dir).2 := by
  unfold lookupSshConfig
  split
  · rename_i empty
    subst empty
    exact ⟨lookupEmpty fs dir, fresh⟩
  · rename_i some'
    obtain ⟨blocks, kept⟩ := loadFresh fresh now dir
    exact ⟨(congrArg (lookupBlocks fs · host) blocks).trans (lookupFirst fs host dir some'), kept⟩

theorem lookupsFresh (earlier : List (Int × Text × Text)) : Fresh fs (lookups fs earlier) :=
  List.foldlRecOn (motive := Fresh fs) earlier _ (fun _ _ => nofun) fun _ fresh l _ => (lookupFresh fresh l.1 l.2.1 l.2.2).2

end Caches

theorem lookupsRequested (fs : FileSystem) (earlier : List (Int × Text × Text)) (now : Int) (host dir : Text) :
    (lookupSshConfig fs (lookups fs earlier) now host dir).1 = requested fs host dir ↔ TakenAlike fs host dir := by
  rw [(lookupFresh (lookupsFresh earlier) now host dir).1, firstOfSame]

def nested : FileSystem where
  canonicalize := fun c => if 97 ≤ c ∧ c ≤ 122 then c - 32 else c
  homedir := units "/home/u"
  isAbsolute := startsWith ['/']
  join a b := a ++ ('/' : CodeUnit) :: b
  dirname p := (p.rdropWhile (· != 47)).dropLast
  basename p := p.rtakeWhile (· != 47)
  files := [(units "/s/config", units "Host web\nInclude work\nHost *\nUser deploy"), (units "/s/work", units "User alice")]
  existsSync p := decide (p = units "/s/config" ∨ p = units "/s/work")
  readdirSync _ := some [units "config", units "work"]
  isFile _ := some true
  signature _ := some []

theorem enclosingForgotten :
    (lookupSshConfig nested (lookups nested []) 0 (units "db") (units "/s")).1 ≠ requested nested (units "db") (units "/s") := by
  have found : (lookupSshConfig nested (lookups nested []) 0 (units "db") (units "/s")).1.user = some (units "alice") := by
    decide +kernel
  have asked : (requested nested (units "db") (units "/s")).user = some (units "deploy") := by decide +kernel
  intro same
  rw [same, asked] at found
  revert found
  decide

end DatabaseAdmin.SshConfig
