import DatabaseAdmin.RedisReplies
import Mathlib.Data.List.Nodup
import Mathlib.Data.List.Perm.Basic

/-! Pages of a Redis set or hash. Each page scans again from the start and takes its slice of what is new;
a scan's batches are what the server answers to the cursors it gave out. -/
namespace DatabaseAdmin.SetPages
open CodeUnits RedisReplies

abbrev Bytes := List UInt8

section Decoding

def replacement : CodeUnit := 0xFFFD

structure Utf8State where
  needed : ℕ
  lower : ℕ
  upper : ℕ
  value : ℕ

def utf8Idle : Utf8State := ⟨0, 0x80, 0xBF, 0⟩

def utf8Lead (b : ℕ) : Utf8State × Text :=
  if b < 0x80 then (utf8Idle, [b])
  else if 0xC2 ≤ b ∧ b ≤ 0xDF then (⟨1, 0x80, 0xBF, b - 0xC0⟩, [])
  else if 0xE0 ≤ b ∧ b ≤ 0xEF then
    (⟨2, if b = 0xE0 then 0xA0 else 0x80, if b = 0xED then 0x9F else 0xBF, b - 0xE0⟩, [])
  else if 0xF0 ≤ b ∧ b ≤ 0xF4 then
    (⟨3, if b = 0xF0 then 0x90 else 0x80, if b = 0xF4 then 0x8F else 0xBF, b - 0xF0⟩, [])
  else (utf8Idle, [replacement])

def utf16Units (v : ℕ) : Text :=
  if v < 0x10000 then [v] else [0xD800 + (v - 0x10000) / 0x400, 0xDC00 + (v - 0x10000) % 0x400]

def utf8Step (s : Utf8State) (b : ℕ) : Utf8State × Text :=
  if s.needed = 0 then utf8Lead b
  else if b < s.lower ∨ s.upper < b then ((utf8Lead b).1, replacement :: (utf8Lead b).2)
  else if s.needed = 1 then (utf8Idle, utf16Units (s.value * 64 + b % 64))
  else (⟨s.needed - 1, 0x80, 0xBF, s.value * 64 + b % 64⟩, [])

def utf8From (s : Utf8State) : Bytes → Text
  | [] => if s.needed = 0 then [] else [replacement]
  | b :: rest => (utf8Step s b.toNat).2 ++ utf8From (utf8Step s b.toNat).1 rest

def utf8Text (bytes : Bytes) : Text := utf8From utf8Idle bytes

end Decoding

section Code

abbrev Group := List Text

def maxScanIterations : ℕ := 200

def groupsOf (stride : ℕ) (flat : List Text) : List Group :=
  (List.range (flat.length / stride)).map fun i => (flat.drop (i * stride)).take stride

def addGroup (seen : List Group) (group : Group) : List Group :=
  if seen.any fun other => other.head? = group.head? then seen else seen ++ [group]

def scanLoop (call : List Text → Reply) (stride need : ℕ) : ℕ → List Text → List Group → ScanPart → List Group
  | left, asked, seen, page =>
      let seen := (groupsOf stride (page.items.map toText)).foldl addGroup seen
      if page.cursor = zeroCursor ∨ need ≤ seen.length then seen
      else match left with
        | 0 => seen
        | left + 1 => scanLoop call stride need left (asked ++ [page.cursor]) seen (parseScanReply (call (asked ++ [page.cursor])))

structure GroupPage where
  total : ℕ
  groups : List Group

def scanHint (need stride : ℕ) : ℕ := min (max (need * stride) 100) 1000

def scanGroups (call : ℕ → List Text → Reply) (size offset limit stride : ℕ) : GroupPage :=
  let need := offset + limit
  let hint := scanHint need stride
  let seen := scanLoop (call hint) stride need (maxScanIterations - 1) [zeroCursor] []
    (parseScanReply (call hint [zeroCursor]))
  ⟨size, (seen.drop offset).take limit⟩

end Code

section Scans

structure Collection (stride : ℕ) where
  elements : List (List Bytes)
  wide : ∀ group ∈ elements, group.length = stride
  distinct : (elements.map List.head?).Nodup

structure Batch where
  cursor : ℕ
  groups : List (List Bytes)

def delivered (batches : List Batch) : List (List Bytes) := batches.flatMap Batch.groups

structure Scan {stride : ℕ} (c : Collection stride) where
  batches : ℕ → List Batch
  goes : ∀ hint, ∀ batch ∈ (batches hint).dropLast, batch.cursor ≠ 0
  ends : ∀ hint, ∃ batch ∈ (batches hint).getLast?, batch.cursor = 0
  short : ∀ hint, (batches hint).length < maxScanIterations
  order : ∀ hint, (delivered (batches hint)).eraseDups = c.elements

def textsOf (group : List Bytes) : Group := group.map utf8Text

def flatTexts (groups : List (List Bytes)) : List Text := (groups.map textsOf).flatten

def cursorsAfter (batches : List Batch) : List Text := zeroCursor :: batches.map fun batch => cursorText batch.cursor

def answer (batches : List Batch) (asked : List Text) : Reply :=
  match batches[asked.length - 1]? with
  | none => .nil
  | some batch =>
      if asked = cursorsAfter (batches.take (asked.length - 1)) then scanReply batch.cursor (flatTexts batch.groups) else .nil

variable {stride : ℕ} {c : Collection stride}

def pageAt (scan : Scan c) (offset limit : ℕ) : GroupPage :=
  scanGroups (fun hint => answer (scan.batches hint)) c.elements.length offset limit stride

end Scans

section Seen

theorem seenPrefix (seen groups : List Group) : seen <+: groups.foldl addGroup seen := by
  induction groups generalizing seen with
  | nil => exact List.prefix_rfl
  | cons group groups ih =>
    refine List.IsPrefix.trans ?_ (ih (addGroup seen group))
    rw [addGroup]
    split
    · exact List.prefix_rfl
    · exact List.prefix_append seen [group]

def firstSeen (groups : List Group) : List Group := groups.foldl addGroup []

theorem firstSeenAppend (groups more : List Group) : firstSeen (groups ++ more) = more.foldl addGroup (firstSeen groups) :=
  List.foldl_append

theorem addDistinct {seen : List Group} (distinct : (seen.map List.head?).Nodup) (group : Group) :
    ((addGroup seen group).map List.head?).Nodup := by
  rw [addGroup]
  split
  · exact distinct
  · rename_i fresh
    rw [List.map_append, List.map_singleton, List.nodup_append]
    refine ⟨distinct, List.nodup_singleton _, ?_⟩
    intro head listed head' alone same
    obtain ⟨other, member, rfl⟩ := List.mem_map.mp listed
    rw [List.mem_singleton] at alone
    exact fresh (List.any_eq_true.mpr ⟨other, member, by simpa [alone] using same⟩)

theorem firstSeenDistinct (groups : List Group) : ((firstSeen groups).map List.head?).Nodup := by
  induction groups using List.reverseRecOn with
  | nil => exact List.nodup_nil
  | append_singleton groups group ih =>
    rw [firstSeenAppend]
    exact addDistinct ih group

theorem anyHead {seen : List Group} {group : Group} :
    (seen.any fun other => other.head? = group.head?) = true ↔ group.head? ∈ seen.map List.head? := by
  simp [List.any_eq_true]

theorem firstSeenHeads (groups : List Group) : ∀ head ∈ groups.map List.head?, head ∈ (firstSeen groups).map List.head? := by
  induction groups using List.reverseRecOn with
  | nil => exact fun _ => id
  | append_singleton groups group ih =>
    rw [List.map_append, firstSeenAppend, List.map_singleton, List.forall_mem_append, List.forall_mem_singleton]
    have kept : ∀ head ∈ (firstSeen groups).map List.head?, head ∈ (addGroup (firstSeen groups) group).map List.head? :=
      fun head member => ((seenPrefix (firstSeen groups) [group]).map List.head?).subset member
    refine ⟨fun head member => kept head (ih head member), ?_⟩
    rw [List.foldl_cons, List.foldl_nil, addGroup]
    split
    · rename_i known
      exact anyHead.mp known
    · simp

theorem firstSeenErased (groups : List (List Bytes)) : firstSeen (groups.eraseDups.map textsOf) = firstSeen (groups.map textsOf) := by
  induction groups using List.reverseRecOn with
  | nil => rfl
  | append_singleton groups group ih =>
    rw [List.eraseDups_append, List.map_append, List.map_append, firstSeenAppend, firstSeenAppend, ih, List.map_singleton]
    by_cases member : group ∈ groups
    · have known : (textsOf group).head? ∈ (firstSeen (groups.map textsOf)).map List.head? :=
        firstSeenHeads _ _ (List.mem_map_of_mem (List.mem_map_of_mem member))
      have gone : [group].removeAll groups = [] := by simp [List.removeAll, member]
      rw [gone, List.foldl_cons, List.foldl_nil, addGroup, if_pos (anyHead.mpr known)]
      rfl
    · simp [List.removeAll, member, List.eraseDups_cons]

theorem firstSeenShort (groups : List Group) : (firstSeen groups).length ≤ groups.length := by
  induction groups using List.reverseRecOn with
  | nil => exact Nat.zero_le _
  | append_singleton groups group ih =>
    rw [firstSeenAppend, List.foldl_cons, List.foldl_nil, addGroup]
    split <;> simp only [List.length_append, List.length_cons, List.length_nil] <;> omega

theorem firstSeenApart {groups : List Group} (apart : (groups.map List.head?).Nodup) : firstSeen groups = groups := by
  induction groups using List.reverseRecOn with
  | nil => rfl
  | append_singleton groups group ih =>
    rw [List.map_append, List.map_singleton, List.nodup_append] at apart
    obtain ⟨before, _, fresh⟩ := apart
    rw [firstSeenAppend, ih before, List.foldl_cons, List.foldl_nil, addGroup, if_neg]
    intro known
    exact fresh _ (anyHead.mp known) _ (List.mem_singleton.mpr rfl) rfl

end Seen

section Loop

theorem groupsBack {stride : ℕ} (positive : 0 < stride) {groups : List Group} (wide : ∀ group ∈ groups, group.length = stride) :
    groupsOf stride groups.flatten = groups := by
  induction groups with
  | nil => simp [groupsOf]
  | cons group groups ih =>
    rw [List.forall_mem_cons] at wide
    have count : (group ++ groups.flatten).length / stride = groups.flatten.length / stride + 1 := by
      rw [List.length_append, wide.1, Nat.add_comm, Nat.add_div_right _ positive]
    have later : ∀ i, (group ++ groups.flatten).drop ((i + 1) * stride) = groups.flatten.drop (i * stride) := by
      intro i
      rw [Nat.succ_mul, Nat.add_comm, ← List.drop_drop, ← wide.1, List.drop_left]
    rw [groupsOf] at ih
    rw [List.flatten_cons, groupsOf, count, List.range_succ_eq_map, List.map_cons, List.map_map]
    refine congrArg₂ List.cons ?_ (Eq.trans ?_ (ih wide.2))
    · rw [Nat.zero_mul, List.drop_zero, ← wide.1, List.take_left]
    · exact List.map_congr_left fun i _ => congrArg (List.take stride) (later i)

theorem textsWide {stride : ℕ} {groups : List (List Bytes)} (wide : ∀ group ∈ groups, group.length = stride) :
    ∀ group ∈ groups.map textsOf, group.length = stride := by
  intro texts shown
  obtain ⟨group, member, rfl⟩ := List.mem_map.mp shown
  rw [textsOf, List.length_map, wide group member]

theorem answered (before rest : List Batch) (batch : Batch) :
    answer (before ++ batch :: rest) (cursorsAfter before) = scanReply batch.cursor (flatTexts batch.groups) := by
  have place : (cursorsAfter before).length - 1 = before.length := by simp [cursorsAfter]
  rw [answer, place, List.getElem?_append_right le_rfl, Nat.sub_self, List.getElem?_cons_zero]
  exact if_pos (by rw [List.take_left])

theorem loopSeen {stride : ℕ} (need left : ℕ) (positive : 0 < stride) (before : List Batch) {batch : Batch} {rest : List Batch}
    (wide : ∀ group ∈ delivered (batch :: rest), group.length = stride) (room : rest.length ≤ left)
    (goes : ∀ b ∈ (batch :: rest).dropLast, b.cursor ≠ 0) (ends : ∃ last ∈ (batch :: rest).getLast?, last.cursor = 0) :
    ∃ part, part <+: delivered (batch :: rest) ∧
      scanLoop (answer (before ++ batch :: rest)) stride need left (cursorsAfter before)
        (firstSeen ((delivered before).map textsOf)) ⟨cursorText batch.cursor, (flatTexts batch.groups).map .bulk⟩ =
          firstSeen ((delivered before ++ part).map textsOf) ∧
      (part = delivered (batch :: rest) ∨ need ≤ (firstSeen ((delivered before ++ part).map textsOf)).length) := by
  induction rest generalizing before batch left with
  | nil =>
    obtain ⟨last, final, zero⟩ := ends
    cases final
    have own : delivered [batch] = batch.groups := List.flatMap_singleton _ _
    rw [own] at wide ⊢
    refine ⟨batch.groups, List.prefix_rfl, ?_, .inl rfl⟩
    have stops : cursorText batch.cursor = zeroCursor := cursorTextZero.mpr zero
    rw [scanLoop.eq_def]
    dsimp only
    rw [bulkTexts, flatTexts, groupsBack positive (textsWide wide), ← firstSeenAppend, ← List.map_append]
    exact if_pos (.inl stops)
  | cons next rest ih =>
    have own : delivered (batch :: next :: rest) = batch.groups ++ delivered (next :: rest) := List.flatMap_cons
    rw [own, List.forall_mem_append] at wide
    obtain ⟨left, rfl⟩ : ∃ more, left = more + 1 := ⟨left - 1, by simp only [List.length_cons] at room; omega⟩
    have nonzero : cursorText batch.cursor ≠ zeroCursor := mt cursorTextZero.mp (goes batch List.mem_cons_self)
    have split : before ++ batch :: next :: rest = (before ++ [batch]) ++ next :: rest := by simp
    have asked : cursorsAfter before ++ [cursorText batch.cursor] = cursorsAfter (before ++ [batch]) := by simp [cursorsAfter]
    have grown : delivered (before ++ [batch]) = delivered before ++ batch.groups := by simp [delivered]
    rw [scanLoop, bulkTexts, flatTexts, groupsBack positive (textsWide wide.1), ← firstSeenAppend, ← List.map_append]
    by_cases full : need ≤ (firstSeen ((delivered before ++ batch.groups).map textsOf)).length
    · refine ⟨batch.groups, own ▸ List.prefix_append _ _, ?_, .inr full⟩
      exact if_pos (.inr full)
    · obtain ⟨part, inside, looped, reached⟩ := ih left (before ++ [batch]) wide.2
        (by simp only [List.length_cons] at room; omega) (fun b listed => goes b (List.mem_cons_of_mem _ listed)) ends
      rw [grown, List.append_assoc (delivered before)] at looped reached
      refine ⟨batch.groups ++ part, ?_, ?_, ?_⟩
      · rw [own]
        exact (List.prefix_append_right_inj _).mpr inside
      · rw [if_neg (not_or.mpr ⟨nonzero, full⟩), asked, split, answered, scanReplyParsed]
        exact looped
      · rw [own]
        exact reached.imp (congrArg (batch.groups ++ ·)) id

end Loop

section Pages

variable {stride : ℕ} {c : Collection stride}

theorem deliveredMember (scan : Scan c) (hint : ℕ) : ∀ group ∈ delivered (scan.batches hint), group ∈ c.elements := by
  intro group member
  rw [← scan.order hint]
  exact List.mem_eraseDups.mpr member

def shownElements (c : Collection stride) : List Group := firstSeen (c.elements.map textsOf)

theorem scanSeen (scan : Scan c) (hint : ℕ) : firstSeen ((delivered (scan.batches hint)).map textsOf) = shownElements c := by
  rw [shownElements, ← scan.order hint, firstSeenErased]

theorem prefixSlice {part whole : List Group} {offset limit : ℕ} (inside : part <+: whole)
    (enough : part = whole ∨ offset + limit ≤ part.length) : (part.drop offset).take limit = (whole.drop offset).take limit := by
  rcases enough with rfl | long
  · rfl
  · obtain ⟨more, rfl⟩ := inside
    rw [List.drop_append_of_le_length (by omega), List.take_append_of_le_length (by rw [List.length_drop]; omega)]

theorem pageSlice (positive : 0 < stride) (scan : Scan c) (offset limit : ℕ) :
    (pageAt scan offset limit).groups = ((shownElements c).drop offset).take limit := by
  obtain ⟨last, final, zero⟩ := scan.ends (scanHint (offset + limit) stride)
  have goes := scan.goes (scanHint (offset + limit) stride)
  have short := scan.short (scanHint (offset + limit) stride)
  have members := deliveredMember scan (scanHint (offset + limit) stride)
  have whole := scanSeen scan (scanHint (offset + limit) stride)
  have page : (pageAt scan offset limit).groups = ((scanLoop (answer (scan.batches (scanHint (offset + limit) stride))) stride
      (offset + limit) (maxScanIterations - 1) [zeroCursor] []
      (parseScanReply (answer (scan.batches (scanHint (offset + limit) stride)) [zeroCursor]))).drop offset).take limit := rfl
  cases batches : scan.batches (scanHint (offset + limit) stride) with
  | nil =>
    rw [batches] at final
    contradiction
  | cons batch rest =>
    rw [batches] at final goes short members whole
    obtain ⟨part, ⟨more, inside⟩, looped, reached⟩ := loopSeen (offset + limit) (maxScanIterations - 1)
      positive [] (fun group member => c.wide group (members group member)) (by simp only [List.length_cons] at short; omega) goes
      ⟨last, final, zero⟩
    have first : answer (batch :: rest) [zeroCursor] = scanReply batch.cursor (flatTexts batch.groups) :=
      answered [] rest batch
    have grows : firstSeen (part.map textsOf) <+: shownElements c := by
      rw [← whole, ← inside, List.map_append, firstSeenAppend]
      exact seenPrefix _ _
    have enough : firstSeen (part.map textsOf) = shownElements c ∨ offset + limit ≤ (firstSeen (part.map textsOf)).length :=
      reached.imp (fun all => by rw [all, whole]) id
    rw [page, batches, first, scanReplyParsed, ← prefixSlice grows enough]
    exact congrArg (fun seen => (seen.drop offset).take limit) looped

theorem slicesJoin {α : Type} (whole : List α) (n count : ℕ) :
    (List.range count).flatMap (fun i => (whole.drop (i * n)).take n) = whole.take (count * n) := by
  induction count with
  | zero => simp
  | succ count ih => rw [List.range_succ, List.flatMap_append, ih, List.flatMap_singleton, Nat.succ_mul, List.take_add]

def pageCount (total n : ℕ) : ℕ := (total + n - 1) / n

theorem pagesReach {total n : ℕ} (some' : 0 < n) : total ≤ pageCount total n * n := by
  have cut := Nat.div_add_mod (total + n - 1) n
  have rest := Nat.mod_lt (total + n - 1) some'
  rw [pageCount, Nat.mul_comm]
  omega

theorem pageInside {total n i : ℕ} (some' : 0 < n) (low : i < pageCount total n - 1) : i * n + n ≤ total := by
  have cut := Nat.div_add_mod (total + n - 1) n
  have least : n * (i + 2) ≤ n * ((total + n - 1) / n) := Nat.mul_le_mul_left n (by rw [pageCount] at low; omega)
  rw [Nat.mul_add, Nat.mul_comm n i] at least
  omega

def pagesOf (scan : Scan c) (n : ℕ) : List GroupPage := (List.range (pageCount c.elements.length n)).map fun i => pageAt scan (i * n) n

structure Partition (scan : Scan c) (n : ℕ) : Prop where
  once : ((pagesOf scan n).flatMap GroupPage.groups).Perm (c.elements.map textsOf)
  total : ∀ page ∈ pagesOf scan n, page.total = c.elements.length
  full : ∀ page ∈ (pagesOf scan n).dropLast, page.groups.length = n

def Apart (c : Collection stride) : Prop := (c.elements.map fun group => (textsOf group).head?).Nodup

instance (c : Collection stride) : Decidable (Apart c) := inferInstanceAs (Decidable (List.Nodup _))

theorem pagesJoin (positive : 0 < stride) (scan : Scan c) {n : ℕ} (some' : 0 < n) :
    (pagesOf scan n).flatMap GroupPage.groups = shownElements c := by
  have short : (shownElements c).length ≤ c.elements.length := by
    have texts := firstSeenShort (c.elements.map textsOf)
    rwa [List.length_map] at texts
  rw [pagesOf, List.flatMap_map]
  simp only [pageSlice positive scan]
  rw [slicesJoin, List.take_of_length_le (short.trans (pagesReach some'))]

theorem pagesPartition (positive : 0 < stride) (scan : Scan c) {n : ℕ} (some' : 0 < n) : Partition scan n ↔ Apart c := by
  have heads : c.elements.map (fun group => (textsOf group).head?) = (c.elements.map textsOf).map List.head? := by
    rw [List.map_map]
    rfl
  constructor
  · intro pages
    have once := pages.once
    rw [pagesJoin positive scan some'] at once
    rw [Apart, heads]
    exact ((once.map List.head?).nodup_iff).mp (firstSeenDistinct _)
  · intro apart
    rw [Apart, heads] at apart
    have whole : shownElements c = c.elements.map textsOf := firstSeenApart apart
    refine ⟨by rw [pagesJoin positive scan some', whole], fun page member => ?_, fun page member => ?_⟩
    · obtain ⟨i, _, rfl⟩ := List.mem_map.mp member
      rfl
    · rw [pagesOf, ← List.map_dropLast, List.dropLast_eq_take, List.length_range, List.take_range] at member
      obtain ⟨i, low, rfl⟩ := List.mem_map.mp member
      have inside := pageInside some' (lt_of_lt_of_le (List.mem_range.mp low) (min_le_left _ _))
      rw [pageSlice positive scan, whole, List.length_take, List.length_drop, List.length_map]
      omega

def binarySet : Collection 1 where
  elements := [[[0xFE]], [[0xFF]]]
  wide := by decide
  distinct := by decide

def binaryScan : Scan binarySet where
  batches _ := [⟨0, [[[0xFE]], [[0xFF]]]⟩]
  goes _ := by decide
  ends _ := ⟨_, rfl, rfl⟩
  short _ := by decide
  order _ := by decide

theorem binaryElementMissed : ¬ ∀ (stride : ℕ) (c : Collection stride) (scan : Scan c) (n : ℕ), 0 < stride → 0 < n →
    Partition scan n := by
  intro partitions
  have once := (partitions 1 binarySet binaryScan 1 Nat.one_pos Nat.one_pos).once.length_eq
  revert once
  decide +kernel

def smallHash : Collection 2 where
  elements := [[[97], [49]], [[98], [50]], [[99], [51]]]
  wide := by decide
  distinct := by decide

def smallScan : Scan smallHash where
  batches hint :=
    if hint < 200 then [⟨3, [[[97], [49]], [[98], [50]]]⟩, ⟨5, []⟩, ⟨0, [[[97], [49]], [[99], [51]]]⟩]
    else [⟨0, [[[97], [49]], [[98], [50]], [[99], [51]]]⟩]
  goes hint := by split <;> decide
  ends hint := by split <;> exact ⟨_, rfl, rfl⟩
  short hint := by split <;> decide
  order hint := by split <;> decide

theorem smallPartition : Partition smallScan 2 := (pagesPartition (by decide) smallScan (by decide)).mpr (by decide +kernel)

end Pages

end DatabaseAdmin.SetPages
