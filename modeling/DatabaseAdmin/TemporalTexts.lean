import DatabaseAdmin.CsvSniffing
import DatabaseAdmin.NumberTexts

/-! The dates and times of a file: the ISO reader, its calendar check and the text that goes to the
engines. A format the user gives is read by a parameter. -/
namespace DatabaseAdmin.TemporalTexts
open CodeUnits CellCoercion CsvSniffing Patterns NumberTexts

section Reader

structure TemporalParts where
  year : Nat
  month : Nat
  day : Nat
  hour : Nat
  minute : Nat
  second : Nat
  fraction : Text
  offset : Option Text
  deriving DecidableEq

def emptyParts : TemporalParts := ⟨1970, 1, 1, 0, 0, 0, [], none⟩

def withoutColon (t : Text) : Text :=
  match t.findIdx? (· = 58) with
  | some i => t.eraseIdx i
  | none => t

def normalizeOffset (raw : Text) : Text :=
  if raw = [90] ∨ raw = [122] then [90]
  else
    let digits := withoutColon (raw.drop 1)
    raw.take 1 ++ digits.take 2 ++ 58 :: (digits.drop 2).take 2

def leapYear (year : Nat) : Bool := year % 4 = 0 ∧ (year % 100 ≠ 0 ∨ year % 400 = 0)

def daysIn (year month : Nat) : Nat :=
  if month = 2 then if leapYear year then 29 else 28
  else if month ∈ [4, 6, 9, 11] then 30 else 31

def utcYear (year : Nat) : Nat := if year ≤ 99 then 1900 + year else year

def validParts (p : TemporalParts) : Bool :=
  1 ≤ p.month ∧ p.month ≤ 12 ∧ 1 ≤ p.day ∧ p.day ≤ 31 ∧ p.hour ≤ 23 ∧ p.minute ≤ 59 ∧ p.second ≤ 60 ∧
    p.day ≤ daysIn (utcYear p.year) p.month

structure Groups where
  year : Text
  month : Text
  day : Text
  hour : Text
  minute : Text
  second : Text
  fraction : Text
  zone : Text
  deriving DecidableEq

def takeDigits (least most : Nat) (t : Text) : Option (Text × Text) :=
  let run := (t.take most).takeWhile isDigit
  if least ≤ run.length then some (run, t.drop run.length) else none

def after (c : CodeUnit) : Text → Option Text
  | [] => none
  | u :: rest => if u = c then some rest else none

def fractionGroup (t : Text) : Option (Text × Text) := if t.head? = some 46 then takeDigits 1 9 (t.drop 1) else some ([], t)

def secondGroups (t : Text) : Option ((Text × Text) × Text) :=
  if t.head? = some 58 then do
    let (second, t) ← takeDigits 2 2 (t.drop 1)
    let (fraction, t) ← fractionGroup t
    return ((second, fraction), t)
  else some (([], []), t)

def clockGroups (t : Text) : Option ((Text × Text × Text × Text) × Text) := do
  let (hour, t) ← takeDigits 1 2 t
  let t ← after 58 t
  let (minute, t) ← takeDigits 2 2 t
  let ((second, fraction), t) ← secondGroups t
  return ((hour, minute, second, fraction), t)

def dateGroups (t : Text) : Option ((Text × Text × Text) × Text) := do
  let (year, t) ← takeDigits 4 4 t
  let t ← after 45 t
  let (month, t) ← takeDigits 2 2 t
  let t ← after 45 t
  let (day, t) ← takeDigits 2 2 t
  return ((year, month, day), t)

def separates (c : CodeUnit) : Bool := c = 84 || c = 32

def isoGroups (v : Text) : Option Groups := do
  let ((year, month, day), t) ← dateGroups v
  let ((hour, minute, second, fraction), zone) ←
    if t.head?.any separates then clockGroups (t.drop 1) else some (([], [], [], []), t)
  if zone = [] ∨ wholly zonePattern zone = true then return ⟨year, month, day, hour, minute, second, fraction, zone⟩
  else none

def timeGroups (v : Text) : Option Groups := do
  let ((hour, minute, second, fraction), t) ← clockGroups v
  if t = [] then return ⟨[], [], [], hour, minute, second, fraction, []⟩ else none

def datedParts (g : Groups) : TemporalParts where
  year := digitsValue g.year
  month := digitsValue g.month
  day := digitsValue g.day
  hour := digitsValue g.hour
  minute := digitsValue g.minute
  second := digitsValue g.second
  fraction := g.fraction
  offset := if g.zone = [] then none else some (normalizeOffset g.zone)

def timedParts (g : Groups) : TemporalParts :=
  { emptyParts with
    hour := digitsValue g.hour
    minute := digitsValue g.minute
    second := digitsValue g.second
    fraction := g.fraction }

def isoParts (value : Text) : Option TemporalParts :=
  ((isoGroups (trim value)).map datedParts).or ((timeGroups (trim value)).map timedParts)

def parseIso (value : Text) : Option TemporalParts := (isoParts value).filter validParts

def numberText (n : Nat) : Text := if n = 0 then [48] else digitsText n

def pad (n width : Nat) : Text := List.replicate (width - (numberText n).length) 48 ++ numberText n

def dateText (p : TemporalParts) : Text := pad p.year 4 ++ 45 :: (pad p.month 2 ++ 45 :: pad p.day 2)

def fractionText (p : TemporalParts) : Text := if p.fraction = [] then [] else 46 :: p.fraction

def timeText (p : TemporalParts) : Text :=
  pad p.hour 2 ++ 58 :: (pad p.minute 2 ++ 58 :: (pad p.second 2 ++ fractionText p))

def temporalText (kind : TemporalKind) (p : TemporalParts) : Text :=
  match kind with
  | .date => dateText p
  | .time => timeText p
  | .timestamp => dateText p ++ 32 :: (timeText p ++ p.offset.getD [])

def formatTemporal (withFormat : Text → Text → TemporalKind → Except String Text) (text : Text) (format : Option Text)
    (kind : TemporalKind) : Except String Text :=
  match format.filter (· ≠ []) with
  | some format => withFormat text format kind
  | none =>
    match parseIso text with
    | some p => .ok (temporalText kind p)
    | none => .error "is not an ISO date/time — set an explicit date format for this column"

end Reader

section Shapes

structure DigitRun (least most : Nat) (run : Text) : Prop where
  digits : ∀ c ∈ run, isDigit c = true
  least : least ≤ run.length
  most : run.length ≤ most

theorem whollyIff {p : Pattern CodeUnit} {v : Text} : wholly p v = true ↔ v.length ∈ ends p v := List.contains_iff_mem

theorem optionalWhole {p : Pattern CodeUnit} {t : Text} :
    t.length ∈ ends (CsvSniffing.optional p) t ↔ t.length ∈ ends p t ∨ t = [] := by
  rw [CsvSniffing.optional, eitherWhole, blankWhole]

theorem optionalThen {p q : Pattern CodeUnit} {t : Text} : t.length ∈ ends (.both (CsvSniffing.optional p) q) t ↔
    (∃ a b, t = a ++ b ∧ a.length ∈ ends p a ∧ b.length ∈ ends q b) ∨ t.length ∈ ends q t := by
  simp only [bothWhole, optionalWhole]
  constructor
  · rintro ⟨a, b, rfl, first | rfl, last⟩
    · exact Or.inl ⟨a, b, rfl, first, last⟩
    · exact Or.inr last
  · rintro (⟨a, b, rfl, first, last⟩ | last)
    · exact ⟨a, b, rfl, Or.inl first, last⟩
    · exact ⟨[], t, rfl, Or.inr rfl, last⟩

theorem digitsWhole (n : Nat) {t : Text} : t.length ∈ ends (digitsUpTo n) t ↔ DigitRun 0 n t := by
  induction n generalizing t with
  | zero =>
    rw [digitsUpTo, blankWhole]
    constructor
    · rintro rfl
      exact ⟨by simp, Nat.le_refl 0, Nat.le_refl 0⟩
    · exact fun run => List.eq_nil_of_length_eq_zero (Nat.le_zero.mp run.most)
  | succ n ih =>
    simp only [digitsUpTo, optionalWhole, digit, oneThen, ih]
    constructor
    · rintro (⟨c, b, rfl, ok, run⟩ | rfl)
      · exact ⟨by simpa [ok] using run.digits, Nat.zero_le _, Nat.succ_le_succ run.most⟩
      · exact ⟨by simp, Nat.le_refl 0, Nat.zero_le _⟩
    · intro run
      match t with
      | [] => exact Or.inr rfl
      | c :: b =>
        have all := List.forall_mem_cons.mp run.digits
        exact Or.inl ⟨c, b, rfl, all.1, all.2, Nat.zero_le _, Nat.le_of_succ_le_succ run.most⟩

theorem dateShape {v : Text} (matched : wholly datePattern v = true) :
    ∃ year month day, v = year ++ 45 :: (month ++ 45 :: day) ∧ DigitRun 4 4 year ∧ DigitRun 2 2 month ∧ DigitRun 2 2 day := by
  rw [whollyIff] at matched
  simp only [datePattern, all, digit, sign, oneThen, blankWhole, decide_eq_true_eq] at matched
  obtain ⟨y, _, rfl, isY, y', _, rfl, isY', u, _, rfl, isU, u', _, rfl, isU', _, _, rfl, rfl, m, _, rfl, isM, m', _, rfl, isM',
    _, _, rfl, rfl, d, _, rfl, isD, d', _, rfl, isD', rfl⟩ := matched
  exact ⟨[y, y', u, u'], [m, m'], [d, d'], rfl, ⟨by simp [isY, isY', isU, isU'], by simp, by simp⟩,
    ⟨by simp [isM, isM'], by simp, by simp⟩, ⟨by simp [isD, isD'], by simp, by simp⟩⟩

def clockTail (second fraction : Text) : Text :=
  if second = [] then [] else 58 :: (second ++ if fraction = [] then [] else 46 :: fraction)

theorem twoDigits {a b : CodeUnit} (first : isDigit a = true) (last : isDigit b = true) : DigitRun 2 2 [a, b] :=
  ⟨by simp [first, last], by simp, by simp⟩

structure Seconds (second fraction : Text) : Prop where
  seconds : second = [] ∨ DigitRun 2 2 second
  fractions : fraction = [] ∨ DigitRun 1 9 fraction
  below : second = [] → fraction = []

structure Clock (hour minute second fraction : Text) : Prop where
  hours : DigitRun 1 2 hour
  minutes : DigitRun 2 2 minute
  tail : Seconds second fraction

def secondPattern : Pattern CodeUnit :=
  CsvSniffing.optional (all [sign 58, digit, digit, CsvSniffing.optional (all [sign 46, digit, digitsUpTo 8])])

theorem secondShape {t : Text} (inside : t.length ∈ ends secondPattern t) :
    ∃ second fraction, t = clockTail second fraction ∧ Seconds second fraction := by
  simp only [secondPattern, optionalWhole, all, digit, sign, oneThen, digitsWhole, thenBlank, decide_eq_true_eq] at inside
  rcases inside with ⟨_, _, rfl, rfl, s, _, rfl, isS, s', _, rfl, isS', rest⟩ | rfl
  · rcases rest with ⟨_, _, rfl, rfl, f, b, rfl, isF, run⟩ | rfl
    · exact ⟨[s, s'], f :: b, rfl, Or.inr (twoDigits isS isS'),
        Or.inr ⟨by simpa [isF] using run.digits, by simp, Nat.succ_le_succ run.most⟩, by simp⟩
    · exact ⟨[s, s'], [], rfl, Or.inr (twoDigits isS isS'), Or.inl rfl, by simp⟩
  · exact ⟨[], [], rfl, Or.inl rfl, Or.inl rfl, fun _ => rfl⟩

def minutePattern : Pattern CodeUnit :=
  .both (sign 58) (.both digit (.both digit (.both secondPattern .blank)))

theorem minuteShape {t : Text} (inside : t.length ∈ ends minutePattern t) :
    ∃ minute second fraction, t = 58 :: (minute ++ clockTail second fraction) ∧ DigitRun 2 2 minute ∧
      Seconds second fraction := by
  simp only [minutePattern, sign, digit, oneThen, thenBlank, decide_eq_true_eq] at inside
  obtain ⟨_, _, rfl, rfl, m, _, rfl, isM, m', _, rfl, isM', inside⟩ := inside
  obtain ⟨second, fraction, rfl, more⟩ := secondShape inside
  exact ⟨[m, m'], second, fraction, rfl, twoDigits isM isM', more⟩

theorem clockParted : clockPattern = .both digit (.both (CsvSniffing.optional digit) minutePattern) := rfl

theorem clockShape {v : Text} (matched : wholly clockPattern v = true) :
    ∃ hour minute second fraction, v = hour ++ 58 :: (minute ++ clockTail second fraction) ∧
      Clock hour minute second fraction := by
  rw [whollyIff, clockParted, digit, oneThen] at matched
  obtain ⟨h, t, rfl, isH, inside⟩ := matched
  rw [optionalThen] at inside
  rcases inside with ⟨a, b, rfl, more, inside⟩ | inside
  · obtain ⟨h', rfl, isH'⟩ := oneWhole.mp more
    obtain ⟨minute, second, fraction, rfl, minutes, tail⟩ := minuteShape inside
    exact ⟨[h, h'], minute, second, fraction, rfl, ⟨⟨by simp [isH, isH'], by simp, by simp⟩, minutes, tail⟩⟩
  · obtain ⟨minute, second, fraction, rfl, minutes, tail⟩ := minuteShape inside
    exact ⟨[h], minute, second, fraction, rfl, ⟨⟨by simp [isH], by simp, by simp⟩, minutes, tail⟩⟩

end Shapes

section Reading

theorem runTaken {most : Nat} {run : Text} (digits : ∀ c ∈ run, isDigit c = true) (short : run.length ≤ most) (rest : Text)
    (stops : run.length = most ∨ ∀ c ∈ rest.head?, isDigit c = false) :
    ((run ++ rest).take most).takeWhile isDigit = run := by
  rw [List.take_append]
  rcases stops with full | stops
  · rw [full, Nat.sub_self, List.take_zero, List.append_nil, List.take_of_length_le (Nat.le_of_eq full),
      List.takeWhile_eq_self_iff.mpr digits]
  · rw [List.take_of_length_le short]
    refine takeWhileStops digits fun c first => stops c ?_
    rw [List.head?_take] at first
    split at first <;> simp_all

theorem takeDigitsRun {least most : Nat} {run : Text} (digits : DigitRun least most run) (rest : Text)
    (stops : run.length = most ∨ ∀ c ∈ rest.head?, isDigit c = false) :
    takeDigits least most (run ++ rest) = some (run, rest) := by
  simp only [takeDigits, runTaken digits.digits digits.most rest stops, digits.least, if_true, List.drop_left]

theorem afterSelf (c : CodeUnit) (t : Text) : after c (c :: t) = some t := by simp [after]

def Stopped (rest : Text) : Prop := ∀ c ∈ rest.head?, isDigit c = false ∧ c ≠ 58 ∧ c ≠ 46

theorem fractionRead {fraction rest : Text} (digits : fraction = [] ∨ DigitRun 1 9 fraction) (stopped : Stopped rest) :
    fractionGroup ((if fraction = [] then [] else 46 :: fraction) ++ rest) = some (fraction, rest) := by
  rcases digits with rfl | digits
  · have other : rest.head? ≠ some 46 := fun point => (stopped 46 point).2.2 rfl
    rw [if_pos rfl, List.nil_append, fractionGroup, if_neg other]
  · have given : fraction ≠ [] := fun none => absurd digits.least (by simp [none])
    rw [if_neg given, fractionGroup, List.cons_append, List.head?_cons, if_pos rfl, List.drop_one, List.tail_cons]
    exact takeDigitsRun digits rest (Or.inr fun c first => (stopped c first).1)

theorem secondsRead {second fraction rest : Text} (seconds : Seconds second fraction) (stopped : Stopped rest) :
    secondGroups (clockTail second fraction ++ rest) = some ((second, fraction), rest) := by
  rcases seconds.seconds with rfl | digits
  · have other : rest.head? ≠ some 58 := fun colon => (stopped 58 colon).2.1 rfl
    rw [seconds.below rfl, clockTail, if_pos rfl, List.nil_append, secondGroups, if_neg other]
  · have given : second ≠ [] := fun none => absurd digits.least (by simp [none])
    have full : second.length = 2 := Nat.le_antisymm digits.most digits.least
    rw [clockTail, if_neg given, secondGroups, List.cons_append, List.head?_cons, if_pos rfl, List.drop_one, List.tail_cons,
      List.append_assoc, takeDigitsRun digits _ (Or.inl full)]
    simp only [Option.bind_eq_bind, Option.bind_some, fractionRead seconds.fractions stopped]
    rfl

theorem clockRead {hour minute second fraction rest : Text} (clock : Clock hour minute second fraction) (stopped : Stopped rest) :
    clockGroups (hour ++ 58 :: (minute ++ (clockTail second fraction ++ rest))) =
      some ((hour, minute, second, fraction), rest) := by
  have full : minute.length = 2 := Nat.le_antisymm clock.minutes.most clock.minutes.least
  have colon : ∀ c ∈ (58 :: (minute ++ (clockTail second fraction ++ rest)) : Text).head?, isDigit c = false := by
    rintro c ⟨⟩
    rfl
  rw [clockGroups, takeDigitsRun clock.hours _ (Or.inr colon)]
  simp only [Option.bind_eq_bind, Option.bind_some, afterSelf, takeDigitsRun clock.minutes _ (Or.inl full),
    secondsRead clock.tail stopped]
  rfl

theorem dateRead {year month day : Text} (years : DigitRun 4 4 year) (months : DigitRun 2 2 month) (days : DigitRun 2 2 day)
    (rest : Text) : dateGroups (year ++ 45 :: (month ++ 45 :: (day ++ rest))) = some ((year, month, day), rest) := by
  have full {n : Nat} {run : Text} (digits : DigitRun n n run) : run.length = n := Nat.le_antisymm digits.most digits.least
  rw [dateGroups, takeDigitsRun years _ (Or.inl (full years))]
  simp only [Option.bind_eq_bind, Option.bind_some, afterSelf, takeDigitsRun months _ (Or.inl (full months)),
    takeDigitsRun days _ (Or.inl (full days))]
  rfl

def Zoned (zone : Text) : Prop := zone = [] ∨ wholly zonePattern zone = true

theorem zoneStopped {zone : Text} (zoned : Zoned zone) : Stopped zone ∧ ∀ c ∈ zone.head?, separates c = false := by
  rcases zoned with rfl | zoned
  · exact ⟨by simp [Stopped], by simp⟩
  · rw [whollyIff, zonePattern, eitherWhole] at zoned
    rcases zoned with utc | signed
    · obtain ⟨c, rfl, ok⟩ := oneWhole.mp utc
      rw [of_decide_eq_true ok]
      exact ⟨by simp [Stopped, isDigit], by simp [separates]⟩
    · obtain ⟨c, b, rfl, ok, -⟩ := oneThen.mp signed
      rcases of_decide_eq_true ok with rfl | rfl
      · exact ⟨by simp [Stopped, isDigit], by simp [separates]⟩
      · exact ⟨by simp [Stopped, isDigit], by simp [separates]⟩

theorem dayRead {year month day : Text} (years : DigitRun 4 4 year) (months : DigitRun 2 2 month) (days : DigitRun 2 2 day) :
    isoGroups (year ++ 45 :: (month ++ 45 :: day)) = some ⟨year, month, day, [], [], [], [], []⟩ := by
  have read := dateRead years months days []
  rw [List.append_nil] at read
  simp only [isoGroups, read, Option.bind_eq_bind, Option.bind_some, List.head?_nil, Option.any_none, Bool.false_eq_true,
    if_false, true_or, if_true]
  rfl

theorem momentRead {year month day hour minute second fraction zone : Text} {c : CodeUnit} (years : DigitRun 4 4 year)
    (months : DigitRun 2 2 month) (days : DigitRun 2 2 day) (between : separates c = true)
    (clock : Clock hour minute second fraction) (zoned : Zoned zone) :
    isoGroups (year ++ 45 :: (month ++ 45 :: (day ++ c :: (hour ++ 58 :: (minute ++ (clockTail second fraction ++ zone)))))) =
      some ⟨year, month, day, hour, minute, second, fraction, zone⟩ := by
  have accepted : zone = [] ∨ wholly zonePattern zone = true := zoned
  simp only [isoGroups, dateRead years months days, Option.bind_eq_bind, Option.bind_some, List.head?_cons, Option.any_some,
    between, if_true, List.drop_one, List.tail_cons, clockRead clock (zoneStopped zoned).1, accepted]
  rfl

theorem timeRead {hour minute second fraction : Text} (clock : Clock hour minute second fraction) :
    isoGroups (hour ++ 58 :: (minute ++ clockTail second fraction)) = none ∧
      timeGroups (hour ++ 58 :: (minute ++ clockTail second fraction)) =
        some ⟨[], [], [], hour, minute, second, fraction, []⟩ := by
  constructor
  · have colon : ∀ c ∈ (58 :: (minute ++ clockTail second fraction) : Text).head?, isDigit c = false := by
      rintro c ⟨⟩
      rfl
    have short : ¬4 ≤ hour.length := by
      have := clock.hours.most
      omega
    have most : hour.length ≤ 4 := Nat.le_trans clock.hours.most (by decide)
    have none : takeDigits 4 4 (hour ++ 58 :: (minute ++ clockTail second fraction)) = none := by
      simp only [takeDigits, runTaken clock.hours.digits most _ (Or.inr colon), short, if_false]
    simp only [isoGroups, dateGroups, none, Option.bind_eq_bind, Option.bind_none]
  · have read := @clockRead _ _ _ _ [] clock (by simp [Stopped])
    rw [List.append_nil] at read
    simp only [timeGroups, read, Option.bind_eq_bind, Option.bind_some, if_true]
    rfl

end Reading

section Zones

theorem zoneShape {zone : Text} (matched : wholly zonePattern zone = true) :
    zone = [90] ∨ ∃ c a b d e, (c = 43 ∨ c = 45) ∧ (isDigit a = true ∧ isDigit b = true ∧ isDigit d = true ∧ isDigit e = true) ∧
      (zone = [c, a, b, d, e] ∨ zone = [c, a, b, 58, d, e]) := by
  rw [whollyIff, zonePattern, eitherWhole] at matched
  rcases matched with utc | signed
  · obtain ⟨c, rfl, ok⟩ := oneWhole.mp utc
    exact Or.inl (by rw [of_decide_eq_true ok])
  · simp only [all, digit, sign, oneThen, optionalThen, oneWhole, thenBlank, decide_eq_true_eq] at signed
    obtain ⟨c, _, rfl, ok, a, _, rfl, isA, b, _, rfl, isB, rest⟩ := signed
    rcases rest with ⟨_, _, rfl, ⟨_, rfl, rfl⟩, d, _, rfl, isD, e, rfl, isE⟩ | ⟨d, _, rfl, isD, e, rfl, isE⟩
    · exact Or.inr ⟨c, a, b, d, e, ok, ⟨isA, isB, isD, isE⟩, Or.inr rfl⟩
    · exact Or.inr ⟨c, a, b, d, e, ok, ⟨isA, isB, isD, isE⟩, Or.inl rfl⟩

theorem zoneSpelled {c a b d e : CodeUnit} (ok : c = 43 ∨ c = 45)
    (digits : isDigit a = true ∧ isDigit b = true ∧ isDigit d = true ∧ isDigit e = true) :
    wholly zonePattern [c, a, b, 58, d, e] = true := by
  obtain ⟨isA, isB, isD, isE⟩ := digits
  rw [whollyIff, zonePattern, eitherWhole]
  refine Or.inr ?_
  simp only [all, digit, sign, oneThen, optionalThen, oneWhole, thenBlank, decide_eq_true_eq]
  exact ⟨c, _, rfl, ok, a, _, rfl, isA, b, _, rfl, isB, Or.inl ⟨[58], _, rfl, ⟨58, rfl, rfl⟩, d, _, rfl, isD, e, rfl, isE⟩⟩

theorem offsetNormal {zone : Text} (matched : wholly zonePattern zone = true) :
    normalizeOffset zone ≠ [] ∧ wholly zonePattern (normalizeOffset zone) = true ∧
      normalizeOffset (normalizeOffset zone) = normalizeOffset zone := by
  have other {c : CodeUnit} (digit : isDigit c = true) : c ≠ 58 := by
    rintro rfl
    exact absurd digit (by decide)
  rcases zoneShape matched with rfl | ⟨c, a, b, d, e, ok, digits, shape⟩
  · exact ⟨by decide, by decide, by decide⟩
  · have bare : normalizeOffset [c, a, b, d, e] = [c, a, b, 58, d, e] := by
      simp [normalizeOffset, withoutColon, List.findIdx?_cons, other digits.1, other digits.2.1, other digits.2.2.1,
        other digits.2.2.2]
    have parted : normalizeOffset [c, a, b, 58, d, e] = [c, a, b, 58, d, e] := by
      simp [normalizeOffset, withoutColon, List.findIdx?_cons, other digits.1, other digits.2.1]
    have whole : normalizeOffset zone = [c, a, b, 58, d, e] := by
      rcases shape with rfl | rfl
      · exact bare
      · exact parted
    rw [whole]
    exact ⟨by simp, zoneSpelled ok digits, parted⟩

end Zones

section Writing

theorem numberRun {n width : Nat} (some' : 0 < width) (small : n < 10 ^ width) :
    DigitRun 1 width (numberText n) ∧ digitsValue (numberText n) = n := by
  unfold numberText
  split
  · rename_i zero
    exact ⟨⟨by simp [isDigit], Nat.le_refl 1, some'⟩, by rw [zero]; rfl⟩
  · rename_i positive
    refine ⟨⟨digitsAll n, List.length_pos_iff.mpr (digitsSome positive), ?_⟩, digitsBack n⟩
    rw [digitsText, List.length_map, List.length_reverse]
    exact (Nat.digits_length_le_iff (by decide) n).mpr small

theorem padRun {n width : Nat} (some' : 0 < width) (small : n < 10 ^ width) :
    DigitRun width width (pad n width) ∧ digitsValue (pad n width) = n := by
  obtain ⟨run, value⟩ := numberRun some' small
  have size : (pad n width).length = width := by
    rw [pad, List.length_append, List.length_replicate]
    have := run.most
    omega
  refine ⟨⟨?_, Nat.le_of_eq size.symm, Nat.le_of_eq size⟩, ?_⟩
  · intro c member
    rcases List.mem_append.mp member with zero | digit
    · rw [List.eq_of_mem_replicate zero]
      rfl
    · exact run.digits c digit
  · rw [pad, valueAppend, valueZeros, Nat.zero_mul, Nat.zero_add, value]

theorem digitSmall {c : Nat} (digit : isDigit c = true) : c - 48 ≤ 9 := by
  have range : (48 : Nat) ≤ c ∧ c ≤ (57 : Nat) := by simpa [isDigit] using digit
  omega

theorem valueBelow {run : Text} (digits : ∀ c ∈ run, isDigit c = true) : digitsValue run < 10 ^ run.length := by
  induction run with
  | nil => exact Nat.one_pos
  | cons c run ih =>
    obtain ⟨digit, rest⟩ := List.forall_mem_cons.mp digits
    have single : digitsValue [c] = c - 48 := by simp [digitsValue]
    have split : digitsValue (c :: run) = (c - 48) * 10 ^ run.length + digitsValue run :=
      (valueAppend [c] run).trans (by rw [single])
    have small := Nat.mul_le_mul_right (10 ^ run.length) (digitSmall digit)
    have below := ih rest
    rw [split, List.length_cons, Nat.pow_succ]
    omega

structure Spelled (p : TemporalParts) : Prop where
  year : p.year < 10 ^ 4
  month : p.month < 10 ^ 2
  day : p.day < 10 ^ 2
  hour : p.hour < 10 ^ 2
  minute : p.minute < 10 ^ 2
  second : p.second < 10 ^ 2
  fraction : p.fraction = [] ∨ DigitRun 1 9 p.fraction
  offset : ∀ offset ∈ p.offset, offset ≠ [] ∧ wholly zonePattern offset = true ∧ normalizeOffset offset = offset

theorem valueNone : digitsValue [] = 0 := rfl

theorem runBelow {least most : Nat} {run : Text} (digits : DigitRun least most run) : digitsValue run < 10 ^ most :=
  Nat.lt_of_lt_of_le (valueBelow digits.digits) (Nat.pow_le_pow_right (by decide) digits.most)

theorem secondBelow {second fraction : Text} (seconds : Seconds second fraction) : digitsValue second < 10 ^ 2 := by
  rcases seconds.seconds with rfl | digits
  · decide
  · exact runBelow digits

theorem offsetSpelled {zone : Text} (zoned : Zoned zone) :
    ∀ offset ∈ (if zone = [] then none else some (normalizeOffset zone)),
      offset ≠ [] ∧ wholly zonePattern offset = true ∧ normalizeOffset offset = offset := by
  intro offset made
  rcases zoned with none' | zoned
  · rw [if_pos none'] at made
    contradiction
  · split at made
    · contradiction
    · cases made
      exact offsetNormal zoned

theorem dayParts {raw : Text} (matched : reDate (trim raw) = true) :
    ∃ p, isoParts raw = some p ∧ Spelled p ∧ p = { p with hour := 0, minute := 0, second := 0, fraction := [], offset := none } := by
  obtain ⟨year, month, day, shape, years, months, days⟩ := dateShape matched
  refine ⟨_, by rw [isoParts, shape, dayRead years months days]; rfl, ?_, rfl⟩
  have nought : digitsValue [] < 10 ^ 2 := by decide
  exact ⟨runBelow years, runBelow months, runBelow days, nought, nought, nought, Or.inl rfl, by simp [datedParts]⟩

theorem timestampParts {raw : Text} (matched : reTimestamp (trim raw) = true) : ∃ p, isoParts raw = some p ∧ Spelled p := by
  rw [reTimestamp, whollyIff] at matched
  simp only [all] at matched
  obtain ⟨_, _, whole, dated, rest⟩ := bothWhole.mp matched
  obtain ⟨year, month, day, rfl, years, months, days⟩ := dateShape (whollyIff.mpr dated)
  obtain ⟨c, _, rfl, between, rest⟩ := oneThen.mp rest
  obtain ⟨_, zone, rfl, timed, zoned⟩ := bothWhole.mp rest
  obtain ⟨hour, minute, second, fraction, rfl, clock⟩ := clockShape (whollyIff.mpr timed)
  rw [thenBlank, optionalWhole, ← whollyIff] at zoned
  have zoned : Zoned zone := zoned.symm
  have between : separates c = true := by simpa [separates] using between
  have shape : trim raw = year ++ 45 :: (month ++ 45 :: (day ++ c :: (hour ++ 58 :: (minute ++ (clockTail second fraction ++ zone))))) := by
    rw [whole]
    simp
  refine ⟨_, by rw [isoParts, shape, momentRead years months days between clock zoned]; rfl, ?_⟩
  exact ⟨runBelow years, runBelow months, runBelow days, runBelow clock.hours, runBelow clock.minutes, secondBelow clock.tail,
    clock.tail.fractions, offsetSpelled zoned⟩

theorem timeParts {raw : Text} (matched : reTime (trim raw) = true) :
    ∃ p, isoParts raw = some p ∧ Spelled p ∧ p = { p with year := 1970, month := 1, day := 1, offset := none } := by
  obtain ⟨hour, minute, second, fraction, shape, clock⟩ := clockShape matched
  obtain ⟨other, read⟩ := timeRead clock
  refine ⟨_, by rw [isoParts, shape, other, read]; rfl, ?_, rfl⟩
  have epoch : 1970 < 10 ^ 4 := by decide
  have first : 1 < 10 ^ 2 := by decide
  exact ⟨epoch, first, first, runBelow clock.hours, runBelow clock.minutes, secondBelow clock.tail,
    clock.tail.fractions, by simp [timedParts, emptyParts]⟩

theorem digitBare {c : Nat} (digit : isDigit c = true) : isWhite c = false := by
  have range : (48 : Nat) ≤ c ∧ c ≤ (57 : Nat) := by simpa [isDigit] using digit
  by_contra white
  have := whiteRange (Bool.not_eq_false _ ▸ white)
  omega

theorem inkEnds {lead : Text} (first : DigitRun 1 9 lead) (middle : Text) {trail : Text} (some' : trail ≠ [])
    (last : ∀ c ∈ trail, isWhite c = false) : trim (lead ++ middle ++ trail) = lead ++ middle ++ trail := by
  refine trimKept (fun c head => ?_) fun c there => ?_
  · have given : lead ≠ [] := fun none => absurd first.least (by simp [none])
    rw [List.append_assoc, List.head?_append_of_ne_nil _ given] at head
    exact digitBare (first.digits c (List.mem_of_mem_head? head))
  · rw [List.getLast?_append_of_ne_nil _ some'] at there
    exact last c (List.mem_of_mem_getLast? there)

theorem padLead {n : Nat} {width : Nat} (some' : 0 < width) (short : width ≤ 9) (small : n < 10 ^ width) :
    DigitRun 1 9 (pad n width) := by
  have run := (padRun some' small).1
  exact ⟨run.digits, Nat.le_trans some' run.least, Nat.le_trans run.most short⟩

theorem zoneBare {zone : Text} (zoned : Zoned zone) : ∀ c ∈ zone, isWhite c = false := by
  rcases zoned with rfl | zoned
  · simp
  · have signs {c : Nat} (ok : c = 43 ∨ c = 45) : isWhite c = false := by
      rcases ok with rfl | rfl <;> rfl
    rcases zoneShape zoned with rfl | ⟨c, a, b, d, e, ok, ⟨isA, isB, isD, isE⟩, rfl | rfl⟩
    · simp [isWhite]
    · simp [signs ok, digitBare isA, digitBare isB, digitBare isD, digitBare isE]
    · have colon : isWhite 58 = false := rfl
      simp [signs ok, digitBare isA, digitBare isB, digitBare isD, digitBare isE, colon]

section Back
variable {p : TemporalParts} (spelled : Spelled p)
include spelled

theorem clockBack : Clock (pad p.hour 2) (pad p.minute 2) (pad p.second 2) p.fraction := by
  have two {n : Nat} (small : n < 10 ^ 2) := (padRun (by decide) small).1
  refine ⟨⟨(two spelled.hour).digits, ?_, (two spelled.hour).most⟩, two spelled.minute,
    ⟨Or.inr (two spelled.second), spelled.fraction, fun none => ?_⟩⟩
  · exact Nat.le_trans (by decide) (two spelled.hour).least
  · exact absurd (two spelled.second).least (by simp [none])

theorem clockTailBack : clockTail (pad p.second 2) p.fraction = 58 :: (pad p.second 2 ++ fractionText p) := by
  have given : pad p.second 2 ≠ [] := fun none => absurd (padRun (by decide) spelled.second).1.least (by simp [none])
  rw [clockTail, if_neg given]
  rfl

theorem secondsBare : ∀ c ∈ pad p.second 2 ++ fractionText p, isWhite c = false := by
  intro c member
  rcases List.mem_append.mp member with digit | rest
  · exact digitBare ((padRun (by decide) spelled.second).1.digits c digit)
  · unfold fractionText at rest
    split at rest
    · contradiction
    · rename_i given
      rcases List.mem_cons.mp rest with rfl | digit
      · rfl
      · exact digitBare ((spelled.fraction.resolve_left given).digits c digit)

theorem secondsGiven : pad p.second 2 ++ fractionText p ≠ [] := by
  have run := padLead (by decide) (by decide) spelled.second
  intro none
  exact absurd run.least (by simp [(List.append_eq_nil_iff.mp none).1])

theorem dateTextRead : isoParts (dateText p) = some { p with hour := 0, minute := 0, second := 0, fraction := [], offset := none } := by
  have years := padRun (by decide) spelled.year
  have months := padRun (by decide) spelled.month
  have days := padRun (by decide) spelled.day
  have bare : trim (dateText p) = dateText p := by
    have ends := inkEnds (padLead (by decide) (by decide) spelled.year) (45 :: (pad p.month 2 ++ [45]))
      (fun none : pad p.day 2 = [] => absurd days.1.least (by simp [none])) fun c digit => digitBare (days.1.digits c digit)
    simpa [dateText] using ends
  rw [isoParts, bare, dateText, dayRead years.1 months.1 days.1]
  simp [datedParts, years.2, months.2, days.2, valueNone]

theorem timeTextRead : isoParts (timeText p) = some { p with year := 1970, month := 1, day := 1, offset := none } := by
  have hours := padRun (by decide) spelled.hour
  have minutes := padRun (by decide) spelled.minute
  have seconds := padRun (by decide) spelled.second
  have bare : trim (timeText p) = timeText p := by
    have ends := inkEnds (padLead (by decide) (by decide) spelled.hour) (58 :: (pad p.minute 2 ++ [58]))
      (secondsGiven spelled) (secondsBare spelled)
    simpa [timeText] using ends
  obtain ⟨other, read⟩ := timeRead (clockBack spelled)
  rw [clockTailBack spelled] at other read
  rw [isoParts, bare, timeText, other, read]
  simp [timedParts, emptyParts, hours.2, minutes.2, seconds.2]

theorem timestampTextRead : isoParts (temporalText .timestamp p) = some p := by
  have years := padRun (by decide) spelled.year
  have months := padRun (by decide) spelled.month
  have days := padRun (by decide) spelled.day
  have hours := padRun (by decide) spelled.hour
  have minutes := padRun (by decide) spelled.minute
  have seconds := padRun (by decide) spelled.second
  have zoned : Zoned (p.offset.getD []) := by
    cases offset : p.offset with
    | none => exact Or.inl rfl
    | some zone => exact Or.inr (spelled.offset zone offset).2.1
  have inked := zoneBare zoned
  have bare : trim (temporalText .timestamp p) = temporalText .timestamp p := by
    have ends := inkEnds (padLead (by decide) (by decide) spelled.year) (45 :: (pad p.month 2 ++ 45 :: (pad p.day 2 ++
      32 :: (pad p.hour 2 ++ 58 :: (pad p.minute 2 ++ [58])))))
      (List.append_ne_nil_of_left_ne_nil (secondsGiven spelled) (p.offset.getD []))
      fun c member => (List.mem_append.mp member).elim (secondsBare spelled c) (inked c)
    simpa [temporalText, dateText, timeText] using ends
  have read := momentRead years.1 months.1 days.1 (c := 32) rfl (clockBack spelled) zoned
  rw [clockTailBack spelled] at read
  have shape : temporalText .timestamp p = pad p.year 4 ++ 45 :: (pad p.month 2 ++ 45 :: (pad p.day 2 ++ 32 :: (pad p.hour 2 ++
      58 :: (pad p.minute 2 ++ (58 :: (pad p.second 2 ++ fractionText p) ++ p.offset.getD []))))) := by
    simp [temporalText, dateText, timeText]
  have kept : (if p.offset.getD [] = [] then none else some (normalizeOffset (p.offset.getD []))) = p.offset := by
    cases offset : p.offset with
    | none => rfl
    | some zone =>
      obtain ⟨given, -, normal⟩ := spelled.offset zone offset
      rw [Option.getD_some, if_neg given, normal]
  rw [isoParts, bare, shape, read]
  simp only [Option.map_some, Option.some_or, datedParts, kept, years.2, months.2, days.2, hours.2, minutes.2, seconds.2]

end Back

end Writing

end DatabaseAdmin.TemporalTexts
