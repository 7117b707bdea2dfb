import Mathlib.Data.Nat.Digits.Lemmas
import DatabaseAdmin.CopiedRows
import DatabaseAdmin.MysqlLoads
import DatabaseAdmin.MysqlPreviews

/-! A value of a BIT column on its way back to the server: bound as octets or spelled as a bit literal it is the number
that was read, spelled as text it is the octets of its digits. -/
namespace DatabaseAdmin.MysqlBits
open CodeUnits BinaryText WireCells
open ChangeStatements (bitBytes)

section Numbers

def octetNumber (octets : List Nat) : Nat := Nat.ofDigits 256 octets.reverse

def bitNumber (bits : Text) : Nat := Nat.ofDigits 2 (bits.map (· - 48)).reverse

def Binary (bits : Text) : Prop := ∀ c ∈ bits, c = 48 ∨ c = 49

theorem octetAppend (a b : List Nat) : octetNumber (a ++ b) = octetNumber a * 256 ^ b.length + octetNumber b := by
  rw [octetNumber, List.reverse_append, Nat.ofDigits_append, List.length_reverse, Nat.add_comm, Nat.mul_comm]
  rfl

theorem bitAppend (a b : Text) : bitNumber (a ++ b) = bitNumber a * 2 ^ b.length + bitNumber b := by
  rw [bitNumber, List.map_append, List.reverse_append, Nat.ofDigits_append, List.length_reverse, List.length_map, Nat.add_comm,
    Nat.mul_comm]
  rfl

theorem bitFold (bits : Text) : bits.foldl (fun byte c => 2 * byte + (c - 48)) 0 = bitNumber bits := by
  induction bits using List.reverseRecOn with
  | nil => rfl
  | append_singleton bits c ih =>
    rw [List.foldl_concat, ih, bitAppend, List.length_singleton, Nat.pow_one, Nat.mul_comm]
    simp [bitNumber]

theorem bitZeros (k : Nat) : bitNumber (List.replicate k 48) = 0 := by
  simp [bitNumber]

theorem chunkNumber (k : Nat) {bits : Text} (length : bits.length = k * 8) :
    octetNumber ((List.range k).map fun i => bitNumber ((bits.drop (i * 8)).take 8)) = bitNumber bits := by
  induction k generalizing bits with
  | zero =>
    rw [Nat.zero_mul, List.length_eq_zero_iff] at length
    rw [length]
    rfl
  | succ k ih =>
    have head : (bits.take (k * 8)).length = k * 8 := by
      rw [List.length_take, length]
      omega
    have tail : (bits.drop (k * 8)).length = 8 := by
      rw [List.length_drop, length]
      omega
    have chunks : (List.range k).map (fun i => bitNumber ((bits.drop (i * 8)).take 8)) =
        (List.range k).map fun i => bitNumber (((bits.take (k * 8)).drop (i * 8)).take 8) := by
      refine List.map_congr_left fun i inside => ?_
      have before := List.mem_range.mp inside
      rw [List.drop_take, List.take_take, Nat.min_eq_left (by omega)]
    rw [List.range_succ, List.map_append, octetAppend, chunks, ih head, List.map_singleton, List.take_of_length_le tail.le,
      List.length_singleton, Nat.pow_one]
    have last : octetNumber [bitNumber (bits.drop (k * 8))] = bitNumber (bits.drop (k * 8)) := by simp [octetNumber]
    rw [last, ← List.take_append_drop (k * 8) bits, bitAppend, List.take_append_drop, tail]
    rfl

theorem bitBytesNumber {bits : Text} (binary : Binary bits) : octetNumber (bitBytes bits) = bitNumber bits := by
  have kept : bits.filter (fun c => c = ('0' : Char).toNat ∨ c = ('1' : Char).toNat) = bits :=
    List.filter_eq_self.mpr fun c inside => decide_eq_true (binary c inside)
  unfold bitBytes
  simp only [kept]
  have padded : (List.replicate ((bits.length + 7) / 8 * 8 - bits.length) ('0' : Char).toNat ++ bits).length =
      (bits.length + 7) / 8 * 8 := by
    rw [List.length_append, List.length_replicate]
    omega
  rw [padded, Nat.mul_div_cancel _ (by decide)]
  have folded (chunk : Text) : chunk.foldl (fun byte c => 2 * byte + (c - ('0' : Char).toNat)) 0 = bitNumber chunk :=
    bitFold chunk
  simp only [folded]
  rw [chunkNumber _ padded, bitAppend, show ('0' : Char).toNat = 48 from rfl, bitZeros, Nat.zero_mul, Nat.zero_add]

end Numbers

section Reading

def byteBits (byte : Nat) : Text :=
  let digits := (Nat.toDigits 2 byte).map Char.toNat
  List.replicate (8 - digits.length) 48 ++ digits

def bufferToBitString (buf : List Nat) (declaredBits : Nat) : Text :=
  let bits := buf.flatMap byteBits
  if 0 < declaredBits ∧ declaredBits ≤ bits.length then bits.drop (bits.length - declaredBits)
  else
    let short := bits.dropWhile (· == 48)
    if short = [] then bits.drop (bits.length - 1) else short

def sentOctets (n m : Nat) : List Nat :=
  let digits := Nat.digits 256 m
  List.replicate ((n + 7) / 8 - digits.length) 0 ++ digits.reverse

def readBit (n m : Nat) : Text := bufferToBitString (sentOctets n m) n

theorem byteRead {byte : Nat} (small : byte < 256) :
    (byteBits byte).length = 8 ∧ Binary (byteBits byte) ∧ bitNumber (byteBits byte) = byte := by
  have all : ∀ byte < 256, (byteBits byte).length = 8 ∧ (∀ c ∈ byteBits byte, c = 48 ∨ c = 49) ∧
      bitNumber (byteBits byte) = byte := by decide +kernel
  exact all byte small

theorem bytesRead {buf : List Nat} (small : ∀ byte ∈ buf, byte < 256) : (buf.flatMap byteBits).length = buf.length * 8 ∧
    Binary (buf.flatMap byteBits) ∧ bitNumber (buf.flatMap byteBits) = octetNumber buf := by
  induction buf using List.reverseRecOn with
  | nil => exact ⟨rfl, nofun, rfl⟩
  | append_singleton buf byte ih =>
    obtain ⟨length, binary, number⟩ := ih fun b inside => small b (List.mem_append_left _ inside)
    obtain ⟨length', binary', number'⟩ := byteRead (small byte (by simp))
    rw [List.flatMap_append, List.flatMap_singleton]
    refine ⟨?_, ?_, ?_⟩
    · rw [List.length_append, List.length_append, length, length', List.length_singleton, Nat.add_mul, Nat.one_mul]
    · intro c inside
      rcases List.mem_append.mp inside with early | late
      · exact binary c early
      · exact binary' c late
    · rw [bitAppend, octetAppend, number, number', length', List.length_singleton, Nat.pow_one]
      simp [octetNumber]

variable {n m : Nat}

theorem sentNumber (n m : Nat) : octetNumber (sentOctets n m) = m := by
  simp only [octetNumber, sentOctets, List.reverse_append, List.reverse_reverse, List.reverse_replicate]
  rw [Nat.ofDigits_append_replicate_zero, Nat.ofDigits_digits]

theorem sentSmall : ∀ byte ∈ sentOctets n m, byte < 256 := by
  intro byte inside
  rcases List.mem_append.mp inside with fill | digit
  · rw [List.eq_of_mem_replicate fill]
    decide
  · exact Nat.digits_lt_base (by decide) (List.mem_reverse.mp digit)

theorem sentLength (small : m < 2 ^ n) : (sentOctets n m).length = (n + 7) / 8 := by
  have bound : m < 256 ^ ((n + 7) / 8) := by
    rw [show (256 : Nat) = 2 ^ 8 from rfl, ← Nat.pow_mul]
    exact small.trans_le (Nat.pow_le_pow_right (by decide) (by omega))
  have short := (Nat.digits_length_le_iff (by decide) m).mpr bound
  simp only [sentOctets, List.length_append, List.length_replicate, List.length_reverse]
  omega

theorem readNumber (some' : 0 < n) (small : m < 2 ^ n) :
    (readBit n m).length = n ∧ Binary (readBit n m) ∧ bitNumber (readBit n m) = m := by
  obtain ⟨length, binary, number⟩ := bytesRead (sentSmall (n := n) (m := m))
  rw [sentLength small] at length
  rw [sentNumber] at number
  have wide : n ≤ ((sentOctets n m).flatMap byteBits).length := by
    rw [length]
    omega
  have read : readBit n m = ((sentOctets n m).flatMap byteBits).drop (((sentOctets n m).flatMap byteBits).length - n) := by
    unfold readBit bufferToBitString
    exact if_pos ⟨some', wide⟩
  have own : (readBit n m).length = n := by
    rw [read, List.length_drop]
    omega
  have digits : Binary (readBit n m) := fun c inside => binary c (List.mem_of_mem_drop (read ▸ inside))
  refine ⟨own, digits, ?_⟩
  rw [← List.take_append_drop (((sentOctets n m).flatMap byteBits).length - n) ((sentOctets n m).flatMap byteBits), ← read,
    bitAppend, own] at number
  have zero : bitNumber (((sentOctets n m).flatMap byteBits).take (((sentOctets n m).flatMap byteBits).length - n)) = 0 := by
    by_contra positive
    have one := Nat.mul_le_mul_right (2 ^ n) (Nat.pos_of_ne_zero positive)
    omega
  rwa [zero, Nat.zero_mul, Nat.zero_add] at number

end Reading

section Paths

inductive Path where
  | bound | preview | copied | loaded (binary : Bool) | inserted | dumped (encoding : BinaryEncoding)

def textNumber (t : Text) : Nat := octetNumber ((MysqlLoads.octets t).map UInt8.toNat)

def quotedBody (rest : Text) : Option Text := if rest.getLast? = some apostrophe then some rest.dropLast else none

def literalNumber : Text → Option Nat
  | 88 :: 39 :: rest => (quotedBody rest).bind fun body =>
      if hexPairs body then some (octetNumber ((hexBytes body).map UInt8.toNat)) else none
  | 98 :: 39 :: rest => (quotedBody rest).bind fun body => if SqlDumps.bitToken body then some (bitNumber body) else none
  | sql => (undoLiteral .mysql sql).map textNumber

def paramNumber : ChangeStatements.Param → Option Nat
  | .bytes content => some (octetNumber content)
  | .text t => some (textNumber t)
  | _ => none

def valueNumber (value : MysqlLoads.Value) : Option Nat := value.map fun octets => octetNumber (octets.map UInt8.toNat)

def given (reading : CopiedRows.ArrayReading) (engine : EngineKind) (v : Text) : Path → Option Nat
  | .bound => paramNumber (ChangeStatements.cellToParam MysqlPreviews.base64 (.tagged .bit v))
  | .preview => (ChangeStatements.writtenLiteral engine
      (ChangeStatements.cellToParam MysqlPreviews.base64 (.tagged .bit v))).toOption.bind literalNumber
  | .copied => (CopiedRows.literal reading engine (.tagged .bit v none)).toOption.bind literalNumber
  | .loaded binary => (MysqlLoads.loadSpelling.readField (MysqlLoads.myLoadField (.tagged .bit v none) binary)).bind fun field =>
      valueNumber (if binary then MysqlLoads.unhex field else some (MysqlLoads.octets field))
  | .inserted => (MysqlLoads.bound (MysqlLoads.myParam (.tagged .bit v none))).bind valueNumber
  | .dumped encoding => (SqlDumps.sqlLiteral engine encoding (.tagged .bit v none)).toOption.bind literalNumber

structure Server where
  strict : Bool
  strictLoads : Bool

def Server.refuses (server : Server) : Path → Bool
  | .loaded _ => server.strictLoads
  | _ => server.strict

def storeBit (refuses : Bool) (n value : Nat) : Option Nat :=
  if value < 2 ^ n then some value else if refuses then none else some (2 ^ n - 1)

def stored (reading : CopiedRows.ArrayReading) (engine : EngineKind) (server : Server) (n : Nat) (v : Text) (path : Path) :
    Option Nat :=
  (given reading engine v path).bind (storeBit (server.refuses path) n)

def Path.text : Path → Bool
  | .copied | .loaded _ | .inserted => true
  | _ => false

variable {reading : CopiedRows.ArrayReading} {engine : EngineKind} {v : Text}

theorem binaryClean (binary : Binary v) : 0 ∉ v := fun nul => by rcases binary 0 nul with same | same <;> contradiction

theorem binaryToken (binary : Binary v) (some' : v ≠ []) : SqlDumps.bitToken v = true := by
  have all : v.all (fun c => c == 48 || c == 49) = true := by
    rw [List.all_eq_true]
    intro c inside
    rcases binary c inside with rfl | rfl <;> rfl
  simp [SqlDumps.bitToken, some', all]

theorem quotedRead (body : Text) : quotedBody (body ++ [apostrophe]) = some body := by
  rw [quotedBody, if_pos (by rw [List.getLast?_concat]), List.dropLast_concat]

theorem textRead (sql : dialectForEngine engine = .ok .mysql) (clean : 0 ∉ v) :
    ∃ text, quoteLiteral (.string v) engine = .ok text ∧ literalNumber text = some (textNumber v) := by
  obtain ⟨text, ok, back, -⟩ := literalIsOneToken sql clean (t := []) nofun
  refine ⟨text, ok, ?_⟩
  rw [quoteLiteralText sql clean] at ok
  cases Except.ok.inj ok
  simp only [literalNumber, back, Option.map_some]

theorem bitBytesSome (some' : v ≠ []) (binary : Binary v) : bitBytes v ≠ [] := by
  have kept : v.filter (fun c => c = ('0' : Char).toNat ∨ c = ('1' : Char).toNat) = v :=
    List.filter_eq_self.mpr fun c inside => decide_eq_true (binary c inside)
  have long := List.length_pos_iff.mpr some'
  have count : (bitBytes v).length = (v.length + 7) / 8 := by
    simp only [bitBytes, kept, List.length_map, List.length_range, List.length_append, List.length_replicate]
    omega
  intro none'
  rw [none', List.length_nil] at count
  omega

theorem bytesGiven (sql : dialectForEngine engine = .ok .mysql) (binary : Binary v) (some' : v ≠ []) {path : Path}
    (spelled : path.text = false) : given reading engine v path = some (bitNumber v) := by
  cases path with
  | copied => contradiction
  | loaded binary => contradiction
  | inserted => contradiction
  | bound => exact congrArg some (bitBytesNumber binary)
  | preview =>
    obtain ⟨bytes, content⟩ := MysqlPreviews.cellOctets (.tagged .bit v)
    have written : ChangeStatements.writtenLiteral engine
        (ChangeStatements.cellToParam MysqlPreviews.base64 (.tagged .bit v)) = .ok (88 :: 39 :: (hexText bytes ++ [39])) := by
      show Except.ok (units "X'" ++ (bitBytes v).flatMap ChangeStatements.hexByte ++ units "'") = _
      rw [show bitBytes v = bytes.map UInt8.toNat from content, MysqlPreviews.hexContent]
      rfl
    have full : bytes ≠ [] := fun none' => bitBytesSome some' binary (by rw [show bitBytes v = _ from content, none']; rfl)
    simp only [given, written, Except.toOption, Option.bind_some, literalNumber]
    rw [show (39 : CodeUnit) = apostrophe from rfl, quotedRead, Option.bind_some, if_pos (hexPairsText bytes full), hexBytesText,
      ← show bitBytes v = bytes.map UInt8.toNat from content, bitBytesNumber binary]
  | dumped encoding =>
    have written : SqlDumps.sqlLiteral engine encoding (.tagged .bit v none) = .ok (98 :: 39 :: (v ++ [39])) := by
      have family : SchemaModels.isMysqlFamily engine = true := by
        cases engine <;> first | rfl | contradiction
      simp only [SqlDumps.sqlLiteral, binaryToken binary some', Bool.not_true, Bool.false_eq_true, if_false, family, if_true]
      rfl
    simp only [given, written, Except.toOption, Option.bind_some, literalNumber]
    rw [show (39 : CodeUnit) = apostrophe from rfl, quotedRead, Option.bind_some, if_pos (binaryToken binary some')]

theorem textGiven (sql : dialectForEngine engine = .ok .mysql) (binary : Binary v) {path : Path} (spelled : path.text = true) :
    given reading engine v path = some (textNumber v) := by
  cases path with
  | bound => contradiction
  | preview => contradiction
  | dumped encoding => contradiction
  | copied =>
    obtain ⟨text, ok, number⟩ := textRead sql (binaryClean binary)
    have styled : ∃ style, styleFor engine = .ok style := by
      cases engine <;> first | exact ⟨_, rfl⟩ | contradiction
    obtain ⟨style, styled⟩ := styled
    have written : CopiedRows.literal reading engine (.tagged .bit v none) = .ok text := by
      simp only [CopiedRows.literal, styled, CopiedRows.decodeCellForSql, CopiedRows.literalText, ok]
      rfl
    simp only [given, written, Except.toOption, Option.bind_some, number]
  | loaded binary' =>
    cases binary' with
    | true =>
      have field : MysqlLoads.loadSpelling.readField (hexText (MysqlLoads.octets v)) = some (hexText (MysqlLoads.octets v)) := by
        conv_lhs => rw [← MysqlLoads.loadSpelling.escapePlain (MysqlLoads.hexPlain (MysqlLoads.octets v))]
        exact MysqlLoads.loadSpelling.readWriteField (some (hexText (MysqlLoads.octets v)))
      show (MysqlLoads.loadSpelling.readField (hexText (MysqlLoads.octets v))).bind _ = _
      rw [field, Option.bind_some, if_pos rfl, MysqlLoads.unhexText]
      rfl
    | false =>
      have field : MysqlLoads.loadSpelling.readField (MysqlLoads.escapeLoadText v) = some v :=
        MysqlLoads.loadSpelling.readWriteField (some v)
      show (MysqlLoads.loadSpelling.readField (MysqlLoads.escapeLoadText v)).bind _ = _
      rw [field]
      rfl
  | inserted => rfl

end Paths

section Writes
variable {n m : Nat}

theorem textOverflows {v : Text} (binary : Binary v) (some' : v ≠ []) : 2 ^ v.length ≤ textNumber v := by
  have ascii : ∀ c ∈ v, c < 128 := fun c inside => by rcases binary c inside with rfl | rfl <;> decide
  have spelled : (MysqlLoads.octets v).map UInt8.toNat = v := by
    rw [MysqlLoads.asciiOctets ascii, List.map_map]
    refine (List.map_congr_left fun c inside => ?_).trans (List.map_id _)
    exact Nat.mod_eq_of_lt ((ascii c inside).trans (by decide))
  rw [textNumber, spelled]
  clear spelled ascii
  induction v using List.reverseRecOn with
  | nil => contradiction
  | append_singleton v c ih =>
    have digit : (48 : Nat) ≤ c := by rcases binary c (by simp) with rfl | rfl <;> decide
    have last : octetNumber [c] = c := by simp [octetNumber]
    rw [octetAppend, last, List.length_append, List.length_singleton, Nat.pow_succ, Nat.pow_one]
    by_cases first : v = []
    · have none' : octetNumber [] = 0 := rfl
      rw [first, List.length_nil, none']
      omega
    · have early := ih (fun d inside => binary d (List.mem_append_left _ inside)) first
      omega

theorem storedNumber {refuses : Bool} (small : m < 2 ^ n) : storeBit refuses n m = some m := if_pos small

theorem storedText {refuses : Bool} {value : Nat} (large : 2 ^ n ≤ value) (small : m < 2 ^ n) :
    storeBit refuses n value = some m ↔ refuses = false ∧ m + 1 = 2 ^ n := by
  rw [storeBit, if_neg (Nat.not_lt.mpr large)]
  cases refuses with
  | true => exact iff_of_false nofun (fun both => absurd both.1 nofun)
  | false =>
    rw [if_neg nofun, Option.some.injEq]
    exact ⟨fun same => ⟨rfl, by omega⟩, fun ⟨_, all⟩ => by omega⟩

-- The texts are stored as the value that was read where nothing is refused and all its bits are set, and nowhere else.
theorem bitWrites (reading : CopiedRows.ArrayReading) (engine : EngineKind) (sql : dialectForEngine engine = .ok .mysql)
    (server : Server) (n m : Nat) (some' : 0 < n) (small : m < 2 ^ n) :
    (∀ path, stored reading engine server n (readBit n m) path = some m) ↔
      server.strict = false ∧ server.strictLoads = false ∧ m + 1 = 2 ^ n := by
  obtain ⟨length, binary, number⟩ := readNumber some' small
  have full : readBit n m ≠ [] := fun none' => by
    rw [none', List.length_nil] at length
    omega
  have large : 2 ^ n ≤ textNumber (readBit n m) := by
    conv_lhs => rw [← length]
    exact textOverflows binary full
  have texts {path : Path} (spelled : path.text = true) : stored reading engine server n (readBit n m) path = some m ↔
      server.refuses path = false ∧ m + 1 = 2 ^ n := by
    rw [stored, textGiven sql binary spelled, Option.bind_some]
    exact storedText large small
  constructor
  · intro all
    have copied := (texts (show Path.text .copied = true from rfl)).mp (all .copied)
    have loaded := (texts (show Path.text (.loaded false) = true from rfl)).mp (all (.loaded false))
    exact ⟨copied.1, loaded.1, copied.2⟩
  · intro ⟨statements, loads, ones⟩ path
    cases spelled : path.text with
    | true =>
      refine (texts spelled).mpr ⟨?_, ones⟩
      cases path <;> first | exact statements | exact loads
    | false =>
      rw [stored, bytesGiven sql binary full spelled, Option.bind_some, number]
      exact storedNumber small

def noArrays : CopiedRows.ArrayReading := ⟨fun _ => none, fun _ => .ok ()⟩

theorem onesWritten : (∀ path, stored noArrays .mysql ⟨false, false⟩ 3 (readBit 3 7) path = some 7) ↔
    false = false ∧ false = false ∧ 7 + 1 = 2 ^ 3 :=
  bitWrites noArrays .mysql rfl ⟨false, false⟩ 3 7 (by decide) (by decide)

-- The copied statement is refused or sets every bit, and so are the statement and the load of an import.
theorem fiveLost :
    stored noArrays .mysql ⟨true, true⟩ 8 (readBit 8 5) .bound = some 5 ∧
      stored noArrays .mysql ⟨true, true⟩ 8 (readBit 8 5) .copied = none ∧
      stored noArrays .mysql ⟨false, false⟩ 8 (readBit 8 5) .copied = some 255 ∧
      stored noArrays .mysql ⟨true, false⟩ 8 (readBit 8 5) (.loaded false) = some 255 ∧
      stored noArrays .mysql ⟨true, false⟩ 8 (readBit 8 5) .inserted = none := by
  decide +kernel

end Writes

end DatabaseAdmin.MysqlBits
