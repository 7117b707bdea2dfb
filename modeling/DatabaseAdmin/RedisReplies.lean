import DatabaseAdmin.CodeUnits
import Mathlib.Data.List.Basic

/-! Redis replies as the driver hands them over, and the readers every SCAN-family command shares. -/
namespace DatabaseAdmin.RedisReplies
open CodeUnits

inductive Reply where
  | nil
  | bulk (text : Text)
  | error (message : Text)
  | array (items : List Reply) (json : Text)

def toText : Reply → Text
  | .nil => []
  | .bulk text => text
  | .error message => message
  | .array _ json => json

def flattenStrings : Reply → List Text
  | .array items _ => items.flatMap fun
      | .array inner _ => inner.map toText
      | item => [toText item]
  | _ => []

structure ScanPart where
  cursor : Text
  items : List Reply

def zeroCursor : Text := units "0"

def orZero (cursor : Text) : Text := if cursor = [] then zeroCursor else cursor

def parseScanReply : Reply → ScanPart
  | .array (cursor :: .array items _ :: _) _ => ⟨orZero (toText cursor), items⟩
  | .array (cursor :: _ :: _) _ => ⟨orZero (toText cursor), []⟩
  | _ => ⟨zeroCursor, []⟩

def cursorText (n : ℕ) : Text := units (toString n)

def scanReply (cursor : ℕ) (items : List Text) : Reply :=
  .array [.bulk (cursorText cursor), .array (items.map .bulk) []] []

theorem cursorTextShown (n : ℕ) : cursorText n = (Nat.toDigits 10 n).map Char.toNat := by
  have shown : (toString n).toList = Nat.toDigits 10 n := Nat.toList_repr
  rw [cursorText, units, shown]

theorem cursorTextInjective : Function.Injective cursorText := by
  intro m n same
  rw [cursorTextShown, cursorTextShown] at same
  have digits := List.map_injective_iff.mpr (fun _ _ one => Char.toNat_inj.mp one) same
  rw [← Nat.ofDigitChars_ten_toDigits (n := m), digits, Nat.ofDigitChars_ten_toDigits]

theorem cursorTextZero {n : ℕ} : cursorText n = zeroCursor ↔ n = 0 := cursorTextInjective.eq_iff' rfl

theorem cursorTextSome (n : ℕ) : cursorText n ≠ [] := by
  rw [cursorTextShown]
  simp

theorem cursorTextDigits {n : ℕ} {c : CodeUnit} (member : c ∈ cursorText n) : c ≤ 57 := by
  rw [cursorTextShown, List.mem_map] at member
  obtain ⟨d, digit, rfl⟩ := member
  have range := Nat.isDigit_of_mem_toDigits (by decide) (by decide) digit
  simp only [Char.isDigit, Bool.and_eq_true, decide_eq_true_eq] at range
  exact range.2

@[simp] theorem scanReplyParsed (cursor : ℕ) (items : List Text) :
    parseScanReply (scanReply cursor items) = ⟨cursorText cursor, items.map .bulk⟩ := by
  rw [scanReply, parseScanReply, toText, orZero, if_neg (cursorTextSome cursor)]

@[simp] theorem bulkTexts (items : List Text) : (items.map Reply.bulk).map toText = items := by
  rw [List.map_map]
  exact List.map_id items

end DatabaseAdmin.RedisReplies
