import DatabaseAdmin.BinaryText

/-! The cells that travel between the connectors, the writers and the importers. -/
namespace DatabaseAdmin.WireCells
open CodeUnits BinaryText

inductive CellTag where
  | bigint | decimal | date | time | timestamp | timestamptz | interval | bytes | json | array | geo | uuid
  | bit | objectid | decimal128 | regex | document | unsupported
  deriving DecidableEq

structure JsNumber where
  text : Text
  finite : Bool
  deriving DecidableEq

inductive Cell where
  | null
  | string (text : Text)
  | number (n : JsNumber)
  | boolean (value : Bool)
  | tagged (tag : CellTag) (v : Text) (of : Option Text)
  deriving DecidableEq

abbrev Row := List Cell

def bytesToBase64 (bytes : List UInt8) : Text := base64Text bytes

def base64ToBytes (b64 : Text) : List UInt8 := base64Bytes b64

def bytesCell (bytes : List UInt8) : Cell := .tagged .bytes (bytesToBase64 bytes) none

inductive BinaryEncoding where
  | base64 | hex
  deriving DecidableEq

def cellToText (binaryEncoding : BinaryEncoding) : Cell → Option Text
  | .null => none
  | .string text => some text
  | .number n => some n.text
  | .boolean value => some (units (if value then "true" else "false"))
  | .tagged .bytes v _ =>
      match binaryEncoding with
      | .base64 => some v
      | .hex => some (hexText (base64ToBytes v))
  | .tagged _ v _ => some v

theorem bytesCellInj {a b : List UInt8} (same : bytesCell a = bytesCell b) : a = b := by
  simp only [bytesCell, Cell.tagged.injEq, true_and, and_true] at same
  have back := congrArg base64Bytes same
  rwa [bytesToBase64, bytesToBase64, base64BytesText, base64BytesText] at back

end DatabaseAdmin.WireCells
