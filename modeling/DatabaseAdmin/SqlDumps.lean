import DatabaseAdmin.ChangeStatements
import DatabaseAdmin.MysqlLoads
import DatabaseAdmin.SchemaModels
import DatabaseAdmin.TextWriters

/-! The literals of SQL dumps. -/
namespace DatabaseAdmin.SqlDumps
open CodeUnits BinaryText WireCells SchemaModels TextWriters
open MysqlLoads (octets)
open ChangeStatements (quoteQualified join)

def truthy (text : Option Text) : Option Text := text.filter (· ≠ [])

section Literals

def toHex (bytes : List UInt8) : Text := hexText bytes

def quoted (text : Text) : Text := apostrophe :: (text ++ [apostrophe])

def hexLiteral (hex : Text) : Text := units "X" ++ quoted hex

def binaryLiteral (bytes : List UInt8) (engine : EngineKind) (encoding : BinaryEncoding) (base64 : Text) : Except String Text :=
  match engine with
  | .postgres =>
      match encoding with
      | .base64 => .ok (units "decode(" ++ quoted base64 ++ units ", 'base64')")
      | .hex => .ok (quoted (units "\\x" ++ toHex bytes) ++ units "::bytea")
  | .mysql | .mariadb =>
      match encoding with
      | .base64 => .ok (units "FROM_BASE64(" ++ quoted base64 ++ units ")")
      | .hex => .ok (hexLiteral (toHex bytes))
  | .sqlite => .ok (hexLiteral (toHex bytes))
  | engine => .error ("binaryLiteral: engine \"" ++ engine.name ++ "\" has no SQL literal syntax")

def nulSafeStringLiteral (value : Text) (engine : EngineKind) : Except String Text :=
  let hex := toHex (octets value)
  match engine with
  | .mysql | .mariadb => .ok (units "CONVERT(" ++ hexLiteral hex ++ units " USING utf8mb4)")
  | .sqlite => .ok (units "CAST(" ++ hexLiteral hex ++ units " AS TEXT)")
  | engine => .error ("sqlLiteral: value contains a NUL byte, which " ++ engine.name ++ " cannot represent in a text literal")

def isBase64Unit (c : CodeUnit) : Bool :=
  (65 ≤ c && c ≤ 90) || (97 ≤ c && c ≤ 122) || isDigit c || c == 43 || c == 47

def isAsciiSpace (c : CodeUnit) : Bool := c == 9 || c == 10 || c == 12 || c == 13 || c == 32

def atobReads (text : Text) : Bool :=
  let dense := text.filter fun c => !isAsciiSpace c
  let data := if dense.length % 4 ≠ 0 then dense else if dense.drop (dense.length - 2) = [BinaryText.padding, BinaryText.padding] then
    dense.take (dense.length - 2) else if dense.getLast? = some BinaryText.padding then dense.dropLast else dense
  data.length % 4 ≠ 1 && data.all isBase64Unit

def bitToken (text : Text) : Bool := text ≠ [] && text.all fun c => c == 48 || c == 49

def textLiteral (text : Text) (engine : EngineKind) : Except String Text :=
  if text.contains 0 then nulSafeStringLiteral text engine else quoteLiteral (.string text) engine

def sqlLiteral (engine : EngineKind) (encoding : BinaryEncoding) : Cell → Except String Text
  | .null => .ok (units "NULL")
  | .boolean value => quoteLiteral (.boolean value) engine
  | .number n =>
      if n.finite then .ok n.text
      else .error ("quoteLiteral: " ++ String.ofList (n.text.map Char.ofNat) ++ " has no portable SQL literal")
  | .string text => textLiteral text engine
  | .tagged .bytes v _ =>
      if atobReads v then binaryLiteral (base64ToBytes v) engine encoding v
      else .error "The string to be decoded is not correctly encoded."
  | .tagged .bigint v _ | .tagged .decimal v _ | .tagged .decimal128 v _ =>
      if numericToken v then .ok v else quoteLiteral (.string v) engine
  | .tagged .bit v _ =>
      if !bitToken v then quoteLiteral (.string v) engine
      else if isMysqlFamily engine then .ok (units "b" ++ quoted v)
      else if engine = .postgres then .ok (units "B" ++ quoted v)
      else quoteLiteral (.string v) engine
  | .tagged .unsupported _ of =>
      .error ("sqlLiteral: value of type \"" ++ String.ofList ((of.getD (units "unsupported")).map Char.ofNat) ++
        "\" cannot be represented as a SQL literal")
  | .tagged _ v _ => textLiteral v engine

end Literals

end DatabaseAdmin.SqlDumps
