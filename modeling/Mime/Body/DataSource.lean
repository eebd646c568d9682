import Mime.Json.Print
import Mime.Text.Utf8

/-! # Materialized values

A value that is held as a whole and can be read again and again. -/

namespace Mime

/-- A materialized value.  XML is kept as text. -/
inductive DataValue where
  | text (s : String)
  | json (v : Json.Value)
  | xml (s : String)
  | binary (bytes : Bytes)

/-- A materialized value, and whether it is written as JSON. -/
structure DataSource where
  value : DataValue
  asJson : Bool

/-- The bytes of the value.  A JSON string that is not written as JSON is written bare; text and
XML are written in UTF-8. -/
def DataSource.toBytes (d : DataSource) : Bytes :=
  match d.value with
  | .json (.string s) => if d.asJson then Utf8.encode (Json.stringText s) else Utf8.ofString s
  | .json v => Utf8.encode v.text
  | .text s | .xml s => Utf8.ofString s
  | .binary bytes => bytes

end Mime
