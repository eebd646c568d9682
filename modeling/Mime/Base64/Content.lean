import Mime.Base64
import Mime.Body.ByteSource
import Mime.Charset.Codec

/-! # Text and sources in Base64

A text is written in a charset first and in Base64 then, and read the other way round.  A source is
read to its end, whatever comes of it, and becomes one in memory. -/

namespace Mime.Base64

/-- The Base64 form of bytes, which is ASCII. -/
def encodeToString (bytes : Bytes) : String :=
  String.ofList ((encode bytes).map fun b => Char.ofNat b.toNat)

/-- The bytes that a Base64 text stands for. -/
def decode (text : Bytes) : Except Error Bytes :=
  match decode? text with
  | some bytes => .ok bytes
  | none => .error (.decode .base64)

/-- Writes text in the declared charset, as Base64. -/
def encodeText [Charset.Codecs] (text : String) (charset : Option String) : Except Error String :=
  (Charset.encodeText text charset).map encodeToString

/-- Reads Base64 as text in the declared charset. -/
def decodeText [Charset.Codecs] (content : String) (charset : Option String) :
    Except Error String := do
  let bytes ← decode (Utf8.ofString content)
  Charset.decodeText bytes charset

/-- The Base64 form of a source, as a new source. -/
def encodeSource (source : ByteSource) : Except Error ByteSource :=
  match source.readAll with
  | .error e => .error (.io e)
  | .ok bytes => .ok (.ofBytes (encode bytes))

/-- The source of the bytes that another source holds in Base64. -/
def decodeSource (source : ByteSource) : Except Error ByteSource :=
  match source.readAll with
  | .error e => .error (.io e)
  | .ok text => (decode text).map .ofBytes

end Mime.Base64
