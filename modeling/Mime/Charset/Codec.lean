import Mime.Charset.Label
import Mime.Error
import Mime.Text.Utf8

/-! # Text in a charset

`Charset.decode?` and `Charset.encode?` between bytes and text.  Malformed input and characters
that a charset lacks are failures, never replaced; a byte order mark is a character like any other.
Text for UTF-16 and for the replacement charset is written in UTF-8, as the Encoding Standard has
it for output.

The tables of the multi-byte charsets are not part of the library.  Whoever reads or writes text
brings a codec for each of them (`Codecs`). -/

namespace Mime.Charset

/-- A way to read text and to write it; `none` stands for malformed bytes and for text that cannot
be written. -/
structure Codec where
  decode? : Bytes → Option (List Char)
  encode? : List Char → Option Bytes

/-- The codecs of the multi-byte charsets. -/
class Codecs where
  codec : MultiByte → Codec

/-- The character of a code point of a table, where 0 stands for none. -/
def charOfPoint? (point : Nat) : Option Char :=
  if point = 0 then none else some (Char.ofNat point)

/-- The character of a byte in a single-byte charset with the given upper half. -/
def decodeByte? (upper : List Nat) (b : UInt8) : Option Char :=
  if b < 0x80 then some (Char.ofNat b.toNat)
  else (upper[b.toNat - 0x80]?).bind charOfPoint?

/-- The byte of a character in a single-byte charset with the given upper half. -/
def encodeChar? (upper : List Nat) (c : Char) : Option UInt8 :=
  if c.toNat < 0x80 then some (UInt8.ofNat c.toNat)
  else (upper.findIdx? (· == c.toNat)).map fun i => UInt8.ofNat (0x80 + i)

/-- The text of UTF-16, after what was read (last first): a unit outside the surrogates is a
character, and so is a high surrogate with the low surrogate after it. -/
def decodeUtf16From (bigEndian : Bool) (done : List Char) : Bytes → Option (List Char)
  | [] => some done.reverse
  | [_] => none
  | a :: b :: rest =>
    let unit := wordOf a b
    if unit < 0xD800 ∨ 0xE000 ≤ unit then
      decodeUtf16From bigEndian (Char.ofNat unit :: done) rest
    else if 0xDC00 ≤ unit then none
    else
      match rest with
      | c :: d :: rest =>
        let low := wordOf c d
        if 0xDC00 ≤ low ∧ low < 0xE000 then
          let point := 0x10000 + (unit - 0xD800) * 0x400 + (low - 0xDC00)
          decodeUtf16From bigEndian (Char.ofNat point :: done) rest
        else none
      | _ => none
where
  wordOf (a b : UInt8) : Nat :=
    if bigEndian then a.toNat * 256 + b.toNat else b.toNat * 256 + a.toNat

/-- The charset that text for a charset is written in. -/
def output (charset : Charset) : Charset :=
  match charset.scheme with
  | .utf16 _ | .replacement => utf8
  | .utf8 | .singleByte _ | .multiByte _ => charset

variable [Codecs]

/-- The text that bytes stand for; `none` if they are malformed. -/
def decode? (charset : Charset) (bytes : Bytes) : Option (List Char) :=
  match charset.scheme with
  | .utf8 => Utf8.decode? bytes
  | .utf16 bigEndian => decodeUtf16From bigEndian [] bytes
  | .singleByte upper => bytes.mapM (decodeByte? upper.codePoints)
  | .multiByte m => (Codecs.codec m).decode? bytes
  | .replacement => if bytes.isEmpty then some [] else none

/-- The bytes of a text; `none` if the charset lacks one of its characters. -/
def encode? (charset : Charset) (text : List Char) : Option Bytes :=
  match charset.scheme with
  | .utf8 | .utf16 _ | .replacement => some (Utf8.encode text)
  | .singleByte upper => text.mapM (encodeChar? upper.codePoints)
  | .multiByte m => (Codecs.codec m).encode? text

/-- Reads text in the declared charset. -/
def decodeText (bytes : Bytes) (declared : Option String) : Except Error String :=
  match ofDeclaration? declared with
  | none => .error (.decode (.unsupportedCharset (declared.getD "")))
  | some charset =>
    match charset.decode? bytes with
    | none => .error (.decode (.malformed charset.name))
    | some text => .ok (String.ofList text)

/-- Writes text in the declared charset. -/
def encodeText (text : String) (declared : Option String) : Except Error Bytes :=
  match ofDeclaration? declared with
  | none => .error (.encode (.unsupportedCharset (declared.getD "")))
  | some charset =>
    match charset.encode? text.toList with
    | none => .error (.encode (.unrepresentable charset.output.name))
    | some bytes => .ok bytes

end Mime.Charset
