import Mime.Charset.Codec
import Mime.Entity.Basic
import Mime.Json.Parse
import Mime.Xml.Document

/-! # Reading bodies

Bytes are read from a byte source once: reading them all detaches it and closes it, whether the
reading succeeds or not, and reading them chunk by chunk does so at the end.  A byte source can
also be turned into a live stream. -/

namespace Mime.Entity

/-- The byte source, if the body is one. -/
def byteSource? (e : Entity) : Option ByteSource :=
  match e.body with
  | .byteSource source => some source
  | _ => none

/-- The value, if the body is one. -/
def dataSource? (e : Entity) : Option DataSource :=
  match e.body with
  | .dataSource data => some data
  | _ => none

/-- The live stream, if the body is one. -/
def liveStream? (e : Entity) : Option LiveStream :=
  match e.body with
  | .liveStream stream => some stream
  | _ => none

/-- The parts, if the body is a part list. -/
def partList? (e : Entity) : Option (List Entity) :=
  match e.body with
  | .partList parts => some parts
  | _ => none

/-- The live stream of an entity of the type of server-sent events. -/
def eventStream? (e : Entity) : Option LiveStream :=
  if e.mediaType.is MediaType.eventStream then e.liveStream? else none

/-- Why a body of some kind has no byte source. -/
def missingByteSource : BodyKind → Error
  | .dataSource => .structural .sourceMaterialized
  | .partList => .structural .sourceDecoded
  | .liveStream => .structural .sourceLive
  | .empty | .byteSource => .noContent .byteSource

/-- The byte source, or why there is none. -/
def requireByteSource (e : Entity) : Except Error ByteSource :=
  match e.body with
  | .byteSource source => .ok source
  | body => .error (missingByteSource body.kind)

/-- Detaches the byte source and closes it, if there is one. -/
def closeByteSource [Disk] (e : Entity) (host : Host) : Outcome Unit :=
  match e.body with
  | .byteSource source =>
    let (result, host) := host.close source
    ⟨result.mapError .io, e.withBody .empty, host⟩
  | _ => ⟨.ok (), e, host⟩

/-- Reads all bytes of the byte source, which is gone then.  A failure to read counts before one to
close. -/
def readAllBytes [Disk] (e : Entity) (host : Host) (missing : MissingContent) : Outcome Bytes :=
  match e.body with
  | .byteSource source =>
    let (closed, host) := host.close source
    let answer := do
      let bytes ← source.readAll
      closed
      return bytes
    ⟨answer.mapError .io, e.withBody .empty, host⟩
  | _ => ⟨.error (.noContent missing), e, host⟩

/-- Reads all bytes and makes something of them. -/
def readWith [Disk] {α : Type} (e : Entity) (host : Host) (missing : MissingContent)
    (make : Bytes → Except Error α) : Outcome α :=
  let o := e.readAllBytes host missing
  ⟨o.answer.bind make, o.entity, o.host⟩

/-- Reads the bytes. -/
def readBytes [Disk] (e : Entity) (host : Host) : Outcome Bytes :=
  e.readAllBytes host .bytes

/-- Reads the bytes as text in the declared charset. -/
def readText [Disk] [Charset.Codecs] (e : Entity) (host : Host) : Outcome String :=
  e.readWith host .text fun bytes => Charset.decodeText bytes e.mediaType.charset?

/-- The text of bytes in a charset, unless there is nothing but white space. -/
def contentText [Charset.Codecs] (missing : MissingContent) (charset : Option String)
    (bytes : Bytes) : Except Error String := do
  let text ← Charset.decodeText bytes charset
  if Text.isBlank text.toList then throw (.noContent missing)
  return text

/-- Reads the bytes as a JSON document. -/
def readJson [Disk] [Charset.Codecs] (e : Entity) (host : Host) : Outcome Json.Value :=
  e.readWith host .json fun bytes => do
    let text ← contentText .json e.mediaType.charset? bytes
    match Json.parse? text with
    | some v => return v
    | none => throw .json

/-- Reads the bytes as a single XML document. -/
def readXml [Disk] [Charset.Codecs] (e : Entity) (host : Host) : Outcome String :=
  e.readWith host .xml fun bytes => do
    let text ← contentText .xml e.mediaType.charset? bytes
    match Xml.check text.toList with
    | .ok () => return text
    | .error err => throw (.xml err)

/-- Reads up to `n` bytes from the byte source, without regard to its end; `none` where there is
no byte source. -/
def readSome (e : Entity) (n : Nat) : Option (Except IoError Bytes) × Entity :=
  match e.body with
  | .byteSource source =>
    let (result, source) := source.read n
    (some result, e.withBody (.byteSource source))
  | _ => (none, e)

/-- Reads the next chunk of up to `n` bytes, and of one at least; at the end there is none, and the
byte source is closed. -/
def nextChunk [Disk] (e : Entity) (host : Host) (n : Nat) : Outcome (Option Bytes) :=
  match e.body with
  | .byteSource source =>
    match source.read (max n 1) with
    | (.error err, source) => ⟨.error (.io err), e.withBody (.byteSource source), host⟩
    | (.ok [], source) =>
      let o := (e.withBody (.byteSource source)).closeByteSource host
      ⟨o.answer.map fun _ => none, o.entity, o.host⟩
    | (.ok bytes, source) => ⟨.ok (some bytes), e.withBody (.byteSource source), host⟩
  | body => ⟨.error (missingByteSource body.kind), e, host⟩

/-- Makes a byte source a live stream of chunks of up to `size` bytes; a live stream stays as it
is. -/
def byteStream (e : Entity) (size : Nat) : Except Error Entity :=
  match e.body with
  | .byteSource source => .ok (e.withBody (.liveStream (.ofSource size source)))
  | .liveStream _ => .ok e
  | body => .error (missingByteSource body.kind)

/-- Takes the next item of the live stream; `none` at its end, or where there is none. -/
def pull [Disk] (e : Entity) (host : Host) : Option Arrival × Entity × Host :=
  match e.body with
  | .liveStream stream =>
    let (item, stream, spills) := stream.pull host.spills
    (item, e.withBody (.liveStream stream), { host with spills })
  | _ => (none, e, host)

end Mime.Entity
