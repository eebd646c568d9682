import Mime.Entity.Attach
import Mime.Multipart.Writer

/-! # Writing parts

`Entity.serialize` writes the part list of an entity as a multipart message.  Each part is written
with the header lines that its head gives and then its body; a list of parts in it becomes a
message of its own.  Sources and streams are used up by it and detached; values stay.  On failure
what was not reached is left as it was. -/

namespace Mime

/-- The media type with a boundary, and the boundary: the one it declares, or a random one. -/
def Head.withBoundary (h : Head) (host : Host) : String × Head × Host :=
  match h.mediaType.boundary? with
  | some boundary => (boundary, h, host)
  | none =>
    let (boundary, host) := host.generateBoundary
    (boundary, { h with mediaType := h.mediaType.withParameter "boundary" boundary }, host)

/-- The header lines that the fields of a head give, as far as they are not empty.  Without a type
a disposition is that of a form field, if the part is in a form or is one. -/
def Head.fieldLines (h : Head) (inForm : Bool) : List (String × String) :=
  let disposition := h.disposition.map fun d =>
    if d.type.isEmpty && (inForm || h.mediaType.is MediaType.formData) then
      { d with type := "form-data" }.format
    else d.format
  let id := h.contentId.map fun id =>
    if id.isEmpty then "" else "<" ++ String.ofList (stripAngles id.toList) ++ ">"
  let lines := [(Headers.contentDisposition, disposition.getD ""),
    (Headers.contentType, h.mediaType.format), (Headers.contentId, id.getD "")]
  lines.filter fun line => !line.2.isEmpty

/-- Whether a header is written from a field of the head. -/
def Headers.isField (name : String) : Bool :=
  [Headers.contentType, Headers.contentDisposition, Headers.contentId].any (Text.sameName · name)

/-- The header lines of a part: those of its fields, and then all others in order. -/
def Head.partHeaders (h : Head) (inForm : Bool) : Headers :=
  ⟨h.fieldLines inForm ++ h.headers.entries.filter fun line => !Headers.isField line.1⟩

/-- Where output goes, and what it draws on. -/
structure Output where
  sink : Sink
  host : Host

namespace Output

/-- Writes bytes. -/
def write (o : Output) (bytes : Bytes) : Except Error Unit × Output :=
  let (result, sink) := o.sink.write bytes
  (result.mapError .io, { o with sink })

/-- Writes what arrives. -/
def copy (o : Output) (arrivals : List Arrival) : Except Error Unit × Output :=
  let (result, sink) := o.sink.copy arrivals
  (result.mapError fun e => .io e.cause, { o with sink })

end Output

namespace Entity

open Multipart

mutual

/-- Writes the body of a part, whose parts, if it has any, are delimited by a boundary, or else by
a random one.  What is left of the body is given back. -/
def writePartBody [Disk] (boundary : Option String) (inForm : Bool) (body : Body Entity)
    (o : Output) : Except Error Unit × Body Entity × Output :=
  match body with
  | .empty => (.ok (), .empty, o)
  | .dataSource data =>
    let (result, o) := o.write data.toBytes
    (result, .dataSource data, o)
  | .partList parts =>
    let (boundary, host) := match boundary with
      | some boundary => (boundary, o.host)
      | none => o.host.generateBoundary
    let (result, parts, o) := writeParts boundary inForm true parts { o with host }
    (result, .partList parts, o)
  | .liveStream stream =>
    let (result, o) := o.copy stream.arrivals
    (result, .empty, { o with host := o.host.releaseStream stream })
  | .byteSource source =>
    let (copied, o) := o.copy source.arrivals
    let (closed, host) := o.host.close source
    (copied.bind fun _ => closed.mapError .io, .empty, { o with host })

/-- Writes parts with their delimiters; `first` says that none was written yet.  Nothing is
written where there are none at all.  What is left of the parts is given back. -/
def writeParts [Disk] (boundary : String) (inForm first : Bool) (parts : List Entity) (o : Output) :
    Except Error Unit × List Entity × Output :=
  match parts with
  | [] =>
    if first then (.ok (), [], o)
    else
      let (result, o) := o.write (Utf8.encode (closeDelimiter boundary))
      (result, [], o)
  | ⟨head, body⟩ :: rest =>
    match if first then checkBoundary boundary else .ok () with
    | .error e => (.error e, ⟨head, body⟩ :: rest, o)
    | .ok () =>
      let (nested, head, host) :=
        if body.kind = .partList ∧ head.mediaType.isMultipart then
          let (nested, head, host) := head.withBoundary o.host
          (some nested, head, host)
        else (none, head, o.host)
      let lines := openDelimiter boundary first ++ headerBlock (head.partHeaders inForm)
      match { o with host }.write (Utf8.encode lines) with
      | (.error e, o) => (.error e, ⟨head, body⟩ :: rest, o)
      | (.ok (), o) =>
        match writePartBody nested (head.mediaType.is MediaType.formData) body o with
        | (.error e, body, o) => (.error e, ⟨head, body⟩ :: rest, o)
        | (.ok (), body, o) =>
          let (result, rest, o) := writeParts boundary inForm false rest o
          (result, ⟨head, body⟩ :: rest, o)

end

/-- Writes the part list of an entity as a multipart message with the given boundary.  An entity
without a body writes nothing. -/
def serialize [Disk] (e : Entity) (boundary : String) (o : Output) :
    Except Error Unit × Entity × Output :=
  match e.body with
  | .partList parts =>
    let (result, parts, o) :=
      writeParts boundary (e.mediaType.is MediaType.formData) true parts o
    (result, e.withBody (.partList parts), o)
  | .empty => (.ok (), e, o)
  | body => (.error (.structural (.notAPartList body.kind)), e, o)

/-- The entity with a boundary in its media type, and the boundary. -/
def ensureBoundary (e : Entity) (host : Host) : String × Entity × Host :=
  let (boundary, head, host) := e.head.withBoundary host
  (boundary, { e with head }, host)

/-- Replaces the part list by its written form, as a byte source in memory. -/
def encodeParts [Disk] (e : Entity) (host : Host) : Outcome Unit :=
  if !e.mediaType.isMultipart then
    ⟨.error (.structural (.notMultipart (e.mediaType.base?.getD ""))), e, host⟩
  else
    let (boundary, e, host) := e.ensureBoundary host
    match e.serialize boundary ⟨Sink.unlimited, host⟩ with
    | (.error err, e, o) => ⟨.error err, e, o.host⟩
    | (.ok (), e, o) =>
      let (e, host) := e.replaceBody o.host (.byteSource (.ofBytes o.sink.data))
      ⟨.ok (), e, host⟩

end Entity
end Mime
