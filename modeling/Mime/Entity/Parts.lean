import Mime.Entity.Attach
import Mime.Entity.Consume
import Mime.Multipart.Reader

/-! # Parts from bytes

`Entity.parts` gives the parts of a composite entity.  Parts that still are bytes are read first,
and then stay in the entity instead of the bytes; parts of parts are read when they are asked for.
Whatever happens, the byte source is closed. -/

namespace Mime

/-- The number that digits stand for, if it fits in 64 bits; the first fault from the left
decides. -/
def lengthOfDigits : Nat → List Char → Except LengthError Nat
  | n, [] => .ok n
  | n, c :: rest =>
    if !c.isDigit then .error .invalidDigit
    else
      let n := n * 10 + (c.toNat - 48)
      if n < UInt64.size then lengthOfDigits n rest else .error .tooLarge

/-- The number that a decimal text stands for; a plus sign may stand in front. -/
def parseLength (text : List Char) : Except LengthError Nat :=
  match text with
  | [] => .error .empty
  | ['+'] => .error .invalidDigit
  | '+' :: digits => lengthOfDigits 0 digits
  | digits => lengthOfDigits 0 digits

/-- The declared length in headers. -/
def Headers.declaredLength (h : Headers) : Except Error (Option Nat) :=
  match h.get? Headers.contentLength with
  | none => .ok none
  | some text =>
    match parseLength (Text.trim text.toList) with
    | .ok n => .ok (some n)
    | .error reason => .error (.structural (.badContentLength text reason))

/-- What the header lines of a part say about it.  Without a Content-Type it holds bytes of which
nothing is known. -/
def Head.ofHeaders (h : Headers) : Except Error Head := do
  let contentLength ← h.declaredLength
  let contentId := (h.get? Headers.contentId).map fun id =>
    String.ofList (stripAngles (Text.trim id.toList))
  let mediaType ← MediaType.parse ((h.get? Headers.contentType).getD MediaType.octetStream)
  let disposition ← (h.get? Headers.contentDisposition).mapM Disposition.parse
  return { mediaType, disposition, contentId, contentLength, headers := h }

namespace Entity

open Multipart

/-- The entities that raw parts make up; those made so far are given last first.  If the headers
of a part are at fault, the content of all parts is closed. -/
def populate [Disk] (done : List Entity) (parts : List RawPart) (spills : Spills) :
    Except Error (List Entity) × Spills :=
  match parts with
  | [] => (.ok done.reverse, spills)
  | p :: rest =>
    match Head.ofHeaders p.headers with
    | .ok head => populate ({ head, body := .byteSource p.body } :: done) rest spills
    | .error e => (.error e, releaseParts done.reverse (closeParts rest (spills.release p.body)))

/-- Whether a Content-Type value starts with `multipart/`, but for letter case. -/
def namesMultipart (contentType : String) : Bool :=
  Text.sameName (String.ofList (contentType.toList.take 10)) "multipart/"

/-- The raw parts in a source whose Content-Type value declares the boundary. -/
def rawParts [Disk] (contentType : String) (limits : Limits) (source : ByteSource)
    (spills : Spills) : Except Error (List RawPart) × Spills :=
  match MediaType.parse contentType with
  | .error e => (.error e, spills)
  | .ok m =>
    match m.boundary? with
    | none => (.error (.structural .noBoundaryParameter), spills)
    | some boundary => decode boundary limits source spills

/-- Reads parts from a source and attaches them.  Nothing happens if the Content-Type value is not
that of a multipart message, and nothing is attached if there are no parts.  The source is left to
the caller. -/
def parseBody [Disk] (e : Entity) (host : Host) (contentType : String) (limits : Limits)
    (source : ByteSource) : Outcome Unit :=
  if !namesMultipart contentType then ⟨.ok (), e, host⟩
  else
    match rawParts contentType limits source host.spills with
    | (.error err, spills) => ⟨.error (.whileDecoding err), e, { host with spills }⟩
    | (.ok [], spills) => ⟨.ok (), e, { host with spills }⟩
    | (.ok raw, spills) =>
      match populate [] raw spills with
      | (.error err, spills) => ⟨.error (.whilePopulating err), e, { host with spills }⟩
      | (.ok parts, spills) =>
        let (e, host) := e.replaceBody { host with spills } (.partList parts)
        ⟨.ok (), e, host⟩

/-- The parts of a composite entity, read from its byte source if they still are bytes. -/
def parts [Disk] (e : Entity) (host : Host) (limits : Limits) : Outcome (List Entity) :=
  if !e.mediaType.isComposite then
    ⟨.error (.structural (.notComposite (e.mediaType.base?.getD ""))), e, host⟩
  else
    match e.body with
    | .byteSource source =>
      let o := (e.withBody .empty).parseBody host e.contentType limits source
      ⟨o.answer.map fun _ => o.entity.partList?.getD [], o.entity, o.host.release source⟩
    | body =>
      match body with
      | .partList parts => ⟨.ok parts, e, host⟩
      | _ => ⟨.ok [], e, host⟩

end Entity
end Mime
