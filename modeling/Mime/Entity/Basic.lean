import Mime.Body.DataSource
import Mime.Body.LiveStream
import Mime.Disposition
import Mime.Headers
import Mime.Host
import Mime.MediaType
import Mime.Text.Whitespace

/-! # Entities

An entity is a message or a part of one: a head, which says what it is, and a body, which is in
exactly one of five representations.  A part list holds entities in turn.  Giving a body up closes
every source in it, at any depth; that a spill file cannot be removed then is not reported. -/

namespace Mime

/-- The body of an entity whose parts are of type `α`. -/
inductive Body (α : Type) where
  | empty
  | byteSource (source : ByteSource)
  | dataSource (data : DataSource)
  | partList (parts : List α)
  | liveStream (stream : LiveStream)

/-- Which representation a body is in. -/
def Body.kind {α : Type} : Body α → BodyKind
  | .empty => .empty
  | .byteSource _ => .byteSource
  | .dataSource _ => .dataSource
  | .partList _ => .partList
  | .liveStream _ => .liveStream

/-- What an entity says about itself.  The headers of a part that was read are all its header
lines; where it is written, the other fields win over header lines of the same name. -/
structure Head where
  mediaType : MediaType := MediaType.unset
  disposition : Option Disposition := none
  contentId : Option String := none
  contentLength : Option Nat := none
  headers : Headers := Headers.empty
deriving DecidableEq, Repr

/-- A content id without the angle brackets around it. -/
def Head.stripAngles (id : List Char) : List Char :=
  Text.dropEndWhile (· == '>') (id.dropWhile (· == '<'))

/-- A message or a part of one. -/
structure Entity where
  head : Head := {}
  body : Body Entity := .empty

namespace Entity

/-- An entity that says nothing and holds nothing. -/
def new : Entity := {}

/-- Which representation the body is in. -/
def kind (e : Entity) : BodyKind :=
  e.body.kind

/-- Whether there is a body. -/
def hasBody (e : Entity) : Bool :=
  e.kind != .empty

/-- Whether the body still has to be streamed: it is a byte source or a part list. -/
def requiresStreaming (e : Entity) : Bool :=
  e.kind == .byteSource || e.kind == .partList

/-- The media type of the entity. -/
def mediaType (e : Entity) : MediaType :=
  e.head.mediaType

/-- The entity with another media type. -/
def withMediaType (e : Entity) (m : MediaType) : Entity :=
  { e with head := { e.head with mediaType := m } }

/-- The entity with another body; the old one is not closed. -/
def withBody (e : Entity) (b : Body Entity) : Entity :=
  { e with body := b }

/-- The Content-Type value; empty where no type is set. -/
def contentType (e : Entity) : String :=
  e.mediaType.format

/-- Sets the media type that a text says; one that cannot be read changes nothing. -/
def setContentType (e : Entity) (contentType : String) : Except Error Entity :=
  (MediaType.parse contentType).map e.withMediaType

/-- The declared length as a signed number of 64 bits; -1 where it is unknown or too large. -/
def size (e : Entity) : Int :=
  match e.head.contentLength with
  | some n => if n < UInt64.size / 2 then n else -1
  | none => -1

end Entity

/-! ### Closing bodies -/

mutual

/-- The spill files that are left when an entity is given up. -/
def Entity.release [Disk] (e : Entity) (spills : Spills) : Spills :=
  match e with
  | ⟨_, body⟩ => releaseBody body spills

/-- The spill files that are left when a body is given up. -/
def releaseBody [Disk] (b : Body Entity) (spills : Spills) : Spills :=
  match b with
  | .empty | .dataSource _ => spills
  | .byteSource source => spills.release source
  | .partList parts => releaseParts parts spills
  | .liveStream stream => spills.releaseStream stream

/-- The spill files that are left when parts are given up. -/
def releaseParts [Disk] (parts : List Entity) (spills : Spills) : Spills :=
  match parts with
  | [] => spills
  | p :: rest => releaseParts rest (p.release spills)

end

/-- The host that is left when a body is given up. -/
def Host.releaseBody [Disk] (h : Host) (b : Body Entity) : Host :=
  { h with spills := Mime.releaseBody b h.spills }

/-- Closes a source. -/
def Host.close [Disk] (h : Host) (s : ByteSource) : Except IoError Unit × Host :=
  let (result, spills) := h.spills.close s
  (result, { h with spills })

/-- The host that is left when a source is closed and nobody asks whether that fails. -/
def Host.release [Disk] (h : Host) (s : ByteSource) : Host :=
  (h.close s).2

/-- The host that is left when a stream is dropped. -/
def Host.releaseStream [Disk] (h : Host) (s : LiveStream) : Host :=
  { h with spills := h.spills.releaseStream s }

/-- What an operation leaves: its answer, and the entity and the host after it.  These are there
when the answer is an error as well. -/
structure Outcome (α : Type) where
  answer : Except Error α
  entity : Entity
  host : Host

end Mime
