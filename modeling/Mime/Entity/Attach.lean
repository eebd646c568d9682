import Mime.Entity.Basic
import Mime.Xml.Document

/-! # Attaching bodies

Each of these operations gives an entity a body and a media type: the one asked for, or else the
usual one of such a body.  A media type that cannot be read, or a text that is no XML document,
leaves the entity as it is; then the new body is closed.  Otherwise the old one is. -/

namespace Mime.Entity

/-- Attaches a body under a media type, or else under the usual one. -/
def attach [Disk] (e : Entity) (host : Host) (contentType : Option String) (usual : String)
    (body : Body Entity) : Outcome Unit :=
  match MediaType.parse (contentType.getD usual) with
  | .error err => ⟨.error err, e, host.releaseBody body⟩
  | .ok m => ⟨.ok (), (e.withMediaType m).withBody body, host.releaseBody e.body⟩

/-- Replaces the body and closes the old one. -/
def replaceBody [Disk] (e : Entity) (host : Host) (body : Body Entity) : Entity × Host :=
  (e.withBody body, host.releaseBody e.body)

/-- Attaches a byte source. -/
def setByteSource [Disk] (e : Entity) (host : Host) (source : ByteSource)
    (contentType : Option String) : Outcome Unit :=
  e.attach host contentType MediaType.octetStream (.byteSource source)

/-- The usual media type of a value. -/
def usualType : DataValue → String
  | .text _ => "text/plain"
  | .json _ => "application/json"
  | .xml _ => "application/xml"
  | .binary _ => MediaType.octetStream

/-- Attaches a materialized value. -/
def setDataSource [Disk] (e : Entity) (host : Host) (data : DataSource)
    (contentType : Option String) : Outcome Unit :=
  e.attach host contentType (usualType data.value) (.dataSource data)

/-- Attaches a text. -/
def setText [Disk] (e : Entity) (host : Host) (text : String) (contentType : Option String) :
    Outcome Unit :=
  e.setDataSource host ⟨.text text, false⟩ contentType

/-- Attaches a JSON value, to be written as JSON. -/
def setJson [Disk] (e : Entity) (host : Host) (v : Json.Value) (contentType : Option String) :
    Outcome Unit :=
  e.setDataSource host ⟨.json v, true⟩ contentType

/-- Attaches a single XML document. -/
def setXml [Disk] (e : Entity) (host : Host) (xml : String) (contentType : Option String) :
    Outcome Unit :=
  match Xml.check xml.toList with
  | .error err => ⟨.error (.xml err), e, host⟩
  | .ok () => e.setDataSource host ⟨.xml xml, false⟩ contentType

/-- Attaches bytes as a value. -/
def setByteArray [Disk] (e : Entity) (host : Host) (bytes : Bytes) (contentType : Option String) :
    Outcome Unit :=
  e.setDataSource host ⟨.binary bytes, false⟩ contentType

/-- Attaches parts. -/
def setParts [Disk] (e : Entity) (host : Host) (parts : List Entity) (contentType : Option String) :
    Outcome Unit :=
  e.attach host contentType MediaType.formData (.partList parts)

/-- Attaches a live stream. -/
def setLiveStream [Disk] (e : Entity) (host : Host) (stream : LiveStream)
    (contentType : Option String) : Outcome Unit :=
  e.attach host contentType MediaType.octetStream (.liveStream stream)

end Mime.Entity
