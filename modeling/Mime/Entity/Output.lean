import Mime.Entity.Encode

/-! # Writing bodies

`Entity.writeBody` writes the body of an entity to a sink, whatever its representation.  A byte
source is copied and detached, a value is written and kept, a part list becomes a multipart
message, and a live stream is drained.  Draining shuts the sink down at the end of the stream, and
also, as well as it can, when the producer fails. -/

namespace Mime.Entity

/-- What was being done when a body could not be written. -/
def writingFailure (e : IoError) : Error :=
  .io (e.during "Error occurred while writing the stream content")

/-- What was being done when a producer failed. -/
def streamingFailure (e : IoError) : Error :=
  .io (e.during "Error occurred while streaming content")

/-- Writes all items of a live stream up to the first failure, and shuts the sink down unless it
failed itself. -/
def drain [Disk] (stream : LiveStream) (o : Output) : Except Error Unit × Output :=
  let host := o.host.releaseStream stream
  match o.sink.copy stream.arrivals with
  | (.error (.sink e), sink) => (.error (writingFailure e), ⟨sink, host⟩)
  | (.error (.source e), sink) => (.error (streamingFailure e), ⟨sink.shutdown.2, host⟩)
  | (.ok (), sink) =>
    let (result, sink) := sink.shutdown
    (result.mapError writingFailure, ⟨sink, host⟩)

/-- Writes the body. -/
def writeBody [Disk] (e : Entity) (o : Output) : Except Error Unit × Entity × Output :=
  match e.body with
  | .empty => (.ok (), e, o)
  | .dataSource data =>
    let (result, sink) := o.sink.write data.toBytes
    (result.mapError writingFailure, e, { o with sink })
  | .partList _ =>
    let (boundary, e, host) := e.ensureBoundary o.host
    e.serialize boundary { o with host }
  | .byteSource source =>
    let (copied, sink) := o.sink.copy source.arrivals
    let (closed, host) := o.host.close source
    let copied := copied.mapError fun err => writingFailure err.cause
    (copied.bind fun _ => closed.mapError .io, e.withBody .empty, ⟨sink, host⟩)
  | .liveStream stream =>
    let (result, o) := drain stream o
    (result, e.withBody .empty, o)

end Mime.Entity
