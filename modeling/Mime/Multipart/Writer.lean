import Mime.Disposition
import Mime.Headers
import Mime.Host
import Mime.Sink

/-! # Writing multipart messages

The form of a message: `--boundary` and a line break in front of each part, its header lines, an
empty line and its content; a line break in front of every delimiter but the first, and
`--boundary--` at the end.  A writer that never began a part writes nothing. -/

namespace Mime.Multipart

/-- The line break of a message. -/
def lineBreak : List Char := ['\r', '\n']

/-- A delimiter line in front of a part; all but the first follow a line break. -/
def openDelimiter (boundary : String) (first : Bool) : List Char :=
  (if first then [] else lineBreak) ++ ['-', '-'] ++ boundary.toList ++ lineBreak

/-- The delimiter behind the last part. -/
def closeDelimiter (boundary : String) : List Char :=
  lineBreak ++ ['-', '-'] ++ boundary.toList ++ ['-', '-']

/-- A header line. -/
def headerLine (header : String × String) : List Char :=
  header.1.toList ++ [':', ' '] ++ header.2.toList ++ lineBreak

/-- The header lines of a part, and the empty line behind them. -/
def headerBlock (headers : Headers) : List Char :=
  headers.entries.flatMap headerLine ++ lineBreak

/-- Refuses a text that cannot be a boundary. -/
def checkBoundary (boundary : String) : Except Error Unit :=
  if Boundary.isValid boundary.toList then .ok ()
  else .error (.structural (.badBoundary boundary))

/-- A writer of a message: its sink, its boundary, and whether it has begun a part. -/
structure Writer where
  sink : Sink
  boundary : String
  hasParts : Bool := false

namespace Writer

/-- A writer with a random boundary. -/
def new (sink : Sink) (host : Host) : Writer × Host :=
  let (boundary, host) := host.generateBoundary
  ({ sink, boundary }, host)

/-- A writer with a given boundary. -/
def withBoundary (sink : Sink) (boundary : String) : Except Error Writer := do
  checkBoundary boundary
  return { sink, boundary }

/-- Changes the boundary, as long as no part was begun. -/
def setBoundary (w : Writer) (boundary : String) : Except Error Writer := do
  if w.hasParts then throw (.structural .boundaryInUse)
  checkBoundary boundary
  return { w with boundary }

/-- The Content-Type value of the message, for a subtype of `multipart`. -/
def contentType (w : Writer) (sub : String) : String :=
  "multipart/" ++ sub ++ "; boundary=" ++ String.ofList (Field.quoteIfNeeded w.boundary.toList)

/-- Writes bytes as they are, such as the content of the part that was begun. -/
def write (w : Writer) (bytes : Bytes) : Except Error Unit × Writer :=
  let (result, sink) := w.sink.write bytes
  (result.mapError .io, { w with sink })

/-- Shuts the sink down. -/
def shutdown (w : Writer) : Except Error Unit × Writer :=
  let (result, sink) := w.sink.shutdown
  (result.mapError .io, { w with sink })

/-- Begins a part: writes its delimiter and its header block. -/
def createPart (w : Writer) (headers : Headers) : Except Error Unit × Writer :=
  match w.write (Utf8.encode (openDelimiter w.boundary (!w.hasParts) ++ headerBlock headers)) with
  | (.ok (), w) => (.ok (), { w with hasParts := true })
  | (.error e, w) => (.error e, w)

/-- Writes a form field as a part. -/
def writeField (w : Writer) (name value : String) : Except Error Unit × Writer :=
  let disposition := (Disposition.formField name).format
  match w.createPart (Headers.empty.append Headers.contentDisposition disposition) with
  | (.ok (), w) => w.write (Utf8.ofString value)
  | (.error e, w) => (.error e, w)

/-- Writes the last delimiter, if a part was begun. -/
def close (w : Writer) : Except Error Unit × Writer :=
  if w.hasParts then w.write (Utf8.encode (closeDelimiter w.boundary)) else (.ok (), w)

end Writer
end Mime.Multipart
