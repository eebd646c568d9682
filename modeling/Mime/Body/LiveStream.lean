import Mime.Body.ByteSource

/-! # Live streams

A live stream hands out chunks one by one and cannot be restarted.  It is either a producer's, or
it cuts a byte source into chunks; then it holds the source until the end or a failure. -/

namespace Mime

/-- A sequence of chunks.  `sliced size room source` cuts a source: a chunk is what one read brings
into a buffer of `size` bytes, of which `room` bytes are still free. -/
inductive LiveStream where
  | producer (items : List Arrival)
  | sliced (size room : Nat) (source : Option ByteSource)

namespace LiveStream

/-- The chunks of a source, of at most `size` bytes each. -/
def ofSource (size : Nat) (source : ByteSource) : LiveStream :=
  .sliced (max size 1) 0 (some source)

/-- The source that the stream holds. -/
def source? : LiveStream → Option ByteSource
  | .producer _ => none
  | .sliced _ _ source => source

/-- What the stream still has to hand out, as it arrives. -/
def arrivals : LiveStream → List Arrival
  | .producer items => items
  | .sliced _ _ (some source) => source.arrivals
  | .sliced _ _ none => []

/-- Takes the next chunk or failure; `none` at the end.  A source that has ended or failed is closed
at once. -/
def pull [Disk] (stream : LiveStream) (spills : Spills) : Option Arrival × LiveStream × Spills :=
  match stream with
  | .producer [] => (none, .producer [], spills)
  | .producer (item :: items) => (some item, .producer items, spills)
  | .sliced size room none => (none, .sliced size room none, spills)
  | .sliced size room (some source) =>
    let free := if room = 0 then size else room
    match source.read free with
    | (.error e, source) => (some (.error e), .sliced size free none, spills.release source)
    | (.ok [], source) => (none, .sliced size free none, spills.release source)
    | (.ok bytes, source) =>
      (some (.ok bytes), .sliced size (free - bytes.length) (some source), spills)

end LiveStream

/-- Drops a stream: a source that it still holds is closed. -/
def Spills.releaseStream [Disk] (s : Spills) (stream : LiveStream) : Spills :=
  match stream.source? with
  | some source => s.release source
  | none => s

end Mime
