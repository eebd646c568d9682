import Mime.Body.ByteSource

/-! # Sinks

Where output goes.  A sink may accept a limited number of bytes and fail from then on, and its
shutdown may fail.  A write that does not fit is accepted up to the limit before it fails. -/

namespace Mime

/-- The number of bytes a sink still accepts, and the failure of every write beyond them. -/
structure SinkLimit where
  room : Nat
  failure : IoError
deriving DecidableEq, Repr

/-- A sink: the bytes that were written to it (last first), how it fails, and how often it was shut
down. -/
structure Sink where
  written : Bytes := []
  limit : Option SinkLimit := none
  shutdownFailure : Option IoError := none
  shutdowns : Nat := 0

/-- What stopped a copy: the source or the sink. -/
inductive CopyFailure where
  | source (e : IoError)
  | sink (e : IoError)

/-- The failure itself. -/
def CopyFailure.cause : CopyFailure → IoError
  | .source e | .sink e => e

namespace Sink

/-- The bytes that were written, in order. -/
def data (s : Sink) : Bytes :=
  s.written.reverse

/-- Whether the sink was shut down. -/
def isShutDown (s : Sink) : Bool :=
  0 < s.shutdowns

/-- The sink with further bytes in it, whether it accepts them or not. -/
def push (s : Sink) (bytes : Bytes) : Sink :=
  { s with written := bytes.reverse ++ s.written }

/-- Writes bytes in order, as many as the sink accepts. -/
def write (s : Sink) (bytes : Bytes) : Except IoError Unit × Sink :=
  match s.limit with
  | none => (.ok (), s.push bytes)
  | some limit =>
    let accepted := bytes.take limit.room
    let s := { s.push accepted with
      limit := some { limit with room := limit.room - accepted.length } }
    if accepted.length = bytes.length then (.ok (), s) else (.error limit.failure, s)

/-- Shuts the sink down. -/
def shutdown (s : Sink) : Except IoError Unit × Sink :=
  let result := match s.shutdownFailure with
    | none => .ok ()
    | some e => .error e
  (result, { s with shutdowns := s.shutdowns + 1 })

/-- Writes what arrives up to the first failure, on either side. -/
def copy (s : Sink) : List Arrival → Except CopyFailure Unit × Sink
  | [] => (.ok (), s)
  | .error e :: _ => (.error (.source e), s)
  | .ok bytes :: rest =>
    match s.write bytes with
    | (.error e, s) => (.error (.sink e), s)
    | (.ok (), s) => copy s rest

/-- A sink that accepts everything. -/
def unlimited : Sink := {}

@[simp] theorem data_push (s : Sink) (bytes : Bytes) : (s.push bytes).data = s.data ++ bytes := by
  simp [push, data]

@[simp] theorem data_unlimited : unlimited.data = [] := rfl

/-- A sink without a limit accepts everything. -/
theorem write_of_limit_eq_none {s : Sink} (h : s.limit = none) (bytes : Bytes) :
    s.write bytes = (.ok (), s.push bytes) := by
  simp [write, h]

end Sink
end Mime
