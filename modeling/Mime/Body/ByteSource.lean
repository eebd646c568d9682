import Mime.Body.Spills
import Mime.Text.Literal

/-! # Byte sources

A byte source delivers bytes once.  Its content arrives in pieces: one piece for bytes in memory,
and whatever the disk or a reader brings, failures included.  A read takes from one piece only;
after a failure the pieces behind it can still be read.  A read of no bytes meets neither. -/

namespace Mime

/-- Where the bytes of a source are.  In memory and in a spill file their number is known. -/
inductive Origin where
  | memory (size : Nat)
  | spilled (file : Nat) (size : Nat)
  | reader
deriving DecidableEq, Repr

/-- Bytes that can be read once. -/
structure ByteSource where
  origin : Origin
  arrivals : List Arrival

namespace ByteSource

/-- The source of bytes in memory. -/
def ofBytes (bytes : Bytes) : ByteSource :=
  ⟨.memory bytes.length, [.ok bytes]⟩

/-- The source of the bytes that were written to a spill file, of which there are so many. -/
def ofSpill [Disk] (file size : Nat) (bytes : Bytes) : ByteSource :=
  ⟨.spilled file size, Disk.read file bytes⟩

/-- The source of what a reader brings. -/
def ofReader (arrivals : List Arrival) : ByteSource :=
  ⟨.reader, arrivals⟩

/-- The number of bytes the source was made with, where it is known. -/
def size? (s : ByteSource) : Option Nat :=
  match s.origin with
  | .memory n | .spilled _ n => some n
  | .reader => none

/-- The spill file of the source. -/
def file? (s : ByteSource) : Option Nat :=
  match s.origin with
  | .spilled file _ => some file
  | _ => none

/-- Whether the bytes are in a spill file. -/
def isSpilled (s : ByteSource) : Bool :=
  s.file?.isSome

/-- Takes up to `n` bytes from the first piece that has any; nothing at the end.  A failure is met
only where bytes are asked for, and stays otherwise. -/
def readArrivals (n : Nat) : List Arrival → Except IoError Bytes × List Arrival
  | [] => (.ok [], [])
  | .error e :: rest => if n = 0 then (.ok [], .error e :: rest) else (.error e, rest)
  | .ok [] :: rest => readArrivals n rest
  | .ok (b :: bs) :: rest => (.ok ((b :: bs).take n), .ok ((b :: bs).drop n) :: rest)

/-- Reads up to `n` bytes. -/
def read (s : ByteSource) (n : Nat) : Except IoError Bytes × ByteSource :=
  let r := readArrivals n s.arrivals
  (r.1, { s with arrivals := r.2 })

/-- All bytes of the pieces; if there are failures among them, the first one. -/
def joinArrivals (arrivals : List Arrival) : Except IoError Bytes :=
  (arrivals.mapM id).map List.flatten

/-- All bytes that are left, or the first failure among them. -/
def readAll (s : ByteSource) : Except IoError Bytes :=
  joinArrivals s.arrivals

/-- What a source says about itself. -/
def describe [Disk] (s : ByteSource) : String :=
  let kind := match s.origin with
    | .memory _ => "memory"
    | .spilled _ _ => "file"
    | .reader => "reader"
  let size := match s.size? with
    | some n => "Some(" ++ toString n ++ ")"
    | none => "None"
  let spill := match s.file? with
    | some file => "Some(" ++ Text.literal (Disk.path file) ++ ")"
    | none => "None"
  "ByteSource \x7b kind: " ++ Text.literal kind ++ ", len: " ++ size ++ ", spill: " ++ spill ++
    " \x7d"

end ByteSource

/-- Closes a source: its spill file is removed. -/
def Spills.close [Disk] (s : Spills) (source : ByteSource) : Except IoError Unit × Spills :=
  match source.file? with
  | some file =>
    let (result, s) := s.remove file
    (result.mapError (·.during ("unable to remove spill file " ++ Disk.path file)), s)
  | none => (.ok (), s)

/-- The spill files that are left when a source is closed and nobody asks whether that fails. -/
def Spills.release [Disk] (s : Spills) (source : ByteSource) : Spills :=
  (s.close source).2

/-- Only the file of a source matters when it is closed. -/
theorem Spills.release_congr [Disk] (s : Spills) {source source' : ByteSource}
    (h : source.file? = source'.file?) : s.release source = s.release source' := by
  rw [release, release, close, close, h]

@[simp] theorem ByteSource.file?_ofBytes (bytes : Bytes) : (ofBytes bytes).file? = none := rfl

@[simp] theorem ByteSource.file?_read (s : ByteSource) (n : Nat) :
    (s.read n).2.file? = s.file? := rfl

end Mime
