import Mime.Multipart.Delimiter
import Mime.Multipart.Limits

/-! # The content of a part

Content is what stands between a header block and the next delimiter, less the line break in front
of that delimiter.  So a line break is held back until it is known what follows it.  `Spool` keeps
what was read: in memory up to a threshold, and in a spill file beyond it.  Where the disk fails,
reading ends; the file that was made is removed then. -/

namespace Mime.Multipart

/-- A spill file that is being written: its number, and the bytes in it. -/
structure SpillFile where
  number : Nat
  written : Array UInt8 := #[]

/-- Writes bytes to a file.  Where there are none, the disk is not asked. -/
def SpillFile.write [Disk] (f : SpillFile) (bytes : Bytes) : Except IoError Unit × SpillFile :=
  if bytes.isEmpty then (.ok (), f)
  else
    match Disk.write f.number f.written.size with
    | .ok () => (.ok (), { f with written := f.written ++ bytes.toArray })
    | .error e => (.error e, f)

/-- Content as it is collected: the bytes in memory, the number of all bytes, the spill file that
takes the place of the memory, and the spill files there are. -/
structure Spool where
  threshold : Nat
  memory : Array UInt8 := #[]
  size : Nat := 0
  file : Option SpillFile := none
  spills : Spills

namespace Spool

/-- Moves the content from memory to a new file. -/
def spill [Disk] (s : Spool) : Except IoError Unit × Spool :=
  match s.spills.create with
  | (.error e, spills) => (.error e, { s with spills })
  | (.ok number, spills) =>
    match ({ number } : SpillFile).write s.memory.toList with
    | (.error e, f) => (.error e, { s with file := some f, spills })
    | (.ok (), f) => (.ok (), { s with memory := #[], file := some f, spills })

/-- Adds bytes where the content is: in its file, or in memory. -/
def append [Disk] (s : Spool) (bytes : Bytes) : Except IoError Unit × Spool :=
  match s.file with
  | none => (.ok (), { s with memory := s.memory ++ bytes.toArray })
  | some f =>
    let (result, f) := f.write bytes
    (result, { s with file := some f })

/-- Adds bytes; content that grows beyond the threshold moves to a spill file first. -/
def write [Disk] (s : Spool) (bytes : Bytes) : Except IoError Unit × Spool :=
  if bytes.isEmpty then (.ok (), s)
  else
    let grown := { s with size := s.size + bytes.length }
    if s.file.isNone && s.threshold < s.memory.size + bytes.length then
      match grown.spill with
      | (.error e, s) => (.error e, s)
      | (.ok (), s) => s.append bytes
    else grown.append bytes

/-- Adds one piece after the other, until the disk fails. -/
def writeAll [Disk] (s : Spool) : List Bytes → Except IoError Unit × Spool
  | [] => (.ok (), s)
  | bytes :: rest =>
    match s.write bytes with
    | (.error e, s) => (.error e, s)
    | (.ok (), s) => s.writeAll rest

/-- Sees to it that a file is complete, and goes back to its start. -/
def rewind [Disk] (s : Spool) : Except IoError Unit := do
  match s.file with
  | none => return ()
  | some f =>
    Disk.flush f.number
    Disk.rewind f.number

/-- The source of what was collected. -/
def toSource [Disk] (s : Spool) : ByteSource :=
  match s.file with
  | none => .ofBytes s.memory.toList
  | some f => .ofSpill f.number s.size f.written.toList

/-- The spill files that are left when the content is given up; that its file cannot be removed is
not reported. -/
def discard [Disk] (s : Spool) : Spills :=
  match s.file with
  | none => s.spills
  | some f => (s.spills.remove f.number).2

/-- Gives the content as a source that starts with its first byte.  Where its file cannot be read
from there, the content is given up. -/
def finish [Disk] (s : Spool) : Except IoError ByteSource × Spills :=
  match s.rewind with
  | .error e => (.error e, s.discard)
  | .ok () => (.ok s.toSource, s.spills)

end Spool

/-- A line without its line break, and the line break. -/
def splitBreak (line : Bytes) : Bytes × Bytes :=
  if [lineFeed, carriageReturn].isPrefixOf line.reverse then
    (line.dropLast.dropLast, [carriageReturn, lineFeed])
  else if line.getLast? = some lineFeed then (line.dropLast, [lineFeed])
  else (line, [])

/-- Content that is being read: what was kept, the line break held back, and whether a line
starts. -/
structure Content where
  spool : Spool
  held : Bytes := []
  atLineStart : Bool := true

/-- Keeps a segment that is no delimiter.  A line break cut between two segments is held back as a
whole. -/
def Content.add [Disk] (c : Content) (s : Segment) : Except IoError Unit × Content :=
  match s.ending with
  | .full =>
    let (text, held) :=
      if s.bytes.getLast? = some carriageReturn then (s.bytes.dropLast, [carriageReturn])
      else (s.bytes, [])
    let (result, spool) := c.spool.writeAll [c.held, text]
    (result, { spool, held, atLineStart := false })
  | _ =>
    if c.held = [carriageReturn] ∧ s.bytes = [lineFeed] then
      (.ok (), { c with held := [carriageReturn, lineFeed], atLineStart := true })
    else
      let (text, held) := splitBreak s.bytes
      let (result, spool) := c.spool.writeAll [c.held, text]
      (result, { spool, held, atLineStart := true })

/-- Reads up to the next delimiter, and gives what was kept, also on failure.  `part` is the number
of the part, for messages. -/
def readContent [Disk] (dashBoundary : Bytes) (part : Nat) (c : Content) :
    Incoming → Except Error Delimiter × Spool × Incoming
  | [] => (.error (.structural (.cutContent part)), c.spool, [])
  | .error e :: rest => (.error (.io e), c.spool, rest)
  | .ok s :: rest =>
    match if c.atLineStart then delimiter? dashBoundary s else none with
    | some d => (.ok d, c.spool, rest)
    | none =>
      if s.ending = .input then (.error (.structural (.cutContent part)), c.spool, rest)
      else
        match c.add s with
        | (.error e, c) => (.error (.io e), c.spool, rest)
        | (.ok (), c) => readContent dashBoundary part c rest

/-- Skips what stands in front of the first delimiter. -/
def skipPreamble (dashBoundary : Bytes) (atLineStart : Bool) :
    Incoming → Except Error Delimiter × Incoming
  | [] => (.error (.structural .noStartBoundary), [])
  | .error e :: rest => (.error (.io e), rest)
  | .ok s :: rest =>
    match if atLineStart then delimiter? dashBoundary s else none with
    | some d => (.ok d, rest)
    | none =>
      if s.ending = .input then (.error (.structural .noStartBoundary), rest)
      else skipPreamble dashBoundary (s.ending = .line) rest

theorem skipPreamble_length_le (dashBoundary : Bytes) (atLineStart : Bool) (input : Incoming) :
    (skipPreamble dashBoundary atLineStart input).2.length ≤ input.length := by
  induction input generalizing atLineStart with
  | nil => simp [skipPreamble]
  | cons item rest ih =>
    cases item with
    | error e => simp [skipPreamble]
    | ok s =>
      unfold skipPreamble
      split
      · simp
      · split
        · simp
        · exact Nat.le_succ_of_le (ih _)

/-- A delimiter takes at least one segment. -/
theorem readContent_length_lt [Disk] {dashBoundary : Bytes} {part : Nat} {c : Content}
    {input : Incoming} {d : Delimiter} (h : (readContent dashBoundary part c input).1 = .ok d) :
    (readContent dashBoundary part c input).2.2.length < input.length := by
  induction input generalizing c with
  | nil => simp [readContent] at h
  | cons item rest ih =>
    cases item with
    | error e => simp [readContent] at h
    | ok s =>
      unfold readContent at h ⊢
      split
      · simp
      · rename_i hd
        simp only [hd] at h
        split
        · rename_i he
          simp [he] at h
        · rename_i he
          simp only [he] at h
          split
          · rename_i hadd
            simp [hadd] at h
          · rename_i hadd
            simp only [hadd] at h
            exact Nat.lt_succ_of_lt (ih h)

end Mime.Multipart
