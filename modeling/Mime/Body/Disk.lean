import Mime.Error
import Mime.Text.Utf8

/-! # The disk

Temporary files are on a disk, and whatever is done with one of them may fail.  A disk says, of each
file and of each thing that is done with it, what comes of it; files have numbers, in the order in
which they are made. -/

namespace Mime

/-- A piece of what a source or a producer delivers, or a failure in its place. -/
abbrev Arrival := Except IoError Bytes

/-- What comes of everything that is done with temporary files. -/
class Disk where
  /-- Where a file is. -/
  path (file : Nat) : String
  /-- Making a file. -/
  create (file : Nat) : Except IoError Unit
  /-- Writing behind the bytes that a file holds, of which there are so many. -/
  write (file held : Nat) : Except IoError Unit
  /-- Seeing to it that all that was written is in the file. -/
  flush (file : Nat) : Except IoError Unit
  /-- Going back to the start of a file. -/
  rewind (file : Nat) : Except IoError Unit
  /-- How the bytes that were written to a file arrive when it is read. -/
  read (file : Nat) (bytes : Bytes) : List Arrival
  /-- Removing a file. -/
  remove (file : Nat) : Except IoError Unit

/-- A disk on which all goes well.  It is the one that is meant where no disk is named. -/
instance (priority := low) Disk.sound : Disk where
  path file := "spill-" ++ toString file
  create _ := .ok ()
  write _ _ := .ok ()
  flush _ := .ok ()
  rewind _ := .ok ()
  read _ bytes := [.ok bytes]
  remove _ := .ok ()

end Mime
