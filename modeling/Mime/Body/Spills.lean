import Mime.Body.Disk

/-! # Spill files

The content of a large part is kept in a temporary file, which belongs to the byte source that
holds it.  `Spills` knows which of these files exist; what is in a file travels with its source. -/

namespace Mime

/-- The spill files that exist, and the number of the next one. -/
structure Spills where
  files : List Nat := []
  next : Nat := 0
deriving DecidableEq, Repr

namespace Spills

/-- No spill files. -/
def empty : Spills := {}

/-- Makes a new file.  A number is given out once, also where no file comes of it. -/
def create [Disk] (s : Spills) : Except IoError Nat × Spills :=
  match Disk.create s.next with
  | .ok () => (.ok s.next, ⟨s.next :: s.files, s.next + 1⟩)
  | .error e => (.error e, ⟨s.files, s.next + 1⟩)

/-- Removes a file.  If that fails, it stays. -/
def remove [Disk] (s : Spills) (file : Nat) : Except IoError Unit × Spills :=
  match Disk.remove file with
  | .ok () => (.ok (), ⟨s.files.erase file, s.next⟩)
  | .error e => (.error e, s)

/-- The number of files. -/
def count (s : Spills) : Nat :=
  s.files.length

end Spills
end Mime
