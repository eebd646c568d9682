/-! # Limits of reading

How much of a part is kept in memory, and how large its header block may be. -/

namespace Mime.Multipart

/-- The limits under which a message is read: the size above which content goes to a spill file,
and the greatest size and number of lines of a header block. -/
structure Limits where
  memoryThreshold : Nat := 1 <<< 20
  maxHeaderSize : Nat := 10 * (1 <<< 20)
  maxHeaders : Nat := 10000
deriving DecidableEq, Repr

/-- The limits where none are given. -/
def Limits.standard : Limits := {}

end Mime.Multipart
