import Mime.Text.Utf8

/-! # Boundaries

The texts that delimit the parts of a message: 1 to 70 characters of the set `bchars` of RFC 2046,
the last of which is not a space.  A generated boundary is the hexadecimal form of 16 random
bytes. -/

namespace Mime.Boundary

/-- The greatest length of a boundary. -/
def maxLength : Nat := 70

/-- The characters that may stand anywhere in a boundary. -/
def isBoundaryChar (c : Char) : Bool :=
  c.isAlphanum || c ∈ ['\'', '(', ')', '+', '_', ',', '-', '.', '/', ':', '=', '?']

/-- Whether each character may stand where it does: a space not in the last place. -/
def wellPlaced : List Char → Bool
  | [] => true
  | [c] => isBoundaryChar c
  | c :: rest => (isBoundaryChar c || c == ' ') && wellPlaced rest

/-- Whether a text can be a boundary. -/
def isValid (s : List Char) : Bool :=
  !s.isEmpty && s.length ≤ maxLength && wellPlaced s

/-- Two small hexadecimal digits. -/
def hexByte (b : UInt8) : List Char :=
  [Nat.digitChar (b.toNat / 16), Nat.digitChar (b.toNat % 16)]

/-- The number of random bytes behind a generated boundary. -/
def randomBytes : Nat := 16

/-- The boundary made of random bytes. -/
def ofBytes (bytes : Bytes) : String :=
  String.ofList (bytes.flatMap hexByte)

end Mime.Boundary
