import Mime.Body.Spills
import Mime.Boundary

/-! # The host

What an operation draws on besides its entity: the spill files that exist, and random bytes for
boundaries. -/

namespace Mime

/-- A supply of random bytes, of which the first `used` are gone. -/
structure Entropy where
  byteAt : Nat → UInt8
  used : Nat := 0

/-- Takes random bytes. -/
def Entropy.take (e : Entropy) (n : Nat) : Bytes × Entropy :=
  ((List.range n).map fun i => e.byteAt (e.used + i), { e with used := e.used + n })

/-- Spill files and random bytes. -/
structure Host where
  spills : Spills := Spills.empty
  entropy : Entropy

/-- Makes a random boundary. -/
def Host.generateBoundary (h : Host) : String × Host :=
  let (bytes, entropy) := h.entropy.take Boundary.randomBytes
  (Boundary.ofBytes bytes, { h with entropy })

end Mime
