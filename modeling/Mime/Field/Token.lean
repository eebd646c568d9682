/-! # Tokens

The lexical classes of RFC 2045 header fields: a token is a non-empty run of visible ASCII
characters none of which is one of the `tspecials`. -/

namespace Mime.Field

/-- The `tspecials`, which delimit tokens. -/
def isSpecial (c : Char) : Bool :=
  c ∈ ['(', ')', '<', '>', '@', ',', ';', ':', '\\', '"', '/', '[', ']', '?', '=']

/-- The characters of a token: visible ASCII but for the `tspecials`. -/
def isTokenChar (c : Char) : Bool :=
  '\x20' < c && c < '\x7f' && !isSpecial c

/-- Whether the text is a token. -/
def isToken (s : List Char) : Bool :=
  !s.isEmpty && s.all isTokenChar

theorem isToken_iff {s : List Char} :
    isToken s = true ↔ s ≠ [] ∧ ∀ c ∈ s, isTokenChar c = true := by
  simp [isToken]

end Mime.Field
