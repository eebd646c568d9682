/-! # White space

The characters with the Unicode property `White_Space` and the trimming of a text at its ends.
Every part of a header value that is "trimmed" is trimmed of exactly these characters. -/

namespace Mime.Text

/-- The characters with the Unicode property `White_Space`. -/
def isSpace (c : Char) : Bool :=
  let n := c.toNat
  (0x09 ≤ n && n ≤ 0x0D) || n == 0x20 || n == 0x85 || n == 0xA0 || n == 0x1680 ||
    (0x2000 ≤ n && n ≤ 0x200A) || n == 0x2028 || n == 0x2029 || n == 0x202F || n == 0x205F ||
    n == 0x3000

/-- Drops the longest run of characters satisfying `p` at the end. -/
def dropEndWhile (p : Char → Bool) (s : List Char) : List Char :=
  (s.reverse.dropWhile p).reverse

/-- Drops the white space at both ends. -/
def trim (s : List Char) : List Char :=
  dropEndWhile isSpace (s.dropWhile isSpace)

/-- Whether nothing but white space is there. -/
def isBlank (s : List Char) : Bool :=
  s.all isSpace

/-- A string without the white space at its ends. -/
def trimmed (s : String) : String :=
  String.ofList (trim s.toList)

@[simp] theorem trim_nil : trim [] = [] := rfl

/-- A text that neither starts nor ends with white space is its own trim. -/
theorem trim_eq_self {s : List Char} (hd : ∀ c ∈ s.head?, isSpace c = false)
    (hl : ∀ c ∈ s.getLast?, isSpace c = false) : trim s = s := by
  have start : s.dropWhile isSpace = s := by
    cases s with
    | nil => rfl
    | cons c r => simp [hd c (by simp)]
  have fin : s.reverse.dropWhile isSpace = s.reverse := by
    cases h : s.reverse with
    | nil => rfl
    | cons c r =>
      have : s.getLast? = some c := by rw [← List.head?_reverse, h]; rfl
      simp [hl c (by simp [this])]
  rw [trim, start, dropEndWhile, fin, List.reverse_reverse]

end Mime.Text
