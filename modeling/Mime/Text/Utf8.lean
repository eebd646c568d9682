/-! # UTF-8

Texts as bytes and back.  `Utf8.next` reads one scalar value or one maximal malformed subpart, by
the table of lead bytes of the Unicode Standard; `Utf8.decode?` accepts only well-formed input and
`Utf8.decodeLossy` puts one U+FFFD for each malformed subpart. -/

namespace Mime

/-- The bytes of a message or of a part of one. -/
abbrev Bytes := List UInt8

namespace Utf8

/-- The bytes of a text. -/
def encode (s : List Char) : Bytes :=
  s.flatMap String.utf8EncodeChar

/-- What a lead byte announces: how many bytes follow, between which bounds the first of them
lies, and the leading bits of the scalar value. -/
structure Lead where
  following : Nat
  low : UInt8
  high : UInt8
  bits : Nat
deriving DecidableEq, Repr

/-- The announcement of a lead byte; a continuation byte or a byte that never occurs has none. -/
def lead? (b : UInt8) : Option Lead :=
  if b < 0x80 then some ⟨0, 0x80, 0xBF, b.toNat⟩
  else if b < 0xC2 then none
  else if b < 0xE0 then some ⟨1, 0x80, 0xBF, b.toNat - 0xC0⟩
  else if b = 0xE0 then some ⟨2, 0xA0, 0xBF, 0⟩
  else if b = 0xED then some ⟨2, 0x80, 0x9F, 0xD⟩
  else if b < 0xF0 then some ⟨2, 0x80, 0xBF, b.toNat - 0xE0⟩
  else if b = 0xF0 then some ⟨3, 0x90, 0xBF, 0⟩
  else if b < 0xF4 then some ⟨3, 0x80, 0xBF, b.toNat - 0xF0⟩
  else if b = 0xF4 then some ⟨3, 0x80, 0x8F, 4⟩
  else none

/-- Reads the given number of following bytes, the first within the bounds; stops before the first
byte that does not belong. -/
def following : Nat → UInt8 → UInt8 → Nat → Bytes → Option Nat × Bytes
  | 0, _, _, value, rest => (some value, rest)
  | _ + 1, _, _, _, [] => (none, [])
  | n + 1, low, high, value, b :: rest =>
    if low ≤ b && b ≤ high then
      following n 0x80 0xBF (value * 64 + (b.toNat - 0x80)) rest
    else (none, b :: rest)

/-- Reads a scalar value, or a maximal malformed subpart, and gives back the rest. -/
def next (b : UInt8) (rest : Bytes) : Option Char × Bytes :=
  match lead? b with
  | none => (none, rest)
  | some l =>
    let r := following l.following l.low l.high l.bits rest
    (r.1.map Char.ofNat, r.2)

theorem following_length_le (n : Nat) (low high : UInt8) (value : Nat) (rest : Bytes) :
    (following n low high value rest).2.length ≤ rest.length := by
  induction n generalizing low high value rest with
  | zero => simp [following]
  | succ n ih =>
    cases rest with
    | nil => simp [following]
    | cons b rest =>
      simp only [following]
      split
      · exact Nat.le_succ_of_le (ih ..)
      · simp

theorem next_length_le (b : UInt8) (rest : Bytes) : (next b rest).2.length ≤ rest.length := by
  unfold next
  split
  · simp
  · exact following_length_le ..

/-- The scalar values and malformed subparts of the input, after those already read (last first). -/
def scanFrom (done : List (Option Char)) : Bytes → List (Option Char)
  | [] => done.reverse
  | b :: rest => scanFrom ((next b rest).1 :: done) (next b rest).2
termination_by bytes => bytes.length
decreasing_by exact Nat.lt_succ_of_le (next_length_le b rest)

/-- The scalar values of the input in order, `none` standing for a malformed subpart. -/
def scan (bytes : Bytes) : List (Option Char) :=
  scanFrom [] bytes

/-- The text of well-formed input. -/
def decode? (bytes : Bytes) : Option (List Char) :=
  let read := scan bytes
  if read.all Option.isSome then some (read.filterMap id) else none

/-- The text of any input, with one U+FFFD for each malformed subpart. -/
def decodeLossy (bytes : Bytes) : List Char :=
  (scan bytes).map (·.getD '\uFFFD')

/-- The bytes of a string. -/
def ofString (s : String) : Bytes :=
  encode s.toList

theorem scanFrom_eq (done : List (Option Char)) (bytes : Bytes) :
    scanFrom done bytes = done.reverse ++ scan bytes := by
  induction hn : bytes.length using Nat.strongRecOn generalizing done bytes with
  | ind n ih =>
    cases bytes with
    | nil => simp [scan, scanFrom]
    | cons b rest =>
      have hlt : (next b rest).2.length < n := by
        rw [← hn]; exact Nat.lt_succ_of_le (next_length_le b rest)
      rw [scan, scanFrom, scanFrom, ih _ hlt _ _ rfl, ih _ hlt [(next b rest).1] _ rfl]
      simp

@[simp] theorem scan_nil : scan [] = [] := by simp [scan, scanFrom]

/-- The first reading, then the readings of the rest. -/
theorem scan_cons (b : UInt8) (rest : Bytes) :
    scan (b :: rest) = (next b rest).1 :: scan (next b rest).2 := by
  rw [scan, scanFrom, scanFrom_eq]; simp

@[simp] theorem encode_nil : encode [] = [] := rfl

@[simp] theorem encode_cons (c : Char) (s : List Char) :
    encode (c :: s) = String.utf8EncodeChar c ++ encode s := rfl

@[simp] theorem encode_append (s t : List Char) : encode (s ++ t) = encode s ++ encode t := by
  simp [encode]

end Utf8
end Mime
