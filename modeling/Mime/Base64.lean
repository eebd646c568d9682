import Mime.Text.Utf8

/-! # Base64

The standard alphabet with padding.  Writing breaks no lines; reading skips ASCII white space and
accepts nothing but the canonical form: padding must be there, and the bits that it leaves unused
must be zero. -/

namespace Mime.Base64

/-- The symbol of a six-bit value. -/
def symbol (n : Nat) : UInt8 :=
  if n < 26 then UInt8.ofNat (n + 65)
  else if n < 52 then UInt8.ofNat (n + 71)
  else if n < 62 then UInt8.ofNat (n - 4)
  else if n = 62 then 43
  else 47

/-- The six-bit value of a symbol. -/
def sextet? (b : UInt8) : Option Nat :=
  if 65 ≤ b && b ≤ 90 then some (b.toNat - 65)
  else if 97 ≤ b && b ≤ 122 then some (b.toNat - 71)
  else if 48 ≤ b && b ≤ 57 then some (b.toNat + 4)
  else if b = 43 then some 62
  else if b = 47 then some 63
  else none

/-- The padding symbol, `=`. -/
def pad : UInt8 := 61

/-- Three bytes become four symbols; one or two at the end are padded. -/
def encode : Bytes → Bytes
  | [] => []
  | [a] => [symbol (a.toNat / 4), symbol (a.toNat % 4 * 16), pad, pad]
  | [a, b] =>
    [symbol (a.toNat / 4), symbol (a.toNat % 4 * 16 + b.toNat / 16), symbol (b.toNat % 16 * 4), pad]
  | a :: b :: c :: rest =>
    symbol (a.toNat / 4) :: symbol (a.toNat % 4 * 16 + b.toNat / 16) ::
      symbol (b.toNat % 16 * 4 + c.toNat / 64) :: symbol (c.toNat % 64) :: encode rest

/-- The byte of the first two of four symbols. -/
def firstByte (a b : Nat) : UInt8 := UInt8.ofNat (a * 4 + b / 16)

/-- The byte of the second and third of four symbols. -/
def secondByte (b c : Nat) : UInt8 := UInt8.ofNat (b % 16 * 16 + c / 4)

/-- The byte of the last two of four symbols. -/
def thirdByte (c d : Nat) : UInt8 := UInt8.ofNat (c % 4 * 64 + d)

/-- The bytes of a last group of four symbols, which may be padded. -/
def decodeLast? (a b c d : UInt8) : Option Bytes := do
  let x ← sextet? a
  let y ← sextet? b
  if d = pad then
    if c = pad then
      if y % 16 = 0 then some [firstByte x y] else none
    else
      let z ← sextet? c
      if z % 4 = 0 then some [firstByte x y, secondByte y z] else none
  else
    let z ← sextet? c
    let w ← sextet? d
    some [firstByte x y, secondByte y z, thirdByte z w]

/-- The bytes that a text of symbols alone stands for. -/
def decodeCompact? : Bytes → Option Bytes
  | [] => some []
  | [a, b, c, d] => decodeLast? a b c d
  | a :: b :: c :: d :: rest => do
    let x ← sextet? a
    let y ← sextet? b
    let z ← sextet? c
    let w ← sextet? d
    let bytes ← decodeCompact? rest
    some (firstByte x y :: secondByte y z :: thirdByte z w :: bytes)
  | _ => none

/-- ASCII white space: space, tab, line feed, form feed and carriage return. -/
def isAsciiSpace (b : UInt8) : Bool :=
  b == 32 || b == 9 || b == 10 || b == 12 || b == 13

/-- The bytes that a text stands for; white space in it is skipped. -/
def decode? (text : Bytes) : Option Bytes :=
  decodeCompact? (text.filter fun b => !isAsciiSpace b)

end Mime.Base64
