/-! # Quoted literals in messages

Error messages show a piece of input between double quotes.  `literal` escapes the quote, the
backslash and everything that has no visible shape of its own, so that the message is one line of
readable text. -/

namespace Mime.Text

/-- Ranges of characters without a visible shape: controls, separators other than the space, format
characters, private use, planes without characters, and the general blocks of combining marks. -/
def invisibleRanges : List (Nat × Nat) :=
  [(0x0000, 0x001F), (0x007F, 0x00A0), (0x00AD, 0x00AD), (0x0300, 0x036F), (0x0483, 0x0489),
   (0x0591, 0x05BD), (0x0600, 0x0605), (0x061C, 0x061C), (0x064B, 0x065F), (0x06DD, 0x06DD),
   (0x070F, 0x070F), (0x0890, 0x0891), (0x08E2, 0x08E2), (0x1680, 0x1680), (0x180B, 0x180F),
   (0x1AB0, 0x1ACE), (0x1DC0, 0x1DFF), (0x2000, 0x200F), (0x2028, 0x202F), (0x205F, 0x206F),
   (0x20D0, 0x20F0), (0x3000, 0x3000), (0x302A, 0x302D), (0x3099, 0x309A), (0xE000, 0xF8FF),
   (0xFDD0, 0xFDEF), (0xFE00, 0xFE0F), (0xFE20, 0xFE2F), (0xFEFF, 0xFEFF), (0xFFF0, 0xFFFB),
   (0xFFFE, 0xFFFF), (0x110BD, 0x110BD), (0x110CD, 0x110CD), (0x13430, 0x1343F),
   (0x1BCA0, 0x1BCA3), (0x1D173, 0x1D17A), (0x323B0, 0x10FFFF)]

/-- Whether a character has no visible shape of its own. -/
def isInvisible (c : Char) : Bool :=
  invisibleRanges.any fun (low, high) => low ≤ c.toNat && c.toNat ≤ high

/-- One character of a literal: short escapes for the usual ones, the code point in hexadecimal for
the other invisible ones, and the character itself otherwise. -/
def escape (c : Char) : List Char :=
  if c = '"' || c = '\\' then ['\\', c]
  else if c = '\t' then ['\\', 't']
  else if c = '\r' then ['\\', 'r']
  else if c = '\n' then ['\\', 'n']
  else if c = '\x00' then ['\\', '0']
  else if isInvisible c then
    ['\\', 'u', '\x7b'] ++ Nat.toDigits 16 c.toNat ++ ['\x7d']
  else [c]

/-- A text as it is shown in a message: between double quotes, on one line. -/
def literal (s : String) : String :=
  String.ofList ('"' :: s.toList.flatMap escape ++ ['"'])

end Mime.Text
