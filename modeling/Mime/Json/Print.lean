import Mime.Json.Value

/-! # Writing JSON

The compact form: no white space, escapes only where JSON needs them, and for a binary64 number
the shortest decimal that reads back.  `Layout` says when that decimal is written out in full. -/

namespace Mime.Json

/-- How a decimal is laid out: the decimal exponents for which it is written out in full. -/
structure Layout where
  leastPlain : Int
  greatestPlain : Int

/-- From `0.00001` to `1000000000000000.0` decimals are written out in full. -/
def layout : Layout := ⟨-5, 15⟩

/-- The text of a positive decimal `digits · 10 ^ exponent`. -/
def decimalText (l : Layout) (digits : Nat) (exponent : Int) : List Char :=
  let ds := Nat.toDigits 10 digits
  let power : Int := exponent + ds.length - 1
  if l.leastPlain ≤ power ∧ power ≤ l.greatestPlain then
    if exponent ≥ 0 then ds ++ List.replicate exponent.toNat '0' ++ ['.', '0']
    else if power ≥ 0 then ds.take (power.toNat + 1) ++ '.' :: ds.drop (power.toNat + 1)
    else ['0', '.'] ++ List.replicate ((-power).toNat - 1) '0' ++ ds
  else
    ds.take 1 ++ (if ds.length = 1 then [] else '.' :: ds.drop 1) ++ 'e' ::
      (if power ≥ 0 then '+' else '-') :: Nat.toDigits 10 power.natAbs

/-- The text of a binary64 number. -/
def floatText (x : Binary64) : List Char :=
  (if x.negative then ['-'] else []) ++
    (if x.mantissa = 0 then ['0', '.', '0'] else decimalText layout x.shortest.1 x.shortest.2)

/-- The text of a number. -/
def numberText : Number → List Char
  | .natural n => Nat.toDigits 10 n
  | .negative n => '-' :: Nat.toDigits 10 n
  | .float x => floatText x

/-- A character of a string. -/
def escape (c : Char) : List Char :=
  if c = '"' ∨ c = '\\' then ['\\', c]
  else if c = '\x08' then ['\\', 'b']
  else if c = '\x0c' then ['\\', 'f']
  else if c = '\n' then ['\\', 'n']
  else if c = '\r' then ['\\', 'r']
  else if c = '\t' then ['\\', 't']
  else if c.toNat < 0x20 then
    ['\\', 'u', '0', '0', Nat.digitChar (c.toNat / 16), Nat.digitChar (c.toNat % 16)]
  else [c]

/-- A string between its quotes. -/
def stringText (s : String) : List Char :=
  '"' :: s.toList.flatMap escape ++ ['"']

/-- Texts with a comma between any two. -/
def commaSeparated (texts : List (List Char)) : List Char :=
  List.intercalate [','] texts

mutual

/-- The compact text of a value. -/
def Value.text : Value → List Char
  | .null => ['n', 'u', 'l', 'l']
  | .bool true => ['t', 'r', 'u', 'e']
  | .bool false => ['f', 'a', 'l', 's', 'e']
  | .number n => numberText n
  | .string s => stringText s
  | .array items => '[' :: commaSeparated (itemTexts items) ++ [']']
  | .object members => '{' :: commaSeparated (memberTexts members) ++ ['}']

/-- The compact texts of the items of an array. -/
def itemTexts : List Value → List (List Char)
  | [] => []
  | v :: rest => v.text :: itemTexts rest

/-- The compact texts of the members of an object. -/
def memberTexts : List (String × Value) → List (List Char)
  | [] => []
  | e :: rest => memberText e :: memberTexts rest

/-- The compact text of a member. -/
def memberText : String × Value → List Char
  | (name, v) => stringText name ++ ':' :: v.text

end

end Mime.Json
