import Mime.Json.Value

/-! # Reading JSON

The grammar of RFC 8259 and nothing beyond it: white space is space, tab, line feed and carriage
return, nothing follows the document, and an escape for a surrogate counts only in a pair.
Containers are nested at most 127 deep.

Each reader takes a text and returns what stands at its start, and the rest. -/

namespace Mime.Json

/-- The white space between tokens. -/
def isSpace (c : Char) : Bool :=
  c == ' ' || c == '\t' || c == '\n' || c == '\r'

/-- Drops white space. -/
def skipSpace (s : List Char) : List Char :=
  s.dropWhile isSpace

/-- The rest of a text that starts with the given characters. -/
def expect (word : List Char) (s : List Char) : Option (List Char) :=
  if word.isPrefixOf s then some (s.drop word.length) else none

/-! ### Strings -/

/-- The value of a hexadecimal digit. -/
def hexDigit? (c : Char) : Option Nat :=
  if c.isDigit then some (c.toNat - 48)
  else if 'a' ≤ c ∧ c ≤ 'f' then some (c.toNat - 87)
  else if 'A' ≤ c ∧ c ≤ 'F' then some (c.toNat - 55)
  else none

/-- The UTF-16 unit of four hexadecimal digits. -/
def unit? (a b c d : Char) : Option Nat := do
  let w ← hexDigit? a
  let x ← hexDigit? b
  let y ← hexDigit? c
  let z ← hexDigit? d
  return ((w * 16 + x) * 16 + y) * 16 + z

/-- The character that one letter after a backslash stands for. -/
def shortEscape? (c : Char) : Option Char :=
  match c with
  | '"' => some '"'
  | '\\' => some '\\'
  | '/' => some '/'
  | 'b' => some '\x08'
  | 'f' => some '\x0c'
  | 'n' => some '\n'
  | 'r' => some '\r'
  | 't' => some '\t'
  | _ => none

/-- The rest of a string after its opening quote, where `done` was read, last character first. -/
def stringFrom (done : List Char) : List Char → Option (String × List Char)
  | [] => none
  | '"' :: rest => some (String.ofList done.reverse, rest)
  | '\\' :: 'u' :: a :: b :: c :: d :: rest =>
    match unit? a b c d with
    | none => none
    | some u =>
      if u < 0xD800 ∨ 0xE000 ≤ u then stringFrom (Char.ofNat u :: done) rest
      else if 0xDC00 ≤ u then none
      else
        match rest with
        | '\\' :: 'u' :: a :: b :: c :: d :: rest =>
          match unit? a b c d with
          | none => none
          | some low =>
            if 0xDC00 ≤ low ∧ low < 0xE000 then
              let point := 0x10000 + (u - 0xD800) * 0x400 + (low - 0xDC00)
              stringFrom (Char.ofNat point :: done) rest
            else none
        | _ => none
  | '\\' :: c :: rest =>
    match shortEscape? c with
    | none => none
    | some c => stringFrom (c :: done) rest
  | c :: rest => if c.toNat < 0x20 then none else stringFrom (c :: done) rest

/-! ### Numbers -/

/-- The natural number that digits stand for. -/
def natural (digits : List Char) : Nat :=
  digits.foldl (fun n c => n * 10 + (c.toNat - 48)) 0

/-- The digits at the start of a text, and the rest. -/
def digits (s : List Char) : List Char × List Char :=
  s.span Char.isDigit

/-- The digits of an integer part: a zero stands alone. -/
def integerPart (s : List Char) : Option (List Char × List Char) :=
  match digits s with
  | ([], _) => none
  | ('0' :: _ :: _, _) => none
  | (ds, rest) => some (ds, rest)

/-- The digits after the point, if there is one; a point needs a digit. -/
def fractionPart (s : List Char) : Option (Option (List Char) × List Char) :=
  match s with
  | '.' :: rest =>
    match digits rest with
    | ([], _) => none
    | (ds, rest) => some (some ds, rest)
  | _ => some (none, s)

/-- The digits of an exponent, at least one. -/
def exponentDigits (negative : Bool) (s : List Char) : Option (Option Int × List Char) :=
  match digits s with
  | ([], _) => none
  | (ds, rest) =>
    let n : Int := natural ds
    some (some (if negative then -n else n), rest)

/-- The exponent, if there is one. -/
def exponentPart (s : List Char) : Option (Option Int × List Char) :=
  match s with
  | c :: rest =>
    if c = 'e' ∨ c = 'E' then
      match rest with
      | '+' :: rest => exponentDigits false rest
      | '-' :: rest => exponentDigits true rest
      | _ => exponentDigits false rest
    else some (none, s)
  | [] => some (none, s)

/-- The value of a number from its parts; one beyond the binary64 range has none. -/
def numberOfParts? (negative : Bool) (whole : List Char) (fraction : Option (List Char))
    (exponent : Option Int) : Option Number :=
  match fraction, exponent with
  | none, none => Number.ofInteger? negative (natural whole) whole.length
  | _, _ =>
    let places := fraction.getD []
    let all := whole ++ places
    (Binary64.ofDecimal? negative (natural all) all.length
      (exponent.getD 0 - places.length)).map .float

/-- A number. -/
def number (s : List Char) : Option (Value × List Char) := do
  let (negative, s) := match s with
    | '-' :: rest => (true, rest)
    | _ => (false, s)
  let (whole, s) ← integerPart s
  let (fraction, s) ← fractionPart s
  let (exponent, s) ← exponentPart s
  let n ← numberOfParts? negative whole fraction exponent
  return (.number n, s)

/-! ### Values -/

/-- A value that holds no other. -/
def scalar (s : List Char) : Option (Value × List Char) :=
  match s with
  | '"' :: rest => (stringFrom [] rest).map fun (t, rest) => (.string t, rest)
  | 'n' :: _ => (expect ['n', 'u', 'l', 'l'] s).map ((.null, ·))
  | 't' :: _ => (expect ['t', 'r', 'u', 'e'] s).map ((.bool true, ·))
  | 'f' :: _ => (expect ['f', 'a', 'l', 's', 'e'] s).map ((.bool false, ·))
  | _ => number s

/-- Items separated by commas up to the closing character, each after white space; `fuel` bounds
their number, and `done` holds those that were read, last first. -/
def itemsFrom {α : Type} (item : List Char → Option (α × List Char)) (close : Char) :
    Nat → List α → List Char → Option (List α × List Char)
  | 0, _, _ => none
  | fuel + 1, done, s => do
    let (a, s) ← item (skipSpace s)
    match skipSpace s with
    | c :: rest =>
      if c = close then some ((a :: done).reverse, rest)
      else if c = ',' then itemsFrom item close fuel (a :: done) rest
      else none
    | [] => none

/-- The items of a container after its opening character. -/
def items {α : Type} (item : List Char → Option (α × List Char)) (close : Char) (s : List Char) :
    Option (List α × List Char) :=
  match skipSpace s with
  | c :: rest => if c = close then some ([], rest) else itemsFrom item close s.length [] s
  | [] => none

/-- A member of an object, whose value is read by `value`. -/
def member (value : List Char → Option (Value × List Char)) (s : List Char) :
    Option ((String × Value) × List Char) :=
  match s with
  | '"' :: rest => do
    let (name, s) ← stringFrom [] rest
    match skipSpace s with
    | ':' :: s => do
      let (v, s) ← value (skipSpace s)
      return ((name, v), s)
    | _ => none
  | _ => none

/-- A value in which containers are nested at most as deep as given. -/
def value : Nat → List Char → Option (Value × List Char)
  | 0, s => scalar s
  | depth + 1, s =>
    match s with
    | '[' :: rest => (items (value depth) ']' rest).map fun (vs, rest) => (.array vs, rest)
    | '{' :: rest =>
      (items (member (value depth)) '}' rest).map fun (ms, rest) => (Value.ofMembers ms, rest)
    | _ => scalar s

/-- The greatest depth of nested containers. -/
def maxDepth : Nat := 127

/-- The value of a document. -/
def parse? (document : String) : Option Value :=
  match value maxDepth (skipSpace document.toList) with
  | some (v, rest) => if (skipSpace rest).isEmpty then some v else none
  | none => none

end Mime.Json
