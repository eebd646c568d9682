import Mime.Field.Token
import Mime.Text.Whitespace

/-! # Quoted strings in header fields

A header value is a list of pieces separated by semicolons; a semicolon inside a double-quoted
string separates nothing, and inside the quotes a backslash protects the character after it.
`splitUnquoted` cuts a value into its pieces, `unquote` reads the value of a parameter, and
`quoteIfNeeded` writes one. -/

namespace Mime.Field

/-- Where a left-to-right scan stands with respect to the quotes. -/
inductive Quoting where
  | outside
  | inside
  | escaped
deriving DecidableEq, Repr

/-- The state after one more character. -/
def Quoting.next : Quoting → Char → Quoting
  | .outside, c => if c = '"' then .inside else .outside
  | .inside, c => if c = '"' then .outside else if c = '\\' then .escaped else .inside
  | .escaped, _ => .inside

/-- The pieces of the text, where `piece` holds what came since the last separator, last first.
There are none if the text ends inside the quotes. -/
def splitFrom (q : Quoting) (piece : List Char) : List Char → Option (List (List Char))
  | [] => if q = .outside then some [piece.reverse] else none
  | c :: rest =>
    if q = .outside ∧ c = ';' then (splitFrom .outside [] rest).map (piece.reverse :: ·)
    else splitFrom (q.next c) (c :: piece) rest

/-- Cuts a text at the semicolons outside of quotes; `none` if a quoted string is left open. -/
def splitUnquoted (s : List Char) : Option (List (List Char)) :=
  splitFrom .outside [] s

/-- Reads the rest of a quoted string, where `done` holds what was read, last first.  Only white
space may follow the closing quote. -/
def unquoteFrom (done : List Char) : List Char → Option (List Char)
  | [] => none
  | '\\' :: c :: rest => unquoteFrom (c :: done) rest
  | c :: rest =>
    if c = '\\' then none
    else if c = '"' then if Text.isBlank rest then some done.reverse else none
    else unquoteFrom (c :: done) rest

/-- The value that a parameter's text stands for: a quoted string without its quotes and
backslashes, any other text as it is.  A quoted string that does not end has no value. -/
def unquote : List Char → Option (List Char)
  | '"' :: rest => unquoteFrom [] rest
  | s => some s

/-- The body of a quoted string: a backslash before each quote and backslash. -/
def escape (s : List Char) : List Char :=
  s.flatMap fun c => if c = '"' ∨ c = '\\' then ['\\', c] else [c]

/-- Writes a parameter's value: as a token if it is one, else as a quoted string. -/
def quoteIfNeeded (s : List Char) : List Char :=
  if isToken s then s else '"' :: escape s ++ ['"']

/-- Puts a double quote at each end that does not have one yet; a lone quote counts as the opening
one. -/
def encloseInQuotes (s : List Char) : List Char :=
  (if s.head? = some '"' then [] else ['"']) ++ s ++
    (if s.getLast? = some '"' ∧ s ≠ ['"'] then [] else ['"'])

end Mime.Field
