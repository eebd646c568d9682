import Mime.Error
import Mime.Text.Whitespace
import Mime.Xml.Token

/-! # Single XML documents

`Xml.check` accepts a text whose tags are matched and that has one root element, with nothing but
white space in the character data around it.  The tags are matched by the names of the open
elements; besides, it is counted how many elements are open and how many roots there were.  The
first fault in reading order decides; the counts are looked at in the end. -/

namespace Mime.Xml

/-! ### References -/

/-- The value of a digit in a base up to 16. -/
def digit? (base : Nat) (c : Char) : Option Nat :=
  let value :=
    if c.isDigit then c.toNat - 48
    else if 'a' ≤ c ∧ c ≤ 'f' then c.toNat - 87
    else if 'A' ≤ c ∧ c ≤ 'F' then c.toNat - 55
    else base
  if value < base then some value else none

/-- The number that digits stand for; no digits stand for zero. -/
def number? (base : Nat) (digits : List Char) : Option Nat :=
  digits.foldlM (fun n c => (digit? base c).map (n * base + ·)) 0

/-- The character of a code point other than zero. -/
def charOfNumber? (n : Nat) : Option Char :=
  if h : n ≠ 0 ∧ n.isValidChar then some (Char.ofNatAux n h.2) else none

/-- The character that a reference stands for, given what is between `&` and `;`. -/
def reference? (name : List Char) : Option Char :=
  match name with
  | '#' :: 'x' :: digits =>
    if digits.length ≤ 6 then (number? 16 digits).bind charOfNumber? else none
  | '#' :: digits => if digits.length ≤ 7 then (number? 10 digits).bind charOfNumber? else none
  | ['l', 't'] => some '<'
  | ['g', 't'] => some '>'
  | ['a', 'm', 'p'] => some '&'
  | ['a', 'p', 'o', 's'] => some '\''
  | ['q', 'u', 'o', 't'] => some '"'
  | _ => none

/-- Replaces the references in a text, where `done` was read (last first), and `name` holds what
followed an ampersand (last first). -/
def unescapeFrom (done : List Char) (name : Option (List Char)) :
    List Char → Option (List Char)
  | [] => if name.isNone then some done.reverse else none
  | c :: rest =>
    match name with
    | none =>
      if c = '&' then unescapeFrom done (some []) rest else unescapeFrom (c :: done) none rest
    | some n =>
      if c = '&' then none
      else if c = ';' then
        match reference? n.reverse with
        | some r => unescapeFrom (r :: done) none rest
        | none => none
      else unescapeFrom done (some (c :: n)) rest

/-- The text that character data stands for. -/
def unescape (content : List Char) : Option (List Char) :=
  unescapeFrom [] none content

/-! ### The check -/

/-- The names of the elements that are open behind a token, innermost first.  An end tag has to have
the innermost name. -/
def namesBehind (opened : List (List Char)) : Token → Except XmlError (List (List Char))
  | .startTag name => .ok (name :: opened)
  | .endTag name =>
    match opened with
    | [] => .error .malformed
    | n :: opened => if n = name then .ok opened else .error .malformed
  | .emptyTag | .text _ | .cdata _ | .comment | .doctype | .instruction => .ok opened

/-- What is counted: how deep the text is in elements, and the roots. -/
structure Counts where
  depth : Nat := 0
  roots : Nat := 0
deriving DecidableEq, Repr

namespace Counts

/-- One more root, outside of all elements. -/
def countRoot (c : Counts) : Nat :=
  if c.depth = 0 then c.roots + 1 else c.roots

/-- The counts behind a token.  Outside of all elements, character data is white space. -/
def step (c : Counts) : Token → Except XmlError Counts
  | .startTag _ => .ok ⟨c.depth + 1, c.countRoot⟩
  | .endTag _ => .ok ⟨c.depth - 1, c.roots⟩
  | .emptyTag => .ok ⟨c.depth, c.countRoot⟩
  | .text content =>
    if c.depth = 0 then
      match unescape content with
      | none => .error .malformed
      | some t => if Text.isBlank t then .ok c else .error .textOutsideRoot
    else .ok c
  | .cdata _ | .comment | .doctype | .instruction => .ok c

/-- What the end of the text says about the counts. -/
def finish (c : Counts) : Except XmlError Unit :=
  if c.roots = 0 then .error .noRoot
  else if c.depth > 0 then .error .unclosedElement
  else if c.roots = 1 then .ok ()
  else .error .severalRoots

end Counts

/-- What was seen so far: the names of the open elements, by which the tags are matched, and the
counts. -/
structure Progress where
  opened : List (List Char) := []
  counts : Counts := {}
deriving DecidableEq, Repr

/-- What was seen after one more token: the tags are matched first, and then it is counted. -/
def Progress.step (p : Progress) (t : Token) : Except XmlError Progress := do
  let opened ← namesBehind p.opened t
  let counts ← p.counts.step t
  return ⟨opened, counts⟩

/-- Whether a text is a single document, and if not, why. -/
def check (s : List Char) : Except XmlError Unit := do
  let (ts, complete) := tokens s
  let p ← ts.foldlM Progress.step {}
  if complete then p.counts.finish else .error .malformed

end Mime.Xml
