/-! # Tokens of XML

A text is a sequence of tags, character data, CDATA sections, comments, document types and
instructions.  `tokens` cuts a text into them from left to right and says whether it could be cut
to its end.  The cut is lax: attributes and names are not looked into. -/

namespace Mime.Xml

/-- A piece of markup or the character data between two of them. -/
inductive Token where
  | startTag (name : List Char)
  | endTag (name : List Char)
  | emptyTag
  | text (content : List Char)
  | cdata (content : List Char)
  | comment
  | doctype
  | instruction
deriving DecidableEq, Repr

/-- White space inside markup: space, tab, carriage return and line feed. -/
def isSpace (c : Char) : Bool :=
  c == ' ' || c == '\t' || c == '\r' || c == '\n'

/-- The text before the first `>` at which `ends` holds of what comes before it, and the text
behind it.  `ends` gets the text with the last character first. -/
def closeAt (ends : List Char → Bool) (done : List Char) :
    List Char → Option (List Char × List Char)
  | [] => none
  | c :: rest =>
    if c = '>' ∧ ends done then some (done.reverse, rest) else closeAt ends (c :: done) rest

/-- The text before the first `>` outside of quotes, and the text behind it; `quote` is the quote
that is open. -/
def closeTag (quote : Option Char) (done : List Char) :
    List Char → Option (List Char × List Char)
  | [] => none
  | c :: rest =>
    match quote with
    | some q => closeTag (if c = q then none else some q) (c :: done) rest
    | none =>
      if c = '>' then some (done.reverse, rest)
      else closeTag (if c = '"' ∨ c = '\'' then some c else none) (c :: done) rest

/-- The text before the first `>` that closes no `<` of the text, and the text behind it; `opened`
brackets are open. -/
def closeBalanced (opened : Nat) (done : List Char) :
    List Char → Option (List Char × List Char)
  | [] => none
  | c :: rest =>
    if c = '<' then closeBalanced (opened + 1) (c :: done) rest
    else if c = '>' then
      match opened with
      | 0 => some (done.reverse, rest)
      | n + 1 => closeBalanced n (c :: done) rest
    else closeBalanced opened (c :: done) rest

/-- The text up to the first `>` or the end, and the text behind it. -/
def closeAnywhere (s : List Char) : List Char × List Char :=
  (closeAt (fun _ => true) [] s).getD (s, [])

/-- Whether a text starts with a word, but for letter case; the word is in small letters. -/
def startsWith (word s : List Char) : Bool :=
  (s.take word.length).map Char.toLower == word

/-- A token with the text behind it, or no token. -/
abbrev Lexed := Option (Token × List Char)

/-- A comment, read from its exclamation mark on. -/
def comment (s : List Char) : Lexed :=
  match closeAt (fun done => done.take 2 == ['-', '-'] && 4 < done.length) [] s with
  | some (body, rest) => if startsWith ['!', '-', '-'] body then some (.comment, rest) else none
  | none => none

/-- A CDATA section, read from its exclamation mark on. -/
def cdata (s : List Char) : Lexed :=
  match closeAt (fun done => done.take 2 == [']', ']']) [] s with
  | some (body, rest) =>
    if startsWith ['!', '[', 'c', 'd', 'a', 't', 'a', '['] body then
      some (.cdata ((body.drop 8).dropLast.dropLast), rest)
    else none
  | none => none

/-- A document type, read from its exclamation mark on: its angle brackets are balanced, and it
says something. -/
def doctype (s : List Char) : Lexed :=
  match closeBalanced 0 [] s with
  | some (body, rest) =>
    if startsWith ['!', 'd', 'o', 'c', 't', 'y', 'p', 'e'] body && !(body.drop 8).all isSpace then
      some (.doctype, rest)
    else none
  | none => none

/-- An instruction, read from its question mark on. -/
def instruction (s : List Char) : Lexed :=
  let (body, rest) := closeAnywhere s
  if 2 < body.length && body.getLast? == some '?' then some (.instruction, rest) else none

/-- The name in an end tag: without the white space behind it, unless it is nothing else. -/
def endName (body : List Char) : List Char :=
  if body.all isSpace then body else (body.reverse.dropWhile isSpace).reverse

/-- An end tag, read from behind its slash. -/
def endTag (s : List Char) : Lexed :=
  let (body, rest) := closeAnywhere s
  some (.endTag (endName body), rest)

/-- A start tag or the tag of an empty element, read from behind its bracket. -/
def tag (s : List Char) : Lexed :=
  match closeTag none [] s with
  | some (body, rest) =>
    if body.getLast? = some '/' then some (.emptyTag, rest)
    else some (.startTag (body.takeWhile (!isSpace ·)), rest)
  | none => none

/-- The markup that follows an opening bracket. -/
def markup (s : List Char) : Lexed :=
  match s with
  | '!' :: '-' :: _ => comment s
  | '!' :: '[' :: _ => cdata s
  | '!' :: 'D' :: _ => doctype s
  | '!' :: 'd' :: _ => doctype s
  | '!' :: _ => none
  | '?' :: _ => instruction s
  | '/' :: rest => endTag rest
  | _ => tag s

theorem closeAt_length {ends : List Char → Bool} {done s body rest : List Char}
    (h : closeAt ends done s = some (body, rest)) : rest.length < s.length := by
  induction s generalizing done with
  | nil => simp [closeAt] at h
  | cons c s ih =>
    simp only [closeAt] at h
    split at h
    · simp only [Option.some.injEq, Prod.mk.injEq] at h
      simp [h.2]
    · exact Nat.lt_succ_of_lt (ih h)

theorem closeTag_length {quote : Option Char} {done s body rest : List Char}
    (h : closeTag quote done s = some (body, rest)) : rest.length < s.length := by
  induction s generalizing quote done with
  | nil => simp [closeTag] at h
  | cons c s ih =>
    simp only [closeTag] at h
    split at h
    · exact Nat.lt_succ_of_lt (ih h)
    · split at h
      · simp only [Option.some.injEq, Prod.mk.injEq] at h
        simp [h.2]
      · exact Nat.lt_succ_of_lt (ih h)

theorem closeBalanced_length {opened : Nat} {done s body rest : List Char}
    (h : closeBalanced opened done s = some (body, rest)) : rest.length < s.length := by
  induction s generalizing opened done with
  | nil => simp [closeBalanced] at h
  | cons c s ih =>
    simp only [closeBalanced] at h
    split at h
    · exact Nat.lt_succ_of_lt (ih h)
    · split at h
      · split at h
        · simp only [Option.some.injEq, Prod.mk.injEq] at h
          simp [h.2]
        · exact Nat.lt_succ_of_lt (ih h)
      · exact Nat.lt_succ_of_lt (ih h)

theorem closeAnywhere_length (s : List Char) : (closeAnywhere s).2.length ≤ s.length := by
  unfold closeAnywhere
  cases h : closeAt (fun _ => true) [] s with
  | none => simp
  | some r => exact Nat.le_of_lt (closeAt_length h)

/-- A token takes at least nothing, and never more than there is. -/
theorem markup_length {s : List Char} {t : Token} {rest : List Char}
    (h : markup s = some (t, rest)) : rest.length ≤ s.length := by
  have viaClose : ∀ {ends : List Char → Bool} {body r : List Char},
      closeAt ends [] s = some (body, r) → r.length ≤ s.length :=
    fun h => Nat.le_of_lt (closeAt_length h)
  unfold markup at h
  split at h
  · unfold comment at h
    split at h
    · rename_i hc
      split at h
      · simp only [Option.some.injEq, Prod.mk.injEq] at h
        exact h.2 ▸ viaClose hc
      · cases h
    · cases h
  · unfold cdata at h
    split at h
    · rename_i hc
      split at h
      · simp only [Option.some.injEq, Prod.mk.injEq] at h
        exact h.2 ▸ viaClose hc
      · cases h
    · cases h
  · unfold doctype at h
    split at h
    · rename_i hc
      split at h
      · simp only [Option.some.injEq, Prod.mk.injEq] at h
        exact h.2 ▸ Nat.le_of_lt (closeBalanced_length hc)
      · cases h
    · cases h
  · unfold doctype at h
    split at h
    · rename_i hc
      split at h
      · simp only [Option.some.injEq, Prod.mk.injEq] at h
        exact h.2 ▸ Nat.le_of_lt (closeBalanced_length hc)
      · cases h
    · cases h
  · cases h
  · unfold instruction at h
    simp only at h
    split at h
    · simp only [Option.some.injEq, Prod.mk.injEq] at h
      exact h.2 ▸ closeAnywhere_length _
    · cases h
  · unfold endTag at h
    simp only [Option.some.injEq, Prod.mk.injEq] at h
    exact h.2 ▸ Nat.le_succ_of_le (closeAnywhere_length _)
  · unfold tag at h
    split at h
    · rename_i hc
      split at h
      all_goals
        simp only [Option.some.injEq, Prod.mk.injEq] at h
        exact h.2 ▸ Nat.le_of_lt (closeTag_length hc)
    · cases h

/-- The tokens of a text behind those already cut (last first), and whether all of the text could
be cut.  A bracket that is the last character ends the text. -/
def tokensFrom (done : List Token) (s : List Char) : List Token × Bool :=
  match s with
  | [] => (done.reverse, true)
  | ['<'] => (done.reverse, true)
  | '<' :: s =>
    match _h : markup s with
    | none => (done.reverse, false)
    | some (t, rest) => tokensFrom (t :: done) rest
  | c :: s =>
    tokensFrom (.text (c :: s.takeWhile (· != '<')) :: done) (s.dropWhile (· != '<'))
termination_by s.length
decreasing_by
  · exact Nat.lt_succ_of_le (markup_length _h)
  · exact Nat.lt_succ_of_le (List.dropWhile_sublist _).length_le

/-- The tokens of a text, and whether all of it could be cut.  A byte order mark in front is
skipped. -/
def tokens (s : List Char) : List Token × Bool :=
  match s with
  | c :: rest => tokensFrom [] (if c = '\uFEFF' then rest else s)
  | [] => tokensFrom [] s

end Mime.Xml
