import Mime.Parameters
import Mime.Text.Ascii

/-! # Reading header values leniently

A header value of unknown kind is a value followed by parameters.  What cannot be read is dropped
rather than refused: a parameter without a value or with broken quotes, and all parameters of a
text that leaves a quoted string open. -/

namespace Mime.Field

/-- The text before the first semicolon. -/
def bareValue (value : String) : String :=
  String.ofList (Text.trim (value.toList.takeWhile (· != ';')))

/-- Adds the parameter that a piece gives, if it gives one. -/
def addLenient (p : Parameters) (piece : List Char) : Parameters :=
  match Text.cutFirst '=' piece with
  | none => p
  | some (name, value) =>
    match unquote (Text.trim value) with
    | none => p
    | some value => p.insert (String.ofList (Text.trim name)) (String.ofList value)

/-- The parameters of a header value. -/
def lenientParameters (value : String) : Parameters :=
  match splitUnquoted value.toList with
  | none => Parameters.empty
  | some pieces => pieces.tail.foldl addLenient Parameters.empty

/-- The boundary parameter of a Content-Type value, unless it is empty. -/
def lenientBoundary? (value : String) : Option String :=
  ((lenientParameters value).get? "boundary").filter (!·.isEmpty)

end Mime.Field
