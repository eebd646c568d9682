import Mime.Error
import Mime.Parameters

/-! # Dispositions

The values of Content-Disposition: a type such as `form-data` or `attachment`, the `name` of a form
field, a `filename`, and other parameters.  `Disposition.parse` reads one and `Disposition.format`
writes it. -/

namespace Mime

/-- A disposition.  A `name` or `filename` that was read from a header is not in the parameters. -/
structure Disposition where
  type : String := ""
  name : Option String := none
  filename : Option String := none
  parameters : Parameters := Parameters.empty
deriving DecidableEq, Repr

namespace Disposition

/-- The disposition of a form field. -/
def formField (name : String) : Disposition :=
  { type := "form-data", name := some name }

/-- Sets what a named parameter says. -/
def assign (d : Disposition) (name value : String) : Disposition :=
  if name = "name" then { d with name := some value }
  else if name = "filename" then { d with filename := some value }
  else { d with parameters := d.parameters.insert name value }

/-- Reads the piece after a semicolon; a piece without a value says nothing. -/
def addPiece (d : Disposition) (piece : List Char) : Except FieldError Disposition :=
  match Text.cutFirst '=' piece with
  | none => .ok d
  | some (name, value) =>
    let name := String.ofList ((Text.trim name).map Char.toLower)
    match Field.unquote (Text.trim value) with
    | none => .error (.unbalancedParameter name)
    | some value => .ok (d.assign name (String.ofList value))

/-- Reads a Content-Disposition value. -/
def parseField (value : String) : Except FieldError Disposition :=
  match Field.splitUnquoted value.toList with
  | none => .error (.unbalancedDisposition value)
  | some pieces =>
    let type := String.ofList ((Text.trim (pieces.headD [])).map Char.toLower)
    pieces.tail.foldlM addPiece { type }

/-- Reads a Content-Disposition value, as an operation that may fail otherwise as well. -/
def parse (value : String) : Except Error Disposition :=
  (parseField value).mapError .field

/-- A parameter that is always written between quotes; nothing for an absent or empty one. -/
def formatQuoted (name : String) (value : Option String) : List Char :=
  match value with
  | none => []
  | some v =>
    if v.isEmpty then []
    else [';', ' '] ++ name.toList ++ '=' :: Field.encloseInQuotes v.toList

/-- The Content-Disposition value.  It is empty without a type, since parameters cannot stand
alone. -/
def format (d : Disposition) : String :=
  if d.type.isEmpty then ""
  else String.ofList <|
    d.type.toList ++ formatQuoted "name" d.name ++ formatQuoted "filename" d.filename ++
      d.parameters.format

end Disposition
end Mime
