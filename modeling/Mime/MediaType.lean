import Mime.Error
import Mime.Parameters

/-! # Media types

The values of Content-Type: `type "/" subtype ["+" suffix] *(";" name "=" value)`.
`MediaType.parse` reads one and `MediaType.format` writes it; type and parameter names are in small
letters, parameter values are kept as given. -/

namespace Mime

/-- A media type.  Type and subtype are both empty where no type is set. -/
structure MediaType where
  primary : String := ""
  sub : String := ""
  suffix : String := ""
  parameters : Parameters := Parameters.empty
deriving DecidableEq, Repr

namespace MediaType

/-- No type set. -/
def unset : MediaType := {}

/-- Cuts a subtype at its last plus sign into the subtype proper and the suffix. -/
def cutSuffix (sub : List Char) : List Char × List Char :=
  (Text.cutLast '+' sub).getD (sub, [])

/-- The media type without parameters that has the given type and subtype. -/
def ofTypes (primary sub : String) : MediaType :=
  let cut := cutSuffix (Text.lower sub).toList
  { primary := Text.lower primary
    sub := String.ofList cut.1
    suffix := String.ofList cut.2 }

/-- The media type with a further parameter. -/
def withParameter (m : MediaType) (name value : String) : MediaType :=
  { m with parameters := m.parameters.insert name value }

/-- Reads the piece after a semicolon; a blank piece says nothing. -/
def addPiece (p : Parameters) (piece : List Char) : Except FieldError Parameters :=
  let piece := Text.trim piece
  if piece.isEmpty then .ok p
  else
    match Text.cutFirst '=' piece with
    | none => .error (.noParameterValue (String.ofList piece))
    | some (name, value) =>
      let name := Text.trim name
      if !Field.isToken name then .error (.badParameterName (String.ofList name))
      else
        match Field.unquote (Text.trim value) with
        | none => .error (.unbalancedParameter (String.ofList name))
        | some value => .ok (p.insert (String.ofList name) (String.ofList value))

/-- Reads the type and subtype in front of the parameters; `value` is what messages show. -/
def parseTypes (value : String) (piece : List Char) : Except FieldError MediaType :=
  match Text.cutFirst '/' ((Text.trim piece).map Char.toLower) with
  | none => .error (.noSubtype value)
  | some (primary, sub) =>
    let primary := Text.trim primary
    let sub := Text.trim sub
    if !Field.isToken primary then .error (.badPrimaryType value)
    else if !Field.isToken sub then .error (.badSubtype value)
    else
      let cut := cutSuffix sub
      .ok { primary := String.ofList primary
            sub := String.ofList cut.1
            suffix := String.ofList cut.2 }

/-- Reads a Content-Type value. -/
def parseField (value : String) : Except FieldError MediaType := do
  match Field.splitUnquoted value.toList with
  | none => .error (.unbalancedQuotes value)
  | some pieces =>
    let types ← parseTypes value (pieces.headD [])
    let parameters ← pieces.tail.foldlM addPiece Parameters.empty
    return { types with parameters }

/-- Reads a Content-Type value, as an operation that may fail otherwise as well. -/
def parse (value : String) : Except Error MediaType :=
  (parseField value).mapError .field

/-- Reads a Content-Type value; where there is none, no type is set. -/
def parseOptional : Option String → Except Error MediaType
  | some value => parse value
  | none => .ok unset

/-- Whether no type is set. -/
def isEmpty (m : MediaType) : Bool :=
  m.primary.isEmpty && m.sub.isEmpty

/-- The type and subtype without suffix and parameters. -/
def base? (m : MediaType) : Option String :=
  if m.isEmpty then none else some (m.primary ++ "/" ++ m.sub)

/-- Whether the entity holds parts. -/
def isMultipart (m : MediaType) : Bool :=
  m.primary == "multipart"

/-- Whether the entity holds other entities. -/
def isComposite (m : MediaType) : Bool :=
  m.isMultipart || m.primary == "message"

/-- Whether type and subtype are the given ones, such as `text/plain`; case is ignored. -/
def is (m : MediaType) (base : String) : Bool :=
  match Text.cutFirst '/' base.toList with
  | some (primary, sub) =>
    Text.sameName m.primary (String.ofList primary) && Text.sameName m.sub (String.ofList sub)
  | none => false

/-- The boundary parameter, unless it is empty. -/
def boundary? (m : MediaType) : Option String :=
  (m.parameters.get? "boundary").filter (!·.isEmpty)

/-- The charset parameter, unless it is empty. -/
def charset? (m : MediaType) : Option String :=
  (m.parameters.get? "charset").filter (!·.isEmpty)

/-- The Content-Type value; empty where no type is set. -/
def format (m : MediaType) : String :=
  if m.isEmpty then ""
  else String.ofList <|
    m.primary.toList ++ '/' :: m.sub.toList ++
      (if m.suffix.isEmpty then [] else '+' :: m.suffix.toList) ++
      m.parameters.format

/-- Whether a text can be read as a Content-Type value. -/
def isValid (value : String) : Bool :=
  (parseField value).isOk

/-! ### Types of the bodies -/

/-- The type of bytes of which nothing is known. -/
def octetStream : String := "application/octet-stream"

/-- The type of a form with files. -/
def formData : String := "multipart/form-data"

/-- The type of a stream of server-sent events. -/
def eventStream : String := "text/event-stream"

end MediaType
end Mime
