import Mime.BodyKind
import Mime.Text.Literal

/-! # Errors

An error is the cause of a failure; `Error.message` is its one wording.  The causes fall into nine
categories, and a message starts with the title of its category.  A failure while parts are decoded
or populated keeps its cause: a cause of the category `parser` contributes its bare wording, any
other its full message. -/

namespace Mime

/-- What went wrong in an input or output device. -/
inductive IoKind where
  | brokenPipe
  | connectionReset
  | unexpectedEof
  | timedOut
  | permissionDenied
  | invalidData
  | notFound
  | other
deriving DecidableEq, Repr

/-- A failure of an input or output device. -/
structure IoError where
  kind : IoKind
  message : String
deriving DecidableEq, Repr

/-- The same failure, with what was being done put before its message. -/
def IoError.during (activity : String) (e : IoError) : IoError :=
  ⟨e.kind, activity ++ ": " ++ e.message⟩

/-- Why a Content-Type or Content-Disposition value is refused. -/
inductive FieldError where
  | unbalancedQuotes (value : String)
  | unbalancedDisposition (value : String)
  | noSubtype (value : String)
  | badPrimaryType (value : String)
  | badSubtype (value : String)
  | noParameterValue (parameter : String)
  | badParameterName (name : String)
  | unbalancedParameter (name : String)
deriving DecidableEq, Repr

/-- Why a text is not a decimal length. -/
inductive LengthError where
  | empty
  | invalidDigit
  | tooLarge
deriving DecidableEq, Repr

/-- Why a message or an entity does not have the structure that an operation needs. -/
inductive StructureError where
  | emptyBoundary
  | noStartBoundary
  | cutHeaders
  | cutContent (part : Nat)
  | noBoundaryParameter
  | badContentLength (value : String) (reason : LengthError)
  | notAPartList (found : BodyKind)
  | notComposite (type : String)
  | notMultipart (type : String)
  | sourceMaterialized
  | sourceDecoded
  | sourceLive
  | boundaryInUse
  | badBoundary (boundary : String)
deriving DecidableEq, Repr

/-- What was asked for where there is no content. -/
inductive MissingContent where
  | bytes
  | text
  | json
  | xml
  | byteSource
deriving DecidableEq, Repr

/-- Why bytes have no text, or no bytes in them. -/
inductive DecodeError where
  | base64
  | unsupportedCharset (label : String)
  | malformed (charset : String)
deriving DecidableEq, Repr

/-- Why a text has no bytes in a charset. -/
inductive EncodeError where
  | unsupportedCharset (label : String)
  | unrepresentable (charset : String)
deriving DecidableEq, Repr

/-- Why a text is not a single XML document. -/
inductive XmlError where
  | malformed
  | textOutsideRoot
  | noRoot
  | unclosedElement
  | severalRoots
deriving DecidableEq, Repr

/-- Why an operation failed. -/
inductive Error where
  | field (cause : FieldError)
  | structural (cause : StructureError)
  | whileDecoding (cause : Error)
  | whilePopulating (cause : Error)
  | noContent (missing : MissingContent)
  | decode (cause : DecodeError)
  | encode (cause : EncodeError)
  | json
  | xml (cause : XmlError)
  | io (cause : IoError)
  | messageTooLarge
deriving DecidableEq, Repr

/-- The categories of errors. -/
inductive ErrorCategory where
  | invalidContentType
  | parser
  | noContent
  | decode
  | encoding
  | json
  | xml
  | io
  | messageTooLarge
deriving DecidableEq, Repr

/-- The category of an error; what fails while parts are decoded or populated is a parser error. -/
def Error.category : Error → ErrorCategory
  | .field _ => .invalidContentType
  | .structural _ | .whileDecoding _ | .whilePopulating _ => .parser
  | .noContent _ => .noContent
  | .decode _ => .decode
  | .encode _ => .encoding
  | .json => .json
  | .xml _ => .xml
  | .io _ => .io
  | .messageTooLarge => .messageTooLarge

/-- How the messages of a category start. -/
def ErrorCategory.title : ErrorCategory → String
  | .invalidContentType => "Invalid content type: "
  | .parser => "Parser error: "
  | .noContent => "No content: "
  | .decode => "Decode error: "
  | .encoding => "Encoding error: "
  | .json => "JSON error: "
  | .xml => "XML error: "
  | .io => "IO error: "
  | .messageTooLarge => "Message too large"

def FieldError.wording : FieldError → String
  | .unbalancedQuotes v => "unbalanced quotes in " ++ Text.literal v
  | .unbalancedDisposition v => "unbalanced quotes in content disposition " ++ Text.literal v
  | .noSubtype v => "unable to find a sub type in " ++ Text.literal v
  | .badPrimaryType v => "invalid primary type in " ++ Text.literal v
  | .badSubtype v => "invalid sub type in " ++ Text.literal v
  | .noParameterValue p => "parameter " ++ Text.literal p ++ " has no value"
  | .badParameterName n => "invalid parameter name " ++ Text.literal n
  | .unbalancedParameter n => "unbalanced quotes in parameter " ++ Text.literal n

def LengthError.wording : LengthError → String
  | .empty => "cannot parse integer from empty string"
  | .invalidDigit => "invalid digit found in string"
  | .tooLarge => "number too large to fit in target type"

def StructureError.wording : StructureError → String
  | .emptyBoundary => "boundary is empty"
  | .noStartBoundary => "missing start boundary"
  | .cutHeaders => "unexpected end of stream in part headers"
  | .cutContent part =>
    "unexpected end of stream before the closing boundary of part " ++ toString part
  | .noBoundaryParameter => "missing boundary parameter"
  | .badContentLength v r =>
    "invalid Content-Length " ++ Text.literal v ++ ": " ++ r.wording
  | .notAPartList found => "Entity doesn't contain body parts, found a " ++ found.name
  | .notComposite type =>
    "Entity body is not a type of composite media type. Received content-type : " ++ type
  | .notMultipart type => "Entity doesn't contain body parts. Received content-type : " ++ type
  | .sourceMaterialized =>
    "Byte source is not available but payload can be obtained either as xml, json, string or byte[] type"
  | .sourceDecoded => "Byte source is not available since payload contains a set of body parts"
  | .sourceLive => "Byte source is not available since payload is a live stream"
  | .boundaryInUse => "cannot set boundary after writing parts"
  | .badBoundary b => "invalid boundary: " ++ Text.literal b

def MissingContent.wording : MissingContent → String
  | .bytes => "byte array payload is null"
  | .text => "String payload is null"
  | .json => "empty JSON document"
  | .xml => "Empty xml payload"
  | .byteSource => "Byte source is not available as payload"

def DecodeError.wording : DecodeError → String
  | .base64 => "input is not canonical Base64"
  | .unsupportedCharset label => "unsupported charset: " ++ label
  | .malformed charset => "input is not valid " ++ charset

def EncodeError.wording : EncodeError → String
  | .unsupportedCharset label => "unsupported charset: " ++ label
  | .unrepresentable charset => "text is not representable in " ++ charset

def XmlError.wording : XmlError → String
  | .malformed => "malformed markup"
  | .textOutsideRoot => "text outside of the root element"
  | .noRoot => "no root element"
  | .unclosedElement => "unclosed element"
  | .severalRoots => "more than one root element"

/-- What an error says after the title of its category.  Inside another error, a parser error
contributes only this, and any other error its title as well. -/
def Error.wording : Error → String
  | .field e => e.wording
  | .structural e => e.wording
  | .whileDecoding cause =>
    "Error occurred while decoding body parts from inputstream: " ++ inner cause
  | .whilePopulating cause => "Error occurred while populating body parts: " ++ inner cause
  | .noContent e => e.wording
  | .decode e => e.wording
  | .encode e => e.wording
  | .json => "not a JSON document"
  | .xml e => e.wording
  | .io e => e.message
  | .messageTooLarge => ""
where
  inner (cause : Error) : String :=
    if cause.category = .parser then cause.wording else cause.category.title ++ cause.wording

/-- The message of an error. -/
def Error.message (e : Error) : String :=
  e.category.title ++ e.wording

end Mime
