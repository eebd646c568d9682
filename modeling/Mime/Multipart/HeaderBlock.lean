import Mime.Headers
import Mime.Multipart.Limits
import Mime.Multipart.Segment
import Mime.Text.Ascii
import Mime.Text.Whitespace

/-! # Header blocks

The lines in front of a part's content, up to an empty line.  `collectLines` takes them from the
input under the limits, and `unfold` joins the lines that are continued and reads each header. -/

namespace Mime.Multipart

/-- The byte of a carriage return or a line feed. -/
def isBreakByte (b : UInt8) : Bool :=
  b == carriageReturn || b == lineFeed

/-- Whether a line is empty but for its line break; such a line ends the header block. -/
def isEmptyLine (line : Bytes) : Bool :=
  line.all isBreakByte

/-- Whether a line continues the one before it, by starting with a space or a tab. -/
def isFolded (line : Bytes) : Bool :=
  match line with
  | b :: _ => b == 32 || b == 9
  | [] => false

/-- A block that is being collected: the number of its bytes and of its lines that start a header,
its complete lines (last first), and the bytes of the line at hand (last first). -/
structure Block where
  size : Nat := 0
  headers : Nat := 0
  lines : List Bytes := []
  line : Bytes := []

/-- Adds bytes to the line at hand. -/
def Block.addBytes (b : Block) (bytes : Bytes) : Block :=
  { b with size := b.size + bytes.length, line := bytes.reverse ++ b.line }

/-- Adds a complete line, and begins the next one. -/
def Block.addLine (b : Block) (line : Bytes) : Block :=
  { size := b.size
    headers := if isFolded line then b.headers else b.headers + 1
    lines := line :: b.lines }

/-- The lines of a header block, and the input behind it. -/
def collectLines (limits : Limits) (b : Block) : Incoming → Except Error (List Bytes) × Incoming
  | [] => (.error (.structural .cutHeaders), [])
  | .error e :: rest => (.error (.io e), rest)
  | .ok s :: rest =>
    let b := b.addBytes s.bytes
    if limits.maxHeaderSize < b.size then (.error .messageTooLarge, rest)
    else
      match s.ending with
      | .full => collectLines limits b rest
      | .input => (.error (.structural .cutHeaders), rest)
      | .line =>
        let line := b.line.reverse
        if isEmptyLine line then (.ok b.lines.reverse, rest)
        else
          let b := b.addLine line
          if limits.maxHeaders < b.headers then (.error .messageTooLarge, rest)
          else collectLines limits b rest

/-- The text of a line without its line break. -/
def lineText (line : Bytes) : List Char :=
  Text.dropEndWhile (fun c => c == '\r' || c == '\n') (Utf8.decodeLossy line)

/-- The name and value of a header line; a line without a colon or a name has none. -/
def headerOfText? (text : List Char) : Option (String × String) :=
  match Text.cutFirst ':' text with
  | none => none
  | some (name, value) =>
    let name := Text.trim name
    if name.isEmpty then none else some (String.ofList name, String.ofList (Text.trim value))

/-- The headers that were read (last first), and the one that may still be continued. -/
structure Unfolding where
  complete : List (String × String) := []
  current : Option (String × String) := none

/-- All headers that were read (last first), the current one among them. -/
def Unfolding.all (u : Unfolding) : List (String × String) :=
  match u.current with
  | none => u.complete
  | some header => header :: u.complete

/-- Takes one more line.  A continuation is joined with a space; after a line that is no header it
is dropped. -/
def Unfolding.addLine (u : Unfolding) (line : Bytes) : Unfolding :=
  let text := lineText line
  if isFolded line then
    { u with
      current := u.current.map fun (name, value) =>
        (name, value ++ " " ++ String.ofList (Text.trim text)) }
  else { complete := u.all, current := headerOfText? text }

/-- The headers that lines make up. -/
def unfold (lines : List Bytes) : Headers :=
  ⟨(lines.foldl Unfolding.addLine {}).all.reverse⟩

/-- Reads a header block. -/
def readHeaders (limits : Limits) (input : Incoming) : Except Error Headers × Incoming :=
  match collectLines limits {} input with
  | (.ok lines, rest) => (.ok (unfold lines), rest)
  | (.error e, rest) => (.error e, rest)

theorem collectLines_length_le (limits : Limits) (b : Block) (input : Incoming) :
    (collectLines limits b input).2.length ≤ input.length := by
  induction input generalizing b with
  | nil => simp [collectLines]
  | cons item rest ih =>
    cases item with
    | error e => simp [collectLines]
    | ok s =>
      unfold collectLines
      dsimp only
      split
      · simp
      · split
        · exact Nat.le_succ_of_le (ih _)
        · simp
        · split
          · simp
          · split
            · simp
            · exact Nat.le_succ_of_le (ih _)

theorem readHeaders_length_le (limits : Limits) (input : Incoming) :
    (readHeaders limits input).2.length ≤ input.length := by
  have h := collectLines_length_le limits {} input
  unfold readHeaders
  split <;> simp_all

end Mime.Multipart
