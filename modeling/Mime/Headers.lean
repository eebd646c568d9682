import Mime.Text.Ascii

/-! # Headers

The header lines of an entity, in order.  A name may occur more than once, looking one up ignores
case, and the spelling of each line is kept. -/

namespace Mime

/-- Header lines: names with their values. -/
structure Headers where
  entries : List (String × String) := []
deriving DecidableEq, Repr

namespace Headers

/-- No headers. -/
def empty : Headers := ⟨[]⟩

/-- The first value of a header. -/
def get? (h : Headers) (name : String) : Option String :=
  (h.entries.find? fun e => Text.sameName e.1 name).map Prod.snd

/-- All values of a header, in order. -/
def getAll (h : Headers) (name : String) : List String :=
  (h.entries.filter fun e => Text.sameName e.1 name).map Prod.snd

/-- Whether a header is there. -/
def contains (h : Headers) (name : String) : Bool :=
  (h.get? name).isSome

/-- Adds a line, whatever is there already. -/
def append (h : Headers) (name value : String) : Headers :=
  ⟨h.entries ++ [(name, value)]⟩

/-- Drops the lines of a name from place `i` on.  Behind a line that was dropped the others move up,
so that the place is looked at again. -/
def dropFrom (name : String) (i : Nat) (lines : List (String × String)) : List (String × String) :=
  if hi : i < lines.length then
    if Text.sameName lines[i].1 name then dropFrom name i (lines.eraseIdx i)
    else dropFrom name (i + 1) lines
  else lines
termination_by lines.length - i
decreasing_by
  · rw [List.length_eraseIdx_of_lt hi]
    omega
  · omega

/-- Replaces all values of a header by one, at the place of its first line; a new header comes
last. -/
def set (h : Headers) (name value : String) : Headers :=
  match h.entries.findIdx? fun e => Text.sameName e.1 name with
  | some i => ⟨dropFrom name (i + 1) (h.entries.set i (name, value))⟩
  | none => h.append name value

/-- Drops all lines of a header. -/
def erase (h : Headers) (name : String) : Headers :=
  ⟨h.entries.filter (!Text.sameName ·.1 name)⟩

/-- The lines given one after the other. -/
def ofList (entries : List (String × String)) : Headers :=
  entries.foldl (fun h e => h.append e.1 e.2) empty

/-- The number of lines. -/
def size (h : Headers) : Nat :=
  h.entries.length

/-- Whether there are no lines. -/
def isEmpty (h : Headers) : Bool :=
  h.entries.isEmpty

/-! ### The headers that an entity keeps in fields of their own -/

/-- The header of the media type. -/
def contentType : String := "Content-Type"

/-- The header of the disposition. -/
def contentDisposition : String := "Content-Disposition"

/-- The header of the content id. -/
def contentId : String := "Content-Id"

/-- The header of the declared length. -/
def contentLength : String := "Content-Length"

theorem entries_append (h : Headers) (name value : String) :
    (h.append name value).entries = h.entries ++ [(name, value)] := rfl

end Headers
end Mime
