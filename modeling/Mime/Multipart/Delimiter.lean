import Mime.Multipart.Segment

/-! # Delimiters

A delimiter is a segment at the start of a line: two dashes and the boundary, then two more dashes
if it is the last one, then spaces and tabs, then a line break.  The closing one may also end with
its segment. -/

namespace Mime.Multipart

/-- What a delimiter announces: another part, or the end of the parts. -/
inductive Delimiter where
  | next
  | close
deriving DecidableEq, Repr

/-- The byte of a dash. -/
def dash : UInt8 := 45

/-- The bytes `--` and a boundary, with which a delimiter starts. -/
def dashBoundary (boundary : String) : Bytes :=
  dash :: dash :: Utf8.ofString boundary

/-- What follows `start` in a text that starts with it. -/
def dropStart? (start bytes : Bytes) : Option Bytes :=
  if start.isPrefixOf bytes then some (bytes.drop start.length) else none

/-- The bytes of a space and a tab. -/
def isBlankByte (b : UInt8) : Bool :=
  b == 32 || b == 9

/-- Whether the bytes are a line break. -/
def isLineBreak (bytes : Bytes) : Bool :=
  bytes == [carriageReturn, lineFeed] || bytes == [lineFeed]

/-- The delimiter that a segment at the start of a line is, if it is one. -/
def delimiter? (dashBoundary : Bytes) (s : Segment) : Option Delimiter :=
  match dropStart? dashBoundary s.bytes with
  | none => none
  | some rest =>
    match dropStart? [dash, dash] rest with
    | some rest =>
      let rest := rest.dropWhile isBlankByte
      if rest.isEmpty || isLineBreak rest then some .close else none
    | none =>
      if s.ending = .line && isLineBreak (rest.dropWhile isBlankByte) then some .next else none

@[simp] theorem dropStart?_append (start rest : Bytes) :
    dropStart? start (start ++ rest) = some rest := by
  simp [dropStart?]

theorem dropStart?_eq_some {start bytes rest : Bytes} :
    dropStart? start bytes = some rest ↔ bytes = start ++ rest := by
  constructor
  · intro h
    simp only [dropStart?, Option.ite_none_right_eq_some, List.isPrefixOf_iff_prefix,
      Option.some.injEq] at h
    obtain ⟨⟨t, rfl⟩, h⟩ := h
    simp_all
  · rintro rfl
    simp

end Mime.Multipart
