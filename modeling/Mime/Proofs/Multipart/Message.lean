import Mime.Proofs.Boundary
import Mime.Proofs.Field.Quoted
import Mime.Proofs.Multipart.HeaderLines

/-! # The bytes of a message

A writer whose sink accepts everything writes `messageBytes`: for each part its delimiter, its
header block and its content, with a line break in front of every delimiter but the first
(`Writer.writeMessage_eq`).  A delimiter is in one line and in one segment, and the Content-Type
value of the writer gives its boundary back (`lenientBoundary?_contentType`). -/

namespace Mime.Multipart

/-! ### Boundaries -/

section boundary

variable {boundary : String}

theorem dashBoundary_eq (boundary : String) :
    dashBoundary boundary = Utf8.encode ('-' :: '-' :: boundary.toList) := rfl

theorem not_mem_dashBoundary (h : Boundary.isValid boundary.toList = true) :
    carriageReturn ∉ dashBoundary boundary ∧ lineFeed ∉ dashBoundary boundary := by
  have hne := Boundary.not_break_of_isValid h
  rw [dashBoundary_eq, carriageReturn_mem_encode_iff, lineFeed_mem_encode_iff]
  simp only [List.mem_cons, not_or]
  exact ⟨⟨by decide, by decide, fun hm => (hne _ hm).1 rfl⟩,
    ⟨by decide, by decide, fun hm => (hne _ hm).2 rfl⟩⟩

theorem length_encode_le : ∀ s : List Char, (Utf8.encode s).length ≤ 4 * s.length
  | [] => Nat.le_refl 0
  | c :: s => by
      have := length_encode_le s
      have := Char.utf8Size_le_four c
      rw [Utf8.encode_cons, List.length_append, String.length_utf8EncodeChar, List.length_cons]
      omega

theorem length_dashBoundary_le (h : Boundary.isValid boundary.toList = true) :
    (dashBoundary boundary).length ≤ 288 := by
  have hmax : boundary.toList.length ≤ 70 := Boundary.length_le_of_isValid h
  have := length_encode_le ('-' :: '-' :: boundary.toList)
  rw [dashBoundary_eq]
  simp only [List.length_cons] at this
  omega

theorem isValid_of_withBoundary {sink : Sink} {w : Writer}
    (h : Writer.withBoundary sink boundary = .ok w) :
    Boundary.isValid boundary.toList = true ∧ w = { sink, boundary } := by
  unfold Writer.withBoundary checkBoundary at h
  split at h
  · rename_i hv
    exact ⟨hv, (Except.ok.inj h).symm⟩
  · cases h

/-- The reader is given the boundary of the writer. -/
theorem lenientBoundary?_contentType {w : Writer} {sub : String}
    (hw : Boundary.isValid w.boundary.toList = true) (hsub : Field.isToken sub.toList = true) :
    Field.lenientBoundary? (w.contentType sub) = some w.boundary := by
  have htype : Field.Whole ("multipart/".toList ++ sub.toList) :=
    (Field.whole_of_forall (by simp)).append (Field.whole_of_isToken hsub)
  have hformat : (w.contentType sub).toList = "multipart/".toList ++ sub.toList ++
      Parameters.format ⟨[("boundary", w.boundary)]⟩ := by
    simp [Writer.contentType, Parameters.format]
  have htoken : Field.isToken "boundary".toList = true := by decide
  have hsplit := Field.splitUnquoted_format htype (p := ⟨[("boundary", w.boundary)]⟩) (by simpa)
  rw [← hformat] at hsplit
  have hparams : Field.lenientParameters (w.contentType sub) = ⟨[("boundary", w.boundary)]⟩ := by
    rw [Field.lenientParameters, hsplit]
    show Field.addLenient Parameters.empty (Field.parameterPiece ("boundary", w.boundary)) = _
    have hlower : Text.lower "boundary" = "boundary" := by decide
    rw [Field.addLenient_parameterPiece htoken, Parameters.insert, hlower]
    rfl
  have hget : Parameters.get? ⟨[("boundary", w.boundary)]⟩ "boundary" = some w.boundary := by
    simp [Parameters.get?]
  rw [Field.lenientBoundary?, hparams, hget, Option.filter_some, Boundary.ne_empty_of_isValid hw]
  rfl

end boundary

/-! ### Messages -/

/-- The bytes of the delimiter line in front of a part. -/
def nextLine (boundary : String) : Bytes :=
  dashBoundary boundary ++ emptyLine

/-- The bytes of the closing delimiter. -/
def lastLine (boundary : String) : Bytes :=
  dashBoundary boundary ++ [dash, dash]

/-- The bytes of a part behind its delimiter. -/
def partBytes (part : Headers × Bytes) : Bytes :=
  Utf8.encode (headerBlock part.1) ++ part.2

/-- The bytes behind the content of a part: the parts that follow it, and the closing delimiter. -/
def tailBytes (boundary : String) : List (Headers × Bytes) → Bytes
  | [] => emptyLine ++ lastLine boundary
  | part :: rest =>
    emptyLine ++ (nextLine boundary ++ (partBytes part ++ tailBytes boundary rest))

/-- The bytes of a message; there are none without parts. -/
def messageBytes (boundary : String) : List (Headers × Bytes) → Bytes
  | [] => []
  | part :: rest => nextLine boundary ++ (partBytes part ++ tailBytes boundary rest)

namespace Writer

/-- Writes a part. -/
def writePart (w : Writer) (part : Headers × Bytes) : Except Error Unit × Writer :=
  match w.createPart part.1 with
  | (.ok (), w) => w.write part.2
  | (.error e, w) => (.error e, w)

/-- Writes parts one after the other, and closes the message. -/
def writeMessage (w : Writer) : List (Headers × Bytes) → Except Error Unit × Writer
  | [] => w.close
  | part :: rest =>
    match w.writePart part with
    | (.ok (), w) => w.writeMessage rest
    | (.error e, w) => (.error e, w)

theorem write_of_limit_eq_none {w : Writer} (h : w.sink.limit = none) (bytes : Bytes) :
    w.write bytes = (.ok (), { w with sink := w.sink.push bytes }) := by
  rw [write, Sink.write_of_limit_eq_none h]
  rfl

theorem encode_openDelimiter (boundary : String) (first : Bool) :
    Utf8.encode (openDelimiter boundary first) =
      (if first then [] else emptyLine) ++ nextLine boundary := by
  unfold openDelimiter
  rw [Utf8.encode_append, Utf8.encode_append, Utf8.encode_append, List.append_assoc,
    List.append_assoc]
  cases first <;> rfl

theorem encode_closeDelimiter (boundary : String) :
    Utf8.encode (closeDelimiter boundary) = emptyLine ++ lastLine boundary := by
  unfold closeDelimiter
  rw [Utf8.encode_append, Utf8.encode_append, Utf8.encode_append, List.append_assoc,
    List.append_assoc]
  rfl

theorem createPart_eq {w : Writer} (h : w.sink.limit = none) (headers : Headers) :
    w.createPart headers = (.ok (), { w with
      sink := w.sink.push
        (Utf8.encode (openDelimiter w.boundary (!w.hasParts) ++ headerBlock headers))
      hasParts := true }) := by
  rw [createPart, write_of_limit_eq_none h]

theorem writePart_eq {w : Writer} (h : w.sink.limit = none) (part : Headers × Bytes) :
    ∃ w', w.writePart part = (.ok (), w') ∧ w'.sink.limit = none ∧ w'.boundary = w.boundary ∧
      w'.hasParts = true ∧ w'.sink.data = w.sink.data ++
        ((if w.hasParts then emptyLine else []) ++ (nextLine w.boundary ++ partBytes part)) := by
  rw [writePart, createPart_eq h]
  dsimp only
  refine ⟨_, write_of_limit_eq_none (by exact h) part.2, h, rfl, rfl, ?_⟩
  show ((w.sink.push _).push part.2).data = _
  rw [Sink.data_push, Sink.data_push, Utf8.encode_append, encode_openDelimiter]
  cases w.hasParts <;> simp [partBytes]

theorem close_eq {w : Writer} (h : w.sink.limit = none) (hp : w.hasParts = true) :
    ∃ w', w.close = (.ok (), w') ∧
      w'.sink.data = w.sink.data ++ (emptyLine ++ lastLine w.boundary) := by
  rw [close, if_pos hp, encode_closeDelimiter]
  refine ⟨_, write_of_limit_eq_none h _, ?_⟩
  rw [Sink.data_push]

theorem writeMessage_of_hasParts : ∀ {w : Writer} (parts : List (Headers × Bytes)),
    w.sink.limit = none → w.hasParts = true →
    ∃ w', w.writeMessage parts = (.ok (), w') ∧
      w'.sink.data = w.sink.data ++ tailBytes w.boundary parts
  | w, [], h, hp => close_eq h hp
  | w, part :: rest, h, hp => by
      obtain ⟨w₁, he, hlimit, hb, hparts, hdata⟩ := writePart_eq h part
      obtain ⟨w₂, he', hdata'⟩ := writeMessage_of_hasParts rest hlimit hparts
      refine ⟨w₂, ?_, ?_⟩
      · rw [writeMessage, he]
        exact he'
      · rw [hdata', hdata, hp, hb, tailBytes]
        simp

/-- A writer whose sink accepts everything writes the bytes of the message. -/
theorem writeMessage_eq (boundary : String) (part : Headers × Bytes)
    (rest : List (Headers × Bytes)) :
    ∃ w', ({ sink := .unlimited, boundary } : Writer).writeMessage (part :: rest) = (.ok (), w') ∧
      w'.sink.data = messageBytes boundary (part :: rest) := by
  obtain ⟨w₁, he, hlimit, hb, hparts, hdata⟩ :=
    writePart_eq (w := { sink := .unlimited, boundary }) rfl part
  obtain ⟨w₂, he', hdata'⟩ := writeMessage_of_hasParts rest hlimit hparts
  refine ⟨w₂, ?_, ?_⟩
  · rw [writeMessage, he]
    exact he'
  · rw [hdata', hdata, hb, messageBytes]
    simp

end Writer

end Mime.Multipart
