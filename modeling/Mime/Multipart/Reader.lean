import Mime.Multipart.Content
import Mime.Multipart.HeaderBlock

/-! # Reading multipart messages

`Reader.nextPart` reads one part after the other: a header block and its content.  After the
closing delimiter there are no more parts, and what follows it is ignored.  `decode` reads all
parts of a message, and on failure closes those it has read. -/

namespace Mime.Multipart

/-- A part as it stands in the message: its headers and its content. -/
structure RawPart where
  headers : Headers
  body : ByteSource

/-- A reader of a message: its boundary and limits, the input that is left, the number of parts
read, whether the first delimiter was passed, and whether the closing one was. -/
structure Reader where
  boundary : String
  limits : Limits
  input : Incoming
  partsRead : Nat := 0
  started : Bool := false
  finished : Bool := false

namespace Reader

/-- The reader of what arrives. -/
def ofArrivals (boundary : String) (limits : Limits) (arrivals : List Arrival) : Reader :=
  { boundary, limits, input := Incoming.ofArrivals arrivals }

/-- The reader of a source. -/
def ofSource (boundary : String) (limits : Limits) (source : ByteSource) : Reader :=
  ofArrivals boundary limits source.arrivals

/-- Reads the headers and the content of a part, in front of which the reader stands. -/
def readPart [Disk] (r : Reader) (spills : Spills) : Except Error RawPart × Reader × Spills :=
  match readHeaders r.limits r.input with
  | (.error e, input) => (.error e, { r with input }, spills)
  | (.ok headers, input) =>
    let spool : Spool := { threshold := r.limits.memoryThreshold, spills }
    match readContent (dashBoundary r.boundary) (r.partsRead + 1) { spool } input with
    | (.error e, spool, input) => (.error e, { r with input }, spool.discard)
    | (.ok d, spool, input) =>
      match spool.finish with
      | (.error e, spills) => (.error (.io e), { r with input }, spills)
      | (.ok body, spills) =>
        (.ok ⟨headers, body⟩,
          { r with
            input
            partsRead := r.partsRead + 1
            finished := d = .close },
          spills)

/-- Reads the next part; `none` after the last one. -/
def nextPart [Disk] (r : Reader) (spills : Spills) :
    Except Error (Option RawPart) × Reader × Spills :=
  if r.boundary.isEmpty then (.error (.structural .emptyBoundary), r, spills)
  else if r.finished then (.ok none, r, spills)
  else if r.started then
    let (part, r, spills) := r.readPart spills
    (part.map some, r, spills)
  else
    match skipPreamble (dashBoundary r.boundary) true r.input with
    | (.error e, input) => (.error e, { r with input }, spills)
    | (.ok .close, input) => (.ok none, { r with input, finished := true }, spills)
    | (.ok .next, input) =>
      let (part, r, spills) := { r with input, started := true }.readPart spills
      (part.map some, r, spills)

theorem readPart_length_lt [Disk] {r : Reader} {spills : Spills} {part : RawPart}
    (h : (r.readPart spills).1 = .ok part) :
    (r.readPart spills).2.1.input.length < r.input.length := by
  have hh := readHeaders_length_le r.limits r.input
  unfold readPart at h ⊢
  split
  · rename_i hr
    simp [hr] at h
  · rename_i headers input hr
    rw [hr] at hh
    simp only [hr] at h
    dsimp only
    split
    · rename_i hc
      simp [hc] at h
    · rename_i d spool rest hc
      have hlt := readContent_length_lt (congrArg Prod.fst hc)
      rw [hc] at hlt
      simp only [hc] at h
      split
      · rename_i hfinish
        simp [hfinish] at h
      · exact Nat.lt_of_lt_of_le hlt hh

/-- A part takes some of the input. -/
theorem nextPart_length_lt [Disk] {r : Reader} {spills : Spills} {part : RawPart}
    (h : (r.nextPart spills).1 = .ok (some part)) :
    (r.nextPart spills).2.1.input.length < r.input.length := by
  have map_some : ∀ {x : Except Error RawPart}, x.map some = .ok (some part) → x = .ok part := by
    intro x hx
    cases x <;> simp_all [Except.map]
  unfold nextPart at h ⊢
  by_cases hb : r.boundary.isEmpty = true
  · rw [if_pos hb] at h
    cases h
  rw [if_neg hb] at h ⊢
  by_cases hf : r.finished = true
  · rw [if_pos hf] at h
    cases h
  rw [if_neg hf] at h ⊢
  by_cases hs : r.started = true
  · rw [if_pos hs] at h ⊢
    exact readPart_length_lt (map_some h)
  rw [if_neg hs] at h ⊢
  have hp := skipPreamble_length_le (dashBoundary r.boundary) true r.input
  split at h
  · cases h
  · cases h
  · rename_i input hk
    rw [hk] at hp
    exact Nat.lt_of_lt_of_le (readPart_length_lt (map_some h)) hp

end Reader

/-- Closes the content of parts. -/
def closeParts [Disk] (parts : List RawPart) (spills : Spills) : Spills :=
  parts.foldl (fun spills p => spills.release p.body) spills

/-- Reads the parts that are left, behind those already read (last first). -/
def decodeFrom [Disk] (parts : List RawPart) (r : Reader) (spills : Spills) :
    Except Error (List RawPart) × Spills :=
  match _h : r.nextPart spills with
  | (.error e, _, spills) => (.error e, closeParts parts.reverse spills)
  | (.ok none, _, spills) => (.ok parts.reverse, spills)
  | (.ok (some part), r, spills) => decodeFrom (part :: parts) r spills
termination_by r.input.length
decreasing_by
  have := Reader.nextPart_length_lt (congrArg Prod.fst _h)
  rwa [_h] at this

/-- Reads all parts of a message. -/
def decode [Disk] (boundary : String) (limits : Limits) (source : ByteSource)
    (spills : Spills) : Except Error (List RawPart) × Spills :=
  decodeFrom [] (Reader.ofSource boundary limits source) spills

end Mime.Multipart
