import Mime.Body.ByteSource

/-! # Segments

A message is read in segments: a line with its line feed, or `segmentSize` bytes of a longer line,
or what is left at the end of the input.  `Buffered.readSegment` puts one together from a buffer
that is filled with whatever one read of the input brings, so that a segment may take several reads
and a read may bring several segments.  A failure takes the place of the segment that it interrupts,
whose bytes are lost, and the input goes on behind it.

`Incoming.ofArrivals` is what reading one segment after the other gives. -/

namespace Mime.Multipart

/-- The greatest size of a segment, and the size of the buffer. -/
def segmentSize : Nat := 4096

/-- The byte of a line feed. -/
def lineFeed : UInt8 := 10

/-- The byte of a carriage return. -/
def carriageReturn : UInt8 := 13

/-- How a segment ends: with a line feed, at the greatest size, or with the input. -/
inductive Ending where
  | line
  | full
  | input
deriving DecidableEq, Repr

/-- A segment of the input. -/
structure Segment where
  bytes : Bytes
  ending : Ending
deriving DecidableEq, Repr

/-- The segments that are still to be read.  A last segment, which may be empty, ends with the
input. -/
abbrev Incoming := List (Except IoError Segment)

/-- The bytes of what arrives at once, or the failure in their place. -/
def items : Arrival → List (Except IoError UInt8)
  | .ok bytes => bytes.map .ok
  | .error e => [.error e]

/-- The bytes and failures of what arrives, one by one. -/
def flatten (arrivals : List Arrival) : List (Except IoError UInt8) :=
  arrivals.flatMap items

/-- An input behind a buffer: the bytes in the buffer, and what is still to arrive. -/
structure Buffered where
  ahead : Bytes := []
  arrivals : List Arrival

namespace Buffered

/-- The bytes and failures that are still to be read, wherever they are. -/
def flat (r : Buffered) : List (Except IoError UInt8) :=
  r.ahead.map .ok ++ flatten r.arrivals

/-- The bytes in the buffer, which is filled by one read if it is empty.  There are none at the end
of the input. -/
def fill (r : Buffered) : Except IoError Bytes × Buffered :=
  if r.ahead.isEmpty then
    match ByteSource.readArrivals segmentSize r.arrivals with
    | (.ok bytes, rest) => (.ok bytes, ⟨bytes, rest⟩)
    | (.error e, rest) => (.error e, ⟨[], rest⟩)
  else (.ok r.ahead, r)

/-- Takes bytes out of the buffer. -/
def consume (r : Buffered) (n : Nat) : Buffered :=
  { r with ahead := r.ahead.drop n }

/-- A read takes the first items of what arrives. -/
theorem items_readArrivals {n : Nat} (hn : 0 < n) : ∀ arrivals : List Arrival,
    flatten arrivals =
      items (ByteSource.readArrivals n arrivals).1 ++
        flatten (ByteSource.readArrivals n arrivals).2
  | [] => rfl
  | .error e :: rest => by
      rw [ByteSource.readArrivals, if_neg (by omega)]
      rfl
  | .ok [] :: rest => by
      rw [ByteSource.readArrivals]
      exact items_readArrivals hn rest
  | .ok (b :: bs) :: rest => by
      show (b :: bs).map .ok ++ flatten rest =
        ((b :: bs).take n).map .ok ++ (((b :: bs).drop n).map .ok ++ flatten rest)
      rw [← List.append_assoc, ← List.map_append, List.take_append_drop]

/-- A read that brings nothing has met the end. -/
theorem flatten_of_readArrivals_nil {n : Nat} (hn : 0 < n) {arrivals : List Arrival}
    (h : (ByteSource.readArrivals n arrivals).1 = .ok []) : flatten arrivals = [] := by
  induction arrivals with
  | nil => rfl
  | cons item rest ih =>
    match item with
    | .error e =>
      rw [ByteSource.readArrivals, if_neg (by omega)] at h
      cases h
    | .ok [] =>
      rw [ByteSource.readArrivals] at h
      exact ih h
    | .ok (b :: bs) =>
      obtain ⟨k, rfl⟩ : ∃ k, n = k + 1 := ⟨n - 1, by omega⟩
      simp [ByteSource.readArrivals] at h

/-- Filling the buffer moves bytes into it and loses none. -/
theorem flat_of_fill_eq_ok {r s : Buffered} {bytes : Bytes} (h : r.fill = (.ok bytes, s)) :
    s.ahead = bytes ∧ s.flat = r.flat ∧ (bytes = [] → r.flat = []) := by
  unfold fill at h
  split at h
  · rename_i he
    have hi := items_readArrivals (n := segmentSize) (by decide) r.arrivals
    have hn :
        (ByteSource.readArrivals segmentSize r.arrivals).1 = .ok [] → flatten r.arrivals = [] :=
      flatten_of_readArrivals_nil (by decide)
    have hr : r.flat = flatten r.arrivals := by simp [flat, List.isEmpty_iff.mp he]
    split at h
    · rename_i b rest hb
      cases h
      rw [hb] at hi hn
      refine ⟨rfl, ?_, ?_⟩
      · rw [hr, hi]; rfl
      · rintro rfl
        rw [hr]; exact hn rfl
    · cases h
  · rename_i he
    cases h
    exact ⟨rfl, rfl, fun h0 => absurd (List.isEmpty_iff.mpr h0) he⟩

/-- A failure is met when all that came before it is used up. -/
theorem flat_of_fill_eq_error {r s : Buffered} {e : IoError} (h : r.fill = (.error e, s)) :
    r.flat = .error e :: s.flat := by
  unfold fill at h
  split at h
  · rename_i he
    have hi := items_readArrivals (n := segmentSize) (by decide) r.arrivals
    have hr : r.flat = flatten r.arrivals := by simp [flat, List.isEmpty_iff.mp he]
    split at h
    · cases h
    · rename_i e' rest hb
      cases h
      rw [hb] at hi
      rw [hr, hi]; rfl
  · cases h

/-- Taking bytes out of the buffer leaves the rest. -/
theorem flat_consume (r : Buffered) (n : Nat) :
    (r.ahead.take n).map .ok ++ (r.consume n).flat = r.flat := by
  simp only [flat, consume]
  rw [← List.append_assoc, ← List.map_append, List.take_append_drop]

theorem length_flat_consume_le (r : Buffered) (n : Nat) :
    (r.consume n).flat.length ≤ r.flat.length := by
  rw [← flat_consume r n, List.length_append]
  omega

theorem length_flat_consume_lt {r : Buffered} {n : Nat} (hn : 0 < n) (ha : r.ahead ≠ []) :
    (r.consume n).flat.length < r.flat.length := by
  have := List.length_pos_iff.mpr ha
  rw [← flat_consume r n, List.length_append, List.length_map, List.length_take]
  omega

/-- Reads a segment, of which some bytes are taken already. -/
def readSegment (taken : Bytes) (r : Buffered) : Except IoError Segment × Buffered :=
  match _h : r.fill with
  | (.error e, r) => (.error e, r)
  | (.ok [], r) => (.ok ⟨taken, .input⟩, r)
  | (.ok (b :: bs), r) =>
    let window := (b :: bs).take (segmentSize - taken.length)
    match window.findIdx? (· == lineFeed) with
    | some i => (.ok ⟨taken ++ window.take (i + 1), .line⟩, r.consume (i + 1))
    | none =>
      if segmentSize ≤ (taken ++ window).length then
        (.ok ⟨taken ++ window, .full⟩, r.consume window.length)
      else readSegment (taken ++ window) (r.consume window.length)
termination_by r.flat.length
decreasing_by
  rename_i hroom
  obtain ⟨ha, hf, _⟩ := flat_of_fill_eq_ok _h
  rw [← hf]
  refine length_flat_consume_lt ?_ (by simp [ha])
  have : taken.length < segmentSize := by
    simp only [List.length_append] at hroom
    omega
  simp only [List.length_take, List.length_cons]
  omega

theorem length_readSegment_le (taken : Bytes) (r : Buffered) :
    (r.readSegment taken).2.flat.length ≤ r.flat.length := by
  fun_induction readSegment taken r with
  | case1 taken r e s h => simp [flat_of_fill_eq_error h]
  | case2 taken r s h => exact Nat.le_of_eq (by rw [(flat_of_fill_eq_ok h).2.1])
  | case3 taken r b bs s h window i =>
      rw [← (flat_of_fill_eq_ok h).2.1]
      exact length_flat_consume_le s _
  | case4 taken r b bs s h window =>
      rw [← (flat_of_fill_eq_ok h).2.1]
      exact length_flat_consume_le s _
  | case5 taken r b bs s h window _ _ ih =>
      rw [← (flat_of_fill_eq_ok h).2.1]
      exact Nat.le_trans ih (length_flat_consume_le s _)

/-- A segment takes some of the input, unless there is none. -/
theorem length_readSegment_lt {r : Buffered} (hr : r.flat ≠ []) :
    (r.readSegment []).2.flat.length < r.flat.length := by
  rw [readSegment]
  split
  · rename_i h
    simp [flat_of_fill_eq_error h]
  · rename_i h
    exact absurd ((flat_of_fill_eq_ok h).2.2 rfl) hr
  · rename_i b bs s h
    obtain ⟨ha, hf, _⟩ := flat_of_fill_eq_ok h
    have hlt : ∀ n, 0 < n → (s.consume n).flat.length < r.flat.length := fun n hn => by
      rw [← hf]
      exact length_flat_consume_lt hn (by simp [ha])
    have hw : 0 < ((b :: bs).take (segmentSize - 0)).length := by simp [segmentSize]
    dsimp only [List.length_nil]
    split
    · exact hlt _ (Nat.succ_pos _)
    · split
      · exact hlt _ hw
      · exact Nat.lt_of_le_of_lt (length_readSegment_le _ _) (hlt _ hw)

theorem readSegment_of_flat_eq_nil {r : Buffered} (hr : r.flat = []) :
    (r.readSegment []).1 = .ok ⟨[], .input⟩ := by
  rw [readSegment]
  split
  · rename_i h
    simp [flat_of_fill_eq_error h] at hr
  · rfl
  · rename_i h
    obtain ⟨ha, hf, _⟩ := flat_of_fill_eq_ok h
    rw [← hf] at hr
    simp [flat, ha] at hr

/-- All segments up to the one that ends with the input, behind those already read (last first). -/
def segmentsFrom (done : Incoming) (r : Buffered) : Incoming :=
  match _h : r.readSegment [] with
  | (.error e, rest) => segmentsFrom (.error e :: done) rest
  | (.ok s, rest) =>
    if s.ending = .input then (.ok s :: done).reverse else segmentsFrom (.ok s :: done) rest
termination_by r.flat.length
decreasing_by
  all_goals
    have hlt := length_readSegment_lt (r := r)
    rw [_h] at hlt
    refine hlt fun hr => ?_
    have h := readSegment_of_flat_eq_nil hr
    rw [_h] at h
    simp_all

end Buffered

/-- The segments of what arrives. -/
def Incoming.ofArrivals (arrivals : List Arrival) : Incoming :=
  Buffered.segmentsFrom [] { arrivals }

end Mime.Multipart
