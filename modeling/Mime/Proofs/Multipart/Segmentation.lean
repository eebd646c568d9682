import Mime.Multipart.Reader

/-! # Segments and positions

Where a segment ends is decided by the sequence of bytes and failures alone: `cut` cuts this
sequence byte by byte, at each line feed, after `segmentSize` bytes and at the end, and drops the
segment that a failure interrupts.  Reading through the buffer gives the same segments
(`ofArrivals_eq_cut`), however many reads brought the bytes and however they were cut.

Therefore a reader answers every call in the same way whenever the same bytes and failures arrive
in the same order (`answers_eq_of_flatten_eq`). -/

namespace Mime.Multipart

/-- The segments of a sequence of bytes and failures, where `taken` are the bytes of the segment at
hand. -/
def cut (taken : Bytes) : List (Except IoError UInt8) → Incoming
  | [] => [.ok ⟨taken, .input⟩]
  | .error e :: rest => .error e :: cut [] rest
  | .ok b :: rest =>
    if b = lineFeed then .ok ⟨taken ++ [b], .line⟩ :: cut [] rest
    else if taken.length + 1 = segmentSize then .ok ⟨taken ++ [b], .full⟩ :: cut [] rest
    else cut (taken ++ [b]) rest

/-! ### Cutting a run of bytes -/

theorem cut_append : ∀ (w : Bytes) {taken : Bytes}, lineFeed ∉ w →
    taken.length + w.length < segmentSize → ∀ rest : List (Except IoError UInt8),
    cut taken (w.map .ok ++ rest) = cut (taken ++ w) rest
  | [], taken, _, _, rest => by simp
  | b :: w, taken, hw, hlen, rest => by
      have hb : b ≠ lineFeed := fun h => hw (by simp [h])
      have hw' : lineFeed ∉ w := fun h => hw (by simp [h])
      simp only [List.length_cons] at hlen
      rw [List.map_cons, List.cons_append, cut, if_neg hb, if_neg (by omega),
        cut_append w hw' (by simp; omega)]
      simp

theorem cut_line {w taken : Bytes} (hw : lineFeed ∉ w)
    (hlen : taken.length + w.length < segmentSize) (rest : List (Except IoError UInt8)) :
    cut taken ((w ++ [lineFeed]).map .ok ++ rest) =
      .ok ⟨taken ++ (w ++ [lineFeed]), .line⟩ :: cut [] rest := by
  rw [List.map_append, List.append_assoc, cut_append w hw hlen, List.map_singleton,
    List.singleton_append, cut, if_pos rfl, List.append_assoc]

theorem cut_full {w taken : Bytes} (hw : lineFeed ∉ w) (hne : w ≠ [])
    (hlen : taken.length + w.length = segmentSize) (rest : List (Except IoError UInt8)) :
    cut taken (w.map .ok ++ rest) = .ok ⟨taken ++ w, .full⟩ :: cut [] rest := by
  obtain ⟨v, b, rfl⟩ : ∃ v b, w = v ++ [b] :=
    ⟨w.dropLast, w.getLast hne, (List.dropLast_concat_getLast hne).symm⟩
  simp only [List.mem_append, List.mem_singleton, not_or] at hw
  simp only [List.length_append, List.length_singleton] at hlen
  rw [List.map_append, List.append_assoc, cut_append v hw.1 (by omega), List.map_singleton,
    List.singleton_append, cut, if_neg (Ne.symm hw.2), if_pos (by simp; omega), List.append_assoc]

theorem cut_input {w : Bytes} (hw : lineFeed ∉ w) (hlen : w.length < segmentSize) :
    cut [] (w.map .ok) = [.ok ⟨w, .input⟩] := by
  have h : cut [] (w.map .ok ++ []) = cut ([] ++ w) [] := cut_append w hw (by simpa using hlen) []
  rwa [List.append_nil] at h

/-- A failure drops the segment that it interrupts. -/
theorem cut_error {w : Bytes} (hw : lineFeed ∉ w) (hlen : w.length < segmentSize) (e : IoError)
    (rest : List (Except IoError UInt8)) :
    cut [] (w.map .ok ++ .error e :: rest) = .error e :: cut [] rest := by
  rw [cut_append w hw (by simpa using hlen), cut]

/-- A sequence of bytes and failures that does not begin with a byte. -/
def Stops (items : List (Except IoError UInt8)) : Prop :=
  items = [] ∨ ∃ e rest, items = .error e :: rest

theorem exists_stops : ∀ items : List (Except IoError UInt8),
    ∃ (bytes : Bytes) (tail : List (Except IoError UInt8)),
      items = bytes.map .ok ++ tail ∧ Stops tail
  | [] => ⟨[], [], rfl, .inl rfl⟩
  | .error e :: rest => ⟨[], .error e :: rest, rfl, .inr ⟨e, rest, rfl⟩⟩
  | .ok b :: rest => by
      obtain ⟨bytes, tail, rfl, htail⟩ := exists_stops rest
      exact ⟨b :: bytes, tail, rfl, htail⟩

/-- The first segment that a line is cut into. -/
def firstSegment (line : Bytes) : Segment :=
  match cut [] (line.map .ok) with
  | .ok s :: _ => s
  | _ => ⟨[], .input⟩

theorem firstSegment_line {w : Bytes} (hw : lineFeed ∉ w) (hlen : w.length < segmentSize) :
    firstSegment (w ++ [lineFeed]) = ⟨w ++ [lineFeed], .line⟩ := by
  have h : cut [] ((w ++ [lineFeed]).map .ok ++ []) = _ := cut_line hw (by simpa using hlen) []
  rw [List.append_nil] at h
  rw [firstSegment, h]
  rfl

theorem firstSegment_full {q : Bytes} (hq : lineFeed ∉ q) (hlen : q.length = segmentSize)
    (v : Bytes) : firstSegment (q ++ v) = ⟨q, .full⟩ := by
  have hne : q ≠ [] := by
    rintro rfl
    cases hlen
  rw [firstSegment, List.map_append, cut_full hq hne (by simpa using hlen)]
  rfl

theorem firstSegment_input {w : Bytes} (hw : lineFeed ∉ w) (hlen : w.length < segmentSize) :
    firstSegment w = ⟨w, .input⟩ := by
  rw [firstSegment, cut_input hw hlen]

theorem bytes_prefix_of_cut {s : Segment} {rest : Incoming} : ∀ {bytes taken : Bytes},
    cut taken (bytes.map .ok) = .ok s :: rest → s.bytes <+: taken ++ bytes
  | [], taken, h => by
      cases h
      exact List.prefix_append taken []
  | b :: bytes, taken, h => by
      have hhere : taken ++ [b] <+: taken ++ b :: bytes := ⟨bytes, by simp⟩
      rw [List.map_cons, cut] at h
      split at h
      · cases h
        exact hhere
      · split at h
        · cases h
          exact hhere
        · have ih := bytes_prefix_of_cut h
          rwa [List.append_assoc, List.singleton_append] at ih

theorem bytes_firstSegment_le (line : Bytes) : (firstSegment line).bytes <+: line := by
  unfold firstSegment
  split
  · rename_i s rest h
    exact bytes_prefix_of_cut h
  · exact List.nil_prefix

/-! ### The buffer -/

theorem take_of_findIdx?_eq_some {w : Bytes} {i : Nat} (h : w.findIdx? (· == lineFeed) = some i) :
    lineFeed ∉ w.take i ∧ w.take (i + 1) = w.take i ++ [lineFeed] := by
  obtain ⟨hi, hlf, hlt⟩ := List.findIdx?_eq_some_iff_getElem.mp h
  constructor
  · intro hmem
    obtain ⟨j, hj, he⟩ := List.mem_iff_getElem.mp hmem
    rw [List.length_take] at hj
    rw [List.getElem_take] at he
    exact hlt j (by omega) (by simp [he])
  · rw [List.take_succ_eq_append_getElem hi, beq_iff_eq.mp hlf]

theorem not_mem_of_findIdx?_eq_none {w : Bytes} (h : w.findIdx? (· == lineFeed) = none) :
    lineFeed ∉ w := fun hmem => by
  have := List.findIdx?_eq_none_iff.mp h lineFeed hmem
  simp at this

/-- What is to be read begins with the window of the buffer. -/
theorem flat_of_fill {r s : Buffered} {bytes : Bytes} (h : r.fill = (.ok bytes, s)) {n k : Nat}
    (hk : k ≤ n) : r.flat = ((bytes.take n).take k).map .ok ++ (s.consume k).flat := by
  obtain ⟨ha, hf, -⟩ := Buffered.flat_of_fill_eq_ok h
  rw [List.take_take, Nat.min_eq_left hk, ← ha, Buffered.flat_consume, hf]

/-- Reading a segment through the buffer gives the first segment of what is to be read, and leaves
the sequence behind it. -/
theorem cut_flat_eq (taken : Bytes) (r : Buffered) (ht : taken.length < segmentSize) :
    cut taken r.flat = match r.readSegment taken with
      | (.error e, rest) => .error e :: cut [] rest.flat
      | (.ok s, rest) => .ok s :: if s.ending = .input then [] else cut [] rest.flat := by
  fun_induction Buffered.readSegment taken r with
  | case1 taken r e s h => rw [Buffered.flat_of_fill_eq_error h, cut]
  | case2 taken r s h =>
      rw [(Buffered.flat_of_fill_eq_ok h).2.2 rfl]
      rfl
  | case3 taken r b bs s h window i hi =>
      obtain ⟨hlf, htake⟩ := take_of_findIdx?_eq_some hi
      have hi' := (List.findIdx?_eq_some_iff_getElem.mp hi).1
      have hroom : i + 1 ≤ segmentSize - taken.length := by
        simp only [window, List.length_take] at hi'
        omega
      rw [flat_of_fill h hroom, htake, cut_line hlf]
      · rfl
      · rw [List.length_take]
        omega
  | case4 taken r b bs s h window hn hfull =>
      have hlen : window.length ≤ segmentSize - taken.length := List.length_take_le ..
      rw [List.length_append] at hfull
      rw [flat_of_fill h hlen, List.take_length,
        cut_full (not_mem_of_findIdx?_eq_none hn) _ (by omega)]
      · rfl
      · intro h0
        rw [h0, List.length_nil] at hfull
        omega
  | case5 taken r b bs s h window hn hroom ih =>
      have hlen : window.length ≤ segmentSize - taken.length := List.length_take_le ..
      rw [List.length_append] at hroom
      rw [flat_of_fill h hlen, List.take_length,
        cut_append window (not_mem_of_findIdx?_eq_none hn) (by omega)]
      apply ih
      rw [List.length_append]
      omega

theorem segmentsFrom_eq (done : Incoming) (r : Buffered) :
    r.segmentsFrom done = done.reverse ++ cut [] r.flat := by
  have hr := fun r => cut_flat_eq [] r (by decide)
  fun_induction Buffered.segmentsFrom done r with
  | case1 done r e rest h ih =>
      rw [ih, hr r, h]
      simp
  | case2 done r s rest h he =>
      rw [hr r, h]
      simp [he]
  | case3 done r s rest h he ih =>
      rw [ih, hr r, h]
      simp [he]

/-- The segments of what arrives are determined by its bytes and failures. -/
theorem ofArrivals_eq_cut (arrivals : List Arrival) :
    Incoming.ofArrivals arrivals = cut [] (flatten arrivals) := by
  rw [Incoming.ofArrivals, segmentsFrom_eq]
  rfl

/-! ### Calls of a reader -/

/-- The answers of a reader to one call after the other, each with the number of parts read and the
spill files after it.  A call meets the spill files that `states` gives for it, since parts may be
closed between two calls. -/
def Reader.answers (r : Reader) :
    List Spills → List (Except Error (Option RawPart) × Nat × Spills)
  | [] => []
  | spills :: states =>
    let (answer, r, spills) := r.nextPart spills
    (answer, r.partsRead, spills) :: r.answers states

/-- **How the input arrives does not matter.**  Two inputs with the same bytes and the same failures
in the same places, cut into reads in any two ways, give the same answers to all calls, those after
a failure and after the end among them. -/
theorem answers_eq_of_flatten_eq (boundary : String) (limits : Limits) {xs ys : List Arrival}
    (h : flatten xs = flatten ys) (states : List Spills) :
    (Reader.ofArrivals boundary limits xs).answers states =
      (Reader.ofArrivals boundary limits ys).answers states := by
  have he : Incoming.ofArrivals xs = Incoming.ofArrivals ys := by
    rw [ofArrivals_eq_cut, ofArrivals_eq_cut, h]
  rw [Reader.ofArrivals, Reader.ofArrivals, he]

/-- Cuts inside a delimiter, a line break and a content, with a failure in a header block. -/
theorem answers_eq_of_flatten_eq_cuts :
    (Reader.ofArrivals "b" .standard
        [.ok [45, 45], .ok [98, 13], .ok [10, 65, 58, 49, 10, 13], .ok [10, 120, 13],
          .ok [10, 45, 45, 98, 10, 66], .error ⟨.timedOut, "late"⟩, .ok [10], .ok [],
          .ok [10, 45], .ok [45, 98, 45, 45]]).answers [.empty, .empty, .empty, .empty] =
      (Reader.ofArrivals "b" .standard
        [.ok [45, 45, 98, 13, 10, 65, 58, 49, 10, 13, 10, 120, 13, 10, 45, 45, 98, 10, 66],
          .error ⟨.timedOut, "late"⟩, .ok [10, 10, 45, 45, 98, 45, 45]]).answers
        [.empty, .empty, .empty, .empty] :=
  answers_eq_of_flatten_eq "b" .standard (by rfl) [.empty, .empty, .empty, .empty]

end Mime.Multipart
