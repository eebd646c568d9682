import Mime.Proofs.Multipart.Segmentation

/-! # Segments that are appended to a line

The lines of a header block are read segment by segment into one line that grows.  The room that is
left in a segment is then its greatest size less what was appended of it so far, and that is the
size of the line less the size that it had before (`Buffered.appendSegment`).  Neither of these two
differences is ever negative, and what is appended is the segment that `Buffered.readSegment` reads
(`Buffered.appendSegment_eq`).

A segment is what the bytes to be read begin with, and just these bytes are consumed
(`exists_of_readSegment`).  So the segments that are read one after the other are the whole input
(`appendSegment_splitsOff`). -/

namespace Mime.Multipart

/-- How the first segment is taken from some bytes, and what is left behind it. -/
inductive SplitsOff : Bytes → Segment → Bytes → Prop where
  | line {w rest : Bytes} : lineFeed ∉ w → w.length < segmentSize →
      SplitsOff (w ++ [lineFeed] ++ rest) ⟨w ++ [lineFeed], .line⟩ rest
  | full {w rest : Bytes} : lineFeed ∉ w → w.length = segmentSize →
      SplitsOff (w ++ rest) ⟨w, .full⟩ rest
  | input {w : Bytes} : lineFeed ∉ w → w.length < segmentSize → SplitsOff w ⟨w, .input⟩ []

namespace Buffered

/-- Appends a segment to a line that had `start` bytes before.  A failure leaves the bytes that came
in front of it.  There is no answer if one of the differences `line.length - start` and
`segmentSize - (line.length - start)` is negative. -/
def appendSegment (start : Nat) (line : Bytes) (r : Buffered) :
    Option (Except IoError Ending × Bytes × Buffered) :=
  match _h : r.fill with
  | (.error e, r) => some (.error e, line, r)
  | (.ok [], r) => some (.ok .input, line, r)
  | (.ok (b :: bs), r) =>
    if start ≤ line.length ∧ line.length - start ≤ segmentSize then
      let window := (b :: bs).take (segmentSize - (line.length - start))
      match window.findIdx? (· == lineFeed) with
      | some i => some (.ok .line, line ++ window.take (i + 1), r.consume (i + 1))
      | none =>
        if segmentSize ≤ (line ++ window).length - start then
          some (.ok .full, line ++ window, r.consume window.length)
        else appendSegment start (line ++ window) (r.consume window.length)
    else none
termination_by r.flat.length
decreasing_by
  rename_i hroom
  obtain ⟨ha, hf, -⟩ := flat_of_fill_eq_ok _h
  rw [← hf]
  refine length_flat_consume_lt ?_ (by simp [ha])
  have hpos : 0 < segmentSize - (line.length - start) := by
    simp only [List.length_append] at hroom
    omega
  simp only [List.length_take, List.length_cons]
  omega

variable {r s : Buffered} {start : Nat} {line : Bytes}

theorem appendSegment_of_error {e : IoError} (h : r.fill = (.error e, s)) :
    appendSegment start line r = some (.error e, line, s) := by
  rw [appendSegment]
  split
  all_goals
    rename_i h'
    rw [h] at h'
    cases h'
  rfl

theorem appendSegment_of_end (h : r.fill = (.ok [], s)) :
    appendSegment start line r = some (.ok .input, line, s) := by
  rw [appendSegment]
  split
  all_goals
    rename_i h'
    rw [h] at h'
    cases h'
  rfl

/-- One round: a window of the buffer, as long as there is room. -/
theorem appendSegment_of_window {taken : Bytes} {b : UInt8} {bs window : Bytes}
    (h : r.fill = (.ok (b :: bs), s)) (htaken : taken.length ≤ segmentSize)
    (hwindow : window = (b :: bs).take (segmentSize - taken.length)) :
    appendSegment line.length (line ++ taken) r =
      match window.findIdx? (· == lineFeed) with
      | some i => some (.ok .line, line ++ (taken ++ window.take (i + 1)), s.consume (i + 1))
      | none =>
        if segmentSize ≤ (taken ++ window).length then
          some (.ok .full, line ++ (taken ++ window), s.consume window.length)
        else appendSegment line.length (line ++ (taken ++ window)) (s.consume window.length) := by
  have hsize : ∀ w : Bytes, (line ++ w).length - line.length = w.length := by simp
  rw [appendSegment]
  split
  all_goals
    rename_i h'
    rw [h] at h'
    cases h'
  rw [if_pos ⟨by simp, by rwa [hsize]⟩]
  simp only [List.append_assoc, hsize, ← hwindow]

/-- What is appended to a line is the segment that is read, and no difference of sizes is negative.
Only where a failure interrupts the segment the line holds more: the bytes that are lost. -/
theorem appendSegment_eq (line taken : Bytes) (r : Buffered) (hsize : taken.length < segmentSize) :
    ∃ lost, r.appendSegment line.length (line ++ taken) = some (match r.readSegment taken with
      | (.error e, rest) => (.error e, line ++ lost, rest)
      | (.ok s, rest) => (.ok s.ending, line ++ s.bytes, rest)) := by
  fun_induction Buffered.readSegment taken r with
  | case1 taken r e s h => exact ⟨taken, appendSegment_of_error h⟩
  | case2 taken r s h => exact ⟨taken, appendSegment_of_end h⟩
  | case3 taken r b bs s h window i =>
      rename_i hi
      refine ⟨taken, ?_⟩
      rw [appendSegment_of_window h (Nat.le_of_lt hsize) rfl, hi]
  | case4 taken r b bs s h window =>
      rename_i hn hfull
      refine ⟨taken, ?_⟩
      rw [appendSegment_of_window h (Nat.le_of_lt hsize) rfl, hn]
      exact if_pos hfull
  | case5 taken r b bs s h window =>
      rename_i hn hroom ih
      rw [appendSegment_of_window h (Nat.le_of_lt hsize) rfl, hn, if_neg hroom]
      exact ih (by omega)

end Buffered

/-! ### A segment of bytes without a failure -/

theorem exists_of_flat {input w : Bytes} {t : Buffered}
    (h : input.map .ok = w.map .ok ++ t.flat) :
    ∃ rest, input = w ++ rest ∧ t.flat = rest.map .ok := by
  obtain ⟨front, rest, rfl, hfront, hrest⟩ := List.map_eq_append_iff.mp h
  rw [(List.map_inj_right fun _ _ hab => Except.ok.inj hab).mp hfront]
  exact ⟨rest, rfl, hrest.symm⟩

/-- From bytes without a failure a segment is read: what they begin with, and no more of them is
consumed. -/
theorem exists_of_readSegment (taken : Bytes) (r : Buffered) {input : Bytes}
    (hsize : taken.length < segmentSize) (hlf : lineFeed ∉ taken) (hr : r.flat = input.map .ok) :
    ∃ s rest r', r.readSegment taken = (.ok s, r') ∧ SplitsOff (taken ++ input) s rest ∧
      r'.flat = rest.map .ok := by
  fun_induction Buffered.readSegment taken r generalizing input with
  | case1 taken r e s h =>
      rw [Buffered.flat_of_fill_eq_error h] at hr
      cases input <;> cases hr
  | case2 taken r s h =>
      obtain ⟨-, hf, hend⟩ := Buffered.flat_of_fill_eq_ok h
      have hinput : input = [] := List.map_eq_nil_iff.mp (hr.symm.trans (hend rfl))
      refine ⟨_, [], _, rfl, ?_, by rw [hf, hend rfl]; rfl⟩
      rw [hinput, List.append_nil]
      exact .input hlf hsize
  | case3 taken r b bs s h window i =>
      rename_i hi
      obtain ⟨hbefore, htake⟩ := take_of_findIdx?_eq_some hi
      have hi' := (List.findIdx?_eq_some_iff_getElem.mp hi).1
      have hlen : window.length ≤ segmentSize - taken.length := List.length_take_le ..
      have hroom : i + 1 ≤ segmentSize - taken.length := by omega
      rw [flat_of_fill h hroom] at hr
      obtain ⟨rest, rfl, hrest⟩ := exists_of_flat hr.symm
      have hw : (taken ++ window.take i).length < segmentSize := by
        rw [List.length_append, List.length_take]
        omega
      refine ⟨_, rest, _, rfl, ?_, hrest⟩
      rw [htake, ← List.append_assoc, ← List.append_assoc]
      exact .line (List.not_mem_append hlf hbefore) hw
  | case4 taken r b bs s h window =>
      rename_i hn hfull
      have hlen : window.length ≤ segmentSize - taken.length := List.length_take_le ..
      rw [flat_of_fill h hlen, List.take_length] at hr
      obtain ⟨rest, rfl, hrest⟩ := exists_of_flat hr.symm
      refine ⟨_, rest, _, rfl, ?_, hrest⟩
      rw [← List.append_assoc]
      refine .full (List.not_mem_append hlf (not_mem_of_findIdx?_eq_none hn)) ?_
      rw [List.length_append] at hfull ⊢
      omega
  | case5 taken r b bs s h window =>
      rename_i hn hroom ih
      have hlen : window.length ≤ segmentSize - taken.length := List.length_take_le ..
      rw [flat_of_fill h hlen, List.take_length] at hr
      obtain ⟨rest, rfl, hrest⟩ := exists_of_flat hr.symm
      rw [← List.append_assoc]
      exact ih (by omega) (List.not_mem_append hlf (not_mem_of_findIdx?_eq_none hn)) hrest

theorem exists_of_cut_map_ok : ∀ (bytes taken : Bytes),
    ∃ segments : List Segment, cut taken (bytes.map .ok) = segments.map .ok ∧
      segments.flatMap Segment.bytes = taken ++ bytes
  | [], taken => ⟨[⟨taken, .input⟩], rfl, rfl⟩
  | b :: bytes, taken => by
      obtain ⟨behind, hbehind, hrest⟩ := exists_of_cut_map_ok bytes []
      obtain ⟨longer, hlonger, hall⟩ := exists_of_cut_map_ok bytes (taken ++ [b])
      rw [List.map_cons, cut]
      split
      · exact ⟨⟨taken ++ [b], .line⟩ :: behind, by rw [hbehind]; rfl, by simp [hrest]⟩
      · split
        · exact ⟨⟨taken ++ [b], .full⟩ :: behind, by rw [hbehind]; rfl, by simp [hrest]⟩
        · exact ⟨longer, hlonger, by simp [hall]⟩

theorem flatten_map_ok : ∀ chunks : List Bytes,
    flatten (chunks.map .ok) = chunks.flatten.map .ok
  | [] => rfl
  | chunk :: chunks => by
      rw [List.flatten_cons, List.map_append, ← flatten_map_ok chunks]
      rfl

/-- **A segment is cut off the input faithfully**, whatever bytes are in the buffer, in whatever
chunks the others arrive and whatever line the segment is appended to.  It is read, and no
difference of sizes is negative.  It is what the input begins with, and just its bytes are consumed:
a line with its line feed, `segmentSize` bytes without a line feed, or fewer bytes without one which
are all that is left.  Read one after the other, the segments are the whole input. -/
theorem appendSegment_splitsOff (line ahead : Bytes) (chunks : List Bytes) :
    let r : Buffered := ⟨ahead, chunks.map .ok⟩
    let input := ahead ++ chunks.flatten
    (∃ s rest r', r.appendSegment line.length line = some (.ok s.ending, line ++ s.bytes, r') ∧
      r.readSegment [] = (.ok s, r') ∧ SplitsOff input s rest ∧ r'.flat = rest.map .ok) ∧
    ∃ segments : List Segment, r.segmentsFrom [] = segments.map .ok ∧
      segments.flatMap Segment.bytes = input := by
  intro r input
  have hr : r.flat = input.map .ok := by
    rw [Buffered.flat, flatten_map_ok, ← List.map_append]
  constructor
  · obtain ⟨s, rest, r', hread, hsplits, hrest⟩ :=
      exists_of_readSegment [] r (by decide) List.not_mem_nil hr
    obtain ⟨lost, happend⟩ := Buffered.appendSegment_eq line [] r (by decide)
    rw [List.append_nil, hread] at happend
    exact ⟨s, rest, r', happend, hread, hsplits, hrest⟩
  · rw [segmentsFrom_eq, hr]
    exact exists_of_cut_map_ok input []

end Mime.Multipart
