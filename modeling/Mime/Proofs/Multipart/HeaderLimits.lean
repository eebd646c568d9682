import Mime.Proofs.Multipart.Consumption
import Mime.Proofs.Multipart.LineParser

/-! # The limits of a header block are exact

A complete header block is read just if its bytes, up to the end of the empty line, and the lines
that start a header are no more than the limits say.  It is enough to look at the block as a whole
(`Limits.Admits`): a block that is not admitted is too large at some segment or too long at some
line (`collectLines_of_not_admits`).  A block that is not complete is never read.  Whatever the
lines are, the reader gives up no later than a segment beyond the limit
(`nextPart_of_header_limits`). -/

namespace Mime.Multipart

section block

variable {limits : Limits}

/-- A line that starts one header too many. -/
theorem collectLines_line_of_count_lt {b : Block} {w : Bytes} {rest : List (Except IoError UInt8)}
    (hw : lineFeed ∉ w) (hb : b.line = []) (he : isEmptyLine (w ++ [lineFeed]) = false)
    (hsize : b.size + (w.length + 1) ≤ limits.maxHeaderSize)
    (hcount : limits.maxHeaders < b.headers + headersOf (w ++ [lineFeed])) :
    (collectLines limits b (cut [] ((w ++ [lineFeed]).map .ok ++ rest))).1 =
      .error .messageTooLarge := by
  have hheaders : ((b.addBytes (w ++ [lineFeed])).addLine (w ++ [lineFeed])).headers =
      b.headers + headersOf (w ++ [lineFeed]) := by
    simp only [Block.addLine, Block.addBytes, headersOf]
    split <;> rfl
  rw [collectLines_line hw hsize, hb, List.reverse_nil, List.nil_append, he]
  dsimp only
  rw [if_neg (by simp), hheaders, if_pos hcount]

theorem collectLines_of_not_admits {b : Block} {ls block rest : List Bytes}
    (tail : List (Except IoError UInt8)) (hls : Lined ls) (hb : b.line = [])
    (hheaders : b.headers ≤ limits.maxHeaders) (h : takeBlock ls = (block, some rest))
    (hnot : ¬ (b.size + block.flatten.length ≤ limits.maxHeaderSize ∧
      b.headers + headerCount block ≤ limits.maxHeaders)) :
    (collectLines limits b (cut [] (ls.flatten.map .ok ++ tail))).1 =
      .error .messageTooLarge := by
  induction hls generalizing b block with
  | nil => simp [takeBlock] at h
  | last hw hne => simp [takeBlock, isTerminated_of_not_mem hw] at h
  | @cons w ls hw hls ih =>
      unfold takeBlock at h
      rw [isTerminated_append] at h
      rw [List.flatten_cons, List.map_append, List.append_assoc]
      rcases Nat.lt_or_ge limits.maxHeaderSize (b.size + (w.length + 1)) with hlarge | hsize
      · exact collectLines_line_of_lt hw hlarge
      cases he : isEmptyLine (w ++ [lineFeed]) with
      | true =>
          -- the empty line is not counted, so that the block is within the limits
          rw [he] at h
          cases h
          refine absurd ⟨?_, ?_⟩ hnot
          · simpa using hsize
          · simpa [headerCount, he] using hheaders
      | false =>
          cases hr : takeBlock ls with
          | mk block' found =>
              rw [he, hr] at h
              cases h
              rcases Nat.lt_or_ge limits.maxHeaders (b.headers + headersOf (w ++ [lineFeed])) with
                hmany | hcount
              · exact collectLines_line_of_count_lt hw hb he hsize hmany
              · rw [collectLines_header hw hb he hsize hcount]
                refine ih rfl hcount hr ?_
                rw [headerCount_cons he, List.flatten_cons, List.length_append, List.length_append,
                  List.length_singleton, ← Nat.add_assoc, ← Nat.add_assoc b.headers] at hnot
                exact hnot

theorem readHeaders_of_not_admits {ls block rest : List Bytes} (tail : List (Except IoError UInt8))
    (hls : Lined ls) (h : takeBlock ls = (block, some rest)) (hnot : ¬ limits.Admits block) :
    (readHeaders limits (cut [] (ls.flatten.map .ok ++ tail))).1 = .error .messageTooLarge := by
  have hread := collectLines_of_not_admits (b := {}) tail hls rfl (Nat.zero_le _) h
    (by simpa [Limits.Admits] using hnot)
  unfold readHeaders
  split <;> rename_i hr <;> rw [hr] at hread
  · cases hread
  · exact congrArg Except.error (Except.error.inj hread)

end block

namespace Reader

variable {r : Reader} {input : Incoming}

/-- A reader that reads a part next, and the input that the part stands in front of. -/
structure AtPart (r : Reader) (input : Incoming) : Prop where
  boundary_ne : r.boundary.isEmpty = false
  not_finished : r.finished = false
  place : r.started = true ∧ r.input = input ∨
    r.started = false ∧ skipPreamble (dashBoundary r.boundary) true r.input = (.ok .next, input)

/-- The next part is read behind the delimiter, whether that was passed before or is passed now. -/
theorem AtPart.nextPart_eq (h : r.AtPart input) (spills : Spills) : r.nextPart spills =
    { r with input, started := true }.nextPart spills := by
  rcases h.place with ⟨hs, rfl⟩ | ⟨hs, hskip⟩
  · rw [← hs]
  · exact nextPart_of_skipPreamble h.boundary_ne hs h.not_finished hskip spills

theorem AtPart.nextPart_of_error (h : r.AtPart input) {e : Error}
    (he : (readHeaders r.limits input).1 = .error e) (spills : Spills) :
    (r.nextPart spills).1 = .error e := by
  have hpart := readPart_of_readHeaders_error (r := { r with input, started := true }) he spills
  rw [h.nextPart_eq, nextPart_of_started (r := { r with input, started := true }) h.boundary_ne rfl
    h.not_finished, hpart]
  rfl

theorem AtPart.exists_error (h : r.AtPart input) {bytes : Bytes}
    {tail : List (Except IoError UInt8)} (hin : Holds (bytes.map .ok ++ tail) input)
    (htail : Stops tail) (hblock : (takeBlock (lines bytes)).2 = none) (spills : Spills) :
    ∃ e, (r.nextPart spills).1 = .error e := by
  cases hread : readHeaders r.limits input with
  | mk answer left =>
    cases answer with
    | error e => exact ⟨e, h.nextPart_of_error (congrArg Prod.fst hread) spills⟩
    | ok headers =>
        exfalso
        rcases hin with rfl | ⟨-, rfl⟩
        · rw [← flatten_lines bytes] at hread
          obtain ⟨block, rest, hcomplete, -⟩ :=
            takeBlock_of_readHeaders (lined_lines bytes) htail hread
          rw [hcomplete] at hblock
          cases hblock
        · cases hread

theorem eq_cut_of_takeBlock {bytes : Bytes} {tail : List (Except IoError UInt8)}
    (hin : Holds (bytes.map .ok ++ tail) input) {block rest : List Bytes}
    (hblock : takeBlock (lines bytes) = (block, some rest)) :
    input = cut [] ((lines bytes).flatten.map .ok ++ tail) := by
  rcases hin with hin | ⟨hnil, -⟩
  · rw [flatten_lines, hin]
  · rw [List.append_eq_nil_iff, List.map_eq_nil_iff] at hnil
    rw [hnil.1] at hblock
    cases hblock

/-- **The limits of a header block are exact.**  Of a part whose block is complete, the headers are
read if the bytes of the block are no more than the greatest size and the lines that start a header
are no more than the greatest number; otherwise the part is too large.  Without a complete block
there is an error.  In any case no more than a segment beyond the greatest size is taken off the
input for the headers. -/
theorem nextPart_of_header_limits (h : r.AtPart input) {bytes : Bytes}
    {tail : List (Except IoError UInt8)} (hin : Holds (bytes.map .ok ++ tail) input)
    (htail : Stops tail) (spills : Spills) :
    (∀ block rest, takeBlock (lines bytes) = (block, some rest) →
      ((∃ headers, (readHeaders r.limits input).1 = .ok headers) ↔
        block.flatten.length ≤ r.limits.maxHeaderSize ∧
          headerCount block ≤ r.limits.maxHeaders) ∧
      (¬ (block.flatten.length ≤ r.limits.maxHeaderSize ∧
          headerCount block ≤ r.limits.maxHeaders) →
        (r.nextPart spills).1 = .error .messageTooLarge)) ∧
      (∀ block, takeBlock (lines bytes) = (block, none) →
        ∃ e, (r.nextPart spills).1 = .error e) ∧
      ∃ taken fault,
        Takes (bytes.map .ok ++ tail) input (readHeaders r.limits input).2 taken fault ∧
        taken.length ≤ r.limits.maxHeaderSize + segmentSize := by
  refine ⟨?_, ?_, ?_⟩
  · intro block rest hblock
    have hinput := eq_cut_of_takeBlock hin hblock
    by_cases hfit : r.limits.Admits block
    · have hread := readHeaders_of_admits tail (lined_lines bytes) hfit hblock
      rw [← hinput] at hread
      refine ⟨⟨fun _ => hfit, fun _ => ?_⟩, fun hnot => absurd hfit hnot⟩
      exact ⟨_, congrArg Prod.fst hread⟩
    · have hread := readHeaders_of_not_admits tail (lined_lines bytes) hblock hfit
      rw [← hinput] at hread
      refine ⟨⟨?_, fun hadmits => absurd hadmits hfit⟩, fun _ => h.nextPart_of_error hread spills⟩
      rintro ⟨headers, hheaders⟩
      rw [hread] at hheaders
      cases hheaders
  · intro block hblock
    exact h.exists_error hin htail (congrArg Prod.snd hblock) spills
  · obtain ⟨taken, fault, htakes, hbound, -⟩ := taken_of_readHeaders hin (Prod.eta _).symm
    exact ⟨taken, fault, htakes, hbound⟩

/-- A block of nineteen bytes with a line that continues another and a line without a colon: under
limits that it just fits, one byte less, and one line less. -/
theorem nextPart_of_header_limits_nineteen_bytes :
    let bytes := Utf8.ofString "A: 1\n x\nno colon\n\r\nbody"
    let input := cut [] (bytes.map .ok ++ [])
    let reader (size headers : Nat) : Reader :=
      { boundary := "b", limits := ⟨0, size, headers⟩, input, started := true }
    (∃ headers, (readHeaders (reader 19 2).limits input).1 = .ok headers) ∧
      ((reader 18 2).nextPart .empty).1 = .error .messageTooLarge ∧
      ((reader 19 1).nextPart .empty).1 = .error .messageTooLarge := by
  intro bytes input reader
  have hpart : ∀ size headers, (reader size headers).AtPart input := fun _ _ =>
    ⟨rfl, rfl, .inl ⟨rfl, rfl⟩⟩
  have hblock : takeBlock (lines bytes) = ([Utf8.ofString "A: 1\n", Utf8.ofString " x\n",
      Utf8.ofString "no colon\n", Utf8.ofString "\r\n"], some [Utf8.ofString "body"]) := by
    decide +kernel
  have hlimits := fun size headers => (nextPart_of_header_limits (hpart size headers)
    (holds_cut _) (.inl rfl) .empty).1 _ _ hblock
  refine ⟨(hlimits 19 2).1.mpr (by decide), (hlimits 18 2).2 (by decide), ?_⟩
  exact (hlimits 19 1).2 (by decide)

end Reader

end Mime.Multipart
