import Mime.Proofs.Multipart.Line
import Mime.Proofs.Multipart.Segmentation
import Mime.Proofs.Multipart.Spool

/-! # Reading segments is reading lines

The reader sees segments, of which a long line makes up several.  What it has after some bytes of a
content is computed from these bytes alone by `Content.after`: what is held back is the line break
at their end, and also a carriage return that the next segment may complete.  Each segment takes
the state after the bytes before it to the state after the bytes with it (`Content.add_after`).

Whether a line is a delimiter is decided by its first segment (`seenDelimiter?`), which is the whole
line unless it is a long one (`seenDelimiter?_eq`).  So a content that is read segment by segment is
the lines up to the first delimiter (`readContent_of_lines`, `lines_of_readContent`), and the same
holds of the lines in front of the first delimiter (`skipPreamble_of_lines`). -/

namespace Mime.Multipart

/-! ### Line breaks -/

theorem isPrefixOf_reverse_iff {x : Bytes} :
    [lineFeed, carriageReturn].isPrefixOf x.reverse = true ↔
      ∃ v, x = v ++ [carriageReturn, lineFeed] := by
  rw [List.isPrefixOf_iff_prefix]
  have h : [lineFeed, carriageReturn] = [carriageReturn, lineFeed].reverse := rfl
  rw [h, List.reverse_prefix]
  exact ⟨fun ⟨v, hv⟩ => ⟨v, hv.symm⟩, fun ⟨v, hv⟩ => ⟨v, hv.symm⟩⟩

theorem splitBreak_crlf (x : Bytes) :
    splitBreak (x ++ [carriageReturn, lineFeed]) = (x, [carriageReturn, lineFeed]) := by
  have h : x ++ [carriageReturn, lineFeed] = x ++ [carriageReturn] ++ [lineFeed] := by simp
  rw [splitBreak, if_pos (isPrefixOf_reverse_iff.mpr ⟨x, rfl⟩), h, List.dropLast_concat,
    List.dropLast_concat]

theorem splitBreak_lf {x : Bytes} (hx : x.getLast? ≠ some carriageReturn) :
    splitBreak (x ++ [lineFeed]) = (x, [lineFeed]) := by
  have h : ¬ [lineFeed, carriageReturn].isPrefixOf (x ++ [lineFeed]).reverse = true := by
    rw [isPrefixOf_reverse_iff]
    rintro ⟨v, hv⟩
    have he : x ++ [lineFeed] = v ++ [carriageReturn] ++ [lineFeed] := by simpa using hv
    rw [List.append_left_inj] at he
    exact hx (by simp [he])
  rw [splitBreak, if_neg h, if_pos (by simp), List.dropLast_concat]

theorem splitBreak_of_not_terminated {x : Bytes} (hx : x.getLast? ≠ some lineFeed) :
    splitBreak x = (x, []) := by
  have h : ¬ [lineFeed, carriageReturn].isPrefixOf x.reverse = true := by
    rw [isPrefixOf_reverse_iff]
    rintro ⟨v, rfl⟩
    simp at hx
  rw [splitBreak, if_neg h, if_neg hx]

/-- The line break of a line is that of whatever ends with the line, unless the line is a line feed
alone. -/
theorem splitBreak_append {w : Bytes} (hne : w ≠ []) (x : Bytes) :
    splitBreak (x ++ (w ++ [lineFeed])) =
      (x ++ (splitBreak (w ++ [lineFeed])).1, (splitBreak (w ++ [lineFeed])).2) := by
  by_cases h : w.getLast? = some carriageReturn
  · obtain ⟨v, rfl⟩ := List.getLast?_eq_some_iff.mp h
    rw [List.append_assoc, ← List.append_assoc x]
    show splitBreak (x ++ v ++ [carriageReturn, lineFeed]) = _
    rw [splitBreak_crlf]
    show _ = (x ++ (splitBreak (v ++ [carriageReturn, lineFeed])).1,
      (splitBreak (v ++ [carriageReturn, lineFeed])).2)
    rw [splitBreak_crlf]
  · have hx : (x ++ w).getLast? ≠ some carriageReturn := by
      rwa [List.getLast?_append, List.getLast?_eq_some_getLast hne, Option.some_or,
        ← List.getLast?_eq_some_getLast hne]
    rw [← List.append_assoc, splitBreak_lf hx, splitBreak_lf h]

theorem append_splitBreak (x : Bytes) : (splitBreak x).1 ++ (splitBreak x).2 = x := by
  by_cases h : x.getLast? = some lineFeed
  · obtain ⟨v, rfl⟩ := List.getLast?_eq_some_iff.mp h
    by_cases hv : v.getLast? = some carriageReturn
    · obtain ⟨u, rfl⟩ := List.getLast?_eq_some_iff.mp hv
      have he : u ++ [carriageReturn] ++ [lineFeed] = u ++ [carriageReturn, lineFeed] := by simp
      rw [he, splitBreak_crlf]
    · rw [splitBreak_lf hv]
  · rw [splitBreak_of_not_terminated h, List.append_nil]

/-! ### Content in segments -/

/-- What is kept and what is held back of the bytes of a content: a line break at their end, or a
carriage return that may become one. -/
def splitHeld (bytes : Bytes) : Bytes × Bytes :=
  if bytes.getLast? = some carriageReturn then (bytes.dropLast, [carriageReturn])
  else splitBreak bytes

theorem append_splitHeld (bytes : Bytes) : (splitHeld bytes).1 ++ (splitHeld bytes).2 = bytes := by
  unfold splitHeld
  split
  · rename_i h
    obtain ⟨v, rfl⟩ := List.getLast?_eq_some_iff.mp h
    rw [List.dropLast_concat]
  · exact append_splitBreak bytes

theorem splitHeld_of_terminated (x : Bytes) :
    splitHeld (x ++ [lineFeed]) = splitBreak (x ++ [lineFeed]) := by
  rw [splitHeld, if_neg]
  rw [List.getLast?_concat]
  decide

/-- Only a carriage return at the end is held back by itself. -/
theorem splitHeld_snd_eq_iff {bytes : Bytes} :
    (splitHeld bytes).2 = [carriageReturn] ↔ bytes.getLast? = some carriageReturn := by
  constructor
  · intro h
    rw [← append_splitHeld bytes, h, List.getLast?_concat]
  · intro h
    rw [splitHeld, if_pos h]

/-- The state after some bytes of a content. -/
def Content.after (s : Spool) (bytes : Bytes) : Content where
  spool := s.keep (splitHeld bytes).1
  held := (splitHeld bytes).2
  atLineStart := bytes.isEmpty || isTerminated bytes

/-- Nothing is lost between what is kept and what is held back. -/
theorem Content.keep_held_after (s : Spool) (bytes : Bytes) :
    (Content.after s bytes).spool.keep (Content.after s bytes).held = s.keep bytes := by
  show (s.keep (splitHeld bytes).1).keep (splitHeld bytes).2 = _
  rw [← Spool.keep_append, append_splitHeld]

theorem Content.writeAll_after (s : Spool) (acc text : Bytes) :
    (after s acc).spool.writeAll [(after s acc).held, text] = (.ok (), s.keep (acc ++ text)) := by
  rw [Spool.writeAll_eq, List.flatten_cons, List.flatten_singleton, Spool.keep_append,
    keep_held_after, ← Spool.keep_append]

theorem Content.after_terminated (s : Spool) (x : Bytes) :
    after s (x ++ [lineFeed]) =
      { spool := s.keep (splitBreak (x ++ [lineFeed])).1
        held := (splitBreak (x ++ [lineFeed])).2
        atLineStart := true } := by
  rw [after, splitHeld_of_terminated, isTerminated_append, Bool.or_true]

theorem Content.add_after_line (s : Spool) (acc w : Bytes) :
    (after s acc).add ⟨w ++ [lineFeed], .line⟩ =
      (.ok (), after s (acc ++ (w ++ [lineFeed]))) := by
  rw [← List.append_assoc, after_terminated, List.append_assoc]
  unfold add
  dsimp only
  by_cases hcr : (after s acc).held = [carriageReturn] ∧ w ++ [lineFeed] = [lineFeed]
  · obtain ⟨hheld, hw⟩ := hcr
    obtain ⟨v, rfl⟩ := List.getLast?_eq_some_iff.mp (splitHeld_snd_eq_iff.mp hheld)
    have hkept : (splitHeld (v ++ [carriageReturn])).1 = v := by simp [splitHeld]
    have hbreak : splitBreak (v ++ [carriageReturn] ++ [lineFeed]) =
        (v, [carriageReturn, lineFeed]) := by
      rw [List.append_assoc]
      exact splitBreak_crlf v
    rw [if_pos ⟨hheld, hw⟩, hw, hbreak, after, hkept]
  · rw [if_neg hcr, writeAll_after]
    have hbreak : splitBreak (acc ++ (w ++ [lineFeed])) =
        (acc ++ (splitBreak (w ++ [lineFeed])).1, (splitBreak (w ++ [lineFeed])).2) := by
      by_cases hw : w = []
      · subst hw
        have hacc : acc.getLast? ≠ some carriageReturn := fun h =>
          hcr ⟨splitHeld_snd_eq_iff.mpr h, rfl⟩
        have h0 : splitBreak ([] ++ [lineFeed]) = ([], [lineFeed]) := splitBreak_lf (by simp)
        rw [h0, List.nil_append, splitBreak_lf hacc, List.append_nil]
      · exact splitBreak_append hw acc
    rw [hbreak]

theorem Content.add_after_full (s : Spool) (acc : Bytes) {w : Bytes} (hw : lineFeed ∉ w)
    (hne : w ≠ []) : (after s acc).add ⟨w, .full⟩ = (.ok (), after s (acc ++ w)) := by
  have hl : (acc ++ w).getLast? = w.getLast? := by
    rw [List.getLast?_append, List.getLast?_eq_some_getLast hne, Option.some_or]
  have hlf : w.getLast? ≠ some lineFeed := fun h => hw (List.mem_of_getLast? h)
  have hstart : ((acc ++ w).isEmpty || isTerminated (acc ++ w)) = false := by
    simp [isTerminated, hl, hlf, hne]
  unfold add
  dsimp only
  rw [writeAll_after]
  by_cases hcr : w.getLast? = some carriageReturn
  · obtain ⟨v, rfl⟩ := List.getLast?_eq_some_iff.mp hcr
    rw [if_pos hcr, List.dropLast_concat]
    simp only [after, hstart]
    rw [← List.append_assoc, splitHeld, if_pos (by simp), List.dropLast_concat]
  · rw [if_neg hcr]
    have hh : splitHeld (acc ++ w) = (acc ++ w, []) := by
      rw [splitHeld, if_neg (by rwa [hl]), splitBreak_of_not_terminated (by rwa [hl])]
    simp only [after, hstart, hh]

/-! ### Delimiters of segments and of lines -/

theorem not_isLineBreak_of_not_mem {bytes : Bytes} (h : lineFeed ∉ bytes) :
    isLineBreak bytes = false := by
  rw [Bool.eq_false_iff]
  intro hb
  simp only [isLineBreak, Bool.or_eq_true, beq_iff_eq] at hb
  rcases hb with rfl | rfl <;> simp at h

theorem not_isLineBreak_dash (rest : Bytes) :
    isLineBreak ((dash :: rest).dropWhile isBlankByte) = false := by
  simp [isBlankByte, isLineBreak, dash, lineFeed, carriageReturn]

theorem delimiter?_eq {dashBoundary line : Bytes} {ending : Ending}
    (h : ending = .line ∨ lineFeed ∉ line) :
    delimiter? dashBoundary ⟨line, ending⟩ = lineDelimiter? dashBoundary line := by
  unfold delimiter? lineDelimiter?
  cases hr : dropStart? dashBoundary line with
  | none => rfl
  | some rest =>
      rw [dropStart?_eq_some] at hr
      dsimp only
      cases hd : dropStart? [dash, dash] rest with
      | some rest' =>
          rw [dropStart?_eq_some] at hd
          rw [hd, List.cons_append, not_isLineBreak_dash]
          rfl
      | none =>
          rcases h with rfl | h
          · simp
          · have hrest : lineFeed ∉ rest.dropWhile isBlankByte := fun hm =>
              h (hr ▸ List.mem_append_right _ ((List.dropWhile_suffix _).subset hm))
            simp [not_isLineBreak_of_not_mem hrest]

theorem delimiter?_eq_none {dashBoundary : Bytes} {s : Segment} (h : ¬ dashBoundary <+: s.bytes) :
    delimiter? dashBoundary s = none := by
  cases hr : dropStart? dashBoundary s.bytes with
  | none => simp [delimiter?, hr]
  | some rest => exact absurd ⟨rest, (dropStart?_eq_some.mp hr).symm⟩ h

theorem ending_of_delimiter?_next {dashBoundary : Bytes} {s : Segment}
    (h : delimiter? dashBoundary s = some .next) : s.ending = .line := by
  unfold delimiter? at h
  split at h
  · cases h
  · split at h
    · dsimp only at h
      split at h <;> cases h
    · split at h
      · rename_i hc
        simp only [Bool.and_eq_true, decide_eq_true_eq] at hc
        exact hc.1
      · cases h

/-- Bytes are cut into full segments and what is left behind them. -/
theorem segment_induction {P : Bytes → Prop} (short : ∀ w, w.length < segmentSize → P w)
    (full : ∀ q v, q.length = segmentSize → P v → P (q ++ v)) (bytes : Bytes) : P bytes := by
  induction hn : bytes.length using Nat.strongRecOn generalizing bytes with
  | ind n ih =>
    rcases Nat.lt_or_ge bytes.length segmentSize with hlt | hge
    · exact short bytes hlt
    · have hq : (bytes.take segmentSize).length = segmentSize := List.length_take_of_le hge
      have hlt : (bytes.drop segmentSize).length < n := by
        rw [List.length_drop, ← hn]
        simp only [segmentSize] at hge ⊢
        omega
      rw [← List.take_append_drop segmentSize bytes]
      exact full _ _ hq (ih _ hlt _ rfl)

theorem ne_nil_of_full {q : Bytes} (hq : q.length = segmentSize) : q ≠ [] := by
  rintro rfl
  cases hq

/-- The delimiter that a reader takes a line for.  It goes by the first segment of the line. -/
def seenDelimiter? (dashBoundary line : Bytes) : Option Delimiter :=
  delimiter? dashBoundary (firstSegment line)

section content

variable {dashBoundary : Bytes} {part : Nat}

theorem prefix_of_lineDelimiter? {line : Bytes} {d : Delimiter}
    (h : lineDelimiter? dashBoundary line = some d) : dashBoundary <+: line := by
  cases hr : dropStart? dashBoundary line with
  | none => simp [lineDelimiter?, hr] at h
  | some rest => exact ⟨rest, (dropStart?_eq_some.mp hr).symm⟩

theorem seenDelimiter?_nil : seenDelimiter? dashBoundary [] = none := by
  cases dashBoundary <;> rfl

theorem seenDelimiter?_eq_none {line : Bytes} (h : ¬ dashBoundary <+: line) :
    seenDelimiter? dashBoundary line = none :=
  delimiter?_eq_none fun hp => h (hp.trans (bytes_firstSegment_le line))

/-- Of a line that is in one segment a reader sees the whole. -/
theorem seenDelimiter?_eq {line : Bytes} (hline : Lined [line])
    (hlen : dashBoundary <+: line → line.length ≤ segmentSize) :
    seenDelimiter? dashBoundary line = lineDelimiter? dashBoundary line := by
  by_cases hp : dashBoundary <+: line
  · have hle := hlen hp
    unfold seenDelimiter?
    cases hline with
    | last hw =>
        rcases Nat.lt_or_eq_of_le hle with hlt | heq
        · rw [firstSegment_input hw hlt, delimiter?_eq (.inr hw)]
        · have hfull := firstSegment_full hw heq []
          rw [List.append_nil] at hfull
          rw [hfull, delimiter?_eq (.inr hw)]
    | @cons w _ hw =>
        have hlt : w.length < segmentSize := by
          rw [List.length_append, List.length_singleton] at hle
          omega
        rw [firstSegment_line hw hlt, delimiter?_eq (.inl rfl)]
  · rw [seenDelimiter?_eq_none hp]
    exact (Option.eq_none_iff_forall_ne_some.mpr fun _ he => hp (prefix_of_lineDelimiter? he)).symm

theorem seen_of_takeContent {ls content rest : List Bytes} {d : Delimiter} (hls : Lined ls)
    (hlen : ∀ l ∈ ls, dashBoundary <+: l → l.length ≤ segmentSize)
    (h : takeContent dashBoundary ls = (content, some (d, rest))) :
    ∃ line, ls = content ++ line :: rest ∧ seenDelimiter? dashBoundary line = some d ∧
      ∀ l ∈ content, seenDelimiter? dashBoundary l = none := by
  obtain ⟨line, rfl, hd, hc⟩ := append_of_takeContent h
  have heq : ∀ l ∈ content ++ line :: rest,
      seenDelimiter? dashBoundary l = lineDelimiter? dashBoundary l := fun l hl =>
    seenDelimiter?_eq (hls.singleton hl) (hlen l hl)
  refine ⟨line, rfl, ?_, fun l hl => ?_⟩
  · rw [heq line (by simp), hd]
  · rw [heq l (List.mem_append_left _ hl), hc l hl]

theorem seen_of_takeContent_none {ls : List Bytes} (hls : Lined ls)
    (hlen : ∀ l ∈ ls, dashBoundary <+: l → l.length ≤ segmentSize)
    (h : (takeContent dashBoundary ls).2 = none) :
    ∀ l ∈ ls, seenDelimiter? dashBoundary l = none := by
  intro l hl
  rw [seenDelimiter?_eq (hls.singleton hl) (hlen l hl), forall_of_takeContent_none h l hl]

/-! ### Content in lines -/

theorem readContent_cons_of_none {c c' : Content} {s : Segment} {rest : Incoming}
    (hd : c.atLineStart = true → delimiter? dashBoundary s = none) (he : s.ending ≠ .input)
    (hadd : c.add s = (.ok (), c')) :
    readContent dashBoundary part c (.ok s :: rest) = readContent dashBoundary part c' rest := by
  have h : (if c.atLineStart then delimiter? dashBoundary s else none) = none := by
    split
    · rename_i hs
      exact hd hs
    · rfl
  rw [readContent, h]
  dsimp only
  rw [if_neg he, hadd]

theorem readContent_cons_of_some {c : Content} {s : Segment} {d : Delimiter} {rest : Incoming}
    (hs : c.atLineStart = true) (hd : delimiter? dashBoundary s = some d) :
    readContent dashBoundary part c (.ok s :: rest) = (.ok d, c.spool, rest) := by
  rw [readContent, if_pos hs, hd]

theorem Content.atLineStart_after_full (s : Spool) (acc : Bytes) {q : Bytes} (hq : lineFeed ∉ q)
    (hlen : q.length = segmentSize) : (after s (acc ++ q)).atLineStart = false := by
  have hne := ne_nil_of_full hlen
  have hl : (acc ++ q).getLast? = q.getLast? := by
    rw [List.getLast?_append, List.getLast?_eq_some_getLast hne, Option.some_or]
  have hlf : q.getLast? ≠ some lineFeed := fun h => hq (List.mem_of_getLast? h)
  simp [after, isTerminated, hl, hlf, hne]

theorem readContent_full {s : Spool} {acc q v : Bytes} {rest : List (Except IoError UInt8)}
    (hq : lineFeed ∉ q) (hlen : q.length = segmentSize)
    (hd : (Content.after s acc).atLineStart = true →
      seenDelimiter? dashBoundary (q ++ v) = none) :
    readContent dashBoundary part (Content.after s acc) (cut [] (q.map .ok ++ rest)) =
        readContent dashBoundary part (Content.after s (acc ++ q)) (cut [] rest) ∧
      (Content.after s (acc ++ q)).atLineStart ≠ true := by
  have hne := ne_nil_of_full hlen
  rw [seenDelimiter?, firstSegment_full hq hlen] at hd
  refine ⟨?_, ?_⟩
  · rw [cut_full hq hne (by simpa using hlen), List.nil_append,
      readContent_cons_of_none hd (by simp) (Content.add_after_full s acc hq hne)]
  · rw [Content.atLineStart_after_full s acc hq hlen]
    exact Bool.false_ne_true

theorem readContent_line {s : Spool} {acc w : Bytes} {rest : List (Except IoError UInt8)}
    (hw : lineFeed ∉ w)
    (hd : (Content.after s acc).atLineStart = true →
      seenDelimiter? dashBoundary (w ++ [lineFeed]) = none) :
    readContent dashBoundary part (Content.after s acc)
        (cut [] ((w ++ [lineFeed]).map .ok ++ rest)) =
      readContent dashBoundary part (Content.after s (acc ++ (w ++ [lineFeed]))) (cut [] rest) := by
  induction w using segment_induction generalizing acc with
  | short w hlt =>
      rw [seenDelimiter?, firstSegment_line hw hlt] at hd
      rw [cut_line hw (by simpa using hlt), List.nil_append,
        readContent_cons_of_none hd (by simp) (Content.add_after_line s acc w)]
  | full q v hq ih =>
      rw [List.mem_append, not_or] at hw
      rw [List.append_assoc] at hd
      obtain ⟨hfull, hstart⟩ := readContent_full hw.1 hq hd
      rw [List.append_assoc, List.map_append, List.append_assoc, hfull,
        ih hw.2 (fun h => absurd h hstart), List.append_assoc]

variable (part) in
theorem readContent_last (s : Spool) (acc : Bytes) {w : Bytes} {tail : List (Except IoError UInt8)}
    (hw : lineFeed ∉ w) (htail : Stops tail)
    (hd : (Content.after s acc).atLineStart = true → seenDelimiter? dashBoundary w = none) :
    ∃ e, (readContent dashBoundary part (Content.after s acc) (cut [] (w.map .ok ++ tail))).1 =
        .error e ∧ (tail = [] → e = .structural (.cutContent part)) := by
  induction w using segment_induction generalizing acc with
  | short w hlt =>
      rcases htail with rfl | ⟨e, rest, rfl⟩
      · have h : (if (Content.after s acc).atLineStart then delimiter? dashBoundary ⟨w, .input⟩
            else none) = none := by
          split
          · rename_i hs
            rw [← hd hs, seenDelimiter?, firstSegment_input hw hlt]
          · rfl
        refine ⟨_, ?_, fun _ => rfl⟩
        rw [List.append_nil, cut_input hw hlt, readContent, h]
        rfl
      · exact ⟨.io e, by rw [cut_error hw hlt, readContent], by simp⟩
  | full q v hq ih =>
      rw [List.mem_append, not_or] at hw
      obtain ⟨hfull, hstart⟩ := readContent_full hw.1 hq hd
      rw [List.map_append, List.append_assoc, hfull]
      exact ih _ hw.2 fun h => absurd h hstart

/-- A delimiter in a line that is longer than a segment is the closing one. -/
theorem readContent_delimiter_full {s : Spool} {acc q v : Bytes} {d : Delimiter}
    {rest : List (Except IoError UInt8)} (hs : (Content.after s acc).atLineStart = true)
    (hq : lineFeed ∉ q) (hlen : q.length = segmentSize)
    (hd : seenDelimiter? dashBoundary (q ++ v) = some d) :
    ∃ left, readContent dashBoundary part (Content.after s acc)
        (cut [] ((q ++ v).map .ok ++ rest)) = (.ok d, s.keep (splitHeld acc).1, left) ∧
      (d = .next → left = cut [] rest) := by
  rw [seenDelimiter?, firstSegment_full hq hlen] at hd
  refine ⟨cut [] (v.map .ok ++ rest), ?_, ?_⟩
  · rw [List.map_append, List.append_assoc, cut_full hq (ne_nil_of_full hlen) (by simpa using hlen),
      List.nil_append, readContent_cons_of_some hs hd]
    rfl
  · rintro rfl
    cases ending_of_delimiter?_next hd

variable (part) in
theorem readContent_delimiter {s : Spool} {acc line : Bytes} {d : Delimiter}
    {rest : List (Except IoError UInt8)} (hs : (Content.after s acc).atLineStart = true)
    (hline : Lined [line]) (hend : isTerminated line = true ∨ segmentSize ≤ line.length ∨ rest = [])
    (hd : seenDelimiter? dashBoundary line = some d) :
    ∃ left, readContent dashBoundary part (Content.after s acc) (cut [] (line.map .ok ++ rest)) =
        (.ok d, s.keep (splitHeld acc).1, left) ∧
      (d = .next → left = cut [] rest) := by
  have hlong : ∀ {w : Bytes}, lineFeed ∉ w → segmentSize ≤ w.length →
      ∃ q v, w = q ++ v ∧ lineFeed ∉ q ∧ q.length = segmentSize := fun {w} hw hle =>
    ⟨w.take segmentSize, w.drop segmentSize, (List.take_append_drop _ _).symm,
      fun hm => hw (List.mem_of_mem_take hm), List.length_take_of_le hle⟩
  cases hline with
  | @cons w _ hw =>
      rcases Nat.lt_or_ge w.length segmentSize with hlt | hge
      · rw [seenDelimiter?, firstSegment_line hw hlt] at hd
        refine ⟨cut [] rest, ?_, fun _ => rfl⟩
        rw [cut_line hw (by simpa using hlt), List.nil_append, readContent_cons_of_some hs hd]
        rfl
      · obtain ⟨q, v, rfl, hq, hlen⟩ := hlong hw hge
        rw [List.append_assoc] at hd ⊢
        exact readContent_delimiter_full hs hq hlen hd
  | last hw hne =>
      rcases Nat.lt_or_ge line.length segmentSize with hlt | hge
      · have hrest : rest = [] := by
          rcases hend with h | h | h
          · rw [isTerminated_of_not_mem hw] at h
            cases h
          · omega
          · exact h
        rw [seenDelimiter?, firstSegment_input hw hlt] at hd
        refine ⟨[], ?_, ?_⟩
        · rw [hrest, List.append_nil, cut_input hw hlt, readContent_cons_of_some hs hd]
          rfl
        · rintro rfl
          cases ending_of_delimiter?_next hd
      · obtain ⟨q, v, rfl, hq, hlen⟩ := hlong hw hge
        exact readContent_delimiter_full hs hq hlen hd

variable (part) in
theorem readContent_of_no_delimiter (s : Spool) (acc : Bytes) {ls : List Bytes} (hls : Lined ls)
    (h : ∀ l ∈ ls, seenDelimiter? dashBoundary l = none) :
    (readContent dashBoundary part (Content.after s acc) (cut [] (ls.flatten.map .ok))).1 =
      .error (.structural (.cutContent part)) := by
  have hlast : ∀ {acc w : Bytes}, lineFeed ∉ w → seenDelimiter? dashBoundary w = none →
      (readContent dashBoundary part (Content.after s acc) (cut [] (w.map .ok))).1 =
        .error (.structural (.cutContent part)) := by
    intro acc w hw hd
    obtain ⟨e, he, hcut⟩ := readContent_last part s acc hw (.inl rfl) fun _ => hd
    rwa [hcut rfl, List.append_nil] at he
  induction hls generalizing acc with
  | nil => exact hlast List.not_mem_nil seenDelimiter?_nil
  | @last w hw hne =>
      rw [List.flatten_singleton]
      exact hlast hw (h w List.mem_cons_self)
  | @cons w ls hw hls ih =>
      rw [List.flatten_cons, List.map_append,
        readContent_line hw fun _ => h _ List.mem_cons_self]
      exact ih _ fun l hl => h l (List.mem_cons_of_mem _ hl)

variable (part) in
/-- The lines in front of a delimiter are the content. -/
theorem readContent_of_lines (s : Spool) {d : Delimiter} : ∀ {acc line : Bytes}
    {content rest : List Bytes}, Lined (content ++ line :: rest) →
    (Content.after s acc).atLineStart = true →
    (∀ l ∈ content, seenDelimiter? dashBoundary l = none) →
    seenDelimiter? dashBoundary line = some d →
    ∃ left, readContent dashBoundary part (Content.after s acc)
        (cut [] ((content ++ line :: rest).flatten.map .ok)) =
        (.ok d, s.keep (splitHeld (acc ++ content.flatten)).1, left) ∧
      (d = .next → left = cut [] (rest.flatten.map .ok))
  | acc, line, [], rest, hls, hs, _, hd => by
      have hend : isTerminated line = true ∨ segmentSize ≤ line.length ∨
          rest.flatten.map .ok = ([] : List (Except IoError UInt8)) := by
        cases hls with
        | last hw => exact .inr (.inr rfl)
        | @cons w => exact .inl (isTerminated_append w)
      obtain ⟨left, he, hleft⟩ := readContent_delimiter part hs
        (hls.singleton List.mem_cons_self) hend hd
      exact ⟨left, by simpa using he, hleft⟩
  | acc, line, l :: content, rest, hls, hs, hc, hd => by
      obtain ⟨w, hw, rfl⟩ := hls.head_terminated (by simp)
      have hs' : (Content.after s (acc ++ (w ++ [lineFeed]))).atLineStart = true := by
        rw [← List.append_assoc, Content.after_terminated]
      obtain ⟨left, he, hleft⟩ := readContent_of_lines s hls.tail hs'
        (fun l hl => hc l (List.mem_cons_of_mem _ hl)) hd
      refine ⟨left, ?_, hleft⟩
      rw [List.cons_append, List.flatten_cons, List.map_append,
        readContent_line hw fun _ => hc _ List.mem_cons_self, he, List.flatten_cons,
        List.append_assoc acc]

/-- A content that is read is the lines in front of a delimiter. -/
theorem lines_of_readContent {s spool : Spool} {left : Incoming} {d : Delimiter}
    {tail : List (Except IoError UInt8)} (htail : Stops tail) {acc : Bytes} {ls : List Bytes}
    (hls : Lined ls) (hs : (Content.after s acc).atLineStart = true)
    (h : readContent dashBoundary part (Content.after s acc)
      (cut [] (ls.flatten.map .ok ++ tail)) = (.ok d, spool, left)) :
    ∃ content line rest, ls = content ++ line :: rest ∧
      (∀ l ∈ content, seenDelimiter? dashBoundary l = none) ∧
      seenDelimiter? dashBoundary line = some d ∧
      spool = s.keep (splitHeld (acc ++ content.flatten)).1 ∧
      (d = .next → left = cut [] (rest.flatten.map .ok ++ tail)) := by
  have hlast : ∀ {acc w : Bytes}, lineFeed ∉ w →
      readContent dashBoundary part (Content.after s acc) (cut [] (w.map .ok ++ tail)) =
        (.ok d, spool, left) → ∃ d', seenDelimiter? dashBoundary w = some d' := by
    intro acc w hw h
    cases hd : seenDelimiter? dashBoundary w with
    | some d' => exact ⟨d', rfl⟩
    | none =>
        obtain ⟨e, he, -⟩ := readContent_last part s acc hw htail fun _ => hd
        rw [h] at he
        cases he
  induction hls generalizing acc with
  | nil =>
      obtain ⟨d', hd⟩ := hlast List.not_mem_nil h
      rw [seenDelimiter?_nil] at hd
      cases hd
  | @last w hw hne =>
      rw [List.flatten_singleton] at h
      obtain ⟨d', hd⟩ := hlast hw h
      have hend : isTerminated w = true ∨ segmentSize ≤ w.length ∨ tail = [] := by
        rcases htail with htail | ⟨e, rest, rfl⟩
        · exact .inr (.inr htail)
        · refine .inr (.inl (Nat.le_of_not_lt fun hlt => ?_))
          rw [cut_error hw hlt, readContent] at h
          cases h
      obtain ⟨left', he, hleft⟩ := readContent_delimiter part hs (.last hw hne) hend hd
      cases h.symm.trans he
      exact ⟨[], w, [], rfl, by simp, hd, by simp, by simpa using hleft⟩
  | @cons w ls hw hls ih =>
      rw [List.flatten_cons, List.map_append, List.append_assoc] at h
      cases hd : seenDelimiter? dashBoundary (w ++ [lineFeed]) with
      | some d' =>
          obtain ⟨left', he, hleft⟩ := readContent_delimiter part hs (.cons hw .nil)
            (.inl (isTerminated_append w)) hd
          cases h.symm.trans he
          exact ⟨[], w ++ [lineFeed], ls, rfl, by simp, hd, by simp, hleft⟩
      | none =>
          have hs' : (Content.after s (acc ++ (w ++ [lineFeed]))).atLineStart = true := by
            rw [← List.append_assoc, Content.after_terminated]
          rw [readContent_line hw fun _ => hd] at h
          obtain ⟨content, line, rest, rfl, hc, hd', hspool, hleft⟩ := ih hs' h
          refine ⟨(w ++ [lineFeed]) :: content, line, rest, rfl,
            List.forall_mem_cons.mpr ⟨hd, hc⟩, hd', ?_, hleft⟩
          rw [hspool, List.flatten_cons, List.append_assoc acc]

/-! ### The lines in front of the first delimiter -/

theorem Content.add_eq (c : Content) (s : Segment) : c.add s = (.ok (), (c.add s).2) := by
  refine Prod.ext ?_ rfl
  obtain ⟨bytes, ending⟩ := s
  cases ending with
  | full =>
      unfold add
      dsimp only
      rw [Spool.writeAll_eq]
  | _ =>
      unfold add
      dsimp only
      split
      · rfl
      · rw [Spool.writeAll_eq]

theorem Content.atLineStart_add [Disk] (c : Content) {s : Segment} (hs : s.ending ≠ .input) :
    (c.add s).2.atLineStart = decide (s.ending = .line) := by
  obtain ⟨bytes, ending⟩ := s
  cases ending with
  | input => exact absurd rfl hs
  | line =>
      unfold add
      dsimp only
      split <;> rfl
  | full => rfl

variable (part) in
/-- What stands in front of the first delimiter is read like a content that is not kept. -/
theorem skipPreamble_eq_ok_iff {input left : Incoming} {c : Content} {d : Delimiter} :
    skipPreamble dashBoundary c.atLineStart input = (.ok d, left) ↔
      ∃ spool, readContent dashBoundary part c input = (.ok d, spool, left) := by
  induction input generalizing c with
  | nil => simp [skipPreamble, readContent]
  | cons item rest ih =>
    cases item with
    | error e => simp [skipPreamble, readContent]
    | ok s =>
      rw [readContent, skipPreamble]
      cases hd : (if c.atLineStart then delimiter? dashBoundary s else none) with
      | some d' =>
          dsimp only
          constructor
          · intro h
            cases h
            exact ⟨_, rfl⟩
          · rintro ⟨spool, h⟩
            cases h
            rfl
      | none =>
          dsimp only
          by_cases he : s.ending = .input
          · rw [if_pos he, if_pos he]
            simp
          · rw [if_neg he, if_neg he, ← c.atLineStart_add he, c.add_eq]
            exact ih

theorem skipPreamble_of_readContent_error {input : Incoming} {c : Content}
    (h : (readContent dashBoundary part c input).1 = .error (.structural (.cutContent part))) :
    (skipPreamble dashBoundary c.atLineStart input).1 =
      .error (.structural .noStartBoundary) := by
  induction input generalizing c with
  | nil => rfl
  | cons item rest ih =>
    cases item with
    | error e => cases h
    | ok s =>
      rw [readContent] at h
      rw [skipPreamble]
      cases hd : (if c.atLineStart then delimiter? dashBoundary s else none) with
      | some d' =>
          rw [hd] at h
          cases h
      | none =>
          rw [hd] at h
          dsimp only at h ⊢
          by_cases he : s.ending = .input
          · rw [if_pos he]
          · rw [if_neg he] at h ⊢
            rw [c.add_eq] at h
            rw [← c.atLineStart_add he]
            exact ih h

theorem skipPreamble_of_lines {line : Bytes} {skipped rest : List Bytes} {d : Delimiter}
    (hls : Lined (skipped ++ line :: rest))
    (hc : ∀ l ∈ skipped, seenDelimiter? dashBoundary l = none)
    (hd : seenDelimiter? dashBoundary line = some d) :
    ∃ left, skipPreamble dashBoundary true
        (cut [] ((skipped ++ line :: rest).flatten.map .ok)) = (.ok d, left) ∧
      (d = .next → left = cut [] (rest.flatten.map .ok)) := by
  obtain ⟨left, he, hleft⟩ := readContent_of_lines 0 { threshold := 0, spills := .empty } hls
    (rfl : (Content.after _ []).atLineStart = true) hc hd
  exact ⟨left, (skipPreamble_eq_ok_iff 0).mpr ⟨_, he⟩, hleft⟩

theorem skipPreamble_of_no_delimiter {ls : List Bytes} (hls : Lined ls)
    (h : ∀ l ∈ ls, seenDelimiter? dashBoundary l = none) :
    (skipPreamble dashBoundary true (cut [] (ls.flatten.map .ok))).1 =
      .error (.structural .noStartBoundary) := by
  have he := readContent_of_no_delimiter 0 { threshold := 0, spills := .empty } [] hls h
  exact skipPreamble_of_readContent_error he

theorem skipPreamble_of_takeContent_none {ls : List Bytes} (hls : Lined ls)
    (hlen : ∀ l ∈ ls, dashBoundary <+: l → l.length ≤ segmentSize)
    (h : (takeContent dashBoundary ls).2 = none) :
    (skipPreamble dashBoundary true (cut [] (ls.flatten.map .ok))).1 =
      .error (.structural .noStartBoundary) :=
  skipPreamble_of_no_delimiter hls (seen_of_takeContent_none hls hlen h)

theorem skipPreamble_of_takeContent {ls skipped rest : List Bytes} {d : Delimiter}
    (hls : Lined ls) (hlen : ∀ l ∈ ls, dashBoundary <+: l → l.length ≤ segmentSize)
    (h : takeContent dashBoundary ls = (skipped, some (d, rest))) :
    Lined rest ∧ (∀ l ∈ rest, l ∈ ls) ∧
      ∃ left, skipPreamble dashBoundary true (cut [] (ls.flatten.map .ok)) = (.ok d, left) ∧
        (d = .next → left = cut [] (rest.flatten.map .ok)) := by
  obtain ⟨line, rfl, hd, hc⟩ := seen_of_takeContent hls hlen h
  refine ⟨hls.of_append.tail, ?_, skipPreamble_of_lines hls hc hd⟩
  intro l hl
  exact List.mem_append_right _ (List.mem_cons_of_mem _ hl)

theorem lines_of_skipPreamble {ls : List Bytes} {tail : List (Except IoError UInt8)}
    (hls : Lined ls) (htail : Stops tail) {left : Incoming}
    (h : skipPreamble dashBoundary true (cut [] (ls.flatten.map .ok ++ tail)) = (.ok .next, left)) :
    ∃ skipped line rest, ls = skipped ++ line :: rest ∧
      left = cut [] (rest.flatten.map .ok ++ tail) := by
  obtain ⟨spool, hc⟩ := (skipPreamble_eq_ok_iff 0
    (c := .after { threshold := 0, spills := .empty } [])).mp h
  obtain ⟨skipped, line, rest, rfl, -, -, -, hleft⟩ := lines_of_readContent htail hls rfl hc
  exact ⟨skipped, line, rest, rfl, hleft rfl⟩

end content

end Mime.Multipart
