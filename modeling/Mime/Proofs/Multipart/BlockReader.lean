import Mime.Proofs.Multipart.LineReader

/-! # Reading header blocks line by line

A header block that is read segment by segment is the lines up to the empty one
(`collectLines_of_takeBlock`), and lines without an empty one leave it open
(`collectLines_of_takeBlock_none`), as long as the block is within the limits.  Conversely, a block
that is read is complete and within the limits (`takeBlock_of_collectLines`). -/

namespace Mime.Multipart

section block

variable {limits : Limits}

theorem collectLines_full {b : Block} {q : Bytes} {rest : List (Except IoError UInt8)}
    (hq : lineFeed ∉ q) (hlen : q.length = segmentSize)
    (hfit : b.size + q.length ≤ limits.maxHeaderSize) :
    collectLines limits b (cut [] (q.map .ok ++ rest)) =
      collectLines limits (b.addBytes q) (cut [] rest) := by
  have hsize : ¬ limits.maxHeaderSize < (b.addBytes q).size := Nat.not_lt.mpr hfit
  rw [cut_full hq (ne_nil_of_full hlen) (by simpa using hlen), List.nil_append, collectLines]
  dsimp only
  rw [if_neg hsize]

/-- A line of a header block, whatever it is cut into. -/
theorem collectLines_line {b : Block} {w : Bytes} {rest : List (Except IoError UInt8)}
    (hw : lineFeed ∉ w) (hfit : b.size + (w.length + 1) ≤ limits.maxHeaderSize) :
    collectLines limits b (cut [] ((w ++ [lineFeed]).map .ok ++ rest)) =
      if isEmptyLine (b.line.reverse ++ (w ++ [lineFeed])) then (.ok b.lines.reverse, cut [] rest)
      else
        let c := (b.addBytes (w ++ [lineFeed])).addLine (b.line.reverse ++ (w ++ [lineFeed]))
        if limits.maxHeaders < c.headers then (.error .messageTooLarge, cut [] rest)
        else collectLines limits c (cut [] rest) := by
  induction w using segment_induction generalizing b with
  | short w hlt =>
      have hsize : ¬ limits.maxHeaderSize < (b.addBytes (w ++ [lineFeed])).size := by
        simp only [Block.addBytes, List.length_append, List.length_singleton]
        omega
      have hline : (b.addBytes (w ++ [lineFeed])).line.reverse =
          b.line.reverse ++ (w ++ [lineFeed]) := by
        simp [Block.addBytes]
      rw [cut_line hw (by simpa using hlt), List.nil_append, collectLines]
      dsimp only
      rw [if_neg hsize, hline]
      rfl
  | full q v hq ih =>
      rw [List.mem_append, not_or] at hw
      rw [List.length_append] at hfit
      have hline : (b.addBytes q).line.reverse = b.line.reverse ++ q := by
        simp [Block.addBytes]
      have hsize : (b.addBytes q).size + (v.length + 1) ≤ limits.maxHeaderSize := by
        simp only [Block.addBytes]
        omega
      rw [List.append_assoc, List.map_append, List.append_assoc,
        collectLines_full hw.1 hq (by omega), ih hw.2 hsize, hline, List.append_assoc]
      simp [Block.addBytes, Block.addLine, Nat.add_assoc]

theorem collectLines_full_of_lt {b : Block} {q : Bytes} {rest : List (Except IoError UInt8)}
    (hq : lineFeed ∉ q) (hlen : q.length = segmentSize)
    (hlarge : limits.maxHeaderSize < b.size + q.length) :
    (collectLines limits b (cut [] (q.map .ok ++ rest))).1 = .error .messageTooLarge := by
  have hsize : limits.maxHeaderSize < (b.addBytes q).size := hlarge
  rw [cut_full hq (ne_nil_of_full hlen) (by simpa using hlen), List.nil_append, collectLines]
  dsimp only
  rw [if_pos hsize]

theorem collectLines_line_of_lt {b : Block} {w : Bytes} {rest : List (Except IoError UInt8)}
    (hw : lineFeed ∉ w) (hlarge : limits.maxHeaderSize < b.size + (w.length + 1)) :
    (collectLines limits b (cut [] ((w ++ [lineFeed]).map .ok ++ rest))).1 =
      .error .messageTooLarge := by
  induction w using segment_induction generalizing b with
  | short w hlt =>
      have hsize : limits.maxHeaderSize < (b.addBytes (w ++ [lineFeed])).size := by
        simp only [Block.addBytes, List.length_append, List.length_singleton]
        exact hlarge
      rw [cut_line hw (by simpa using hlt), List.nil_append, collectLines]
      dsimp only
      rw [if_pos hsize]
  | full q v hq ih =>
      rw [List.mem_append, not_or] at hw
      rw [List.length_append] at hlarge
      rw [List.append_assoc, List.map_append, List.append_assoc]
      rcases Nat.lt_or_ge limits.maxHeaderSize (b.size + q.length) with hlt | hfit
      · exact collectLines_full_of_lt hw.1 hq hlt
      · rw [collectLines_full hw.1 hq hfit]
        apply ih hw.2
        simp only [Block.addBytes]
        omega

theorem size_le_of_collectLines_line {b : Block} {w : Bytes} {rest : List (Except IoError UInt8)}
    {out : List Bytes} (hw : lineFeed ∉ w)
    (h : (collectLines limits b (cut [] ((w ++ [lineFeed]).map .ok ++ rest))).1 = .ok out) :
    b.size + (w.length + 1) ≤ limits.maxHeaderSize := by
  apply Nat.le_of_not_lt
  intro hlarge
  rw [collectLines_line_of_lt hw hlarge] at h
  cases h

variable (limits) in
theorem collectLines_last (b : Block) {w : Bytes} {tail : List (Except IoError UInt8)}
    (hw : lineFeed ∉ w) (htail : Stops tail) :
    ∃ e, (collectLines limits b (cut [] (w.map .ok ++ tail))).1 = .error e ∧
      (tail = [] → b.size + w.length ≤ limits.maxHeaderSize → e = .structural .cutHeaders) := by
  induction w using segment_induction generalizing b with
  | short w hlt =>
      rcases htail with rfl | ⟨e, rest, rfl⟩
      · rw [List.append_nil, cut_input hw hlt, collectLines]
        dsimp only
        by_cases hsize : limits.maxHeaderSize < (b.addBytes w).size
        · rw [if_pos hsize]
          exact ⟨_, rfl, fun _ hfit => absurd hfit (Nat.not_le.mpr hsize)⟩
        · rw [if_neg hsize]
          exact ⟨_, rfl, fun _ _ => rfl⟩
      · exact ⟨.io e, by rw [cut_error hw hlt, collectLines], by simp⟩
  | full q v hq ih =>
      rw [List.mem_append, not_or] at hw
      rw [List.map_append, List.append_assoc, List.length_append]
      rcases Nat.lt_or_ge limits.maxHeaderSize (b.size + q.length) with hlt | hfit
      · exact ⟨_, collectLines_full_of_lt hw.1 hq hlt, fun _ _ => by omega⟩
      · rw [collectLines_full hw.1 hq hfit]
        obtain ⟨e, he, hcut⟩ := ih (b.addBytes q) hw.2
        refine ⟨e, he, fun htail hsize => hcut htail ?_⟩
        simp only [Block.addBytes]
        omega

/-- The number of headers that a line starts. -/
def headersOf (line : Bytes) : Nat :=
  if isFolded line then 0 else 1

theorem collectLines_header {b : Block} {w : Bytes} {rest : List (Except IoError UInt8)}
    (hw : lineFeed ∉ w) (hb : b.line = []) (he : isEmptyLine (w ++ [lineFeed]) = false)
    (hsize : b.size + (w.length + 1) ≤ limits.maxHeaderSize)
    (hcount : b.headers + headersOf (w ++ [lineFeed]) ≤ limits.maxHeaders) :
    collectLines limits b (cut [] ((w ++ [lineFeed]).map .ok ++ rest)) =
      collectLines limits
        { size := b.size + (w.length + 1)
          headers := b.headers + headersOf (w ++ [lineFeed])
          lines := (w ++ [lineFeed]) :: b.lines } (cut [] rest) := by
  have hline : b.line.reverse ++ (w ++ [lineFeed]) = w ++ [lineFeed] := by
    rw [hb, List.reverse_nil, List.nil_append]
  have hadd : (b.addBytes (w ++ [lineFeed])).addLine (w ++ [lineFeed]) =
      { size := b.size + (w.length + 1)
        headers := b.headers + headersOf (w ++ [lineFeed])
        lines := (w ++ [lineFeed]) :: b.lines } := by
    simp only [Block.addBytes, Block.addLine, List.length_append, List.length_singleton, headersOf]
    split <;> simp_all
  rw [collectLines_line hw hsize, hline, he, hadd]
  exact if_neg (Nat.not_lt.mpr hcount)

theorem headerCount_cons {w : Bytes} (he : isEmptyLine (w ++ [lineFeed]) = false)
    (block : List Bytes) : headerCount ((w ++ [lineFeed]) :: block) =
      headersOf (w ++ [lineFeed]) + headerCount block := by
  rw [headerCount, List.countP_cons, isTerminated_append, he, headersOf, headerCount]
  cases isFolded (w ++ [lineFeed]) <;> simp [Nat.add_comm]

/-- The first line of a block within the limits leaves room for the others. -/
theorem collectLines_cons {b : Block} {w : Bytes} {block : List Bytes}
    {rest : List (Except IoError UInt8)} (hw : lineFeed ∉ w) (hb : b.line = [])
    (he : isEmptyLine (w ++ [lineFeed]) = false)
    (hsize : b.size + ((w ++ [lineFeed]) :: block).flatten.length ≤ limits.maxHeaderSize)
    (hcount : b.headers + headerCount ((w ++ [lineFeed]) :: block) ≤ limits.maxHeaders) :
    ∃ c : Block, collectLines limits b (cut [] ((w ++ [lineFeed]).map .ok ++ rest)) =
        collectLines limits c (cut [] rest) ∧
      c.line = [] ∧ c.lines = (w ++ [lineFeed]) :: b.lines ∧
      c.size + block.flatten.length ≤ limits.maxHeaderSize ∧
      c.headers + headerCount block ≤ limits.maxHeaders := by
  rw [headerCount_cons he, ← Nat.add_assoc] at hcount
  rw [List.flatten_cons, List.length_append, List.length_append, List.length_singleton,
    ← Nat.add_assoc] at hsize
  refine ⟨_, collectLines_header hw hb he ?_ ?_, rfl, rfl, hsize, hcount⟩
  · exact Nat.le_trans (Nat.le_add_right _ _) hsize
  · exact Nat.le_trans (Nat.le_add_right _ _) hcount

/-- The lines up to the empty one are the block, whatever follows the lines. -/
theorem collectLines_of_takeBlock {b : Block} {ls block rest : List Bytes}
    (tail : List (Except IoError UInt8)) (hls : Lined ls) (hb : b.line = [])
    (hsize : b.size + block.flatten.length ≤ limits.maxHeaderSize)
    (hcount : b.headers + headerCount block ≤ limits.maxHeaders)
    (h : takeBlock ls = (block, some rest)) :
    collectLines limits b (cut [] (ls.flatten.map .ok ++ tail)) =
      (.ok (b.lines.reverse ++ block.dropLast), cut [] (rest.flatten.map .ok ++ tail)) := by
  induction hls generalizing b block with
  | nil => simp [takeBlock] at h
  | last hw hne => simp [takeBlock, isTerminated_of_not_mem hw] at h
  | @cons w ls hw hls ih =>
      unfold takeBlock at h
      rw [isTerminated_append] at h
      rw [List.flatten_cons, List.map_append, List.append_assoc]
      cases he : isEmptyLine (w ++ [lineFeed]) with
      | true =>
          rw [he] at h
          cases h
          have hfit : b.size + (w.length + 1) ≤ limits.maxHeaderSize := by simpa using hsize
          rw [collectLines_line hw hfit, hb, List.reverse_nil, List.nil_append, he]
          simp
      | false =>
          cases hr : takeBlock ls with
          | mk block' found =>
              rw [he, hr] at h
              cases h
              obtain ⟨c, hstep, hline, hlines, hsize', hcount'⟩ :=
                collectLines_cons hw hb he hsize hcount
              rw [hstep, ih hline hsize' hcount' hr, hlines,
                List.dropLast_cons_of_ne_nil (ne_nil_of_takeBlock hr)]
              simp

theorem collectLines_of_takeBlock_none {b : Block} {ls block : List Bytes} (hls : Lined ls)
    (hb : b.line = []) (hsize : b.size + block.flatten.length ≤ limits.maxHeaderSize)
    (hcount : b.headers + headerCount block ≤ limits.maxHeaders)
    (h : takeBlock ls = (block, none)) :
    (collectLines limits b (cut [] (ls.flatten.map .ok))).1 =
      .error (.structural .cutHeaders) := by
  have hlast : ∀ {b : Block} {w : Bytes}, lineFeed ∉ w →
      b.size + w.length ≤ limits.maxHeaderSize →
      (collectLines limits b (cut [] (w.map .ok))).1 = .error (.structural .cutHeaders) := by
    intro b w hw hfit
    obtain ⟨e, he, hcut⟩ := collectLines_last limits b hw (.inl rfl)
    rwa [hcut rfl hfit, List.append_nil] at he
  induction hls generalizing b block with
  | nil => exact hlast List.not_mem_nil (Nat.le_trans (Nat.le_add_right _ _) hsize)
  | @last w hw hne =>
      rw [takeBlock, isTerminated_of_not_mem hw] at h
      cases h
      rw [List.flatten_singleton] at hsize ⊢
      exact hlast hw hsize
  | @cons w ls hw hls ih =>
      unfold takeBlock at h
      rw [isTerminated_append] at h
      rw [List.flatten_cons, List.map_append]
      cases he : isEmptyLine (w ++ [lineFeed]) with
      | true =>
          rw [he] at h
          cases h
      | false =>
          cases hr : takeBlock ls with
          | mk block' found =>
              rw [he, hr] at h
              cases h
              obtain ⟨c, hstep, hline, -, hsize', hcount'⟩ :=
                collectLines_cons hw hb he hsize hcount
              rw [hstep]
              exact ih hline hsize' hcount' hr

/-- A block that is read is complete, it is within the limits, and the lines behind it are left. -/
theorem takeBlock_of_collectLines {b : Block} {ls out : List Bytes} {left : Incoming}
    {tail : List (Except IoError UInt8)} (hls : Lined ls) (htail : Stops tail) (hb : b.line = [])
    (hcount : b.headers ≤ limits.maxHeaders)
    (h : collectLines limits b (cut [] (ls.flatten.map .ok ++ tail)) = (.ok out, left)) :
    ∃ block rest, takeBlock ls = (block, some rest) ∧
      out = b.lines.reverse ++ block.dropLast ∧
      b.size + block.flatten.length ≤ limits.maxHeaderSize ∧
      b.headers + headerCount block ≤ limits.maxHeaders ∧
      left = cut [] (rest.flatten.map .ok ++ tail) := by
  have hlast : ∀ {b : Block} {w : Bytes}, lineFeed ∉ w →
      collectLines limits b (cut [] (w.map .ok ++ tail)) ≠ (.ok out, left) := by
    intro b w hw h
    obtain ⟨e, he, -⟩ := collectLines_last limits b hw htail
    rw [h] at he
    cases he
  induction hls generalizing b with
  | nil => exact absurd h (hlast List.not_mem_nil)
  | last hw hne =>
      rw [List.flatten_singleton] at h
      exact absurd h (hlast hw)
  | @cons w ls hw hls ih =>
      rw [List.flatten_cons, List.map_append, List.append_assoc] at h
      have hsize := size_le_of_collectLines_line hw (congrArg Prod.fst h)
      rw [collectLines_line hw hsize, hb, List.reverse_nil, List.nil_append] at h
      rw [takeBlock, isTerminated_append]
      cases he : isEmptyLine (w ++ [lineFeed]) with
      | true =>
          rw [he] at h
          cases h
          refine ⟨[w ++ [lineFeed]], ls, rfl, by simp, by simpa using hsize, ?_, rfl⟩
          simpa [headerCount, he] using hcount
      | false =>
          rw [he, if_neg (by simp)] at h
          dsimp only at h
          split at h
          · cases h
          · rename_i hfit
            obtain ⟨block, rest, hblock, rfl, hsize', hcount', hleft⟩ :=
              ih rfl (Nat.le_of_not_lt hfit) h
            have hheaders : ((b.addBytes (w ++ [lineFeed])).addLine (w ++ [lineFeed])).headers =
                b.headers + headersOf (w ++ [lineFeed]) := by
              simp only [Block.addLine, Block.addBytes, headersOf]
              split <;> rfl
            rw [hheaders, Nat.add_assoc, ← headerCount_cons he] at hcount'
            simp only [Block.addLine, Block.addBytes] at hsize'
            refine ⟨(w ++ [lineFeed]) :: block, rest, by simp [hblock], ?_, ?_, hcount', hleft⟩
            · rw [List.dropLast_cons_of_ne_nil (ne_nil_of_takeBlock hblock)]
              simp [Block.addLine, Block.addBytes]
            · rw [List.flatten_cons, List.length_append]
              omega

theorem readHeaders_of_admits {ls block rest : List Bytes} (tail : List (Except IoError UInt8))
    (hls : Lined ls) (hfit : limits.Admits block) (h : takeBlock ls = (block, some rest)) :
    readHeaders limits (cut [] (ls.flatten.map .ok ++ tail)) =
      (.ok (unfold block.dropLast), cut [] (rest.flatten.map .ok ++ tail)) := by
  rw [readHeaders, collectLines_of_takeBlock tail hls rfl (by simpa using hfit.1)
    (by simpa using hfit.2) h]
  rfl

theorem takeBlock_of_readHeaders {ls : List Bytes} {headers : Headers} {left : Incoming}
    {tail : List (Except IoError UInt8)} (hls : Lined ls) (htail : Stops tail)
    (h : readHeaders limits (cut [] (ls.flatten.map .ok ++ tail)) = (.ok headers, left)) :
    ∃ block rest, takeBlock ls = (block, some rest) ∧ headers = unfold block.dropLast ∧
      limits.Admits block ∧ left = cut [] (rest.flatten.map .ok ++ tail) := by
  unfold readHeaders at h
  split at h
  · rename_i out left' hc
    cases h
    obtain ⟨block, rest, hblock, rfl, hsize, hcount, hleft⟩ :=
      takeBlock_of_collectLines hls htail rfl (Nat.zero_le _) hc
    exact ⟨block, rest, hblock, rfl, ⟨by simpa using hsize, by simpa using hcount⟩, hleft⟩
  · cases h

end block

end Mime.Multipart
