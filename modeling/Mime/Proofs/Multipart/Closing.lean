import Mime.Proofs.Multipart.LineParser

/-! # The line that ends a message

Behind the closing delimiter a reader reads nothing, so what it takes for that delimiter decides
what is lost.  It goes by the first segment of a line (`seenDelimiter?`).  Whatever the input is,
with failures anywhere in it, and however often the reader is called: once it has finished, it
stands behind the first segment of a line that begins with the dashes, the boundary, two more
dashes, and spaces and tabs (`exists_closing_of_finished`).  Then the line ends, or the segment
does.

A line that goes on behind that segment is no delimiter as a line, but it ends the message all the
same (`decode_of_filled_line`). -/

namespace Mime.Multipart

/-! ### Lines in a sequence of bytes and failures -/

/-- A line in front of what follows it: a line feed ends it, or else the end of the input or a
failure does. -/
inductive IsLine : Bytes → List (Except IoError UInt8) → Prop
  | terminated {w : Bytes} (after : List (Except IoError UInt8)) :
      lineFeed ∉ w → IsLine (w ++ [lineFeed]) after
  | last {w : Bytes} {after : List (Except IoError UInt8)} :
      lineFeed ∉ w → Stops after → IsLine w after

/-- Whether a line starts behind these bytes and failures. -/
def StartsLine (before : List (Except IoError UInt8)) : Prop :=
  ∀ b, before.getLast? = some (.ok b) → b = lineFeed

theorem startsLine_nil : StartsLine [] := nofun

theorem startsLine_line (before : List (Except IoError UInt8)) (w : Bytes) :
    StartsLine (before ++ (w ++ [lineFeed]).map .ok) := by
  intro b h
  simpa [← List.append_assoc] using h.symm

theorem startsLine_failure (before : List (Except IoError UInt8)) (e : IoError) :
    StartsLine (before ++ [.error e]) := by
  intro b h
  simp at h

theorem exists_isLine (items : List (Except IoError UInt8)) :
    ∃ line after, items = line.map .ok ++ after ∧ IsLine line after := by
  obtain ⟨bytes, tail, rfl, htail⟩ := exists_stops items
  by_cases h : lineFeed ∈ bytes
  · obtain ⟨w, u, rfl, hw⟩ := List.eq_append_cons_of_mem h
    refine ⟨w ++ [lineFeed], u.map .ok ++ tail, by simp, .terminated _ hw⟩
  · exact ⟨bytes, tail, rfl, .last h htail⟩

/-! ### Segments and their places -/

/-- How the first segment is cut off a sequence of bytes and failures, and the segments behind
it. -/
inductive CutOff : List (Except IoError UInt8) → Except IoError Segment → Incoming → Prop
  | line (w : Bytes) (rest : List (Except IoError UInt8)) :
      CutOff ((w ++ [lineFeed]).map .ok ++ rest) (.ok ⟨w ++ [lineFeed], .line⟩) (cut [] rest)
  | full (w : Bytes) (rest : List (Except IoError UInt8)) :
      CutOff (w.map .ok ++ rest) (.ok ⟨w, .full⟩) (cut [] rest)
  | input (w : Bytes) : CutOff (w.map .ok) (.ok ⟨w, .input⟩) []
  | failure (w : Bytes) (e : IoError) (rest : List (Except IoError UInt8)) :
      CutOff (w.map .ok ++ .error e :: rest) (.error e) (cut [] rest)

theorem exists_cutOff {line : Bytes} {after : List (Except IoError UInt8)} (h : IsLine line after) :
    ∃ item left, cut [] (line.map .ok ++ after) = item :: left ∧
      CutOff (line.map .ok ++ after) item left ∧ ∀ s, item = .ok s → s = firstSegment line := by
  have long : ∀ {w v : Bytes}, lineFeed ∉ w → segmentSize ≤ w.length → line = w ++ v →
      ∃ item left, cut [] (line.map .ok ++ after) = item :: left ∧
        CutOff (line.map .ok ++ after) item left ∧ ∀ s, item = .ok s → s = firstSegment line := by
    rintro w v hw hlen rfl
    have hq : lineFeed ∉ w.take segmentSize := fun h => hw (List.mem_of_mem_take h)
    have hfull : (w.take segmentSize).length = segmentSize := List.length_take_of_le hlen
    have hline : w ++ v = w.take segmentSize ++ (w.drop segmentSize ++ v) := by
      rw [← List.append_assoc, List.take_append_drop]
    rw [hline, List.map_append, List.append_assoc]
    refine ⟨_, _, cut_full hq (ne_nil_of_full hfull) (by simpa using hfull) _, .full _ _, ?_⟩
    rintro s ⟨rfl⟩
    rw [firstSegment_full hq hfull]
    rfl
  cases h with
  | @terminated w _ hw =>
      rcases Nat.lt_or_ge w.length segmentSize with hlt | hge
      · refine ⟨_, _, cut_line hw (by simpa using hlt) _, .line w _, ?_⟩
        rintro s ⟨rfl⟩
        exact (firstSegment_line hw hlt).symm
      · exact long hw hge rfl
  | last hw hstop =>
      rcases Nat.lt_or_ge line.length segmentSize with hlt | hge
      · rcases hstop with rfl | ⟨e, rest, rfl⟩
        · rw [List.append_nil]
          refine ⟨_, _, cut_input hw hlt, .input line, ?_⟩
          rintro s ⟨rfl⟩
          exact (firstSegment_input hw hlt).symm
        · exact ⟨_, _, cut_error hw hlt e rest, .failure line e rest, nofun⟩
      · exact long hw hge (List.append_nil line).symm

theorem cutOff_of_cut_eq_cons {items : List (Except IoError UInt8)} {item : Except IoError Segment}
    {left : Incoming} (h : cut [] items = item :: left) : CutOff items item left := by
  obtain ⟨line, after, rfl, hline⟩ := exists_isLine items
  obtain ⟨item', left', h', hcut, -⟩ := exists_cutOff hline
  cases h.symm.trans h'
  exact hcut

theorem exists_of_cut_eq_append {left : Incoming} (hne : left ≠ []) :
    ∀ {passed : Incoming} {items : List (Except IoError UInt8)}, cut [] items = passed ++ left →
    ∃ before after, items = before ++ after ∧ cut [] after = left
  | [], items, h => ⟨[], items, rfl, h⟩
  | item :: passed, items, h => by
      have behind : ∀ {x rest : List (Except IoError UInt8)}, items = x ++ rest →
          cut [] rest = passed ++ left →
          ∃ before after, items = before ++ after ∧ cut [] after = left := by
        rintro x rest rfl hrest
        obtain ⟨before, after, rfl, hleft⟩ := exists_of_cut_eq_append hne hrest
        exact ⟨x ++ before, after, by rw [List.append_assoc], hleft⟩
      rw [List.cons_append] at h
      generalize hrest : passed ++ left = rest at h
      cases cutOff_of_cut_eq_cons h with
      | line w rest => exact behind rfl hrest.symm
      | full w rest => exact behind rfl hrest.symm
      | input => exact absurd (List.append_eq_nil_iff.mp hrest).2 hne
      | failure w e rest =>
          refine behind (x := w.map .ok ++ [.error e]) ?_ hrest.symm
          rw [List.append_assoc, List.singleton_append]

/-- Whether a line starts behind an item of the input: behind any but a part of a longer line. -/
def EndsLine (item : Except IoError Segment) : Prop :=
  ∀ s, item = .ok s → s.ending ≠ .full

theorem endsLine_of_ne {s : Segment} (h : s.ending ≠ .full) : EndsLine (.ok s) := by
  rintro _ ⟨rfl⟩
  exact h

theorem exists_startsLine {passed left : Incoming} {item : Except IoError Segment}
    {items : List (Except IoError UInt8)} (hne : left ≠ []) (hitem : EndsLine item)
    (h : cut [] items = passed ++ item :: left) :
    ∃ before after, items = before ++ after ∧ StartsLine before ∧ cut [] after = left := by
  obtain ⟨before, after, rfl, hcut⟩ := exists_of_cut_eq_append (List.cons_ne_nil item left) h
  cases cutOff_of_cut_eq_cons hcut with
  | line w rest => exact ⟨_, rest, (List.append_assoc ..).symm, startsLine_line before w, rfl⟩
  | full w rest => exact absurd rfl (hitem _ rfl)
  | input => exact absurd rfl hne
  | failure w e rest =>
      exact ⟨before ++ w.map .ok ++ [.error e], rest, by simp, startsLine_failure _ e, rfl⟩

/-- Whether a line starts behind the items that were passed. -/
inductive AtLine : Incoming → Prop
  | start : AtLine []
  | behind (passed : Incoming) {item : Except IoError Segment} :
      EndsLine item → AtLine (passed ++ [item])

theorem AtLine.append {passed front : Incoming} (hp : AtLine passed) (hf : AtLine front) :
    AtLine (passed ++ front) := by
  cases hf with
  | start => rwa [List.append_nil]
  | behind init hitem =>
      rw [← List.append_assoc]
      exact .behind _ hitem

/-- A segment behind the end of a line is the first one of the next line. -/
theorem exists_line_of_cut_eq_append {passed left : Incoming} {s : Segment}
    {items : List (Except IoError UInt8)} (hpassed : AtLine passed)
    (h : cut [] items = passed ++ .ok s :: left) :
    ∃ before line after, items = before ++ (line.map .ok ++ after) ∧ StartsLine before ∧
      IsLine line after ∧ cut [] (line.map .ok ++ after) = .ok s :: left ∧
      s = firstSegment line := by
  have front : ∀ {before after : List (Except IoError UInt8)}, items = before ++ after →
      StartsLine before → cut [] after = .ok s :: left →
      ∃ before line after, items = before ++ (line.map .ok ++ after) ∧ StartsLine before ∧
        IsLine line after ∧ cut [] (line.map .ok ++ after) = .ok s :: left ∧
        s = firstSegment line := by
    rintro before after rfl hbefore hcut
    obtain ⟨line, after, rfl, hline⟩ := exists_isLine after
    obtain ⟨item, left', hcut', -, hfirst⟩ := exists_cutOff hline
    cases hcut.symm.trans hcut'
    exact ⟨before, line, after, rfl, hbefore, hline, hcut, hfirst s rfl⟩
  cases hpassed with
  | start => exact front rfl startsLine_nil h
  | @behind passed item hitem =>
      rw [List.append_assoc, List.singleton_append] at h
      obtain ⟨before, after, rfl, hbefore, hcut⟩ := exists_startsLine (List.cons_ne_nil _ _) hitem h
      exact front rfl hbefore hcut

/-! ### Where the loops of a reader stop -/

section loops

variable {dashBoundary : Bytes} {input left : Incoming}

theorem exists_of_readContent {part : Nat} {c : Content} {spool : Spool} {d : Delimiter}
    (h : readContent dashBoundary part c input = (.ok d, spool, left)) :
    ∃ front s, input = front ++ .ok s :: left ∧ delimiter? dashBoundary s = some d ∧
      AtLine front ∧ (front = [] → c.atLineStart = true) := by
  induction input generalizing c with
  | nil => cases h
  | cons item rest ih =>
    cases item with
    | error e => cases h
    | ok s =>
      rw [readContent] at h
      cases hd : (if c.atLineStart then delimiter? dashBoundary s else none) with
      | some d' =>
          rw [hd] at h
          cases h
          obtain ⟨hstart, hs⟩ := Option.ite_none_right_eq_some.mp hd
          exact ⟨[], s, rfl, hs, .start, fun _ => hstart⟩
      | none =>
          rw [hd] at h
          dsimp only at h
          by_cases he : s.ending = .input
          · rw [if_pos he] at h
            cases h
          · rw [if_neg he] at h
            have hadd := c.atLineStart_add he
            split at h
            · cases h
            rename_i heq
            rw [heq] at hadd
            obtain ⟨front, t, rfl, ht, hfront, hstart⟩ := ih h
            refine ⟨.ok s :: front, t, rfl, ht, ?_, fun hnil => absurd hnil (List.cons_ne_nil _ _)⟩
            cases hfront with
            | start =>
                have hline := hadd.symm.trans (hstart rfl)
                rw [decide_eq_true_eq] at hline
                exact .behind [] (endsLine_of_ne (by simp [hline]))
            | behind init hitem => exact .behind (.ok s :: init) hitem

theorem suffix_of_readContent {part : Nat} {c : Content} {spool : Spool}
    {answer : Except Error Delimiter}
    (h : readContent dashBoundary part c input = (answer, spool, left)) : left <:+ input := by
  induction input generalizing c with
  | nil =>
    cases h
    exact List.suffix_refl []
  | cons item rest ih =>
    cases item with
    | error e =>
      cases h
      exact List.suffix_cons _ left
    | ok s =>
      rw [readContent] at h
      split at h
      · cases h
        exact List.suffix_cons _ left
      · split at h
        · cases h
          exact List.suffix_cons _ left
        · split at h
          · cases h
            exact List.suffix_cons _ left
          · exact (ih h).trans (List.suffix_cons _ rest)

/-- Without a first delimiter, the reader stops where a line ends, or at the end of the input. -/
theorem exists_of_skipPreamble_error {start : Bool} {e : Error}
    (h : skipPreamble dashBoundary start input = (.error e, left)) :
    left = [] ∨ ∃ front item, input = front ++ item :: left ∧ EndsLine item := by
  induction input generalizing start with
  | nil =>
    cases h
    exact .inl rfl
  | cons item rest ih =>
    cases item with
    | error e' =>
      cases h
      exact .inr ⟨[], .error e', rfl, nofun⟩
    | ok s =>
      rw [skipPreamble] at h
      cases hd : (if start then delimiter? dashBoundary s else none) with
      | some d =>
          rw [hd] at h
          cases h
      | none =>
          rw [hd] at h
          dsimp only at h
          by_cases he : s.ending = .input
          · rw [if_pos he] at h
            cases h
            exact .inr ⟨[], .ok s, rfl, endsLine_of_ne (by simp [he])⟩
          · rw [if_neg he] at h
            refine (ih h).imp_right ?_
            rintro ⟨front, item, rfl, hitem⟩
            exact ⟨.ok s :: front, item, rfl, hitem⟩

/-- Reading a header block takes segments off the input, of which the last one ends a line if the
block is complete. -/
theorem exists_of_collectLines {limits : Limits} {b : Block} {answer : Except Error (List Bytes)}
    (h : collectLines limits b input = (answer, left)) :
    left <:+ input ∧ ∀ ls, answer = .ok ls →
      ∃ front item, input = front ++ item :: left ∧ EndsLine item := by
  induction input generalizing b with
  | nil =>
    cases h
    exact ⟨List.suffix_refl [], nofun⟩
  | cons item rest ih =>
    cases item with
    | error e =>
      cases h
      exact ⟨List.suffix_cons _ left, nofun⟩
    | ok s =>
      have behind : ∀ {b' : Block}, collectLines limits b' rest = (answer, left) →
          left <:+ .ok s :: rest ∧ ∀ ls, answer = .ok ls →
            ∃ front item, .ok s :: rest = front ++ item :: left ∧ EndsLine item := by
        intro b' h'
        obtain ⟨hsuffix, hends⟩ := ih h'
        refine ⟨hsuffix.trans (List.suffix_cons _ rest), fun ls hls => ?_⟩
        obtain ⟨front, item, rfl, hitem⟩ := hends ls hls
        exact ⟨.ok s :: front, item, rfl, hitem⟩
      have stop : ∀ {e : Error}, (.error e, rest) = (answer, left) →
          left <:+ .ok s :: rest ∧ ∀ ls, answer = .ok ls →
            ∃ front item, .ok s :: rest = front ++ item :: left ∧ EndsLine item := by
        rintro e ⟨rfl⟩
        exact ⟨List.suffix_cons _ left, nofun⟩
      rw [collectLines] at h
      dsimp only at h
      split at h
      · exact stop h
      · split at h
        · exact behind h
        · exact stop h
        · rename_i hline
          split at h
          · cases h
            exact ⟨List.suffix_cons _ left,
              fun _ _ => ⟨[], .ok s, rfl, endsLine_of_ne (by simp [hline])⟩⟩
          · split at h
            · exact stop h
            · exact behind h

theorem exists_of_readHeaders {limits : Limits} {answer : Except Error Headers}
    (h : readHeaders limits input = (answer, left)) :
    left <:+ input ∧ ∀ headers, answer = .ok headers →
      ∃ front item, input = front ++ item :: left ∧ EndsLine item := by
  unfold readHeaders at h
  split at h
  · rename_i hr
    cases h
    exact ⟨(exists_of_collectLines hr).1, fun _ _ => (exists_of_collectLines hr).2 _ rfl⟩
  · rename_i hr
    cases h
    exact ⟨(exists_of_collectLines hr).1, nofun⟩

end loops

/-! ### Where a reader stands -/

namespace Reader

variable {r : Reader} {all : Incoming} {boundary : String}

/-- A reader of `all` the input there is.  Until it has found the first delimiter it is at the
start of a line, and once it has finished it is behind a closing delimiter at the start of one. -/
structure Stands (all : Incoming) (boundary : String) (r : Reader) : Prop where
  boundary_eq : r.boundary = boundary
  input_suffix : r.input <:+ all
  atLine : r.started = false → r.finished = false → r.input ≠ [] →
    ∃ passed, all = passed ++ r.input ∧ AtLine passed
  closed : r.finished = true → ∃ passed s, all = passed ++ .ok s :: r.input ∧ AtLine passed ∧
    delimiter? (dashBoundary boundary) s = some .close

theorem stands_readPart (h : r.Stands all boundary) (hs : r.started = true)
    (hf : r.finished = false) (spills : Spills) : (r.readPart spills).2.1.Stands all boundary := by
  have failed : ∀ {input : Incoming}, input <:+ r.input →
      Stands all boundary { r with input } := fun hin =>
    ⟨h.boundary_eq, hin.trans h.input_suffix, fun hs' => by simp [hs] at hs',
      fun hf' => by simp [hf] at hf'⟩
  unfold readPart
  split <;> rename_i hr
  · exact failed (exists_of_readHeaders hr).1
  · obtain ⟨hheaders, hends⟩ := exists_of_readHeaders hr
    dsimp only
    split <;> rename_i hc
    · exact failed ((suffix_of_readContent hc).trans hheaders)
    split
    · exact failed ((suffix_of_readContent hc).trans hheaders)
    · refine ⟨h.boundary_eq, ?_, fun hs' => by simp [hs] at hs', fun hclose => ?_⟩
      · exact ((suffix_of_readContent hc).trans hheaders).trans h.input_suffix
      · obtain ⟨before, hall⟩ := h.input_suffix
        obtain ⟨block, item, hinput, hitem⟩ := hends _ rfl
        obtain ⟨content, s, rfl, hd, hat, -⟩ := exists_of_readContent hc
        obtain rfl := of_decide_eq_true hclose
        refine ⟨before ++ block ++ [item] ++ content, s, ?_, .append (.behind _ hitem) hat,
          h.boundary_eq ▸ hd⟩
        simp [← hall, hinput]

/-- One call keeps what is known about the place of a reader. -/
theorem stands_nextPart (h : r.Stands all boundary) (spills : Spills) :
    (r.nextPart spills).2.1.Stands all boundary := by
  unfold nextPart
  split
  · exact h
  split
  · exact h
  rename_i hfin
  have hf : r.finished = false := Bool.eq_false_iff.mpr hfin
  split
  · rename_i hs
    exact stands_readPart h hs hf spills
  rename_i hstart
  have hs : r.started = false := Bool.eq_false_iff.mpr hstart
  -- what is skipped is read like the content of a part that is not kept
  let c : Content := { spool := { threshold := 0, spills := .empty } }
  split <;> rename_i input hk
  · have hplace : input = [] ∨ ∃ passed, all = passed ++ input ∧ AtLine passed := by
      refine (exists_of_skipPreamble_error hk).imp_right ?_
      rintro ⟨skipped, item, hinput, hitem⟩
      obtain ⟨before, hall⟩ := h.input_suffix
      exact ⟨before ++ skipped ++ [item], by simp [← hall, hinput], .behind _ hitem⟩
    refine ⟨h.boundary_eq, ?_, fun _ _ hne => hplace.resolve_left hne,
      fun hf' => by simp [hf] at hf'⟩
    rcases hplace with rfl | ⟨passed, hall, -⟩
    · exact List.nil_suffix
    · exact ⟨passed, hall.symm⟩
  · obtain ⟨spool, hc⟩ := (skipPreamble_eq_ok_iff 0 (c := c)).mp hk
    obtain ⟨skipped, s, hinput, hd, hat, -⟩ := exists_of_readContent hc
    obtain ⟨passed, hall, hpassed⟩ := h.atLine hs hf (by simp [hinput])
    refine ⟨h.boundary_eq, (suffix_of_readContent hc).trans h.input_suffix, nofun, fun _ => ?_⟩
    exact ⟨passed ++ skipped, s, by simp [hall, hinput], hpassed.append hat, h.boundary_eq ▸ hd⟩
  · obtain ⟨spool, hc⟩ := (skipPreamble_eq_ok_iff 0 (c := c)).mp hk
    have hnext : Stands all boundary { r with input, started := true } :=
      ⟨h.boundary_eq, (suffix_of_readContent hc).trans h.input_suffix, nofun,
        fun hf' => by simp [hf] at hf'⟩
    exact stands_readPart hnext rfl hf spills

/-- A reader after one call after the other.  A call meets the spill files that `states` gives for
it. -/
def after (r : Reader) (states : List Spills) : Reader :=
  states.foldl (fun r spills => (r.nextPart spills).2.1) r

theorem stands_after (h : r.Stands all boundary) (states : List Spills) :
    (r.after states).Stands all boundary := by
  induction states generalizing r with
  | nil => exact h
  | cons spills states ih => exact ih (stands_nextPart h spills)

theorem stands_ofArrivals (boundary : String) (limits : Limits) (arrivals : List Arrival) :
    (ofArrivals boundary limits arrivals).Stands (.ofArrivals arrivals) boundary :=
  ⟨rfl, List.suffix_refl _, fun _ _ _ => ⟨[], rfl, .start⟩, nofun⟩

end Reader

/-! ### The closing delimiter -/

theorem IsLine.seenDelimiter?_eq {dashBoundary line : Bytes}
    {after : List (Except IoError UInt8)} (h : IsLine line after)
    (hlen : line.length ≤ segmentSize) :
    seenDelimiter? dashBoundary line = lineDelimiter? dashBoundary line := by
  by_cases hne : line = []
  · rw [hne, seenDelimiter?_nil]
    cases dashBoundary <;> rfl
  · refine Multipart.seenDelimiter?_eq ?_ fun _ => hlen
    cases h with
    | terminated _ hw => exact .cons hw .nil
    | last hw => exact .last hw hne

/-- Of a longer line a reader sees one segment. -/
theorem IsLine.firstSegment_eq {line : Bytes} {after : List (Except IoError UInt8)}
    (h : IsLine line after) (hlen : segmentSize < line.length) :
    lineFeed ∉ line.take segmentSize ∧ firstSegment line = ⟨line.take segmentSize, .full⟩ := by
  have hq : lineFeed ∉ line.take segmentSize := by
    cases h with
    | @terminated w _ hw =>
        rw [List.length_append, List.length_singleton] at hlen
        rw [List.take_append_of_le_length (by omega)]
        exact fun hm => hw (List.mem_of_mem_take hm)
    | last hw => exact fun hm => hw (List.mem_of_mem_take hm)
  have htake := List.length_take_of_le (Nat.le_of_lt hlen)
  have hfull := firstSegment_full hq htake (line.drop segmentSize)
  rw [List.take_append_drop] at hfull
  exact ⟨hq, hfull⟩

/-- A line is taken for the closing delimiter if it is one, or if it is longer than a segment and
spaces and tabs fill up the first one. -/
theorem seenDelimiter?_eq_close_iff {dashBoundary line : Bytes}
    {after : List (Except IoError UInt8)} (h : IsLine line after) :
    seenDelimiter? dashBoundary line = some .close ↔
      line.length ≤ segmentSize ∧ lineDelimiter? dashBoundary line = some .close ∨
      segmentSize < line.length ∧ ∃ blanks, (∀ b ∈ blanks, isBlankByte b = true) ∧
        line.take segmentSize = dashBoundary ++ ([dash, dash] ++ blanks) := by
  rcases Nat.lt_or_ge segmentSize line.length with hlong | hshort
  · obtain ⟨hq, hfirst⟩ := h.firstSegment_eq hlong
    rw [seenDelimiter?, hfirst, delimiter?_eq (.inr hq), lineDelimiter?_eq_close_iff]
    constructor
    · rintro ⟨blanks, tail, hblanks, rfl | htail, heq⟩
      · exact .inr ⟨hlong, blanks, hblanks, by rw [heq, List.append_nil]⟩
      · rw [not_isLineBreak_of_not_mem fun hm => hq (by simp [heq, hm])] at htail
        cases htail
    · rintro (⟨hle, -⟩ | ⟨-, blanks, hblanks, heq⟩)
      · omega
      · exact ⟨blanks, [], hblanks, .inl rfl, by rw [heq, List.append_nil]⟩
  · rw [h.seenDelimiter?_eq hshort]
    constructor
    · exact fun hclose => .inl ⟨hshort, hclose⟩
    · rintro (⟨-, hclose⟩ | ⟨hlt, -⟩)
      · exact hclose
      · omega

/-- **What ends a message.**  Once a reader has finished, it stands behind the first segment of a
line, and drops all that follows.  That line is the closing delimiter, or it is longer than a
segment, of which the first one is that delimiter filled up with spaces and tabs. -/
theorem exists_closing_of_finished (boundary : String) (limits : Limits) (arrivals : List Arrival)
    (states : List Spills)
    (h : ((Reader.ofArrivals boundary limits arrivals).after states).finished = true) :
    ∃ before line after, flatten arrivals = before ++ (line.map .ok ++ after) ∧
      StartsLine before ∧ IsLine line after ∧
      cut [] (line.map .ok ++ after) = .ok (firstSegment line) ::
        ((Reader.ofArrivals boundary limits arrivals).after states).input ∧
      (lineDelimiter? (dashBoundary boundary) line = some .close ∨
        segmentSize < line.length ∧ ∃ blanks, (∀ b ∈ blanks, isBlankByte b = true) ∧
          line.take segmentSize = dashBoundary boundary ++ ([dash, dash] ++ blanks)) := by
  have hstands := Reader.stands_after (Reader.stands_ofArrivals boundary limits arrivals) states
  obtain ⟨passed, s, hall, hpassed, hclose⟩ := hstands.closed h
  rw [ofArrivals_eq_cut] at hall
  obtain ⟨before, line, after, hitems, hbefore, hline, hcut, rfl⟩ :=
    exists_line_of_cut_eq_append hpassed hall
  refine ⟨before, line, after, hitems, hbefore, hline, hcut, ?_⟩
  rcases (seenDelimiter?_eq_close_iff hline).mp hclose with ⟨-, hclose⟩ | hlong
  · exact .inl hclose
  · exact .inr hlong

/-- A part, its closing delimiter with a space behind it, and an epilogue. -/
theorem exists_closing_of_finished_one_part :
    ((Reader.ofArrivals "b" .standard [.ok (Utf8.ofString "--b\n\nx\n--b-- \ny")]).after
        [.empty]).finished = true ∧
      ∃ before line after, flatten [.ok (Utf8.ofString "--b\n\nx\n--b-- \ny")] =
          before ++ (line.map .ok ++ after) ∧
        StartsLine before ∧ IsLine line after ∧
        cut [] (line.map .ok ++ after) = .ok (firstSegment line) ::
          ((Reader.ofArrivals "b" .standard
            [.ok (Utf8.ofString "--b\n\nx\n--b-- \ny")]).after [.empty]).input ∧
        (lineDelimiter? (dashBoundary "b") line = some .close ∨
          segmentSize < line.length ∧ ∃ blanks, (∀ b ∈ blanks, isBlankByte b = true) ∧
            line.take segmentSize = dashBoundary "b" ++ ([dash, dash] ++ blanks)) :=
  have h : ((Reader.ofArrivals "b" .standard
      [.ok (Utf8.ofString "--b\n\nx\n--b-- \ny")]).after [.empty]).finished = true := by
    decide +kernel
  ⟨h, exists_closing_of_finished "b" .standard _ [.empty] h⟩

/-- **A line that is no delimiter ends a message.**  Where the first line begins like the closing
delimiter and spaces and tabs fill up its first segment, there are no parts, whatever that line goes
on with and whatever follows it. -/
theorem decode_of_filled_line {boundary : String} {source : ByteSource} (blanks : Bytes)
    (rest : List (Except IoError UInt8)) (hne : boundary.isEmpty = false)
    (hlf : lineFeed ∉ dashBoundary boundary) (hblanks : ∀ b ∈ blanks, isBlankByte b = true)
    (hlen : (dashBoundary boundary ++ ([dash, dash] ++ blanks)).length = segmentSize)
    (hsource : flatten source.arrivals =
      (dashBoundary boundary ++ ([dash, dash] ++ blanks)).map .ok ++ rest)
    (limits : Limits) (spills : Spills) :
    decode boundary limits source spills = (.ok [], spills) := by
  have hdash : lineFeed ∉ ([dash, dash] : Bytes) := by decide
  have hblank : lineFeed ∉ blanks := fun hm => by
    have := hblanks _ hm
    revert this
    decide
  have hq : lineFeed ∉ dashBoundary boundary ++ ([dash, dash] ++ blanks) := by
    simp only [List.mem_append, not_or]
    exact ⟨hlf, hdash, hblank⟩
  have hclose : delimiter? (dashBoundary boundary)
      ⟨dashBoundary boundary ++ ([dash, dash] ++ blanks), .full⟩ = some .close := by
    rw [delimiter?_eq (.inr hq)]
    exact lineDelimiter?_eq_close_iff.mpr ⟨blanks, [], hblanks, .inl rfl, by rw [List.append_nil]⟩
  have hskip : skipPreamble (dashBoundary boundary) true
      (Reader.ofSource boundary limits source).input = (.ok .close, cut [] rest) := by
    rw [Reader.ofSource, Reader.ofArrivals, ofArrivals_eq_cut, hsource,
      cut_full hq (ne_nil_of_full hlen) (by simpa using hlen), List.nil_append, skipPreamble,
      if_pos rfl, hclose]
  exact decodeFrom_of_none (Reader.nextPart_of_skipPreamble_close hne rfl rfl hskip spills)

/-- A line that is no delimiter, and a part behind it that is lost. -/
theorem decode_of_filled_line_one_part :
    let line := dashBoundary "b" ++ ([dash, dash] ++
      (List.replicate 4091 32 ++ Utf8.ofString "x\n"))
    lineDelimiter? (dashBoundary "b") line = none ∧
      decode "b" .standard (.ofBytes (line ++ Utf8.ofString "--b\n\nhidden\n--b--")) .empty =
        (.ok [], .empty) := by
  have hblanks : ∀ b ∈ List.replicate 4091 (32 : UInt8), isBlankByte b = true := fun b hb => by
    rw [List.eq_of_mem_replicate hb]
    rfl
  constructor
  · simp only [lineDelimiter?, dropStart?_append]
    have hx : ∀ b ∈ (Utf8.ofString "x\n").head?, isBlankByte b = false := by
      rintro b ⟨rfl⟩
      rfl
    rw [List.cons_append, not_isLineBreak_dash, dropWhile_append_of_all hblanks hx]
    rfl
  · refine decode_of_filled_line (List.replicate 4091 32)
      ((Utf8.ofString "x\n" ++ Utf8.ofString "--b\n\nhidden\n--b--").map .ok) (by decide)
      (by decide) hblanks ?_ ?_ _ _
    · rw [List.length_append, List.length_append, List.length_replicate]
      rfl
    · rw [← List.map_append]
      refine (List.flatMap_singleton _ _).trans (congrArg (List.map Except.ok) ?_)
      simp only [List.append_assoc]

end Mime.Multipart
