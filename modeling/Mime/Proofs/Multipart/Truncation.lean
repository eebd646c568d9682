import Mime.Proofs.Multipart.RoundTrip

/-! # A message that is cut off is not read

A message that a writer made and that is cut off anywhere before its end is refused, whatever the
limits (`decode_error_of_prefix`).  The cut falls into the first delimiter, or into the header block
of a part, or into the content of a part or the delimiter behind it.  A header block that is read
from the bytes in front of the cut is complete (`takeBlock_of_readHeaders`), so it is that of the
whole message (`takeBlock_append`).  In front of a cut inside a content or the delimiter behind it
no delimiter is seen (`seenDelimiter?_of_cut_content`): the lines there begin the lines of the
message, and a delimiter that is cut off is none. -/

namespace Mime.Multipart

/-! ### Lines in front of a cut -/

/-- The lines in front of a cut begin the lines of the whole. -/
theorem prefix_of_mem_lines {u x l : Bytes} (hu : u <+: x) (hl : l ∈ lines u) :
    ∃ l' ∈ lines x, l <+: l' := by
  induction u using line_induction generalizing x with
  | nil => cases hl
  | last w hw hne =>
      rw [lines_of_not_mem hw hne, List.mem_singleton] at hl
      subst hl
      obtain ⟨y, rfl⟩ := hu
      obtain rfl | ⟨hy, -⟩ | ⟨y, rest, hy, rfl⟩ := line_cases y
      · exact ⟨l, by simp [lines_of_not_mem hw hne], List.prefix_rfl⟩
      · have hline : lineFeed ∉ l ++ y := by
          rw [List.mem_append, not_or]
          exact ⟨hw, hy⟩
        refine ⟨l ++ y, ?_, List.prefix_append l y⟩
        rw [lines_of_not_mem hline (by simp [hne])]
        exact List.mem_singleton_self _
      · have hline : lineFeed ∉ l ++ y := by
          rw [List.mem_append, not_or]
          exact ⟨hw, hy⟩
        refine ⟨l ++ y ++ [lineFeed], ?_, ⟨y ++ [lineFeed], by simp⟩⟩
        rw [← List.append_assoc, lines_line hline]
        exact List.mem_cons_self
  | line w rest hw ih =>
      obtain ⟨y, rfl⟩ := hu
      rw [List.append_assoc, List.cons_append, lines_line hw]
      rw [lines_line hw] at hl
      rcases List.mem_cons.mp hl with rfl | hl
      · exact ⟨_, List.mem_cons_self, List.prefix_rfl⟩
      · obtain ⟨l', hl', hp⟩ := ih (List.prefix_append rest y) hl
        exact ⟨l', List.mem_cons_of_mem _ hl', hp⟩

/-- A cut is in front of the end of the first of two parts, or behind it. -/
theorem cut_cases {x v front back : Bytes} (h : x ++ v = front ++ back) :
    (∃ t, t ≠ [] ∧ x ++ t = front) ∨ ∃ y, x = front ++ y ∧ y ++ v = back := by
  rcases List.append_eq_append_iff.mp h with ⟨t, ht, hv⟩ | ⟨y, hy, hback⟩
  · by_cases hnil : t = []
    · subst hnil
      exact .inr ⟨[], by rw [ht, List.append_nil, List.append_nil], hv⟩
    · exact .inl ⟨t, hnil, ht.symm⟩
  · exact .inr ⟨y, hy, hback.symm⟩

theorem takeBlock_append {u : Bytes} (v : Bytes) {block rest : List Bytes}
    (h : takeBlock (lines u) = (block, some rest)) :
    takeBlock (lines (u ++ v)) = (block, some (lines (rest.flatten ++ v))) := by
  induction u using line_induction generalizing block with
  | nil => cases h
  | last w hw hne =>
      rw [lines_of_not_mem hw hne, takeBlock, isTerminated_of_not_mem hw] at h
      cases h
  | line w u hw ih =>
      rw [lines_line hw, takeBlock, isTerminated_append] at h
      rw [List.append_assoc, List.cons_append, lines_line hw, takeBlock, isTerminated_append]
      cases he : isEmptyLine (w ++ [lineFeed]) with
      | true =>
          rw [he] at h
          cases h
          rw [flatten_lines]
          rfl
      | false =>
          cases hr : takeBlock (lines u) with
          | mk block' found =>
              rw [he, hr] at h
              cases h
              rw [ih hr]
              rfl

/-! ### Delimiters that are cut off -/

section delimiters

variable {boundary : String}

theorem seenDelimiter?_of_length_lt (hb : Boundary.isValid boundary.toList = true) {y : Bytes}
    (hy : lineFeed ∉ y) (hlen : y.length < (dashBoundary boundary).length + 2) :
    seenDelimiter? (dashBoundary boundary) y = none := by
  have hle : y.length ≤ segmentSize := by
    have := length_dashBoundary_le hb
    simp only [segmentSize]
    omega
  rcases List.eq_nil_or_concat y with rfl | ⟨z, b, rfl⟩
  · exact seenDelimiter?_nil
  · rw [seenDelimiter?_eq (.last hy (by simp)) fun _ => hle, Option.eq_none_iff_forall_ne_some]
    intro d hd
    cases d with
    | next =>
        have hterminated := isTerminated_of_next hd
        rw [isTerminated_of_not_mem hy] at hterminated
        cases hterminated
    | close =>
        obtain ⟨blanks, tail, -, -, hline⟩ := lineDelimiter?_eq_close_iff.mp hd
        rw [hline] at hlen
        simp only [List.length_append, List.length_cons, List.length_nil] at hlen
        omega

theorem seenDelimiter?_of_cut_delimiter (hb : Boundary.isValid boundary.toList = true)
    {y v delimiter : Bytes} (hcut : y ++ v = delimiter) (hv : v ≠ [])
    (hdelimiter : delimiter = nextLine boundary ∨ delimiter = lastLine boundary) :
    ∀ l ∈ lines y, seenDelimiter? (dashBoundary boundary) l = none := by
  have hlen : y.length < (dashBoundary boundary).length + 2 := by
    have hvpos := List.length_pos_iff.mpr hv
    have hsum := congrArg List.length hcut
    rw [List.length_append] at hsum
    rcases hdelimiter with rfl | rfl
    · simp only [nextLine, emptyLine, List.length_append, List.length_cons, List.length_nil] at hsum
      omega
    · simp only [lastLine, List.length_append, List.length_cons, List.length_nil] at hsum
      omega
  have hy : lineFeed ∉ y := by
    have hinit : lineFeed ∉ delimiter.dropLast := by
      rcases hdelimiter with rfl | rfl
      · have hdrop : (nextLine boundary).dropLast = dashBoundary boundary ++ [carriageReturn] := by
          rw [nextLine, emptyLine, List.append_cons, List.dropLast_concat]
        rw [hdrop, List.mem_append, not_or]
        exact ⟨(not_mem_dashBoundary hb).2, by decide⟩
      · exact fun hm => lineFeed_not_mem_lastLine hb (List.dropLast_subset _ hm)
    rw [← hcut, List.dropLast_append_of_ne_nil hv] at hinit
    exact fun hm => hinit (List.mem_append_left _ hm)
  intro l hl
  by_cases hne : y = []
  · rw [hne] at hl
    cases hl
  · rw [lines_of_not_mem hy hne, List.mem_singleton] at hl
    rw [hl]
    exact seenDelimiter?_of_length_lt hb hy hlen

/-- In front of a cut inside a content or the delimiter behind it there is no delimiter. -/
theorem seenDelimiter?_of_cut_content (hb : Boundary.isValid boundary.toList = true)
    {body x v delimiter : Bytes} (hbody : Separate boundary body)
    (hcut : x ++ v = body ++ emptyLine ++ delimiter) (hv : v ≠ [])
    (hdelimiter : delimiter = nextLine boundary ∨ delimiter = lastLine boundary) :
    ∀ l ∈ lines x, seenDelimiter? (dashBoundary boundary) l = none := by
  have hnot := not_prefix_of_mem_lines_crlf (not_mem_dashBoundary hb).1
    (ne_nil_dashBoundary boundary) hbody
  intro l hl
  rcases cut_cases hcut with ⟨t, -, ht⟩ | ⟨y, rfl, hy⟩
  · obtain ⟨l', hl', hp⟩ := prefix_of_mem_lines ⟨t, ht⟩ hl
    exact seenDelimiter?_eq_none fun hd => hnot l' hl' (hd.trans hp)
  · rw [lines_append (getLast?_crlf body), List.mem_append] at hl
    rcases hl with hl | hl
    · exact seenDelimiter?_eq_none (hnot l hl)
    · exact seenDelimiter?_of_cut_delimiter hb hy hv hdelimiter l hl

end delimiters

/-! ### Reading up to the cut -/

/-- A header that stands in one line, whether it can be read or not. -/
def IsOneLine (header : String × String) : Prop :=
  '\n' ∉ header.1.toList ∧ '\n' ∉ header.2.toList

instance (header : String × String) : Decidable (IsOneLine header) :=
  inferInstanceAs (Decidable (_ ∧ _))

namespace Reader

variable {r : Reader} {part : Headers × Bytes} {u v : Bytes}

/-- A header block that is read in front of a cut is that of the part, and the cut is behind it. -/
theorem takeBlock_of_cut {tail : Bytes} {headers : Headers} {left : Incoming}
    (hpart : ∀ header ∈ part.1.entries, IsOneLine header) (hat : r.AtLines (lines u))
    (hcut : u ++ v = partBytes part ++ tail)
    (h : readHeaders r.limits r.input = (.ok headers, left)) :
    ∃ x, x ++ v = part.2 ++ tail ∧ r.limits.Admits (headerLines part.1 ++ [emptyLine]) ∧
      takeBlock (lines u) = (headerLines part.1 ++ [emptyLine], some (lines x)) := by
  rw [hat.input_eq, ← List.append_nil (List.map _ _)] at h
  obtain ⟨block, rest, hblock, -, hfit, -⟩ := takeBlock_of_readHeaders hat.lined (.inl rfl) h
  have hrest : lines rest.flatten = rest :=
    (append_of_takeBlock hblock ▸ hat.lined).of_append.lines_flatten
  have hwhole := takeBlock_append v hblock
  have hwritten : takeBlock (lines (u ++ v)) =
      (headerLines part.1 ++ [emptyLine], some (lines (part.2 ++ tail))) := by
    rw [hcut, partBytes, List.append_assoc, encode_headerBlock]
    exact takeBlock_headerLines hpart (part.2 ++ tail)
  obtain ⟨rfl, hlines⟩ := Prod.mk.inj (hwhole.symm.trans hwritten)
  have hflat := congrArg List.flatten (Option.some.inj hlines)
  rw [flatten_lines, flatten_lines] at hflat
  exact ⟨rest.flatten, hflat, hfit, by rw [hblock, hrest]⟩

/-- In front of a cut, a part cannot be read, or the cut is behind the delimiter that follows it. -/
theorem nextPart_of_cut {rest : List (Headers × Bytes)}
    (hb : Boundary.isValid r.boundary.toList = true) (hs : r.started = true)
    (hf : r.finished = false) (hpart : ∀ header ∈ part.1.entries, IsOneLine header)
    (hbody : Separate r.boundary part.2) (hat : r.AtLines (lines u))
    (hcut : u ++ v = partBytes part ++ tailBytes r.boundary rest) (hv : v ≠ [])
    (spills : Spills) :
    (∃ e, (r.nextPart spills).1 = .error e) ∨
      ∃ next rest', rest = next :: rest' ∧
        ∃ raw r' spills' u', r.nextPart spills = (.ok (some raw), r', spills') ∧
          r'.boundary = r.boundary ∧ r'.started = true ∧ r'.finished = false ∧
          r'.AtLines (lines u') ∧ u' ++ v = partBytes next ++ tailBytes r.boundary rest' := by
  have hne := Boundary.ne_empty_of_isValid hb
  have hstarted := nextPart_of_started hne hs hf spills
  have hfails : ∀ {e : Error}, (r.readPart spills).1 = .error e →
      ∃ e, (r.nextPart spills).1 = .error e := by
    intro e he
    rw [he] at hstarted
    exact ⟨e, congrArg Prod.fst hstarted⟩
  rcases hread : readHeaders r.limits r.input with ⟨_ | headers, left⟩
  · exact .inl (hfails (readPart_of_readHeaders_error (congrArg Prod.fst hread) spills))
  obtain ⟨x, hx, hfit, hblock⟩ := takeBlock_of_cut hpart hat hcut hread
  have hinside : ∀ {t delimiter : Bytes}, t ≠ [] → x ++ t = part.2 ++ emptyLine ++ delimiter →
      delimiter = nextLine r.boundary ∨ delimiter = lastLine r.boundary →
      ∃ e, (r.nextPart spills).1 = .error e := fun ht hcut hdelimiter =>
    hfails (readPart_of_cutContent hat hfit hblock
      (seenDelimiter?_of_cut_content hb hbody hcut ht hdelimiter) spills)
  cases rest with
  | nil =>
      rw [tailBytes, ← List.append_assoc] at hx
      exact .inl (hinside hv hx (.inr rfl))
  | cons next rest =>
      rw [tailBytes, ← List.append_assoc, ← List.append_assoc] at hx
      rcases cut_cases hx with ⟨t, ht, hcut⟩ | ⟨u', rfl, hcut⟩
      · exact .inl (hinside ht hcut (.inl rfl))
      · rw [List.append_assoc, lines_append (getLast?_crlf part.2), lines_nextLine hb] at hblock
        obtain ⟨raw, r', spills', he, -, hbd, -, hs', -, hf', hat'⟩ := nextPart_of_lines hne hs hf hat
          hfit hblock (hbody.quiet hb) (seenDelimiter?_nextLine hb) spills
        have hleft : r'.AtLines (lines u') := hat' rfl
        exact .inr ⟨next, rest, rfl, raw, r', spills', u', he, hbd, hs', by simpa using hf', hleft,
          hcut⟩

end Reader

theorem decodeFrom_error_of_cut {boundary : String}
    (hb : Boundary.isValid boundary.toList = true) :
    ∀ {rest : List (Headers × Bytes)} {part : Headers × Bytes} (done : List RawPart) {r : Reader}
      (spills : Spills) {u v : Bytes},
    r.boundary = boundary → r.started = true → r.finished = false → r.AtLines (lines u) →
    u ++ v = partBytes part ++ tailBytes boundary rest → v ≠ [] →
    (∀ p ∈ part :: rest, (∀ header ∈ p.1.entries, IsOneLine header) ∧ Separate boundary p.2) →
    ∃ e, (decodeFrom done r spills).1 = .error e := by
  intro rest
  induction rest with
  | nil =>
      rintro part done r spills u v rfl hs hf hat hcut hv hparts
      obtain ⟨hpart, hbody⟩ := hparts part List.mem_cons_self
      rcases Reader.nextPart_of_cut hb hs hf hpart hbody hat hcut hv spills with
        ⟨e, he⟩ | ⟨_, _, hrest, -⟩
      · exact ⟨e, decodeFrom_of_error he⟩
      · cases hrest
  | cons next rest ih =>
      rintro part done r spills u v rfl hs hf hat hcut hv hparts
      obtain ⟨hpart, hbody⟩ := hparts part List.mem_cons_self
      rcases Reader.nextPart_of_cut hb hs hf hpart hbody hat hcut hv spills with
        ⟨e, he⟩ | ⟨_, _, hrest, raw, r', spills', u', he, hbd, hs', hf', hat', hcut'⟩
      · exact ⟨e, decodeFrom_of_error he⟩
      · obtain ⟨rfl, rfl⟩ := List.cons.inj hrest
        rw [decodeFrom_of_some he]
        exact ih (raw :: done) spills' hbd hs' hf' hat' hcut' hv fun p hp =>
          hparts p (List.mem_cons_of_mem _ hp)

/-- **A message that is cut off is refused.**  For every boundary that a writer accepts and every
list of at least one part whose headers are without line feeds and whose contents have no line that
begins like a delimiter: writing them succeeds, and from every proper beginning of the bytes,
however it arrives and whatever the limits are, reading the parts fails. -/
theorem decode_error_of_prefix {boundary : String} {w : Writer} {parts : List (Headers × Bytes)}
    (hw : Writer.withBoundary .unlimited boundary = .ok w) (hne : parts ≠ [])
    (hparts : ∀ p ∈ parts,
      (∀ header ∈ p.1.entries, IsOneLine header) ∧ Separate boundary p.2) :
    ∃ w', w.writeMessage parts = (.ok (), w') ∧
      ∀ p, p <+: w'.sink.data → p ≠ w'.sink.data →
        ∀ (limits : Limits) (source : ByteSource) (spills : Spills),
          flatten source.arrivals = p.map .ok →
          ∃ e, (decode boundary limits source spills).1 = .error e := by
  obtain ⟨hb, rfl⟩ := isValid_of_withBoundary hw
  obtain ⟨part, rest, rfl⟩ := List.exists_cons_of_ne_nil hne
  obtain ⟨w', he, hdata⟩ := Writer.writeMessage_eq boundary part rest
  refine ⟨w', he, ?_⟩
  rintro p ⟨v, hcut⟩ hp limits source spills hsource
  have hv : v ≠ [] := by
    rintro rfl
    exact hp (by simpa using hcut)
  rw [hdata, messageBytes] at hcut
  rcases cut_cases hcut with ⟨t, ht, hdelimiter⟩ | ⟨u, rfl, hbehind⟩
  · have hseen := seenDelimiter?_of_cut_delimiter hb hdelimiter ht (.inl rfl)
    have hskip := skipPreamble_of_no_delimiter (lined_lines p) hseen
    rw [flatten_lines, ← hsource, ← ofArrivals_eq_cut] at hskip
    exact ⟨_, decodeFrom_of_error (Reader.nextPart_of_skipPreamble_error
      (r := .ofSource boundary limits source) (Boundary.ne_empty_of_isValid hb) rfl rfl hskip spills)⟩
  · obtain ⟨left, hnext, hat⟩ := Reader.nextPart_of_nextLine limits hb hsource
    rw [decode, Reader.ofSource, decodeFrom_congr (hnext spills)]
    exact decodeFrom_error_of_cut hb [] spills rfl rfl rfl hat hbehind hv hparts

/-- The last byte of the closing delimiter is missing. -/
theorem decode_error_of_prefix_last_dash :
    ∃ w', ({ sink := .unlimited, boundary := "b" } : Writer).writeMessage
        [(⟨[("A", "1"), (" B:", "")]⟩, [45, 45, 10]), (⟨[]⟩, [])] = (.ok (), w') ∧
      ∃ e, (decode "b" .standard (.ofBytes w'.sink.data.dropLast) .empty).1 = .error e := by
  obtain ⟨w', he, herror⟩ := decode_error_of_prefix
    (show Writer.withBoundary .unlimited "b" = .ok _ from rfl)
    (List.cons_ne_nil (⟨[("A", "1"), (" B:", "")]⟩, [45, 45, 10]) [(⟨[]⟩, [])]) (by decide)
  obtain rfl : _ = w' := congrArg Prod.snd he
  exact ⟨_, he, herror _ (List.dropLast_prefix _) (by decide +kernel) .standard _ .empty
    (List.append_nil _)⟩

end Mime.Multipart
