import Mime.Proofs.Multipart.LineParser
import Mime.Proofs.Multipart.Message

/-! # What a writer writes, a reader reads

A message that a writer makes of parts that are `Recoverable` is read back part by part, each with
the headers that its lines say and the same content (`reads_of_recoverable`,
`decode_of_recoverable`).  The content is read up to the line break in front of the next delimiter,
which the writer added: whatever line breaks are at the end of the content itself, the last line of
both together is no delimiter if no line of the content begins like one
(`not_prefix_of_mem_lines_crlf`).  So parts with plain headers and such contents are `Writable`, and
they are read back as they were (`reads_of_writeMessage`). -/

namespace Mime.Multipart

/-! ### Contents -/

/-- No line of the content begins like a delimiter. -/
def Separate (boundary : String) (body : Bytes) : Prop :=
  ∀ l ∈ lines body, ¬ dashBoundary boundary <+: l

instance (boundary : String) (body : Bytes) : Decidable (Separate boundary body) :=
  inferInstanceAs (Decidable (∀ _ ∈ _, _))

theorem mem_of_prefix_append {dashed w : Bytes} {y : UInt8} {ys : Bytes}
    (h : dashed <+: w ++ y :: ys) (hw : ¬ dashed <+: w) : y ∈ dashed := by
  rcases List.prefix_or_prefix_of_prefix h (List.prefix_append w (y :: ys)) with hp | ⟨z, rfl⟩
  · exact absurd hp hw
  · rw [List.prefix_append_right_inj] at h
    cases z with
    | nil => exact absurd (by simp) hw
    | cons b z =>
        obtain ⟨t, ht⟩ := h
        rw [List.cons_append, List.cons.injEq] at ht
        simp [ht.1]

/-- The line break behind the content makes no delimiter of its last line. -/
theorem not_prefix_of_mem_lines_crlf {dashed : Bytes} (hcr : carriageReturn ∉ dashed)
    (hne : dashed ≠ []) {body : Bytes} (h : ∀ l ∈ lines body, ¬ dashed <+: l) :
    ∀ l ∈ lines (body ++ emptyLine), ¬ dashed <+: l := by
  have hnil : ¬ dashed <+: [] := fun hp => hne (List.prefix_nil.mp hp)
  induction body using line_induction with
  | nil =>
      intro l hl hp
      have he : lines ([] ++ emptyLine) = [[] ++ [carriageReturn, lineFeed]] := by decide
      rw [he, List.mem_singleton] at hl
      exact hcr (mem_of_prefix_append (hl ▸ hp) hnil)
  | last w hw hwne =>
      intro l hl hp
      have hline : lineFeed ∉ w ++ [carriageReturn] := by
        rw [List.mem_append, not_or]
        exact ⟨hw, by decide⟩
      have he : lines (w ++ emptyLine) = [w ++ [carriageReturn, lineFeed]] := by
        have := lines_line hline []
        simpa [emptyLine] using this
      rw [he, List.mem_singleton] at hl
      have hlast : ¬ dashed <+: w := h w (by simp [lines_of_not_mem hw hwne])
      exact hcr (mem_of_prefix_append (hl ▸ hp) hlast)
  | line w rest hw ih =>
      rw [lines_line hw] at h
      rw [List.append_assoc, List.cons_append, lines_line hw]
      exact List.forall_mem_cons.mpr ⟨h _ List.mem_cons_self,
        ih fun l hl => h l (List.mem_cons_of_mem _ hl)⟩

theorem ne_nil_dashBoundary (boundary : String) : dashBoundary boundary ≠ [] :=
  List.cons_ne_nil _ _

theorem getLast?_crlf (body : Bytes) : ∀ b ∈ (body ++ emptyLine).getLast?, b = lineFeed := by
  rw [emptyLine, List.append_cons, List.getLast?_concat]
  simp

/-! ### Delimiter lines -/

section delimiters

variable {boundary : String}

theorem lines_nextLine (h : Boundary.isValid boundary.toList = true) (rest : Bytes) :
    lines (nextLine boundary ++ rest) = nextLine boundary :: lines rest := by
  have hw : lineFeed ∉ dashBoundary boundary ++ [carriageReturn] := by
    rw [List.mem_append, not_or]
    exact ⟨(not_mem_dashBoundary h).2, by decide⟩
  have := lines_line hw rest
  simpa [nextLine, emptyLine] using this

theorem lineFeed_not_mem_lastLine (h : Boundary.isValid boundary.toList = true) :
    lineFeed ∉ lastLine boundary := by
  rw [lastLine, List.mem_append, not_or]
  exact ⟨(not_mem_dashBoundary h).2, by decide⟩

theorem lines_lastLine (h : Boundary.isValid boundary.toList = true) :
    lines (lastLine boundary) = [lastLine boundary] :=
  lines_of_not_mem (lineFeed_not_mem_lastLine h) (by simp [lastLine])

theorem seenDelimiter?_nextLine (h : Boundary.isValid boundary.toList = true) :
    seenDelimiter? (dashBoundary boundary) (nextLine boundary) = some .next := by
  have hlined := lined_lines (nextLine boundary ++ [])
  rw [lines_nextLine h] at hlined
  have hlen : (nextLine boundary).length ≤ segmentSize := by
    have := length_dashBoundary_le h
    simp only [nextLine, emptyLine, List.length_append, List.length_cons, List.length_nil,
      segmentSize]
    omega
  rw [seenDelimiter?_eq hlined fun _ => hlen, lineDelimiter?_eq_next_iff]
  exact ⟨[], emptyLine, by simp, rfl, rfl⟩

theorem seenDelimiter?_lastLine (h : Boundary.isValid boundary.toList = true) :
    seenDelimiter? (dashBoundary boundary) (lastLine boundary) = some .close := by
  have hlined := lined_lines (lastLine boundary)
  rw [lines_lastLine h] at hlined
  have hlen : (lastLine boundary).length ≤ segmentSize := by
    have := length_dashBoundary_le h
    simp only [lastLine, List.length_append, List.length_cons, List.length_nil, segmentSize]
    omega
  rw [seenDelimiter?_eq hlined fun _ => hlen, lineDelimiter?_eq_close_iff]
  exact ⟨[], [], by simp, .inl rfl, rfl⟩

/-- The lines behind a header block: those of the content and its line break, the delimiter, and
what follows. -/
theorem lines_tailBytes (h : Boundary.isValid boundary.toList = true) (body : Bytes) :
    ∀ parts : List (Headers × Bytes), lines (body ++ tailBytes boundary parts) =
      lines (body ++ emptyLine) ++ match parts with
        | [] => [lastLine boundary]
        | part :: rest =>
          nextLine boundary :: lines (partBytes part ++ tailBytes boundary rest)
  | [] => by
      rw [tailBytes, ← List.append_assoc, lines_append (getLast?_crlf body), lines_lastLine h]
  | part :: rest => by
      rw [tailBytes, ← List.append_assoc, lines_append (getLast?_crlf body), lines_nextLine h]

/-- No line of the content, less the line break that ends it, is taken for a delimiter. -/
def Quiet (boundary : String) (body : Bytes) : Prop :=
  ∀ l ∈ lines (body ++ emptyLine), seenDelimiter? (dashBoundary boundary) l = none

theorem Separate.quiet (hb : Boundary.isValid boundary.toList = true) {body : Bytes}
    (h : Separate boundary body) : Quiet boundary body := fun l hl =>
  seenDelimiter?_eq_none
    (not_prefix_of_mem_lines_crlf (not_mem_dashBoundary hb).1 (ne_nil_dashBoundary boundary) h l hl)

end delimiters

/-! ### Parts that are read back -/

/-- A part whose header lines can be read, whose content no delimiter is seen in, and whose header
block is within the limits. -/
structure Recoverable (boundary : String) (limits : Limits) (part : Headers × Bytes) : Prop where
  legible : ∀ header ∈ part.1.entries, IsLegible header
  quiet : Quiet boundary part.2
  size_le : (Utf8.encode (headerBlock part.1)).length ≤ limits.maxHeaderSize
  count_le : part.1.size ≤ limits.maxHeaders

/-- A part with the headers that its lines say. -/
def recovered (part : Headers × Bytes) : Headers × Bytes :=
  (readBackAll part.1, part.2)


/-- A part that a reader can tell from the delimiters, with a header block within its limits. -/
structure Writable (boundary : String) (limits : Limits) (part : Headers × Bytes) : Prop where
  plain : ∀ header ∈ part.1.entries, IsPlain header
  separate : Separate boundary part.2
  size_le : (Utf8.encode (headerBlock part.1)).length ≤ limits.maxHeaderSize
  count_le : part.1.size ≤ limits.maxHeaders

instance (boundary : String) (limits : Limits) (part : Headers × Bytes) :
    Decidable (Writable boundary limits part) :=
  decidable_of_iff ((∀ header ∈ part.1.entries, IsPlain header) ∧ Separate boundary part.2 ∧
      (Utf8.encode (headerBlock part.1)).length ≤ limits.maxHeaderSize ∧
      part.1.size ≤ limits.maxHeaders)
    ⟨fun ⟨h₁, h₂, h₃, h₄⟩ => ⟨h₁, h₂, h₃, h₄⟩, fun ⟨h₁, h₂, h₃, h₄⟩ => ⟨h₁, h₂, h₃, h₄⟩⟩

theorem Writable.recoverable {boundary : String} {limits : Limits} {part : Headers × Bytes}
    (hb : Boundary.isValid boundary.toList = true) (h : Writable boundary limits part) :
    Recoverable boundary limits part :=
  ⟨fun header hh => (h.plain header hh).legible, h.separate.quiet hb, h.size_le, h.count_le⟩

theorem Writable.recovered_eq {boundary : String} {limits : Limits} {part : Headers × Bytes}
    (h : Writable boundary limits part) : recovered part = part :=
  Prod.ext (readBackAll_eq h.plain) rfl

theorem map_recovered {boundary : String} {limits : Limits} {parts : List (Headers × Bytes)}
    (h : ∀ p ∈ parts, Writable boundary limits p) : parts.map recovered = parts :=
  (List.map_congr_left fun p hp => (h p hp).recovered_eq).trans (List.map_id _)

/-! ### Calls of a reader -/

/-- What the answers to the calls say. -/
def Reader.reads (r : Reader) (states : List Spills) :
    List (Except Error (Option (Headers × Except IoError Bytes))) :=
  (r.answers states).map fun answer => answer.1.map (·.map RawPart.read)

namespace Reader

variable {r : Reader}

theorem reads_of_nextPart {r' : Reader} {spills spills' : Spills} {part : RawPart}
    (h : r.nextPart spills = (.ok (some part), r', spills')) (states : List Spills) :
    r.reads (spills :: states) = .ok (some part.read) :: r'.reads states := by
  rw [reads, answers, h]
  rfl

theorem reads_of_finished (hne : r.boundary.isEmpty = false) (hf : r.finished = true) :
    ∀ states : List Spills, r.reads states = states.map fun _ => .ok none
  | [] => rfl
  | spills :: states => by
      have ih := reads_of_finished hne hf states
      rw [reads] at ih ⊢
      rw [answers, nextPart_of_finished hne hf]
      dsimp only
      rw [List.map_cons, ih]
      rfl

theorem reads_congr {r' : Reader} (h : ∀ spills, r.nextPart spills = r'.nextPart spills) :
    ∀ {states : List Spills}, states ≠ [] → r.reads states = r'.reads states
  | [], hne => absurd rfl hne
  | spills :: states, _ => by rw [reads, reads, answers, answers, h]

theorem readLines_partBytes {part : Headers × Bytes}
    (hlegible : ∀ header ∈ part.1.entries, IsLegible header) :
    readLines (headerLines part.1 ++ [emptyLine]) (lines (part.2 ++ emptyLine)) =
      recovered part := by
  rw [readLines, List.dropLast_concat, unfold_headerLines hlegible, flatten_lines, emptyLine,
    splitBreak_crlf]
  rfl

theorem nextPart_of_partBytes {part : Headers × Bytes} {tail line : Bytes} {rest : List Bytes}
    {d : Delimiter} (hb : Boundary.isValid r.boundary.toList = true) (hs : r.started = true)
    (hf : r.finished = false) (hpart : Recoverable r.boundary r.limits part)
    (hat : r.AtLines (lines (partBytes part ++ tail)))
    (htail : lines (part.2 ++ tail) = lines (part.2 ++ emptyLine) ++ line :: rest)
    (hd : seenDelimiter? (dashBoundary r.boundary) line = some d) (spills : Spills) :
    ∃ raw r' spills', r.nextPart spills = (.ok (some raw), r', spills') ∧
      raw.read = readable (recovered part) ∧ r'.boundary = r.boundary ∧ r'.limits = r.limits ∧
      r'.started = true ∧ r'.finished = (d = .close) ∧ (d = .next → r'.AtLines rest) := by
  have hblock : takeBlock (lines (partBytes part ++ tail)) =
      (headerLines part.1 ++ [emptyLine], some (lines (part.2 ++ tail))) := by
    rw [partBytes, List.append_assoc, encode_headerBlock]
    exact takeBlock_headerLines (fun header hh => (hpart.legible header hh).not_mem)
      (part.2 ++ tail)
  have hfit := admits_headerLines hpart.legible hpart.size_le hpart.count_le
  rw [htail] at hblock
  obtain ⟨raw, r', spills', he, hread, hbd, hlim, hst, -, hfin, hnext⟩ :=
    nextPart_of_lines (Boundary.ne_empty_of_isValid hb) hs hf hat hfit hblock hpart.quiet hd spills
  rw [readLines_partBytes hpart.legible] at hread
  exact ⟨raw, r', spills', he, hread, hbd, hlim, hst, hfin, hnext⟩

/-- The parts of a message are read in order, from any of them on. -/
theorem reads_of_tailBytes {boundary : String} {limits : Limits}
    (hb : Boundary.isValid boundary.toList = true) (more : List Spills) :
    ∀ {rest : List (Headers × Bytes)} {part : Headers × Bytes} {r : Reader} {states : List Spills},
    r.boundary = boundary → r.limits = limits → r.started = true → r.finished = false →
    r.AtLines (lines (partBytes part ++ tailBytes boundary rest)) →
    (∀ p ∈ part :: rest, Recoverable boundary limits p) → states.length = rest.length + 1 →
    r.reads (states ++ more) =
      ((part :: rest).map recovered).map (fun p => .ok (some (readable p))) ++
        more.map fun _ => .ok none
  | [], part, r, [spills], rfl, rfl, hs, hf, hat, hparts, _ => by
      have hne := Boundary.ne_empty_of_isValid hb
      obtain ⟨raw, r', spills', he, hread, hbd, -, -, hfin, -⟩ :=
        nextPart_of_partBytes hb hs hf (hparts part List.mem_cons_self) hat
          (lines_tailBytes hb part.2 []) (seenDelimiter?_lastLine hb) spills
      show r.reads (spills :: more) = _
      rw [reads_of_nextPart he, hread,
        reads_of_finished (r := r') (hbd ▸ hne) (by simpa using hfin)]
      rfl
  | next :: rest, part, r, spills :: states, rfl, rfl, hs, hf, hat, hparts, hlen => by
      obtain ⟨raw, r', spills', he, hread, hbd, hlim, hst, hfin, hat'⟩ :=
        nextPart_of_partBytes hb hs hf (hparts part List.mem_cons_self) hat
          (lines_tailBytes hb part.2 (next :: rest)) (seenDelimiter?_nextLine hb) spills
      rw [List.cons_append, reads_of_nextPart he, hread,
        reads_of_tailBytes hb more hbd hlim hst (by simpa using hfin) (hat' rfl)
          (fun p hp => hparts p (List.mem_cons_of_mem _ hp)) (Nat.succ.inj hlen)]
      rfl

theorem nextPart_of_nextLine {boundary : String} {arrivals : List Arrival} {bytes : Bytes}
    (limits : Limits) (hb : Boundary.isValid boundary.toList = true)
    (harrivals : flatten arrivals = (nextLine boundary ++ bytes).map .ok) :
    ∃ left, (∀ spills, (ofArrivals boundary limits arrivals).nextPart spills =
        { ofArrivals boundary limits arrivals with input := left, started := true }.nextPart
          spills) ∧
      AtLines { ofArrivals boundary limits arrivals with input := left, started := true }
        (lines bytes) := by
  have hlined := lined_lines (nextLine boundary ++ bytes)
  have hflat := flatten_lines (nextLine boundary ++ bytes)
  rw [lines_nextLine hb] at hlined hflat
  obtain ⟨left, hskip, hleft⟩ := skipPreamble_of_lines (show Lined ([] ++ _) from hlined) (by simp)
    (seenDelimiter?_nextLine hb)
  rw [List.nil_append, hflat, ← harrivals, ← ofArrivals_eq_cut] at hskip
  exact ⟨left, nextPart_of_skipPreamble (r := ofArrivals boundary limits arrivals)
    (Boundary.ne_empty_of_isValid hb) rfl rfl hskip, hleft rfl, lined_lines _⟩

theorem reads_of_recoverable {boundary : String} {limits : Limits} {arrivals : List Arrival}
    {parts : List (Headers × Bytes)} (hb : Boundary.isValid boundary.toList = true)
    (hne : parts ≠ []) (harrivals : flatten arrivals = (messageBytes boundary parts).map .ok)
    (hparts : ∀ p ∈ parts, Recoverable boundary limits p) {states : List Spills}
    (hlen : states.length = parts.length) (more : List Spills) :
    (ofArrivals boundary limits arrivals).reads (states ++ more) =
      (parts.map recovered).map (fun p => .ok (some (readable p))) ++
        more.map fun _ => .ok none := by
  cases parts with
  | nil => exact absurd rfl hne
  | cons part rest =>
      obtain ⟨left, hnext, hat⟩ := nextPart_of_nextLine limits hb harrivals
      have hstates : states ++ more ≠ [] := by
        intro h
        rw [(List.append_eq_nil_iff.mp h).1] at hlen
        cases hlen
      rw [reads_congr hnext hstates]
      exact reads_of_tailBytes hb more rfl rfl rfl rfl hat hparts hlen

theorem reads_of_messageBytes {boundary : String} {limits : Limits} {arrivals : List Arrival}
    {parts : List (Headers × Bytes)} (hb : Boundary.isValid boundary.toList = true)
    (hne : parts ≠ []) (harrivals : flatten arrivals = (messageBytes boundary parts).map .ok)
    (hparts : ∀ p ∈ parts, Writable boundary limits p) {states : List Spills}
    (hlen : states.length = parts.length) (more : List Spills) :
    (ofArrivals boundary limits arrivals).reads (states ++ more) =
      parts.map (fun p => .ok (some (readable p))) ++ more.map fun _ => .ok none := by
  rw [reads_of_recoverable hb hne harrivals (fun p hp => (hparts p hp).recoverable hb) hlen,
    map_recovered hparts]

end Reader

theorem decodeFrom_of_tailBytes {boundary : String} {limits : Limits}
    (hb : Boundary.isValid boundary.toList = true) :
    ∀ {rest : List (Headers × Bytes)} {part : Headers × Bytes} (done : List RawPart) {r : Reader}
      (spills : Spills),
    r.boundary = boundary → r.limits = limits → r.started = true → r.finished = false →
    r.AtLines (lines (partBytes part ++ tailBytes boundary rest)) →
    (∀ p ∈ part :: rest, Recoverable boundary limits p) →
    ∃ raws spills', decodeFrom done r spills = (.ok (done.reverse ++ raws), spills') ∧
      raws.map RawPart.read = ((part :: rest).map recovered).map readable
  | [], part, done, r, spills, rfl, rfl, hs, hf, hat, hparts => by
      obtain ⟨raw, r', spills', he, hread, hbd, -, -, hfin, -⟩ :=
        Reader.nextPart_of_partBytes hb hs hf (hparts part List.mem_cons_self) hat
          (lines_tailBytes hb part.2 []) (seenDelimiter?_lastLine hb) spills
      have hlast := Reader.nextPart_of_finished (r := r') (hbd ▸ Boundary.ne_empty_of_isValid hb)
        (by simpa using hfin) spills'
      refine ⟨[raw], spills', ?_, ?_⟩
      · rw [decodeFrom_of_some he, decodeFrom_of_none hlast, List.reverse_cons]
      · rw [List.map_singleton, hread]
        rfl
  | next :: rest, part, done, r, spills, rfl, rfl, hs, hf, hat, hparts => by
      obtain ⟨raw, r', spills', he, hread, hbd, hlim, hst, hfin, hat'⟩ :=
        Reader.nextPart_of_partBytes hb hs hf (hparts part List.mem_cons_self) hat
          (lines_tailBytes hb part.2 (next :: rest)) (seenDelimiter?_nextLine hb) spills
      obtain ⟨raws, spills'', hdecode, hreads⟩ := decodeFrom_of_tailBytes hb (raw :: done) spills'
        hbd hlim hst (by simpa using hfin) (hat' rfl)
        fun p hp => hparts p (List.mem_cons_of_mem _ hp)
      refine ⟨raw :: raws, spills'', ?_, ?_⟩
      · rw [decodeFrom_of_some he, hdecode, List.reverse_cons, List.append_assoc,
          List.singleton_append]
      · rw [List.map_cons, List.map_cons, List.map_cons, hread, hreads]

theorem decode_of_recoverable {boundary : String} {limits : Limits} {source : ByteSource}
    {parts : List (Headers × Bytes)} (hb : Boundary.isValid boundary.toList = true)
    (hne : parts ≠ [])
    (hsource : flatten source.arrivals = (messageBytes boundary parts).map .ok)
    (hparts : ∀ p ∈ parts, Recoverable boundary limits p) (spills : Spills) :
    ∃ raws spills', decode boundary limits source spills = (.ok raws, spills') ∧
      raws.map RawPart.read = (parts.map recovered).map readable := by
  cases parts with
  | nil => exact absurd rfl hne
  | cons part rest =>
      obtain ⟨left, hnext, hat⟩ := Reader.nextPart_of_nextLine limits hb hsource
      rw [decode, Reader.ofSource, decodeFrom_congr (hnext spills)]
      exact decodeFrom_of_tailBytes hb [] spills rfl rfl rfl rfl hat hparts

/-- **A reader reads what a writer wrote.**  For every boundary that a writer accepts, and every
list of parts with plain headers and contents without lines that begin like a delimiter: writing
them succeeds, the Content-Type value gives the boundary back, and a reader of the bytes, however
they arrive, gives the parts in order, with the same headers and contents, and then says that there
are no more. -/
theorem reads_of_writeMessage {boundary sub : String} {w : Writer} {limits : Limits}
    {parts : List (Headers × Bytes)} (hw : Writer.withBoundary .unlimited boundary = .ok w)
    (hsub : Field.isToken sub.toList = true) (hne : parts ≠ [])
    (hparts : ∀ p ∈ parts, Writable boundary limits p) :
    ∃ w', w.writeMessage parts = (.ok (), w') ∧
      ∃ given, Field.lenientBoundary? (w.contentType sub) = some given ∧
        ∀ arrivals, flatten arrivals = w'.sink.data.map .ok →
        ∀ states more : List Spills, states.length = parts.length →
          (Reader.ofArrivals given limits arrivals).reads (states ++ more) =
            parts.map (fun p => .ok (some (readable p))) ++ more.map fun _ => .ok none := by
  obtain ⟨hb, rfl⟩ := isValid_of_withBoundary hw
  obtain ⟨part, rest, rfl⟩ := List.exists_cons_of_ne_nil hne
  obtain ⟨w', he, hdata⟩ := Writer.writeMessage_eq boundary part rest
  refine ⟨w', he, boundary, lenientBoundary?_contentType hb hsub, ?_⟩
  intro arrivals harrivals states more hlen
  rw [hdata] at harrivals
  exact Reader.reads_of_messageBytes hb hne harrivals hparts hlen more

/-- A content that ends with half a line break, and an empty one. -/
theorem reads_of_writeMessage_two_parts :
    ∃ w', ({ sink := .unlimited, boundary := "a b" } : Writer).writeMessage
        [(⟨[("A", "1: 2"), ("B", "")]⟩, [120, 10, 13]), (⟨[]⟩, [])] = (.ok (), w') ∧
      ∃ given, Field.lenientBoundary? (Writer.contentType
          { sink := .unlimited, boundary := "a b" } "mixed") = some given ∧
        ∀ arrivals, flatten arrivals = w'.sink.data.map .ok →
        ∀ states more : List Spills, states.length = 2 →
          (Reader.ofArrivals given .standard arrivals).reads (states ++ more) =
            [.ok (some (⟨[("A", "1: 2"), ("B", "")]⟩, .ok [120, 10, 13])),
              .ok (some (⟨[]⟩, .ok []))] ++ more.map fun _ => .ok none :=
  reads_of_writeMessage (show Writer.withBoundary .unlimited "a b" = .ok _ from rfl)
    (by decide) (by decide) (by decide)

end Mime.Multipart
