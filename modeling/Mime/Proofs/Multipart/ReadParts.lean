import Mime.Proofs.Multipart.RoundTrip
import Mime.Proofs.Success
import Mime.Proofs.Text.Ascii

/-! # What a reader can have read

Whatever bytes parts are read from, each of them is `Sound` (`sound_of_decode`): the lines of its
headers could be read again, since a header is read from complete lines (`isLegible_of_mem_unfold`),
and no delimiter is seen in its content, since the content is the lines in front of one
(`quiet_of_lines`).  The line feed in front of the delimiter may become a CRLF when the content is
written again, which makes no delimiter of the last line (`seenDelimiter?_crlf`). -/

namespace Mime.Multipart

open Text

/-! ### Headers that are read -/

/-- The text of a complete line has no line feed, even if the bytes are malformed. -/
theorem not_mem_lineText {w : Bytes} (hw : lineFeed ∉ w) : '\n' ∉ lineText (w ++ [lineFeed]) := by
  have hdecode : Utf8.decodeLossy (w ++ [lineFeed]) = Utf8.decodeLossy w ++ ['\n'] := by
    rw [Utf8.decodeLossy_append (by decide)]
    simp [Utf8.decodeLossy, lineFeed]
  rw [lineText, hdecode, dropEndWhile_eq_rdropWhile, List.rdropWhile_concat_pos _ _ _ (by decide)]
  intro hm
  exact hw (Utf8.mem_of_mem_decodeLossy (c := '\n') (by decide) (by decide)
    ((List.rdropWhile_prefix _ _).subset hm))

theorem isLegible_of_headerOfText? {text : List Char} {header : String × String}
    (h : headerOfText? text = some header) (htext : '\n' ∉ text) : IsLegible header := by
  unfold headerOfText? at h
  cases hcut : cutFirst ':' text with
  | none => simp [hcut] at h
  | some cut =>
      obtain ⟨name, value⟩ := cut
      rw [hcut] at h
      dsimp only at h
      split at h
      · cases h
      · rename_i hne
        cases h
        refine ⟨fun he => hne ?_, ?_, fun c hc => ?_, fun c hc => ?_⟩
        · rw [List.isEmpty_iff]
          simpa using congrArg String.toList he
        · rw [trimmed, String.toList_ofList, trim_trim]
        · rw [String.toList_ofList] at hc
          have hname := mem_of_mem_trim hc
          constructor <;> rintro rfl
          · exact not_mem_of_cutFirst hcut hname
          · exact htext ((mem_of_cutFirst hcut).1 hname)
        · rw [String.toList_ofList] at hc
          rintro rfl
          exact htext ((mem_of_cutFirst hcut).2 (mem_of_mem_trim hc))

theorem isLegible_of_mem_addLine {u : Unfolding} {w : Bytes} (hw : lineFeed ∉ w)
    (h : ∀ header ∈ u.all, IsLegible header) :
    ∀ header ∈ (u.addLine (w ++ [lineFeed])).all, IsLegible header := by
  have htext := not_mem_lineText hw
  rw [Unfolding.addLine]
  dsimp only
  split
  · cases hu : u.current with
    | none => simpa [Unfolding.all, hu] using h
    | some current =>
        simp only [Unfolding.all, hu, List.forall_mem_cons] at h
        obtain ⟨hcurrent, hcomplete⟩ := h
        simp only [Unfolding.all, Option.map_some, List.forall_mem_cons]
        refine ⟨⟨hcurrent.name_ne, hcurrent.name_trim, hcurrent.name_chars, ?_⟩, hcomplete⟩
        intro c hc
        simp only [String.toList_append, String.toList_ofList, List.mem_append] at hc
        rcases hc with (hc | hc) | hc
        · exact hcurrent.value_chars c hc
        · rintro rfl
          revert hc
          decide
        · rintro rfl
          exact htext (mem_of_mem_trim hc)
  · cases hheader : headerOfText? (lineText (w ++ [lineFeed])) with
    | none => exact h
    | some header => exact List.forall_mem_cons.mpr ⟨isLegible_of_headerOfText? hheader htext, h⟩

theorem isLegible_of_mem_unfold {block : List Bytes}
    (hblock : ∀ line ∈ block, ∃ w, lineFeed ∉ w ∧ line = w ++ [lineFeed]) :
    ∀ header ∈ (unfold block).entries, IsLegible header := by
  have hfold : ∀ {ls : List Bytes} {u : Unfolding}, (∀ line ∈ ls, line ∈ block) →
      (∀ header ∈ u.all, IsLegible header) →
      ∀ header ∈ (ls.foldl Unfolding.addLine u).all, IsLegible header := by
    intro ls
    induction ls with
    | nil => exact fun _ h => h
    | cons line ls ih =>
        intro u hls h
        obtain ⟨w, hw, rfl⟩ := hblock line (hls _ List.mem_cons_self)
        exact ih (fun l hl => hls l (List.mem_cons_of_mem _ hl)) (isLegible_of_mem_addLine hw h)
  intro header hh
  rw [unfold, List.mem_reverse] at hh
  exact hfold (fun _ hl => hl) (by simp [Unfolding.all]) header hh

theorem isLegible_of_takeBlock {ls block rest : List Bytes} (hls : Lined ls)
    (h : takeBlock ls = (block, some rest)) :
    ∀ header ∈ (unfold block.dropLast).entries, IsLegible header := by
  apply isLegible_of_mem_unfold
  intro line hl
  have hmem := List.dropLast_subset _ hl
  have hterminated := isTerminated_of_takeBlock h line hmem
  have hlined := hls.singleton (append_of_takeBlock h ▸ List.mem_append_left rest hmem)
  cases hlined with
  | last hw =>
      rw [isTerminated_of_not_mem hw] at hterminated
      cases hterminated
  | @cons w _ hw => exact ⟨w, hw, rfl⟩

/-! ### Contents that are read -/

theorem eq_of_append_crlf {w start tail : Bytes} (hcr : carriageReturn ∉ start)
    (hlf : lineFeed ∉ start) (htail : tail = [] ∨ isLineBreak tail = true)
    (h : w ++ [carriageReturn, lineFeed] = start ++ tail) : w = start := by
  rw [List.append_cons] at h
  simp only [isLineBreak, Bool.or_eq_true, beq_iff_eq] at htail
  rcases htail with rfl | rfl | rfl
  · rw [List.append_nil] at h
    exact absurd (h ▸ by simp) hlf
  · rw [List.append_cons start, List.append_left_inj, List.append_left_inj] at h
    exact h
  · rw [List.append_left_inj] at h
    exact absurd (h ▸ by simp) hcr

section content

variable {dashBoundary w : Bytes}

theorem not_mem_append_blanks {b : UInt8} {start blanks : Bytes} (h : b ∉ start)
    (hb : isBlankByte b = false) (hblanks : ∀ c ∈ blanks, isBlankByte c = true) :
    b ∉ start ++ blanks := by
  rw [List.mem_append, not_or]
  refine ⟨h, fun hm => ?_⟩
  rw [hblanks b hm] at hb
  cases hb

theorem not_mem_append_dashes {b : UInt8} {start : Bytes} (h : b ∉ start) (hb : b ≠ dash) :
    b ∉ start ++ [dash, dash] := by
  simp [h, hb]

theorem lineDelimiter?_crlf (hcr : carriageReturn ∉ dashBoundary) (hlf : lineFeed ∉ dashBoundary)
    {d : Delimiter}
    (h : lineDelimiter? dashBoundary (w ++ [carriageReturn, lineFeed]) = some d) :
    lineDelimiter? dashBoundary (w ++ [lineFeed]) = some d := by
  cases d with
  | next =>
      obtain ⟨blanks, tail, hblanks, htail, he⟩ := lineDelimiter?_eq_next_iff.mp h
      rw [← List.append_assoc] at he
      have hw := eq_of_append_crlf (not_mem_append_blanks hcr rfl hblanks)
        (not_mem_append_blanks hlf rfl hblanks) (.inr htail) he
      exact lineDelimiter?_eq_next_iff.mpr ⟨blanks, [lineFeed], hblanks, rfl, by rw [hw]; simp⟩
  | close =>
      obtain ⟨blanks, tail, hblanks, htail, he⟩ := lineDelimiter?_eq_close_iff.mp h
      rw [← List.append_assoc, ← List.append_assoc] at he
      have hw := eq_of_append_crlf
        (not_mem_append_blanks (not_mem_append_dashes hcr (by decide)) rfl hblanks)
        (not_mem_append_blanks (not_mem_append_dashes hlf (by decide)) rfl hblanks) htail he
      exact lineDelimiter?_eq_close_iff.mpr
        ⟨blanks, [lineFeed], hblanks, .inr rfl, by rw [hw]; simp⟩

/-- No delimiter ends with a carriage return. -/
theorem lineDelimiter?_carriageReturn (hcr : carriageReturn ∉ dashBoundary) (hw : lineFeed ∉ w) :
    lineDelimiter? dashBoundary (w ++ [carriageReturn]) = none := by
  have hline : lineFeed ∉ w ++ [carriageReturn] := by
    rw [List.mem_append, not_or]
    exact ⟨hw, by decide⟩
  cases h : lineDelimiter? dashBoundary (w ++ [carriageReturn]) with
  | none => rfl
  | some d =>
    exfalso
    cases d with
    | next =>
        have hterminated := isTerminated_of_next h
        rw [isTerminated_of_not_mem hline] at hterminated
        cases hterminated
    | close =>
        obtain ⟨blanks, tail, hblanks, htail, he⟩ := lineDelimiter?_eq_close_iff.mp h
        rw [← List.append_assoc, ← List.append_assoc] at he
        rcases htail with rfl | htail
        · rw [List.append_nil] at he
          exact not_mem_append_blanks (not_mem_append_dashes hcr (by decide)) rfl hblanks
            (he ▸ by simp)
        · rw [not_isLineBreak_of_not_mem fun hm => hline (he ▸ List.mem_append_right _ hm)] at htail
          cases htail

/-- A line that is no delimiter is none with a CRLF in place of its line feed. -/
theorem seenDelimiter?_crlf (hcr : carriageReturn ∉ dashBoundary) (hlf : lineFeed ∉ dashBoundary)
    (hw : lineFeed ∉ w) (h : seenDelimiter? dashBoundary (w ++ [lineFeed]) = none) :
    seenDelimiter? dashBoundary (w ++ [carriageReturn, lineFeed]) = none := by
  have hline : lineFeed ∉ w ++ [carriageReturn] := by
    rw [List.mem_append, not_or]
    exact ⟨hw, by decide⟩
  unfold seenDelimiter? at h ⊢
  rcases Nat.lt_trichotomy (w ++ [carriageReturn]).length segmentSize with hlt | heq | hgt
  · have hlt' : w.length < segmentSize := by
      rw [List.length_append] at hlt
      omega
    rw [firstSegment_line hw hlt', delimiter?_eq (.inl rfl)] at h
    rw [List.append_cons, firstSegment_line hline hlt, delimiter?_eq (.inl rfl),
      ← List.append_cons]
    exact Option.eq_none_iff_forall_ne_some.mpr fun d hd => by
      rw [lineDelimiter?_crlf hcr hlf hd] at h
      cases h
  · rw [List.append_cons, firstSegment_full hline heq, delimiter?_eq (.inr hline)]
    exact lineDelimiter?_carriageReturn hcr hw
  · have hle : segmentSize ≤ w.length := by
      rw [List.length_append, List.length_singleton] at hgt
      omega
    have hq : lineFeed ∉ w.take segmentSize := fun hm => hw (List.mem_of_mem_take hm)
    rw [← List.take_append_drop segmentSize w, List.append_assoc,
      firstSegment_full hq (List.length_take_of_le hle)] at h ⊢
    exact h

end content

/-- The lines of a content with a line break behind it, as far as the last line is not complete. -/
theorem lines_append_emptyLine {front : List Bytes} {x : Bytes} (hfront : Lined front)
    (hlast : ∀ b ∈ front.flatten.getLast?, b = lineFeed) (hx : lineFeed ∉ x) :
    lines (front.flatten ++ x ++ emptyLine) = front ++ [x ++ [carriageReturn, lineFeed]] := by
  have hline : lineFeed ∉ x ++ [carriageReturn] := by
    rw [List.mem_append, not_or]
    exact ⟨hx, by decide⟩
  have hone := lines_line hline []
  rw [List.append_assoc, lines_append hlast, hfront.lines_flatten]
  simpa [emptyLine] using hone

/-- The content that is read holds no delimiter, also when another line break follows it. -/
theorem quiet_of_lines {boundary : String} (hb : Boundary.isValid boundary.toList = true)
    {content : List Bytes} {line : Bytes} {rest : List Bytes}
    (hls : Lined (content ++ line :: rest))
    (hc : ∀ l ∈ content, seenDelimiter? (dashBoundary boundary) l = none) :
    Quiet boundary (splitBreak content.flatten).1 := by
  obtain ⟨hcr, hlf⟩ := not_mem_dashBoundary hb
  rcases List.eq_nil_or_concat content with rfl | ⟨front, last, rfl⟩
  · exact Separate.quiet hb (by simp [Separate, splitBreak])
  · rw [List.concat_eq_append] at hls hc ⊢
    rw [List.append_assoc, List.singleton_append] at hls
    obtain ⟨w, hw, rfl⟩ := hls.of_append.head_terminated (by simp)
    have hfront : ∀ b ∈ front.flatten.getLast?, b = lineFeed := hls.getLast?_flatten (by simp)
    rw [List.forall_mem_append, List.forall_mem_singleton] at hc
    rw [List.flatten_append, List.flatten_singleton]
    by_cases hend : w.getLast? = some carriageReturn
    · obtain ⟨v, rfl⟩ := List.getLast?_eq_some_iff.mp hend
      have hv : lineFeed ∉ v := fun hm => hw (List.mem_append_left _ hm)
      rw [List.append_assoc v, ← List.append_assoc front.flatten]
      show Quiet boundary (splitBreak (front.flatten ++ v ++ [carriageReturn, lineFeed])).1
      rw [splitBreak_crlf, Quiet, lines_append_emptyLine hls.left hfront hv,
        List.forall_mem_append, List.forall_mem_singleton]
      exact ⟨hc.1, by simpa using hc.2⟩
    · have hnocr : (front.flatten ++ w).getLast? ≠ some carriageReturn := by
        rw [List.getLast?_append]
        cases hl : w.getLast? with
        | some b => simpa [hl] using hend
        | none =>
            intro he
            have := hfront _ he
            revert this
            decide
      rw [← List.append_assoc, splitBreak_lf hnocr, Quiet,
        lines_append_emptyLine hls.left hfront hw, List.forall_mem_append, List.forall_mem_singleton]
      exact ⟨hc.1, seenDelimiter?_crlf hcr hlf hw hc.2⟩

/-! ### Parts that are read -/

/-- A part as it can be read with a boundary: the lines of its headers can be read again, and no
delimiter is seen in its content. -/
structure RawPart.Sound (boundary : String) (p : RawPart) : Prop where
  legible : ∀ header ∈ p.headers.entries, IsLegible header
  content : ∃ bytes, p.body.readAll = .ok bytes ∧ Quiet boundary bytes

namespace Reader

variable {r r' : Reader} {spills spills' : Spills}

/-- A reader in front of a segment: its input begins with lines, up to the end or a failure. -/
def AtSegment (r : Reader) : Prop :=
  ∃ items, r.input = cut [] items

theorem AtSegment.lines (h : r.AtSegment) : ∃ ls tail, Lined ls ∧ Stops tail ∧
    r.input = cut [] (ls.flatten.map .ok ++ tail) := by
  obtain ⟨items, hr⟩ := h
  obtain ⟨bytes, tail, rfl, htail⟩ := exists_stops items
  exact ⟨_, tail, lined_lines bytes, htail, by rw [flatten_lines, hr]⟩

/-- A part that is read is sound, and behind it the reader is in front of a segment, unless it has
seen the closing delimiter. -/
theorem sound_of_readPart {p : RawPart} (hb : Boundary.isValid r.boundary.toList = true)
    (hr : r.AtSegment) (h : r.readPart spills = (.ok p, r', spills')) :
    p.Sound r.boundary ∧ r'.boundary = r.boundary ∧ r'.started = r.started ∧
      (r'.finished = false → r'.AtSegment) := by
  obtain ⟨ls, tail, hls, htail, hinput⟩ := hr.lines
  unfold readPart at h
  rw [hinput] at h
  split at h
  · cases h
  · rename_i headers left hheaders
    obtain ⟨block, rest, hblock, rfl, -, rfl⟩ := takeBlock_of_readHeaders hls htail hheaders
    have hrest : Lined rest := (append_of_takeBlock hblock ▸ hls).of_append
    dsimp only at h
    split at h
    · cases h
    · rename_i d spool left hcontent
      rw [Spool.finish_eq] at h
      cases h
      obtain ⟨content, line, rest', rfl, hc, -, rfl, hleft⟩ := lines_of_readContent htail hrest
        (rfl : (Content.after _ []).atLineStart = true) hcontent
      have hheld : splitHeld content.flatten = splitBreak content.flatten :=
        splitHeld_eq_splitBreak (hrest.getLast?_flatten (List.cons_ne_nil _ _))
      refine ⟨⟨isLegible_of_takeBlock hls hblock, _, Spool.readAll_toSource_keep _ _, ?_⟩, rfl,
        rfl, fun hf => ?_⟩
      · rw [List.nil_append, hheld]
        exact quiet_of_lines hb hrest hc
      · cases d with
        | close => simp at hf
        | next => exact ⟨_, hleft rfl⟩

end Reader

theorem sound_of_decodeFrom {boundary : String} {done raws : List RawPart} {r : Reader}
    {spills spills' : Spills} (hb : Boundary.isValid boundary.toList = true)
    (hbd : r.boundary = boundary) (hs : r.started = true)
    (hr : r.finished = false → r.AtSegment) (hdone : ∀ p ∈ done, p.Sound boundary)
    (h : decodeFrom done r spills = (.ok raws, spills')) : ∀ p ∈ raws, p.Sound boundary := by
  fun_induction decodeFrom done r spills with
  | case1 => cases h
  | case2 done r spills r' spills'' hnext =>
      cases h
      exact fun p hp => hdone p (List.mem_reverse.mp hp)
  | case3 done r spills part r' spills'' hnext ih =>
      subst hbd
      have hne := Boundary.ne_empty_of_isValid hb
      cases hf : r.finished with
      | true =>
          rw [Reader.nextPart_of_finished hne hf] at hnext
          cases hnext
      | false =>
          rw [Reader.nextPart_of_started hne hs hf] at hnext
          have hpart : r.readPart spills = (.ok part, r', spills'') := by
            obtain ⟨hanswer, hrest⟩ := Prod.mk.inj hnext
            obtain ⟨p, hp, hsome⟩ := map_eq_ok_iff.mp hanswer
            cases hsome
            exact Prod.ext hp hrest
          obtain ⟨hsound, hbd, hst, hat⟩ := Reader.sound_of_readPart hb (hr hf) hpart
          exact ih hbd (hst.trans hs) hat (List.forall_mem_cons.mpr ⟨hsound, hdone⟩) h

/-- **Parts that are read are sound.**  However the bytes arrive, and whatever they are. -/
theorem sound_of_decode {boundary : String} {limits : Limits} {source : ByteSource}
    {spills spills' : Spills} {raws : List RawPart}
    (hb : Boundary.isValid boundary.toList = true)
    (h : decode boundary limits source spills = (.ok raws, spills')) :
    ∀ p ∈ raws, p.Sound boundary := by
  have hne := Boundary.ne_empty_of_isValid hb
  have hr : (Reader.ofSource boundary limits source).AtSegment :=
    ⟨_, ofArrivals_eq_cut source.arrivals⟩
  obtain ⟨ls, tail, hls, htail, hinput⟩ := hr.lines
  cases hskip : skipPreamble (dashBoundary boundary) true
      (Reader.ofSource boundary limits source).input with
  | mk answer left =>
    cases answer with
    | error e =>
        have hnext := Reader.nextPart_of_skipPreamble_error
          (r := .ofSource boundary limits source) hne rfl rfl (congrArg Prod.fst hskip) spills
        have herror := congrArg Prod.fst h
        rw [decode, decodeFrom_of_error hnext] at herror
        cases herror
    | ok d =>
        cases d with
        | close =>
            have hnext := Reader.nextPart_of_skipPreamble_close
              (r := .ofSource boundary limits source) hne rfl rfl hskip spills
            rw [decode, decodeFrom_of_none hnext] at h
            cases h
            simp
        | next =>
            have hnext := Reader.nextPart_of_skipPreamble (r := .ofSource boundary limits source)
              hne rfl rfl hskip spills
            rw [decode, decodeFrom_congr hnext] at h
            rw [hinput] at hskip
            obtain ⟨_, _, rest, -, hleft⟩ := lines_of_skipPreamble hls htail hskip
            exact sound_of_decodeFrom hb rfl rfl (fun _ => ⟨_, hleft⟩) (by simp) h

end Mime.Multipart
