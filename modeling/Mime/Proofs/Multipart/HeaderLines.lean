import Mime.Multipart.Writer
import Mime.Proofs.Multipart.Line
import Mime.Proofs.Text.Trim
import Mime.Proofs.Text.Utf8

/-! # Header lines that are read back

A header whose name is a trimmed text without a colon, and that holds no line feed, is `IsLegible`:
it is written as a line that neither ends the block nor continues the line before it, and that says
the name and the trimmed value (`IsLegible.addLine_eq`).  If the value is trimmed, as it is of a
header that `IsPlain`, the line says the header itself.  So the lines of a header block are those of
its headers and the empty line (`takeBlock_headerLines`), and they say the headers in order
(`unfold_headerLines`). -/

namespace Mime.Multipart

open Text

/-! ### One line -/

/-- A header that stands in one line: its name is a trimmed text without a colon, its value is
trimmed, and both are without line breaks. -/
structure IsPlain (header : String × String) : Prop where
  name_ne : header.1 ≠ ""
  name_trim : trimmed header.1 = header.1
  name_chars : ∀ c ∈ header.1.toList, c ≠ ':' ∧ c ≠ '\r' ∧ c ≠ '\n'
  value_trim : trimmed header.2 = header.2
  value_chars : ∀ c ∈ header.2.toList, c ≠ '\r' ∧ c ≠ '\n'

instance (header : String × String) : Decidable (IsPlain header) :=
  have : Decidable (∀ c ∈ header.1.toList, c ≠ ':' ∧ c ≠ '\r' ∧ c ≠ '\n') :=
    List.decidableBAll _ _
  have : Decidable (∀ c ∈ header.2.toList, c ≠ '\r' ∧ c ≠ '\n') := List.decidableBAll _ _
  decidable_of_iff (header.1 ≠ "" ∧ trimmed header.1 = header.1 ∧
      (∀ c ∈ header.1.toList, c ≠ ':' ∧ c ≠ '\r' ∧ c ≠ '\n') ∧ trimmed header.2 = header.2 ∧
      ∀ c ∈ header.2.toList, c ≠ '\r' ∧ c ≠ '\n')
    ⟨fun ⟨h₁, h₂, h₃, h₄, h₅⟩ => ⟨h₁, h₂, h₃, h₄, h₅⟩,
      fun ⟨h₁, h₂, h₃, h₄, h₅⟩ => ⟨h₁, h₂, h₃, h₄, h₅⟩⟩

/-- A header that can be read from its line: its name is a trimmed text without a colon, and neither
its name nor its value has a line feed. -/
structure IsLegible (header : String × String) : Prop where
  name_ne : header.1 ≠ ""
  name_trim : trimmed header.1 = header.1
  name_chars : ∀ c ∈ header.1.toList, c ≠ ':' ∧ c ≠ '\n'
  value_chars : ∀ c ∈ header.2.toList, c ≠ '\n'

/-- A header as its line says it. -/
def readBack (header : String × String) : String × String :=
  (header.1, trimmed header.2)

/-- The text of a header line, without its line break. -/
def headerText (header : String × String) : List Char :=
  header.1.toList ++ ':' :: ' ' :: header.2.toList

variable {header : String × String}

theorem headerLine_eq (header : String × String) :
    headerLine header = headerText header ++ ['\r', '\n'] := by
  simp [headerLine, headerText, lineBreak]

theorem encode_lineBreak : Utf8.encode ['\r', '\n'] = [carriageReturn, lineFeed] := rfl

theorem encode_headerLine (header : String × String) :
    Utf8.encode (headerLine header) =
      Utf8.encode (headerText header) ++ [carriageReturn] ++ [lineFeed] := by
  rw [headerLine_eq, Utf8.encode_append, encode_lineBreak, List.append_assoc]
  rfl

theorem lineFeed_mem_encode_iff {s : List Char} : lineFeed ∈ Utf8.encode s ↔ '\n' ∈ s :=
  Utf8.mem_encode_iff (c := '\n') (by decide)

theorem carriageReturn_mem_encode_iff {s : List Char} : carriageReturn ∈ Utf8.encode s ↔ '\r' ∈ s :=
  Utf8.mem_encode_iff (c := '\r') (by decide)

theorem trim_of_trimmed {s : String} (h : trimmed s = s) : trim s.toList = s.toList := by
  have := congrArg String.toList h
  rwa [trimmed, String.toList_ofList] at this

theorem lineFeed_not_mem_headerText (hname : '\n' ∉ header.1.toList)
    (hvalue : '\n' ∉ header.2.toList) :
    lineFeed ∉ Utf8.encode (headerText header) ++ [carriageReturn] := by
  rw [List.mem_append, lineFeed_mem_encode_iff, headerText, not_or]
  simp only [List.mem_append, List.mem_cons, not_or]
  exact ⟨⟨hname, by decide, by decide, hvalue⟩, by decide⟩

theorem exists_encode_cons {c : Char} (hc : isSpace c = false) (s : List Char) :
    ∃ b bs, Utf8.encode (c :: s) = b :: bs ∧
      ∀ d : Char, d.toNat < 128 → isSpace d = true → b ≠ UInt8.ofNat d.toNat := by
  obtain ⟨b, bs, hb⟩ : ∃ b bs, Utf8.encode [c] = b :: bs := by
    apply List.exists_cons_of_ne_nil
    intro he
    have hnil := congrArg Utf8.decodeLossy he
    rw [Utf8.decodeLossy_encode] at hnil
    simp [Utf8.decodeLossy] at hnil
  refine ⟨b, bs ++ Utf8.encode s, ?_, ?_⟩
  · rw [← List.cons_append, ← hb, ← Utf8.encode_append]
    rfl
  · rintro d hd hs rfl
    have hm : d ∈ [c] := (Utf8.mem_encode_iff hd).mp (by rw [hb]; exact List.mem_cons_self)
    rw [List.mem_singleton.mp hm, hc] at hs
    cases hs

theorem isFolded_encode_cons {c : Char} (hc : isSpace c = false) (s : List Char) :
    isFolded (Utf8.encode (c :: s)) = false := by
  obtain ⟨b, bs, hb, hne⟩ := exists_encode_cons hc s
  rw [hb, isFolded, Bool.or_eq_false_iff]
  exact ⟨beq_false_of_ne (hne ' ' (by decide) (by decide)),
    beq_false_of_ne (hne '\t' (by decide) (by decide))⟩

theorem isEmptyLine_encode {c : Char} {s : List Char} (hm : c ∈ s) (hc : isSpace c = false) :
    isEmptyLine (Utf8.encode s) = false := by
  obtain ⟨front, rest, rfl⟩ := List.mem_iff_append.mp hm
  obtain ⟨b, bs, hb, hne⟩ := exists_encode_cons hc rest
  rw [Utf8.encode_append, hb, isEmptyLine, List.all_eq_false]
  refine ⟨b, by simp, ?_⟩
  rw [isBreakByte, Bool.not_eq_true, Bool.or_eq_false_iff]
  exact ⟨beq_false_of_ne (hne '\r' (by decide) (by decide)),
    beq_false_of_ne (hne '\n' (by decide) (by decide))⟩

theorem isEmptyLine_headerLine (header : String × String) :
    isEmptyLine (Utf8.encode (headerLine header)) = false :=
  isEmptyLine_encode (c := ':') (by simp [headerLine]) (by decide)

/-- The text of a header line is that of the header but for line breaks at the end of the value. -/
theorem lineText_headerLine (header : String × String) :
    lineText (Utf8.encode (headerLine header)) = header.1.toList ++ ':' :: ' ' ::
      dropEndWhile (fun c => c == '\r' || c == '\n') (header.2.toList ++ ['\r', '\n']) := by
  have hline : headerLine header =
      (header.1.toList ++ [':', ' ']) ++ (header.2.toList ++ ['\r', '\n']) := by
    simp [headerLine, lineBreak]
  rw [lineText, Utf8.decodeLossy_encode, hline, dropEndWhile_append_right, List.append_assoc]
  · rfl
  · rw [List.append_cons, List.getLast?_concat]
    simp

theorem IsPlain.legible (h : IsPlain header) : IsLegible header :=
  ⟨h.name_ne, h.name_trim, fun c hc => ⟨(h.name_chars c hc).1, (h.name_chars c hc).2.2⟩,
    fun c hc => (h.value_chars c hc).2⟩

theorem IsPlain.readBack_eq (h : IsPlain header) : readBack header = header :=
  Prod.ext rfl h.value_trim

namespace IsLegible

theorem not_mem (h : IsLegible header) : '\n' ∉ header.1.toList ∧ '\n' ∉ header.2.toList :=
  ⟨fun hm => (h.name_chars _ hm).2 rfl, fun hm => h.value_chars _ hm rfl⟩

theorem isFolded_eq_false (h : IsLegible header) :
    isFolded (Utf8.encode (headerLine header)) = false := by
  obtain ⟨c, rest, hc⟩ : ∃ c rest, header.1.toList = c :: rest :=
    List.exists_cons_of_ne_nil fun he => h.name_ne (String.toList_eq_nil_iff.mp he)
  have hspace : isSpace c = false :=
    (trim_eq_self_iff.mp (trim_of_trimmed h.name_trim)).1 c (by rw [hc]; rfl)
  have hline : headerLine header = c :: (rest ++ ':' :: ' ' :: header.2.toList ++ lineBreak) := by
    simp [headerLine, hc]
  rw [hline]
  exact isFolded_encode_cons hspace _

theorem headerOfText?_lineText (h : IsLegible header) :
    headerOfText? (lineText (Utf8.encode (headerLine header))) = some (readBack header) := by
  have hcolon : ':' ∉ header.1.toList := fun hm => (h.name_chars _ hm).1 rfl
  have hne : header.1.toList.isEmpty = false := by
    rw [List.isEmpty_eq_false_iff]
    exact fun he => h.name_ne (String.toList_eq_nil_iff.mp he)
  have hbreak : ∀ c : Char, (c == '\r' || c == '\n') = true → isSpace c = true := by
    intro c hc
    rw [Bool.or_eq_true, beq_iff_eq, beq_iff_eq] at hc
    rcases hc with rfl | rfl <;> decide
  have hvalue : trim (' ' :: dropEndWhile (fun c => c == '\r' || c == '\n')
      (header.2.toList ++ ['\r', '\n'])) = trim header.2.toList := by
    rw [trim_cons (by decide), trim_dropEndWhile hbreak, trim_append_of_blank]
    intro c hc
    exact hbreak c (by simpa using hc)
  rw [lineText_headerLine, headerOfText?, cutFirst_append hcolon]
  dsimp only
  rw [trim_of_trimmed h.name_trim, hne, hvalue, String.ofList_toList]
  rfl

theorem addLine_eq (h : IsLegible header) (u : Unfolding) :
    u.addLine (Utf8.encode (headerLine header)) =
      { complete := u.all, current := some (readBack header) } := by
  rw [Unfolding.addLine, h.isFolded_eq_false, h.headerOfText?_lineText]
  rfl

end IsLegible

/-! ### Blocks -/

/-- The lines of headers. -/
def headerLines (headers : Headers) : List Bytes :=
  headers.entries.map fun header => Utf8.encode (headerLine header)

/-- The line that ends a block. -/
def emptyLine : Bytes :=
  [carriageReturn, lineFeed]

theorem encode_headerBlock (headers : Headers) :
    Utf8.encode (headerBlock headers) = (headerLines headers ++ [emptyLine]).flatten := by
  rw [headerBlock, Utf8.encode_append, headerLines, List.flatten_append, List.flatten_singleton,
    Utf8.encode, List.flatMap_assoc, List.flatMap_def]
  rfl

theorem takeBlock_emptyLine (rest : Bytes) :
    takeBlock (lines (emptyLine ++ rest)) = ([emptyLine], some (lines rest)) := by
  have h : lines (emptyLine ++ rest) = emptyLine :: lines rest :=
    lines_line (w := [carriageReturn]) (by decide) rest
  rw [h]
  rfl

/-- A block that was written is found again, whatever follows it. -/
theorem takeBlock_headerLines : ∀ {entries : List (String × String)},
    (∀ header ∈ entries, '\n' ∉ header.1.toList ∧ '\n' ∉ header.2.toList) → ∀ rest : Bytes,
    takeBlock (lines ((headerLines ⟨entries⟩ ++ [emptyLine]).flatten ++ rest)) =
      (headerLines ⟨entries⟩ ++ [emptyLine], some (lines rest))
  | [], _, rest => takeBlock_emptyLine rest
  | header :: entries, h, rest => by
      have hh := h header List.mem_cons_self
      have ih := takeBlock_headerLines (fun e he => h e (List.mem_cons_of_mem _ he)) rest
      have hl := lines_line (lineFeed_not_mem_headerText hh.1 hh.2)
        ((headerLines ⟨entries⟩ ++ [emptyLine]).flatten ++ rest)
      have hsplit : (headerLines ⟨header :: entries⟩ ++ [emptyLine]).flatten ++ rest =
          Utf8.encode (headerText header) ++ [carriageReturn] ++
            lineFeed :: ((headerLines ⟨entries⟩ ++ [emptyLine]).flatten ++ rest) := by
        simp [headerLines, encode_headerLine]
      rw [hsplit, hl, ← encode_headerLine, takeBlock, isEmptyLine_headerLine, ih,
        encode_headerLine, isTerminated_append, ← encode_headerLine]
      rfl

theorem foldl_addLine_headerLines : ∀ {entries : List (String × String)},
    (∀ header ∈ entries, IsLegible header) → ∀ u : Unfolding,
    ((headerLines ⟨entries⟩).foldl Unfolding.addLine u).all =
      (entries.map readBack).reverse ++ u.all
  | [], _, u => rfl
  | header :: entries, h, u => by
      have ih := foldl_addLine_headerLines (fun e he => h e (List.mem_cons_of_mem _ he))
        { complete := u.all, current := some (readBack header) }
      show ((headerLines ⟨entries⟩).foldl _ (u.addLine (Utf8.encode (headerLine header)))).all = _
      rw [(h header List.mem_cons_self).addLine_eq, ih]
      simp [Unfolding.all]

/-- Headers as their lines say them. -/
def readBackAll (headers : Headers) : Headers :=
  ⟨headers.entries.map readBack⟩

/-- **The lines of legible headers say these headers**, in order. -/
theorem unfold_headerLines {headers : Headers} (h : ∀ header ∈ headers.entries, IsLegible header) :
    unfold (headerLines headers) = readBackAll headers := by
  rw [unfold, foldl_addLine_headerLines h, readBackAll]
  simp [Unfolding.all]

theorem readBackAll_eq {headers : Headers} (h : ∀ header ∈ headers.entries, IsPlain header) :
    readBackAll headers = headers := by
  have hmap : headers.entries.map readBack = headers.entries :=
    (List.map_congr_left fun header hh => (h header hh).readBack_eq).trans (List.map_id _)
  rw [readBackAll, hmap]

theorem headerCount_headerLines {headers : Headers}
    (h : ∀ header ∈ headers.entries, IsLegible header) :
    headerCount (headerLines headers ++ [emptyLine]) = headers.size := by
  have hp : ∀ line ∈ headerLines headers,
      (isTerminated line && !isEmptyLine line && !isFolded line) = true := by
    intro line hl
    obtain ⟨header, hh, rfl⟩ := List.mem_map.mp hl
    rw [isEmptyLine_headerLine, (h header hh).isFolded_eq_false, encode_headerLine,
      isTerminated_append]
    rfl
  rw [headerCount, List.countP_append, List.countP_eq_length.mpr hp, headerLines, List.length_map,
    Headers.size]
  rfl

theorem admits_headerLines {limits : Limits} {headers : Headers}
    (h : ∀ header ∈ headers.entries, IsLegible header)
    (hsize : (Utf8.encode (headerBlock headers)).length ≤ limits.maxHeaderSize)
    (hcount : headers.size ≤ limits.maxHeaders) :
    limits.Admits (headerLines headers ++ [emptyLine]) :=
  ⟨encode_headerBlock headers ▸ hsize, (headerCount_headerLines h).symm ▸ hcount⟩

end Mime.Multipart
