import Mime.Proofs.Field.Spelling
import Mime.Proofs.Multipart.HeaderLines
import Mime.Proofs.Multipart.LineParser

/-! # Folded headers

The words of a header value may be written with a space between two of them, or with a line break
and spaces or tabs.  A `WrittenHeader` is one way to write a header.  It is the lines that
`foldLines` gives (`WrittenHeader.lines_text`), each of which adds its words to the value
(`foldl_foldLines`).  So a header is read as if it stood in one line, whatever stands in front of it
and behind it (`readHeaders_folded`).  The one exception is a line break directly behind the colon:
it leaves a space in front of the first word (`Gap.lead`). -/

namespace Mime.Multipart

open Text

/-! ### Headers as they may be written -/

/-- A line break. -/
inductive LineEnd where
  | crlf
  | lf
deriving DecidableEq

def LineEnd.text : LineEnd → List Char
  | .crlf => ['\r', '\n']
  | .lf => ['\n']

/-- A text that is not empty and has no white space in it. -/
structure Word where
  text : List Char
  ne_nil : text ≠ []
  no_space : ∀ c ∈ text, isSpace c = false

/-- The name of a header: a trimmed text that is not empty, without colons and line breaks. -/
structure FieldName where
  text : List Char
  ne_nil : text ≠ []
  trim_eq : trim text = text
  chars : ∀ c ∈ text, c ≠ ':' ∧ c ≠ '\r' ∧ c ≠ '\n'

/-- What stands in front of a word: one space, or a line break with spaces or tabs behind it. -/
inductive Gap where
  | space
  | fold (ending : LineEnd) (blanks : Field.Padding) (ne_nil : blanks.text ≠ [])

namespace Gap

def text : Gap → List Char
  | .space => [' ']
  | .fold ending blanks _ => ending.text ++ blanks.text

/-- What is left in front of a word whose gap is directly behind the colon. -/
def lead : Gap → List Char
  | .space => []
  | .fold .. => [' ']

end Gap

/-- The words of a header behind its colon, each with the gap in front of it. -/
structure WrittenHeader where
  name : FieldName
  gap : Gap
  word : Word
  more : List (Gap × Word)
  ending : LineEnd

namespace WrittenHeader

variable (h : WrittenHeader)

/-- The header as it is written, with the line break behind it. -/
def text : List Char :=
  h.name.text ++ ':' :: (h.gap.text ++ h.word.text ++
    h.more.flatMap (fun p => p.1.text ++ p.2.text) ++ h.ending.text)

/-- The words with single spaces between them. -/
def joined : List Char :=
  [' '].intercalate (h.word.text :: h.more.map fun p => p.2.text)

/-- The header as it is read. -/
def entry : String × String :=
  (String.ofList h.name.text, String.ofList (h.gap.lead ++ h.joined))

/-- The header in one line. -/
def oneLine : WrittenHeader :=
  { h with gap := .space, more := h.more.map fun p => (.space, p.2) }

end WrittenHeader

/-- Words behind each other, with a space in front of each. -/
def spaced (more : List (Gap × Word)) : List Char :=
  more.flatMap fun p => ' ' :: p.2.text

theorem spaced_cons (p : Gap × Word) (more : List (Gap × Word)) :
    spaced (p :: more) = ' ' :: (p.2.text ++ spaced more) := rfl

theorem intercalate_eq (word : List Char) (more : List (Gap × Word)) :
    [' '].intercalate (word :: more.map fun p => p.2.text) = word ++ spaced more := by
  induction more generalizing word with
  | nil => simp [spaced]
  | cons p more ih =>
      rw [List.map_cons, List.intercalate_cons_cons, ih, spaced_cons]
      simp

namespace Word

variable (w : Word)

theorem trim_eq : trim w.text = w.text := by
  apply trim_eq_self
  · intro c hc
    exact w.no_space c (List.mem_of_head? hc)
  · intro c hc
    exact w.no_space c (List.mem_of_getLast? hc)

theorem lineFeed_not_mem : '\n' ∉ w.text := by
  intro hm
  have hspace := w.no_space _ hm
  revert hspace
  decide

theorem trim_append_eq {said : List Char} (hne : said ≠ []) (hsaid : trim said = said) :
    trim (said ++ ' ' :: w.text) = said ++ ' ' :: w.text := by
  apply trim_append hne hsaid
  intro c hc
  rw [List.getLast?_cons_of_ne_nil w.ne_nil] at hc
  exact w.no_space c (List.mem_of_getLast? hc)

end Word

theorem LineEnd.isSpace (e : LineEnd) : ∀ c ∈ e.text, Text.isSpace c = true := by
  have hcr : Text.isSpace '\r' = true := by decide
  have hlf : Text.isSpace '\n' = true := by decide
  cases e <;> simp [text, hcr, hlf]

/-! ### The lines of a header -/

/-- A complete line of a header block: its only line feed ends it, and it does not end the block. -/
structure IsFieldLine (line : Bytes) : Prop where
  whole : ∃ w, lineFeed ∉ w ∧ line = w ++ [lineFeed]
  nonempty : isEmptyLine line = false

/-- A complete line that ends a header block. -/
structure IsLastLine (line : Bytes) : Prop where
  whole : ∃ w, lineFeed ∉ w ∧ line = w ++ [lineFeed]
  empty : isEmptyLine line = true

/-- The lines that words make up behind the text of the line at hand. -/
def foldLines (ending : LineEnd) (line : List Char) : List (Gap × Word) → List (List Char)
  | [] => [line ++ ending.text]
  | (.space, w) :: more => foldLines ending (line ++ ' ' :: w.text) more
  | (.fold e blanks _, w) :: more => (line ++ e.text) :: foldLines ending (blanks.text ++ w.text) more

variable {ending : LineEnd} {line : List Char} {more : List (Gap × Word)}

theorem flatten_foldLines : (foldLines ending line more).flatten =
    line ++ more.flatMap (fun p => p.1.text ++ p.2.text) ++ ending.text := by
  induction more generalizing line with
  | nil => simp [foldLines]
  | cons p more ih =>
      obtain ⟨gap, w⟩ := p
      cases gap with
      | space =>
          rw [foldLines, ih]
          simp [Gap.text]
      | fold e blanks hne =>
          rw [foldLines, List.flatten_cons, ih]
          simp [Gap.text]

theorem exists_mem_foldLines (ending : LineEnd) (line : List Char) (more : List (Gap × Word)) :
    ∃ rest, line ++ rest ∈ foldLines ending line more := by
  induction more generalizing line with
  | nil => exact ⟨ending.text, List.mem_singleton.mpr rfl⟩
  | cons p more ih =>
      obtain ⟨gap, w⟩ := p
      cases gap with
      | space =>
          obtain ⟨rest, hmem⟩ := ih (line ++ ' ' :: w.text)
          rw [List.append_assoc] at hmem
          exact ⟨_, hmem⟩
      | fold e blanks hne => exact ⟨e.text, List.mem_cons_self⟩

theorem isFieldLine_encode (hlf : '\n' ∉ line) (hc : ∃ c ∈ line, isSpace c = false) :
    IsFieldLine (Utf8.encode (line ++ ending.text)) := by
  obtain ⟨c, hmem, hspace⟩ := hc
  have hline : lineFeed ∉ Utf8.encode line := mt lineFeed_mem_encode_iff.mp hlf
  have hnonempty := isEmptyLine_encode (List.mem_append_left ending.text hmem) hspace
  cases ending with
  | lf => exact ⟨⟨Utf8.encode line, hline, by rw [Utf8.encode_append]; rfl⟩, hnonempty⟩
  | crlf =>
      refine ⟨⟨Utf8.encode line ++ [carriageReturn], ?_, ?_⟩, hnonempty⟩
      · rw [List.mem_append, not_or]
        exact ⟨hline, by decide⟩
      · rw [Utf8.encode_append, List.append_assoc]
        rfl

theorem isFieldLine_of_mem_foldLines (hlf : '\n' ∉ line) (hc : ∃ c ∈ line, isSpace c = false) :
    ∀ l ∈ foldLines ending line more, IsFieldLine (Utf8.encode l) := by
  induction more generalizing line with
  | nil =>
      intro l hl
      rw [List.mem_singleton.mp hl]
      exact isFieldLine_encode hlf hc
  | cons p more ih =>
      obtain ⟨gap, w⟩ := p
      have hw := w.lineFeed_not_mem
      cases gap with
      | space =>
          apply ih
          · simp [hlf, hw]
          · obtain ⟨c, hmem, hspace⟩ := hc
            exact ⟨c, List.mem_append_left _ hmem, hspace⟩
      | fold e blanks hne =>
          rw [foldLines, List.forall_mem_cons]
          refine ⟨isFieldLine_encode hlf hc, ih ?_ ?_⟩
          · have hblanks : '\n' ∉ blanks.text := fun hm => by simpa using blanks.blank _ hm
            rw [List.mem_append, not_or]
            exact ⟨hblanks, hw⟩
          · obtain ⟨c, hmem⟩ := List.exists_mem_of_ne_nil _ w.ne_nil
            exact ⟨c, List.mem_append_right _ hmem, w.no_space c hmem⟩

namespace WrittenHeader

variable (h : WrittenHeader)

theorem joined_eq : h.joined = h.word.text ++ spaced h.more :=
  intercalate_eq h.word.text h.more

theorem isFieldLine_of_mem :
    ∀ l ∈ foldLines h.ending (h.name.text ++ [':']) ((h.gap, h.word) :: h.more),
      IsFieldLine (Utf8.encode l) := by
  apply isFieldLine_of_mem_foldLines
  · have hname : '\n' ∉ h.name.text := fun hm => (h.name.chars _ hm).2.2 rfl
    simp [hname]
  · exact ⟨':', by simp, by decide⟩

/-- The lines of a header: its name and colon begin the first one. -/
theorem lines_text : lines (Utf8.encode h.text) =
    (foldLines h.ending (h.name.text ++ [':']) ((h.gap, h.word) :: h.more)).map Utf8.encode := by
  have hlined := Lined.of_forall
    (List.forall_mem_map.mpr fun l hl => (h.isFieldLine_of_mem l hl).whole)
  have hflatten : ((foldLines h.ending (h.name.text ++ [':'])
      ((h.gap, h.word) :: h.more)).map Utf8.encode).flatten = Utf8.encode h.text := by
    rw [← Utf8.encode_flatten, flatten_foldLines, text]
    simp
  rw [← hflatten, hlined.lines_flatten]

end WrittenHeader

/-! ### What the lines of a header say -/

theorem lineText_encode (s : List Char) :
    lineText (Utf8.encode s) = dropEndWhile (fun c => c == '\r' || c == '\n') s := by
  rw [lineText, Utf8.decodeLossy_encode]

theorem trim_dropEndWhile_break (s : List Char) :
    trim (dropEndWhile (fun c => c == '\r' || c == '\n') s) = trim s := by
  apply trim_dropEndWhile
  intro c hc
  rw [Bool.or_eq_true, beq_iff_eq, beq_iff_eq] at hc
  rcases hc with rfl | rfl <;> decide

/-- A line that starts so leaves a header with this name, to whose value it adds the trim of what
stands behind the start. -/
def Opens (u : Unfolding) (start : List Char) (complete : List (String × String))
    (name before : String) : Prop :=
  ∀ (said : List Char) (e : LineEnd), u.addLine (Utf8.encode (start ++ said ++ e.text)) =
    { complete, current := some (name, before ++ String.ofList (trim said)) }

theorem opens_name (n : FieldName) (u : Unfolding) :
    Opens u (n.text ++ [':']) u.all (String.ofList n.text) "" := by
  intro said e
  obtain ⟨c, rest, hc⟩ := List.exists_cons_of_ne_nil n.ne_nil
  have hspace : isSpace c = false := (trim_eq_self_iff.mp n.trim_eq).1 c (by rw [hc]; rfl)
  have hcolon : ':' ∉ n.text := fun hm => (n.chars _ hm).1 rfl
  have hfolded : isFolded (Utf8.encode (n.text ++ [':'] ++ said ++ e.text)) = false := by
    rw [hc]
    exact isFolded_encode_cons hspace _
  have htext : lineText (Utf8.encode (n.text ++ [':'] ++ said ++ e.text)) =
      n.text ++ ':' :: dropEndWhile (fun c => c == '\r' || c == '\n') (said ++ e.text) := by
    rw [lineText_encode, List.append_assoc (n.text ++ [':']), dropEndWhile_append_right,
      List.append_assoc]
    · rfl
    · simp
  have hvalue : headerOfText? (lineText (Utf8.encode (n.text ++ [':'] ++ said ++ e.text))) =
      some (String.ofList n.text, String.ofList (trim said)) := by
    rw [htext, headerOfText?, cutFirst_append hcolon]
    dsimp only
    rw [n.trim_eq, List.isEmpty_eq_false_iff.mpr n.ne_nil, trim_dropEndWhile_break,
      trim_append_of_blank e.isSpace]
    rfl
  rw [Unfolding.addLine, hfolded, hvalue, String.empty_append]
  rfl

theorem opens_blanks (complete : List (String × String)) (name value : String)
    (blanks : Field.Padding) (hne : blanks.text ≠ []) :
    Opens { complete, current := some (name, value) } blanks.text complete name (value ++ " ") := by
  intro said e
  have hfolded : isFolded (Utf8.encode (blanks.text ++ said ++ e.text)) = true := by
    obtain ⟨c, rest, hc⟩ := List.exists_cons_of_ne_nil hne
    rcases blanks.blank c (by simp [hc]) with rfl | rfl <;> (rw [hc]; rfl)
  rw [Unfolding.addLine, hfolded, lineText_encode]
  dsimp only
  rw [trim_dropEndWhile_break, trim_append_of_blank e.isSpace, trim_of_blank_append blanks.isSpace]
  rfl

theorem Opens.space {u : Unfolding} {start : List Char} {complete : List (String × String)}
    {name before : String} (h : Opens u start complete name before) :
    Opens u (start ++ [' ']) complete name before := by
  intro said e
  have hline := h (' ' :: said) e
  rw [trim_cons (by decide)] at hline
  rw [List.append_assoc start, List.singleton_append]
  exact hline

/-- The words behind the line at hand are added to the value, each behind a space. -/
theorem foldl_foldLines (ending : LineEnd) (more : List (Gap × Word)) {u : Unfolding}
    {start said : List Char} {complete : List (String × String)} {name before : String}
    (h : Opens u start complete name before) (hne : said ≠ []) (hsaid : trim said = said) :
    ((foldLines ending (start ++ said) more).map Utf8.encode).foldl Unfolding.addLine u =
      { complete, current := some (name, before ++ String.ofList (said ++ spaced more)) } := by
  induction more generalizing u start said before with
  | nil =>
      have hline := h said ending
      rw [hsaid] at hline
      rw [spaced, List.flatMap_nil, List.append_nil]
      exact hline
  | cons p more ih =>
      obtain ⟨gap, w⟩ := p
      cases gap with
      | space =>
          have hword := ih h (by simp) (w.trim_append_eq hne hsaid)
          rw [foldLines, spaced_cons, List.append_assoc start, hword, List.append_assoc said]
          rfl
      | fold e blanks hblanks =>
          have hline := h said e
          rw [hsaid] at hline
          have hrest := ih (opens_blanks complete name (before ++ String.ofList said) blanks hblanks)
            w.ne_nil w.trim_eq
          have hvalue : before ++ String.ofList said ++ " " ++ String.ofList (w.text ++ spaced more)
              = before ++ String.ofList (said ++ spaced ((Gap.fold e blanks hblanks, w) :: more)) := by
            rw [spaced_cons, ← String.toList_inj]
            simp
          rw [foldLines, List.map_cons, List.foldl_cons, hline, hrest, hvalue]

/-- **The lines of a header say its entry**, and end the header in front of it. -/
theorem WrittenHeader.foldl_lines (h : WrittenHeader) (u : Unfolding) :
    (lines (Utf8.encode h.text)).foldl Unfolding.addLine u =
      { complete := u.all, current := some h.entry } := by
  have hopens := opens_name h.name u
  rw [h.lines_text, entry, h.joined_eq]
  cases hgap : h.gap with
  | space =>
      have hwords := foldl_foldLines h.ending h.more hopens.space h.word.ne_nil h.word.trim_eq
      rw [foldLines, List.append_cons _ ' ', hwords, String.empty_append]
      rfl
  | fold e blanks hne =>
      have hline := hopens [] e
      rw [List.append_nil, trim_nil] at hline
      have hwords := foldl_foldLines h.ending h.more
        (opens_blanks u.all (String.ofList h.name.text) "" blanks hne) h.word.ne_nil h.word.trim_eq
      have hvalue : "" ++ " " ++ String.ofList (h.word.text ++ spaced h.more) =
          String.ofList (Gap.lead (.fold e blanks hne) ++ (h.word.text ++ spaced h.more)) := by
        rw [Gap.lead, ← String.toList_inj]
        simp
      rw [hvalue] at hwords
      rw [foldLines, List.map_cons, List.foldl_cons, hline]
      exact hwords

/-! ### Lines in front of a header and behind it -/

/-- What was read with other headers in front of it. -/
def Unfolding.behind (u : Unfolding) (front : List (String × String)) : Unfolding :=
  { u with complete := u.complete ++ front }

theorem Unfolding.all_behind (u : Unfolding) (front : List (String × String)) :
    (u.behind front).all = u.all ++ front := by
  cases hu : u.current <;> simp [all, behind, hu]

theorem Unfolding.addLine_behind (u : Unfolding) (front : List (String × String)) (line : Bytes) :
    (u.behind front).addLine line = (u.addLine line).behind front := by
  rw [addLine, addLine]
  dsimp only
  split
  · rfl
  · rw [all_behind]
    rfl

/-- Lines that do not continue the one in front of them say what they say alone. -/
theorem all_foldl_addLine {ls : List Bytes} (u : Unfolding)
    (hfirst : ∀ line ∈ ls.head?, isFolded line = false) :
    (ls.foldl Unfolding.addLine u).all = (ls.foldl Unfolding.addLine {}).all ++ u.all := by
  cases ls with
  | nil => rfl
  | cons line ls =>
      have hline : u.addLine line = (Unfolding.addLine {} line).behind u.all := by
        rw [Unfolding.addLine, Unfolding.addLine, hfirst line rfl]
        rfl
      have hrest : ls.foldl Unfolding.addLine ((Unfolding.addLine {} line).behind u.all) =
          (ls.foldl Unfolding.addLine (Unfolding.addLine {} line)).behind u.all :=
        List.foldl_hom (fun v => Unfolding.behind v u.all)
          fun v l => Unfolding.addLine_behind v u.all l
      rw [List.foldl_cons, List.foldl_cons, hline, hrest, Unfolding.all_behind]

/-- A header in a block says its entry, between those of the lines in front of it and behind it. -/
theorem WrittenHeader.unfold_lines (h : WrittenHeader) (before : List Bytes) {after : List Bytes}
    (hfirst : ∀ line ∈ after.head?, isFolded line = false) :
    unfold (before ++ lines (Utf8.encode h.text) ++ after) =
      ⟨(unfold before).entries ++ h.entry :: (unfold after).entries⟩ := by
  rw [unfold, List.foldl_append, List.foldl_append, h.foldl_lines, all_foldl_addLine _ hfirst]
  simp [unfold, Unfolding.all]

theorem takeBlock_fieldLines {last : Bytes} (hlast : IsLastLine last) (rest : List Bytes) :
    ∀ {ls : List Bytes}, (∀ line ∈ ls, IsFieldLine line) →
      takeBlock (ls ++ last :: rest) = (ls ++ [last], some rest)
  | [], _ => by
      obtain ⟨w, hw, rfl⟩ := hlast.whole
      rw [List.nil_append, takeBlock, isTerminated_append, hlast.empty]
      rfl
  | line :: ls, h => by
      rw [List.forall_mem_cons] at h
      obtain ⟨w, hw, rfl⟩ := h.1.whole
      rw [List.cons_append, takeBlock, isTerminated_append, h.1.nonempty,
        takeBlock_fieldLines hlast rest h.2]
      rfl

variable {limits : Limits}

theorem readHeaders_fieldLines {ls : List Bytes} {last : Bytes}
    (h : ∀ line ∈ ls, IsFieldLine line) (hlast : IsLastLine last)
    (hfit : limits.Admits (ls ++ [last])) (rest : List (Except IoError UInt8)) :
    readHeaders limits (cut [] ((ls ++ [last]).flatten.map .ok ++ rest)) =
      (.ok (unfold ls), cut [] rest) := by
  have hlined : Lined (ls ++ [last]) := by
    apply Lined.of_forall
    rw [List.forall_mem_append, List.forall_mem_singleton]
    exact ⟨fun line hl => (h line hl).whole, hlast.whole⟩
  have hread := readHeaders_of_admits rest hlined hfit (takeBlock_fieldLines hlast [] h)
  rwa [List.dropLast_concat] at hread

/-! ### A header in one line -/

theorem length_foldLines_space (ending : LineEnd) (line : List Char) (more : List (Gap × Word)) :
    (foldLines ending line (more.map fun p => (.space, p.2))).length = 1 := by
  induction more generalizing line with
  | nil => rfl
  | cons p more ih => exact ih _

theorem length_encode_gap (g : Gap) : 1 ≤ (Utf8.encode g.text).length := by
  apply List.length_pos_of_ne_nil
  cases g with
  | space => decide
  | fold e blanks hne => cases e <;> simp [Gap.text, LineEnd.text, String.utf8EncodeChar]

/-- Single spaces are the shortest gaps. -/
theorem length_encode_spaced_le (more : List (Gap × Word)) : (Utf8.encode (spaced more)).length ≤
    (Utf8.encode (more.flatMap fun p => p.1.text ++ p.2.text)).length := by
  induction more with
  | nil => exact Nat.le_refl 0
  | cons p more ih =>
      have hgap := length_encode_gap p.1
      have hspace : (String.utf8EncodeChar ' ').length = 1 := by decide
      rw [spaced_cons, List.flatMap_cons]
      simp only [Utf8.encode_cons, Utf8.encode_append, List.length_append, hspace]
      omega

namespace WrittenHeader

variable (h : WrittenHeader)

theorem spaced_space (more : List (Gap × Word)) :
    spaced (more.map fun p => (.space, p.2)) = spaced more := by
  rw [spaced, List.flatMap_map, spaced]

theorem text_oneLine :
    h.oneLine.text = h.name.text ++ ':' :: ' ' :: (h.joined ++ h.ending.text) := by
  have hmore : (h.more.map fun p => (Gap.space, p.2)).flatMap (fun p => p.1.text ++ p.2.text) =
      spaced h.more := by
    rw [List.flatMap_map]
    rfl
  rw [text, oneLine, joined_eq]
  dsimp only
  rw [hmore]
  simp [Gap.text]

theorem entry_oneLine :
    h.oneLine.entry = (String.ofList h.name.text, String.ofList h.joined) := by
  rw [entry, h.oneLine.joined_eq, h.joined_eq, oneLine]
  dsimp only
  rw [spaced_space]
  rfl

theorem length_oneLine_le : (Utf8.encode h.oneLine.text).length ≤ (Utf8.encode h.text).length := by
  have hgap := length_encode_gap h.gap
  have hmore := length_encode_spaced_le h.more
  have hspace : (String.utf8EncodeChar ' ').length = 1 := by decide
  rw [h.text_oneLine, h.joined_eq, text]
  simp only [Utf8.encode_cons, Utf8.encode_append, List.length_append, hspace]
  omega

theorem isFieldLine_of_mem_lines : ∀ line ∈ lines (Utf8.encode h.text), IsFieldLine line := by
  rw [h.lines_text, List.forall_mem_map]
  exact h.isFieldLine_of_mem

theorem one_le_headerCount : 1 ≤ headerCount (lines (Utf8.encode h.text)) := by
  obtain ⟨rest, hmem⟩ :=
    exists_mem_foldLines h.ending (h.name.text ++ [':']) ((h.gap, h.word) :: h.more)
  have hline : Utf8.encode (h.name.text ++ [':'] ++ rest) ∈ lines (Utf8.encode h.text) := by
    rw [h.lines_text]
    exact List.mem_map_of_mem hmem
  obtain ⟨c, name, hc⟩ := List.exists_cons_of_ne_nil h.name.ne_nil
  have hspace : isSpace c = false := (trim_eq_self_iff.mp h.name.trim_eq).1 c (by rw [hc]; rfl)
  have hfolded : isFolded (Utf8.encode (h.name.text ++ [':'] ++ rest)) = false := by
    rw [hc]
    exact isFolded_encode_cons hspace _
  have hfield := h.isFieldLine_of_mem_lines _ hline
  obtain ⟨w, hw, he⟩ := hfield.whole
  have hterminated : isTerminated (Utf8.encode (h.name.text ++ [':'] ++ rest)) = true := by
    rw [he, isTerminated_append]
  apply List.countP_pos_iff.mpr
  refine ⟨_, hline, ?_⟩
  rw [hterminated, hfield.nonempty, hfolded]
  rfl

theorem headerCount_oneLine_le : headerCount (lines (Utf8.encode h.oneLine.text)) ≤ 1 := by
  have hlength : (lines (Utf8.encode h.oneLine.text)).length = 1 := by
    rw [lines_text, List.length_map]
    exact length_foldLines_space h.ending _ ((h.gap, h.word) :: h.more)
  rw [headerCount, ← hlength]
  exact List.countP_le_length

theorem admits_oneLine {limits : Limits} {before after : List Bytes}
    (hfit : limits.Admits (before ++ lines (Utf8.encode h.text) ++ after)) :
    limits.Admits (before ++ lines (Utf8.encode h.oneLine.text) ++ after) := by
  obtain ⟨hsize, hcount⟩ := hfit
  have hlength := h.length_oneLine_le
  have hfolded := h.one_le_headerCount
  have hone := h.headerCount_oneLine_le
  simp only [Limits.Admits, headerCount, List.countP_append, List.flatten_append,
    List.length_append, flatten_lines] at *
  constructor <;> omega

end WrittenHeader

theorem Reader.readPart_congr {r : Reader} {input input' : Incoming}
    (h : readHeaders r.limits input = readHeaders r.limits input') (spills : Spills) :
    { r with input }.readPart spills = { r with input := input' }.readPart spills := by
  unfold readPart
  dsimp only
  rw [h]

/-- **Folding is transparent behind the first word.**  However the words of a header are spread over
lines, and whatever complete lines stand around it, the headers that are read are those of its words
with single spaces between them, except that a line break directly behind the colon leaves a space
in front of the value.  Without such a line break the whole part is that of the header in one
line. -/
theorem readHeaders_folded (h : WrittenHeader) {limits : Limits} {before after : List Bytes}
    {last : Bytes} (hbefore : ∀ line ∈ before, IsFieldLine line)
    (hafter : ∀ line ∈ after, IsFieldLine line)
    (hfirst : ∀ line ∈ after.head?, isFolded line = false) (hlast : IsLastLine last)
    (hfit : limits.Admits (before ++ lines (Utf8.encode h.text) ++ (after ++ [last])))
    (rest : List (Except IoError UInt8)) :
    let input (text : List Char) : Incoming :=
      cut [] ((before.flatten ++ Utf8.encode text ++ after.flatten ++ last).map .ok ++ rest)
    let oneLine := h.name.text ++ ':' :: ' ' :: (h.joined ++ h.ending.text)
    let headers (value : List Char) : Headers := ⟨(unfold before).entries ++
      (String.ofList h.name.text, String.ofList value) :: (unfold after).entries⟩
    readHeaders limits (input h.text) = (.ok (headers (h.gap.lead ++ h.joined)), cut [] rest) ∧
      readHeaders limits (input oneLine) = (.ok (headers h.joined), cut [] rest) ∧
      (h.gap = .space → ∀ (r : Reader) (spills : Spills), r.limits = limits →
        { r with input := input h.text }.readPart spills =
          { r with input := input oneLine }.readPart spills) := by
  intro input oneLine headers
  have read : ∀ g : WrittenHeader,
      limits.Admits (before ++ lines (Utf8.encode g.text) ++ (after ++ [last])) →
      readHeaders limits (input g.text) =
        (.ok ⟨(unfold before).entries ++ g.entry :: (unfold after).entries⟩, cut [] rest) := by
    intro g hg
    have hfield : ∀ line ∈ before ++ lines (Utf8.encode g.text) ++ after, IsFieldLine line := by
      rw [List.forall_mem_append, List.forall_mem_append]
      exact ⟨⟨hbefore, g.isFieldLine_of_mem_lines⟩, hafter⟩
    rw [← List.append_assoc] at hg
    have hread := readHeaders_fieldLines hfield hlast hg rest
    rw [g.unfold_lines before hfirst] at hread
    rw [← hread]
    simp [input]
  have hfolded : readHeaders limits (input h.text) =
      (.ok (headers (h.gap.lead ++ h.joined)), cut [] rest) := read h hfit
  have hone : readHeaders limits (input oneLine) = (.ok (headers h.joined), cut [] rest) := by
    have hread := read h.oneLine (h.admits_oneLine hfit)
    rwa [h.text_oneLine, h.entry_oneLine] at hread
  refine ⟨hfolded, hone, ?_⟩
  rintro hgap r spills rfl
  apply Reader.readPart_congr
  rw [hfolded, hone, hgap]
  rfl

/-- Four words in three lines, between two other headers of which the second is folded too. -/
theorem readHeaders_folded_four_words :
    let text := "A: 1\r\nTo: a:\n\t \tb é\r\n\t \td\nno header\n at all\nB: 2\n\r\n"
    readHeaders { maxHeaderSize := 52, maxHeaders := 4 }
        (cut [] ((Utf8.ofString text).map .ok ++ [.ok 118])) =
      (.ok ⟨[("A", "1"), ("To", "a: b é d"), ("B", "2")]⟩, cut [] [.ok 118]) := by
  intro text
  let tabs : Field.Padding := { text := ['\t', ' ', '\t'] }
  let h : WrittenHeader :=
    { name := ⟨['T', 'o'], by simp, by decide, by simp⟩
      gap := .space
      word := ⟨['a', ':'], by simp, by simp [isSpace]⟩
      more := [(.fold .lf tabs (by simp [tabs]), ⟨['b'], by simp, by simp [isSpace]⟩),
        (.space, ⟨['é'], by simp, by simp [isSpace]⟩),
        (.fold .crlf tabs (by simp [tabs]), ⟨['d'], by simp, by simp [isSpace]⟩)]
      ending := .lf }
  let before := [Utf8.ofString "A: 1\r\n"]
  let after := [Utf8.ofString "no header\n", Utf8.ofString " at all\n", Utf8.ofString "B: 2\n"]
  let limits : Limits := { maxHeaderSize := 52, maxHeaders := 4 }
  have htext : Utf8.ofString text =
      before.flatten ++ Utf8.encode h.text ++ after.flatten ++ emptyLine := by
    decide +kernel
  have hfit : limits.Admits (before ++ lines (Utf8.encode h.text) ++ (after ++ [emptyLine])) := by
    decide +kernel
  have hbefore : ∀ line ∈ before, IsFieldLine line := by
    rw [List.forall_mem_singleton]
    exact ⟨⟨Utf8.ofString "A: 1\r", by decide, rfl⟩, by decide⟩
  have hafter : ∀ line ∈ after, IsFieldLine line := by
    simp only [after, List.forall_mem_cons]
    exact ⟨⟨⟨Utf8.ofString "no header", by decide, rfl⟩, by decide⟩,
      ⟨⟨Utf8.ofString " at all", by decide, rfl⟩, by decide⟩,
      ⟨⟨Utf8.ofString "B: 2", by decide, rfl⟩, by decide⟩, by simp⟩
  have hlast : IsLastLine emptyLine := ⟨⟨[carriageReturn], by decide, rfl⟩, rfl⟩
  have hread := readHeaders_folded h hbefore hafter (by decide) hlast hfit [.ok 118]
  rw [htext]
  refine hread.1.trans ?_
  congr 2
  decide +kernel

/-- The headers of the parts of a message, where all are read. -/
def headersOfParts (boundary message : String) : Option (List Headers) :=
  (decode boundary .standard (.ofBytes (Utf8.ofString message)) .empty).1.toOption.map
    (·.map RawPart.headers)

/-- **A line break directly behind the colon is not transparent**: it leaves a space in front of the
word, which is not there if the header stands in one line. -/
theorem not_transparent_behind_colon :
    headersOfParts "b" "--b\r\nX:\r\n w\r\n\r\nv\r\n--b--" = some [⟨[("X", " w")]⟩] ∧
      headersOfParts "b" "--b\r\nX: w\r\n\r\nv\r\n--b--" = some [⟨[("X", "w")]⟩] := by
  decide +kernel

end Mime.Multipart
