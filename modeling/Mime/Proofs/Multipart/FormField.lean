import Mime.Proofs.Disposition
import Mime.Proofs.Multipart.RoundTrip

/-! # Form fields

A field that is written alone is read as one part with one header, and its value is the content,
whatever else the name holds besides line feeds (`reads_of_writeField`).  The name stands between
quotes in that header, as it is.  So the header says the name, and nothing else, if there is neither
a quote nor a backslash in it (`fieldReadsBack`): semicolons, equals signs, spaces and carriage
returns add no parameter.  A name with quotes around it already gets no further ones, and is read
without them (`not_fieldReadsBack_of_quotes`). -/

namespace Mime.Multipart

open Mime.Field Text

/-! ### The header of a field -/

theorem length_encode_encloseInQuotes_le (s : List Char) :
    (Utf8.encode (encloseInQuotes s)).length ≤ (Utf8.encode s).length + 2 := by
  have hquote : (Utf8.encode ['"']).length = 1 := by decide
  simp only [encloseInQuotes, Utf8.encode_append, List.length_append]
  split <;> split <;> simp only [hquote, Utf8.encode_nil, List.length_nil] <;> omega

/-- The headers of a form field. -/
def fieldHeaders (name : String) : Headers :=
  Headers.empty.append Headers.contentDisposition (Disposition.formField name).format

variable {name : String}

theorem toList_format_formField (hne : name ≠ "") :
    (Disposition.formField name).format.toList =
      "form-data; name=".toList ++ encloseInQuotes name.toList := by
  have hname : name.isEmpty = false := by simpa using hne
  have hquoted : Disposition.formatQuoted "name" (some name) =
      [';', ' '] ++ "name".toList ++ '=' :: encloseInQuotes name.toList := by
    rw [Disposition.formatQuoted, hname, if_neg (by simp)]
  have htype : ("form-data" : String).isEmpty = false := by decide
  rw [Disposition.format, Disposition.formField, htype, if_neg (by simp), String.toList_ofList,
    hquoted]
  simp [Disposition.formatQuoted, Parameters.format, Parameters.empty]

theorem trimmed_format_formField (hne : name ≠ "") :
    trimmed (Disposition.formField name).format = (Disposition.formField name).format := by
  have hstart : trim "form-data; name=".toList = "form-data; name=".toList := by decide
  have hend : ∀ c ∈ (encloseInQuotes name.toList).getLast?, isSpace c = false := by
    rw [getLast?_encloseInQuotes]
    simp only [Option.mem_def, Option.some.injEq, forall_eq']
    decide
  rw [trimmed, toList_format_formField hne, trim_append (by decide) hstart hend,
    ← toList_format_formField hne, String.ofList_toList]

theorem isLegible_fieldHeaders (hne : name ≠ "") (hname : '\n' ∉ name.toList) :
    ∀ header ∈ (fieldHeaders name).entries, IsLegible header := by
  intro header hh
  rw [show header = (Headers.contentDisposition, (Disposition.formField name).format) from
    List.mem_singleton.mp hh]
  have hplain : IsPlain (Headers.contentDisposition, "") := by decide
  refine ⟨hplain.name_ne, hplain.name_trim, hplain.legible.name_chars, fun c hc => ?_⟩
  rw [toList_format_formField hne, List.mem_append] at hc
  rcases hc with hc | hc
  · rintro rfl
    revert hc
    decide
  · rcases mem_encloseInQuotes hc with hc | rfl
    · exact fun he => hname (he ▸ hc)
    · decide

theorem readBackAll_fieldHeaders (hne : name ≠ "") :
    readBackAll (fieldHeaders name) = fieldHeaders name := by
  rw [fieldHeaders, readBackAll, Headers.append, Headers.empty, List.nil_append, List.map_singleton,
    readBack, trimmed_format_formField hne]

theorem length_fieldHeaders_le (hne : name ≠ "") :
    (Utf8.encode (headerBlock (fieldHeaders name))).length ≤ (Utf8.ofString name).length + 43 := by
  have hblock : headerBlock (fieldHeaders name) =
      "Content-Disposition: form-data; name=".toList ++ encloseInQuotes name.toList ++
        "\r\n\r\n".toList := by
    rw [fieldHeaders, headerBlock, Headers.append, Headers.empty, List.nil_append,
      List.flatMap_singleton, headerLine, toList_format_formField hne]
    simp [Headers.contentDisposition, lineBreak]
  have hstart : (Utf8.encode "Content-Disposition: form-data; name=".toList).length = 37 := by
    decide
  have hend : (Utf8.encode "\r\n\r\n".toList).length = 4 := by decide
  have hquoted := length_encode_encloseInQuotes_le name.toList
  rw [hblock, Utf8.encode_append, Utf8.encode_append, List.length_append, List.length_append, hstart,
    hend, Utf8.ofString]
  omega

/-! ### Fields that are read back -/

/-- A field in one line, written alone, is one part with one header and the value as its content. -/
theorem reads_of_writeField {boundary value : String} {w : Writer}
    (hw : Writer.withBoundary .unlimited boundary = .ok w) (hne : name ≠ "")
    (hname : '\n' ∉ name.toList)
    (hsize : (Utf8.ofString name).length + 43 ≤ Limits.standard.maxHeaderSize)
    (hvalue : Separate boundary (Utf8.ofString value)) :
    ∃ w₁ w₂, w.writeField name value = (.ok (), w₁) ∧ w₁.close = (.ok (), w₂) ∧
      ∀ arrivals, flatten arrivals = w₂.sink.data.map .ok → ∀ (spills : Spills) more,
        (Reader.ofArrivals boundary .standard arrivals).reads (spills :: more) =
          .ok (some (readable (fieldHeaders name, Utf8.ofString value))) ::
            more.map fun _ => .ok none := by
  obtain ⟨hb, rfl⟩ := isValid_of_withBoundary hw
  obtain ⟨w₁, hfield, hlimit, hboundary, hparts, hdata⟩ := Writer.writePart_eq
    (w := { sink := .unlimited, boundary }) rfl (fieldHeaders name, Utf8.ofString value)
  obtain ⟨w₂, hclose, hdata'⟩ := Writer.close_eq hlimit hparts
  refine ⟨w₁, w₂, hfield, hclose, ?_⟩
  intro arrivals harrivals spills more
  have hbytes : w₂.sink.data =
      messageBytes boundary [(fieldHeaders name, Utf8.ofString value)] := by
    rw [hdata', hdata, hboundary, messageBytes, tailBytes]
    simp
  rw [hbytes] at harrivals
  have hpart : ∀ p ∈ [(fieldHeaders name, Utf8.ofString value)],
      Recoverable boundary .standard p := by
    intro p hp
    rw [List.mem_singleton.mp hp]
    exact ⟨isLegible_fieldHeaders hne hname, hvalue.quiet hb,
      Nat.le_trans (length_fieldHeaders_le hne) hsize, show 1 ≤ 10000 by decide⟩
  have hreads := Reader.reads_of_recoverable hb (List.cons_ne_nil _ _) harrivals hpart
    (show [spills].length = 1 from rfl) more
  rw [List.map_singleton, recovered, readBackAll_fieldHeaders hne] at hreads
  exact hreads

/-- Written alone, the field is one part with one header, which says that it is the field of this
name and says nothing else, and its content is the value. -/
def FieldReadsBack (w : Writer) (boundary name value : String) : Prop :=
  ∃ w₁ w₂, w.writeField name value = (.ok (), w₁) ∧ w₁.close = (.ok (), w₂) ∧
    ∃ text, Disposition.parse text = .ok (.formField name) ∧
      ∀ arrivals, flatten arrivals = w₂.sink.data.map .ok → ∀ (spills : Spills) more,
        (Reader.ofArrivals boundary .standard arrivals).reads (spills :: more) =
          .ok (some (⟨[(Headers.contentDisposition, text)]⟩, .ok (Utf8.ofString value))) ::
            more.map fun _ => .ok none

theorem regular_formField (hname : Disposition.IsUnescaped name) :
    (Disposition.formField name).Regular :=
  Disposition.regular_of_isToken (show isToken "form-data".toList = true by decide)
    (show lower "form-data" = "form-data" by decide)
    (by simpa [Disposition.formField] using hname) (by simp [Disposition.formField])
    (by simp [Disposition.formField, Parameters.names, Parameters.empty]) List.nodup_nil

/-- **A form field adds no structure.**  For every boundary that a writer accepts, every name
without quotes, backslashes and line feeds that fits into a header block, and every value of which
no line begins like a delimiter: the field is written, and it is read back as one part with one
header, which says the name and nothing else. -/
theorem fieldReadsBack {boundary value : String} {w : Writer}
    (hw : Writer.withBoundary .unlimited boundary = .ok w) (hne : name ≠ "")
    (hname : ∀ c ∈ name.toList, c ≠ '"' ∧ c ≠ '\\' ∧ c ≠ '\n')
    (hsize : (Utf8.ofString name).length + 43 ≤ Limits.standard.maxHeaderSize)
    (hvalue : Separate boundary (Utf8.ofString value)) :
    FieldReadsBack w boundary name value := by
  have hbare : Disposition.IsUnescaped name :=
    ⟨hne, fun c hc => ⟨(hname c hc).1, (hname c hc).2.1⟩⟩
  obtain ⟨w₁, w₂, hfield, hclose, hreads⟩ := reads_of_writeField hw hne
    (fun hm => (hname _ hm).2.2 rfl) hsize hvalue
  exact ⟨w₁, w₂, hfield, hclose, _, Disposition.parse_format (regular_formField hbare), hreads⟩

/-- A name that looks like parameters and breaks the line with a carriage return. -/
theorem fieldReadsBack_parameters :
    FieldReadsBack { sink := .unlimited, boundary := "b" } "b" "a; filename=x\rB: 1" "--a\r\n" :=
  fieldReadsBack rfl (by decide) (by simp) (by decide) (by decide)

/-- Quotes around a name are taken for those of the header. -/
theorem not_fieldReadsBack_of_quotes :
    ∃ w, Writer.withBoundary .unlimited "b" = .ok w ∧ "\"a\"" ≠ "" ∧
      Separate "b" (Utf8.ofString "v") ∧ ¬ FieldReadsBack w "b" "\"a\"" "v" := by
  refine ⟨_, rfl, by decide, by decide, ?_⟩
  rintro ⟨w₁, w₂, hfield, hclose, text, hparse, hreads⟩
  obtain ⟨w₁', w₂', hfield', hclose', hreads'⟩ := reads_of_writeField
    (show Writer.withBoundary .unlimited "b" = .ok _ from rfl) (show "\"a\"" ≠ "" by decide)
    (by decide) (by decide) (show Separate "b" (Utf8.ofString "v") by decide)
  cases hfield.symm.trans hfield'
  cases hclose.symm.trans hclose'
  have harrivals : flatten [.ok w₂.sink.data] = w₂.sink.data.map .ok := List.append_nil _
  have hboth := (hreads _ harrivals .empty []).symm.trans (hreads' _ harrivals .empty [])
  have htext : text = (Disposition.formField "\"a\"").format := by
    simpa [readable, fieldHeaders, Headers.append, Headers.empty] using hboth
  have hformat : (Disposition.formField "\"a\"").format = (Disposition.formField "a").format := by
    decide
  rw [htext, hformat, Disposition.parse_format (regular_formField ⟨by decide, by simp⟩)] at hparse
  have hname : Disposition.formField "a" ≠ Disposition.formField "\"a\"" := by decide
  exact hname (Except.ok.inj hparse)

end Mime.Multipart
