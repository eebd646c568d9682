import Mime.Entity.Encode
import Mime.Entity.Parts
import Mime.Proofs.Boundary
import Mime.Proofs.Disposition
import Mime.Proofs.Headers
import Mime.Proofs.MediaType
import Mime.Proofs.Multipart.HeaderLines

/-! # The header lines of a part

A head that is `Rereadable` is written as header lines that can be read
(`isLegible_of_mem_partHeaders`), and these lines say the head again (`ofHeaders_readBackAll`): the
same media type, disposition and content id, and the declared length that its other header lines
give.  The lines of a head that is `WireSafe` are plain (`isPlain_of_mem_partHeaders`), so that they
are read as they are written (`ofHeaders_partHeaders`), and a boundary that is added to the media
type keeps it so (`WireSafe.withBoundary`). -/

namespace Mime

open Text Mime.Field Multipart

/-! ### Headers that were read back -/

namespace Headers

theorem get?_readBackAll (h : Headers) (name : String) :
    (readBackAll h).get? name = (h.get? name).map trimmed := by
  obtain ⟨entries⟩ := h
  induction entries with
  | nil => rfl
  | cons e l ih =>
      have hcons : readBackAll ⟨e :: l⟩ = ⟨readBack e :: (readBackAll ⟨l⟩).entries⟩ := rfl
      rw [hcons, get?_cons, get?_cons, ih]
      show (if sameName e.1 name then _ else _) = _
      split <;> rfl

theorem declaredLength_congr {h h' : Headers} {n : Option Nat}
    (hget : h'.get? contentLength = (h.get? contentLength).map trimmed)
    (hn : h.declaredLength = .ok n) : h'.declaredLength = .ok n := by
  unfold declaredLength at hn ⊢
  rw [hget]
  cases hl : h.get? contentLength with
  | none =>
      rw [hl] at hn
      exact hn
  | some text =>
      rw [hl] at hn
      rw [Option.map_some]
      dsimp only at hn ⊢
      rw [trimmed, String.toList_ofList, trim_trim]
      cases hp : parseLength (trim text.toList) with
      | ok k =>
          rw [hp] at hn
          exact hn
      | error reason =>
          rw [hp] at hn
          cases hn

theorem isField_eq_false_of_contentLength {name : String}
    (h : sameName name contentLength = true) : isField name = false := by
  have hother : ∀ {field : String}, sameName field contentLength = false →
      sameName field name = false := by
    intro field hfield
    rw [sameName_congr h]
    exact hfield
  have h1 : sameName contentType name = false := hother (by decide)
  have h2 : sameName contentDisposition name = false := hother (by decide)
  have h3 : sameName contentId name = false := hother (by decide)
  simp [isField, h1, h2, h3]

theorem sameName_of_isField_eq_false {name : String} (h : isField name = false) :
    sameName name contentType = false ∧ sameName name contentDisposition = false ∧
      sameName name contentId = false := by
  simpa [isField, sameName_comm] using h

end Headers

namespace Head

/-- A content id that is written between angle brackets in one line and read back. -/
structure IsBareId (id : String) : Prop where
  ne : id ≠ ""
  head : id.toList.head? ≠ some '<'
  last : id.toList.getLast? ≠ some '>'
  chars : ∀ c ∈ id.toList, c ≠ '\r' ∧ c ≠ '\n'

/-- A header line besides those of the fields; a declared length is a number that fits in 64
bits. -/
structure IsOther (line : String × String) : Prop where
  plain : IsPlain line
  other : Headers.isField line.1 = false
  length : sameName line.1 Headers.contentLength = true → ∃ n, parseLength line.2.toList = .ok n

/-- A head that can be written as header lines and read back. -/
structure WireSafe (h : Head) : Prop where
  mediaType : h.mediaType.RoundTrips
  values : ∀ e ∈ h.mediaType.parameters.entries, ∀ c ∈ e.2.toList, c ≠ '\r' ∧ c ≠ '\n'
  disposition : ∀ d ∈ h.disposition, d.WireSafe
  contentId : ∀ id ∈ h.contentId, IsBareId id
  headers : ∀ line ∈ h.headers.entries, IsOther line

/-- A content id that is read back from between angle brackets. -/
structure IsStripped (id : String) : Prop where
  ne : id ≠ ""
  head : id.toList.head? ≠ some '<'
  last : id.toList.getLast? ≠ some '>'

/-- A head whose header lines can be read again, and say its fields again. -/
structure Rereadable (h : Head) : Prop where
  mediaType : h.mediaType.RoundTrips
  values : ∀ e ∈ h.mediaType.parameters.entries, '\n' ∉ e.2.toList
  disposition : ∀ d ∈ h.disposition, d.Rereadable
  contentId : ∀ id ∈ h.contentId, IsStripped id ∧ '\n' ∉ id.toList
  headers : ∀ line ∈ h.headers.entries, Headers.isField line.1 = false → IsLegible line
  length : ∃ n, h.headers.declaredLength = .ok n

variable {h : Head}

/-! ### The lines of the fields -/

theorem stripAngles_of_isStripped {id : String} (hid : IsStripped id) :
    stripAngles id.toList = id.toList := by
  have hstart : id.toList.dropWhile (· == '<') = id.toList := by
    cases hl : id.toList with
    | nil => rfl
    | cons c s =>
        have hc : c ≠ '<' := fun he => hid.head (by rw [hl, he]; rfl)
        rw [List.dropWhile_cons, if_neg (by simpa using hc)]
  have hend := dropEndWhile_append (x := id.toList) (y := []) (p := (· == '>')) (by simp) (by
    intro c hc
    have hne : c ≠ '>' := fun he => hid.last (he ▸ hc)
    simpa using hne)
  rw [List.append_nil] at hend
  rw [stripAngles, hstart, hend]

theorem isStripped_stripAngles {s : List Char} (hne : stripAngles s ≠ []) :
    IsStripped (String.ofList (stripAngles s)) := by
  refine ⟨fun he => hne ?_, ?_, ?_⟩
  · simpa using congrArg String.toList he
  · rw [String.toList_ofList]
    intro hc
    have := head?_dropWhile _ (head?_of_head?_dropEndWhile hc)
    revert this
    decide
  · rw [String.toList_ofList]
    intro hc
    have := getLast?_dropEndWhile _ hc
    revert this
    decide

theorem mem_of_mem_stripAngles {c : Char} {s : List Char} (h : c ∈ stripAngles s) : c ∈ s :=
  (List.dropWhile_suffix _).subset (mem_of_mem_dropEndWhile h)

/-- A content id with angle brackets around it. -/
def bracketed (id : String) : String :=
  "<" ++ id ++ ">"

theorem toList_bracketed (id : String) : (bracketed id).toList = '<' :: id.toList ++ ['>'] := by
  simp [bracketed]

theorem trim_bracketed (id : String) : trim (bracketed id).toList = (bracketed id).toList := by
  rw [toList_bracketed]
  refine trim_eq_self ?_ ?_
  · rw [List.cons_append, List.head?_cons]
    simp only [Option.mem_def, Option.some.injEq, forall_eq']
    decide
  · rw [List.getLast?_concat]
    simp only [Option.mem_def, Option.some.injEq, forall_eq']
    decide

theorem stripAngles_bracketed {id : String} (hid : IsStripped id) :
    stripAngles (bracketed id).toList = id.toList := by
  have hstart : (bracketed id).toList.dropWhile (· == '<') = id.toList ++ ['>'] := by
    rw [toList_bracketed]
    cases hl : id.toList with
    | nil => exact absurd (String.toList_eq_nil_iff.mp hl) hid.ne
    | cons c s =>
        have hc : c ≠ '<' := fun he => hid.head (by rw [hl, he]; rfl)
        simp [hc]
  have hend := dropEndWhile_append (x := id.toList) (y := ['>']) (p := (· == '>')) (by simp) (by
    intro c hc
    have hne : c ≠ '>' := fun he => hid.last (he ▸ hc)
    simpa using hne)
  rw [stripAngles, hstart, hend]

theorem bracketed_eq {id : String} (hid : IsStripped id) :
    "<" ++ String.ofList (stripAngles id.toList) ++ ">" = bracketed id := by
  rw [stripAngles_of_isStripped hid, String.ofList_toList, bracketed]

theorem bracketed_ne_empty (id : String) : bracketed id ≠ "" := by
  intro he
  have hl := toList_bracketed id
  rw [he] at hl
  cases hl

theorem filter_line {name : String} {value : Option String} (hne : ∀ v ∈ value, v ≠ "") :
    [(name, value.getD "")].filter (fun line => !line.2.isEmpty) =
      (value.map fun v => (name, v)).toList := by
  cases value with
  | none => rfl
  | some v => simp [hne v rfl]

/-- With a type of its own, a disposition is written as it is in a form, too. -/
theorem map_disposition_eq (hread : h.Rereadable) (inForm : Bool) :
    (h.disposition.map fun d =>
      if d.type.isEmpty && (inForm || h.mediaType.is MediaType.formData) then
        { d with type := "form-data" }.format
      else d.format) = h.disposition.map Disposition.format := by
  apply Option.map_congr
  intro d hd
  have htype : d.type.isEmpty = false := by simpa using (hread.disposition d hd).type_ne
  rw [htype]
  rfl

theorem map_contentId_eq (hread : h.Rereadable) :
    (h.contentId.map fun id =>
      if id.isEmpty then "" else "<" ++ String.ofList (stripAngles id.toList) ++ ">") =
        h.contentId.map bracketed := by
  apply Option.map_congr
  intro id hid
  have hstripped := (hread.contentId id hid).1
  have hne : id.isEmpty = false := by simpa using hstripped.ne
  rw [hne, if_neg (by simp), bracketed_eq hstripped]

theorem fieldLines_eq (hread : h.Rereadable) (inForm : Bool) :
    h.fieldLines inForm =
      (h.disposition.map fun d => (Headers.contentDisposition, d.format)).toList ++
        (Headers.contentType, h.mediaType.format) ::
          (h.contentId.map fun id => (Headers.contentId, bracketed id)).toList := by
  have hd : ∀ v ∈ h.disposition.map Disposition.format, v ≠ "" := by
    intro v hv
    obtain ⟨d, hd, rfl⟩ := Option.map_eq_some_iff.mp hv
    exact (hread.disposition d hd).format_ne_empty
  have hm : ∀ v ∈ some h.mediaType.format, v ≠ "" := by
    intro v hv
    rw [← Option.mem_some_iff.mp hv]
    exact MediaType.format_ne_empty hread.mediaType.wellFormed
  have hid : ∀ v ∈ h.contentId.map bracketed, v ≠ "" := by
    intro v hv
    obtain ⟨id, -, rfl⟩ := Option.map_eq_some_iff.mp hv
    exact bracketed_ne_empty id
  have hlines : ∀ a b c : String × String, [a, b, c] = [a] ++ ([b] ++ [c]) := fun _ _ _ => rfl
  rw [fieldLines, map_disposition_eq hread, map_contentId_eq hread, hlines, List.filter_append,
    List.filter_append, filter_line hd, filter_line hid,
    show h.mediaType.format = (some h.mediaType.format).getD "" from rfl, filter_line hm,
    Option.map_map, Option.map_map]
  rfl

/-- The header lines that are not those of the fields. -/
def otherLines (h : Head) : List (String × String) :=
  h.headers.entries.filter fun line => !Headers.isField line.1

theorem partHeaders_eq (h : Head) (inForm : Bool) :
    h.partHeaders inForm = ⟨h.fieldLines inForm ++ h.otherLines⟩ := rfl

theorem isField_of_mem_otherLines : ∀ line ∈ h.otherLines, Headers.isField line.1 = false := by
  intro line hl
  simpa using (List.mem_filter.mp hl).2

theorem isField_of_mem_fieldLines (h : Head) (inForm : Bool) :
    ∀ line ∈ h.fieldLines inForm, Headers.isField line.1 = true := by
  intro line hl
  have hnames : ∀ name ∈ [Headers.contentDisposition, Headers.contentType, Headers.contentId],
      Headers.isField name = true := by decide
  refine hnames line.1 ?_
  have hmem := List.mem_map_of_mem (f := Prod.fst) (List.mem_filter.mp hl).1
  exact hmem

/-! ### Header lines that can be read -/

theorem isLegible_of_name {name value : String} (hname : IsPlain (name, ""))
    (hchars : '\n' ∉ value.toList) : IsLegible (name, value) :=
  ⟨hname.name_ne, hname.name_trim, hname.legible.name_chars, fun _ hc he => hchars (he ▸ hc)⟩

theorem isLegible_of_mem_partHeaders (hread : h.Rereadable) (inForm : Bool) :
    ∀ line ∈ (h.partHeaders inForm).entries, IsLegible line := by
  intro line hl
  rw [partHeaders_eq, fieldLines_eq hread, List.append_assoc] at hl
  simp only [List.mem_append, List.mem_cons, Option.mem_toList,
    Option.map_eq_some_iff] at hl
  rcases hl with ⟨d, hd, rfl⟩ | (rfl | ⟨id, hid, rfl⟩) | hl
  · exact isLegible_of_name (by decide) (hread.disposition d hd).not_mem_format
  · exact isLegible_of_name (by decide)
      (MediaType.not_mem_format hread.mediaType.wellFormed hread.values)
  · apply isLegible_of_name (by decide)
    rw [toList_bracketed]
    simpa using (hread.contentId id hid).2
  · exact hread.headers line (List.mem_filter.mp hl).1 (isField_of_mem_otherLines line hl)

/-! ### Reading the header lines -/

/-- The length that the header lines declare, if they declare one. -/
def declared (h : Head) : Option Nat :=
  match h.headers.declaredLength with
  | .ok n => n
  | .error _ => none

/-- The head that is read of a part: its headers are all its header lines, and the declared length
is theirs. -/
def asRead (h : Head) (inForm : Bool) : Head :=
  { h with contentLength := h.declared, headers := h.partHeaders inForm }

/-- What is read of a part is written with the same header lines as the part. -/
theorem partHeaders_asRead (h : Head) (inForm : Bool) :
    (h.asRead inForm).partHeaders inForm = h.partHeaders inForm := by
  have hfields : (h.fieldLines inForm).filter (fun line => !Headers.isField line.1) = [] := by
    refine List.filter_eq_nil_iff.mpr fun line hl => ?_
    simp [isField_of_mem_fieldLines h inForm line hl]
  have hothers : h.otherLines.filter (fun line => !Headers.isField line.1) = h.otherLines := by
    refine List.filter_eq_self.mpr fun line hl => ?_
    simp [isField_of_mem_otherLines line hl]
  have hlines : (h.asRead inForm).otherLines = h.otherLines := by
    rw [otherLines, asRead, partHeaders_eq, List.filter_append, hfields, hothers,
      List.nil_append]
  rw [partHeaders_eq, hlines]
  rfl

/-- The head that is read of a part whose header lines are not all trimmed. -/
def reread (h : Head) (inForm : Bool) : Head :=
  { h with contentLength := h.declared, headers := readBackAll (h.partHeaders inForm) }

theorem get?_partHeaders_of_field (h : Head) (inForm : Bool) {name : String}
    (hname : name = Headers.contentType ∨ name = Headers.contentDisposition ∨
      name = Headers.contentId) :
    (h.partHeaders inForm).get? name = Headers.get? ⟨h.fieldLines inForm⟩ name := by
  have hnone : Headers.get? ⟨h.otherLines⟩ name = none := by
    apply Headers.get?_eq_none
    intro line hl
    have hother := Headers.sameName_of_isField_eq_false (isField_of_mem_otherLines line hl)
    rcases hname with rfl | rfl | rfl
    · exact hother.1
    · exact hother.2.1
    · exact hother.2.2
  rw [partHeaders_eq, Headers.get?_append, hnone, Option.or_none]

theorem get?_contentDisposition (hread : h.Rereadable) (inForm : Bool) :
    (h.partHeaders inForm).get? Headers.contentDisposition =
      h.disposition.map Disposition.format := by
  have h1 : sameName Headers.contentType Headers.contentDisposition = false := by decide
  have h2 : sameName Headers.contentId Headers.contentDisposition = false := by decide
  rw [get?_partHeaders_of_field h inForm (by simp), fieldLines_eq hread]
  cases h.disposition <;> cases h.contentId <;> simp [Headers.get?_cons, Headers.get?_nil, h1, h2]

theorem get?_contentType (hread : h.Rereadable) (inForm : Bool) :
    (h.partHeaders inForm).get? Headers.contentType = some h.mediaType.format := by
  have h1 : sameName Headers.contentDisposition Headers.contentType = false := by decide
  rw [get?_partHeaders_of_field h inForm (by simp), fieldLines_eq hread]
  cases h.disposition <;> simp [Headers.get?_cons, h1]

theorem get?_contentId (hread : h.Rereadable) (inForm : Bool) :
    (h.partHeaders inForm).get? Headers.contentId = h.contentId.map bracketed := by
  have h1 : sameName Headers.contentType Headers.contentId = false := by decide
  have h2 : sameName Headers.contentDisposition Headers.contentId = false := by decide
  rw [get?_partHeaders_of_field h inForm (by simp), fieldLines_eq hread]
  cases h.disposition <;> cases h.contentId <;> simp [Headers.get?_cons, Headers.get?_nil, h1, h2]

theorem declaredLength_eq (hread : h.Rereadable) : h.headers.declaredLength = .ok h.declared := by
  obtain ⟨n, hn⟩ := hread.length
  rw [declared, hn]

theorem sameName_contentLength_of_mem_fieldLines (hread : h.Rereadable) (inForm : Bool) :
    ∀ line ∈ h.fieldLines inForm, sameName line.1 Headers.contentLength = false := by
  intro line hl
  rw [fieldLines_eq hread] at hl
  simp only [List.mem_append, List.mem_cons, Option.mem_toList, Option.map_eq_some_iff] at hl
  rcases hl with ⟨d, -, rfl⟩ | rfl | ⟨id, -, rfl⟩
  · show sameName Headers.contentDisposition Headers.contentLength = false
    decide
  · show sameName Headers.contentType Headers.contentLength = false
    decide
  · show sameName Headers.contentId Headers.contentLength = false
    decide

theorem declaredLength_readBackAll (hread : h.Rereadable) (inForm : Bool) :
    (readBackAll (h.partHeaders inForm)).declaredLength = .ok h.declared := by
  have hfield := Headers.get?_eq_none (sameName_contentLength_of_mem_fieldLines hread inForm)
  have hother : Headers.get? ⟨h.otherLines⟩ Headers.contentLength =
      h.headers.get? Headers.contentLength := by
    refine Headers.get?_filter fun line _ hname => ?_
    rw [Headers.isField_eq_false_of_contentLength hname]
    rfl
  refine Headers.declaredLength_congr ?_ (declaredLength_eq hread)
  rw [Headers.get?_readBackAll, partHeaders_eq, Headers.get?_append, hfield, Option.none_or, hother]

/-- **The header lines of a part say its head again.** -/
theorem ofHeaders_readBackAll (hread : h.Rereadable) (inForm : Bool) :
    ofHeaders (readBackAll (h.partHeaders inForm)) = .ok (h.reread inForm) := by
  have hid : ((h.contentId.map bracketed).map trimmed).map (fun id =>
      String.ofList (stripAngles (trim id.toList))) = h.contentId := by
    cases hc : h.contentId with
    | none => rfl
    | some id =>
        have hstripped := (hread.contentId id hc).1
        show some (String.ofList (stripAngles (trim (trimmed (bracketed id)).toList))) = _
        rw [trimmed, String.toList_ofList, trim_trim, trim_bracketed,
          stripAngles_bracketed hstripped, String.ofList_toList]
  have hdisp : ((h.disposition.map Disposition.format).map trimmed).mapM Disposition.parse =
      (.ok h.disposition : Except Error _) := by
    cases hd : h.disposition with
    | none => rfl
    | some d =>
        have hd' := hread.disposition d hd
        have hparse : Disposition.parse d.format = .ok d := hd'.roundTrips
        have htrim : trimmed d.format = d.format := by
          rw [trimmed, hd'.trim_format, String.ofList_toList]
        rw [Option.map_some, Option.map_some, htrim]
        show (do return some (← Disposition.parse d.format)) = _
        rw [hparse]
        rfl
  have hmedia : MediaType.parse (trimmed h.mediaType.format) = .ok h.mediaType := by
    rw [trimmed, MediaType.trim_format hread.mediaType.wellFormed, String.ofList_toList]
    exact hread.mediaType
  rw [ofHeaders, declaredLength_readBackAll hread, Headers.get?_readBackAll,
    Headers.get?_readBackAll, Headers.get?_readBackAll, get?_contentId hread, hid,
    get?_contentType hread, Option.map_some, Option.getD_some, hmedia,
    get?_contentDisposition hread, hdisp]
  rfl

/-! ### Heads that are safe to write -/

theorem IsBareId.stripped {id : String} (hid : IsBareId id) : IsStripped id :=
  ⟨hid.ne, hid.head, hid.last⟩

theorem wireSafe_of_mediaType {m : MediaType} (hm : m.RoundTrips)
    (hvalues : ∀ e ∈ m.parameters.entries, ∀ c ∈ e.2.toList, c ≠ '\r' ∧ c ≠ '\n') :
    WireSafe { mediaType := m } :=
  ⟨hm, hvalues, nofun, nofun, nofun⟩

theorem WireSafe.length (safe : h.WireSafe) : ∃ n, h.headers.declaredLength = .ok n := by
  unfold Headers.declaredLength
  cases hl : h.headers.get? Headers.contentLength with
  | none => exact ⟨none, rfl⟩
  | some text =>
      rw [Headers.get?, Option.map_eq_some_iff] at hl
      obtain ⟨line, hfind, rfl⟩ := hl
      have hline := safe.headers line (List.mem_of_find?_eq_some hfind)
      have hname := List.find?_some hfind
      obtain ⟨n, hn⟩ := hline.length hname
      refine ⟨some n, ?_⟩
      dsimp only
      rw [trim_of_trimmed hline.plain.value_trim, hn]

theorem WireSafe.rereadable (safe : h.WireSafe) : h.Rereadable where
  mediaType := safe.mediaType
  values := fun e he hm => (safe.values e he _ hm).2 rfl
  disposition := fun d hd => (safe.disposition d hd).rereadable
  contentId := fun id hid => ⟨(safe.contentId id hid).stripped,
    fun hm => ((safe.contentId id hid).chars _ hm).2 rfl⟩
  headers := fun line hl _ => (safe.headers line hl).plain.legible
  length := safe.length

/-- A head that is safe to write has no header lines in place of its fields. -/
theorem otherLines_eq (safe : h.WireSafe) : h.otherLines = h.headers.entries :=
  List.filter_eq_self.mpr fun line hl => by rw [(safe.headers line hl).other]; rfl

theorem isPlain_of_name {name value : String} (hname : IsPlain (name, ""))
    (htrim : trim value.toList = value.toList)
    (hchars : ∀ c ∈ value.toList, c ≠ '\r' ∧ c ≠ '\n') : IsPlain (name, value) :=
  ⟨hname.name_ne, hname.name_trim, hname.name_chars,
    by rw [trimmed, htrim, String.ofList_toList], hchars⟩

theorem isPlain_of_mem_partHeaders (safe : h.WireSafe) (inForm : Bool) :
    ∀ line ∈ (h.partHeaders inForm).entries, IsPlain line := by
  intro line hl
  rw [partHeaders_eq, fieldLines_eq safe.rereadable, otherLines_eq safe, List.append_assoc] at hl
  simp only [List.mem_append, List.mem_cons, Option.mem_toList,
    Option.map_eq_some_iff] at hl
  rcases hl with ⟨d, hd, rfl⟩ | (rfl | ⟨id, hid, rfl⟩) | hl
  · have hsafe := safe.disposition d hd
    exact isPlain_of_name (by decide) (Disposition.trim_format hsafe.regular)
      (Disposition.not_break_of_mem_format hsafe)
  · have hwell := safe.mediaType.wellFormed
    exact isPlain_of_name (by decide) (MediaType.trim_format hwell)
      (MediaType.not_break_of_mem_format hwell safe.values)
  · apply isPlain_of_name (by decide) (trim_bracketed id)
    intro c hc
    rw [toList_bracketed] at hc
    simp only [List.cons_append, List.mem_cons, List.mem_append, List.not_mem_nil,
      or_false] at hc
    rcases hc with rfl | hc | rfl
    · decide
    · exact (safe.contentId id hid).chars c hc
    · decide
  · exact (safe.headers line hl).plain

/-- **The header lines of a part with a safe head say this head.** -/
theorem ofHeaders_partHeaders (safe : h.WireSafe) (inForm : Bool) :
    ofHeaders (h.partHeaders inForm) = .ok (h.asRead inForm) := by
  have hread := ofHeaders_readBackAll safe.rereadable inForm
  have hlines := readBackAll_eq (isPlain_of_mem_partHeaders safe inForm)
  rw [reread, hlines] at hread
  exact hread

/-! ### Boundaries of parts of parts -/

theorem roundTrips_withBoundary (hm : h.mediaType.RoundTrips) (host : Host) :
    (h.withBoundary host).2.1.mediaType.RoundTrips := by
  unfold Head.withBoundary
  split
  · exact hm
  · exact hm.withParameter (by decide) _

theorem WireSafe.withBoundary (safe : h.WireSafe) (host : Host) :
    (h.withBoundary host).2.1.WireSafe := by
  have hm := roundTrips_withBoundary safe.mediaType host
  unfold Head.withBoundary at hm ⊢
  split
  · exact safe
  · rename_i hnone
    rw [hnone] at hm
    refine ⟨hm, fun e he => ?_, safe.disposition, safe.contentId, safe.headers⟩
    rcases Parameters.mem_insert he with he | rfl
    · exact safe.values e he
    · exact Boundary.not_break_of_isValid (Boundary.isValid_generateBoundary host)

end Head
end Mime
