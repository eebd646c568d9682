import Mime.Proofs.Entity.ReadList
import Mime.Proofs.Entity.WriteList
import Mime.Proofs.MediaType.Suffix
import Mime.Proofs.Multipart.ReadParts

/-! # Parts that are read, written and read again

Whatever bytes the parts of an entity are read from, they are written as a message, and it is read
as the same parts (`facets_reencode`): with the same media types, dispositions, content ids and
bytes.  For the bytes nothing is asked, since no delimiter is seen in a content that was read.  For
the heads it is asked that they are `Rewritable`: a field that is empty has no header line
(`not_facets_reencode_of_empty_name`), quotes in a disposition are written as they are, and the last
plus sign of a subtype is not written where nothing is behind it. -/

namespace Mime

open Text Mime.Field Multipart

/-! ### Heads that were read -/

namespace Head

/-- What a head that was read says, and the header lines that say it. -/
theorem ofHeaders_eq_ok {headers : Headers} {h : Head} (hread : ofHeaders headers = .ok h) :
    h.headers = headers ∧ headers.declaredLength = .ok h.contentLength ∧
      MediaType.parse ((headers.get? Headers.contentType).getD MediaType.octetStream) =
        .ok h.mediaType ∧
      (∀ d ∈ h.disposition, ∃ text, headers.get? Headers.contentDisposition = some text ∧
        Disposition.parse text = .ok d) ∧
      ∀ id ∈ h.contentId, ∃ text, headers.get? Headers.contentId = some text ∧
        id = String.ofList (stripAngles (trim text.toList)) := by
  unfold ofHeaders at hread
  obtain ⟨length, hlength, hread⟩ := bind_eq_ok_iff.mp hread
  obtain ⟨mediaType, hmedia, hread⟩ := bind_eq_ok_iff.mp hread
  obtain ⟨disposition, hdisp, hread⟩ := bind_eq_ok_iff.mp hread
  cases hread
  refine ⟨rfl, hlength, hmedia, fun d hd => ?_, fun id hid => ?_⟩
  · cases hget : headers.get? Headers.contentDisposition with
    | none =>
        rw [hget] at hdisp
        cases hdisp
        cases hd
    | some text =>
        rw [hget, Option.mapM_some] at hdisp
        obtain ⟨d', hparse, hd'⟩ := bind_eq_ok_iff.mp hdisp
        cases hd'
        cases hd
        exact ⟨text, rfl, hparse⟩
  · obtain ⟨text, htext, rfl⟩ := Option.map_eq_some_iff.mp hid
    exact ⟨text, htext, rfl⟩

theorem mem_of_get? {headers : Headers} {name text : String} (h : headers.get? name = some text) :
    ∃ header ∈ headers.entries, header.2 = text := by
  rw [Headers.get?, Option.map_eq_some_iff] at h
  obtain ⟨header, hfind, rfl⟩ := h
  exact ⟨header, List.mem_of_find?_eq_some hfind, rfl⟩

/-- A head that is written within the limits, and of which nothing is lost or changed by that.  A
subtype without a suffix is not empty and has no plus sign, the disposition is kept, and the content
id is not empty. -/
structure Rewritable (limits : Limits) (inForm : Bool) (h : Head) : Prop where
  mediaType : h.mediaType.suffix = "" → h.mediaType.sub ≠ "" ∧ '+' ∉ h.mediaType.sub.toList
  disposition : ∀ d ∈ h.disposition, d.Kept
  contentId : ∀ id ∈ h.contentId, id ≠ ""
  size_le : (Utf8.encode (headerBlock (h.partHeaders inForm))).length ≤ limits.maxHeaderSize
  count_le : (h.partHeaders inForm).size ≤ limits.maxHeaders

/-- A head that was read from legible lines can be read again from the lines it is written as. -/
theorem Rewritable.rereadable {limits : Limits} {inForm : Bool} {headers : Headers} {h : Head}
    (hw : h.Rewritable limits inForm) (hread : ofHeaders headers = .ok h)
    (hlegible : ∀ header ∈ headers.entries, IsLegible header) : h.Rereadable := by
  obtain ⟨hheaders, hlength, hmedia, hdisp, hid⟩ := ofHeaders_eq_ok hread
  have htext : ∀ {name text : String}, headers.get? name = some text → '\n' ∉ text.toList := by
    intro name text hget hm
    obtain ⟨header, hmem, rfl⟩ := mem_of_get? hget
    exact (hlegible header hmem).value_chars _ hm rfl
  refine ⟨(MediaType.normal_of_parse hmedia).roundTrips_iff.mpr hw.mediaType, ?_, fun d hd => ?_,
    fun id hmem => ?_, fun line hl _ => ?_, ?_⟩
  · refine MediaType.not_mem_of_parseField (MediaType.parse_eq_ok_iff.mp hmedia) ?_
    cases hget : headers.get? Headers.contentType with
    | none =>
        rw [Option.getD_none]
        decide
    | some text => exact htext hget
  · have hkept := hw.disposition d hd
    obtain ⟨text, hget, hparse⟩ := hdisp d hd
    exact (Disposition.legible_of_parse hparse (htext hget)).rereadable hkept.type_ne
      (Disposition.roundTrips_of_parse hparse hkept)
  · obtain ⟨text, hget, rfl⟩ := hid id hmem
    have hne := hw.contentId _ hmem
    refine ⟨isStripped_stripAngles fun he => hne (by rw [he]), fun hm => ?_⟩
    rw [String.toList_ofList] at hm
    exact htext hget (mem_of_mem_trim (mem_of_mem_stripAngles hm))
  · exact hlegible line (hheaders ▸ hl)
  · exact ⟨h.contentLength, hheaders ▸ hlength⟩

end Head

namespace Entity

/-! ### Parts that were read -/

/-- What is asked of a part: its media type, its disposition, its content id and its bytes. -/
def facets (e : Entity) :
    MediaType × Option Disposition × Option String × Option (Except IoError Bytes) :=
  (e.mediaType, e.head.disposition, e.head.contentId, e.byteSource?.map ByteSource.readAll)

/-- The bytes that an entity holds. -/
def heldBytes (e : Entity) : Bytes :=
  match e.byteSource?.map ByteSource.readAll with
  | some (.ok bytes) => bytes
  | _ => []

/-- The header lines and the bytes that a part with a source is written as. -/
def heldPart (inForm : Bool) (e : Entity) : Headers × Bytes :=
  (e.head.partHeaders inForm, e.heldBytes)

/-- A part that was read and can be written: it holds bytes in which no delimiter is seen, and its
head can be read again. -/
structure Renewed (boundary : String) (d : Entity) : Prop where
  rereadable : d.head.Rereadable
  holds : d.Holds d.heldBytes
  quiet : Quiet boundary d.heldBytes

theorem renewed_of_isPopulated {boundary : String} {limits : Limits} {inForm : Bool}
    {raw : RawPart} {d : Entity} (hsound : raw.Sound boundary) (h : IsPopulated raw d)
    (hw : d.head.Rewritable limits inForm) : d.Renewed boundary := by
  obtain ⟨head, hhead, rfl⟩ := h
  obtain ⟨bytes, hread, hquiet⟩ := hsound.content
  have hheld : heldBytes ⟨head, .byteSource raw.body⟩ = bytes := by
    show (match some raw.body.readAll with | some (.ok bytes) => bytes | _ => []) = bytes
    rw [hread]
  refine ⟨hw.rereadable hhead hsound.legible, ⟨raw.body, rfl, ?_⟩, ?_⟩
  · rw [hheld]
    exact hread
  · rw [hheld]
    exact hquiet

theorem facets_eq (d : Entity) :
    d.facets = (d.reading.1.mediaType, d.reading.1.disposition, d.reading.1.contentId,
      d.reading.2) := rfl

/-- What is read of parts that were written again is what was read before. -/
theorem map_facets_eq {boundary : String} {inForm : Bool} {ds ds' : List Entity}
    (hrenewed : ∀ d ∈ ds, d.Renewed boundary)
    (h : ds'.map reading = ds.map fun d => (d.head.reread inForm, some (.ok d.heldBytes))) :
    ds'.map facets = ds.map facets := by
  have hone : ∀ d ∈ ds, d.facets = (d.head.mediaType, d.head.disposition, d.head.contentId,
      some (.ok d.heldBytes)) := by
    intro d hd
    obtain ⟨source, hbody, hread⟩ := (hrenewed d hd).holds
    have hsource : d.byteSource? = some source := by rw [byteSource?, hbody]
    rw [facets, hsource, Option.map_some, hread]
    rfl
  have hmap : ds'.map facets = (ds'.map reading).map fun r =>
      (r.1.mediaType, r.1.disposition, r.1.contentId, r.2) := by
    rw [List.map_map]
    exact List.map_congr_left fun d _ => facets_eq d
  rw [hmap, h, List.map_map, List.map_congr_left hone]
  rfl

/-- **Parts that are read are the same after they are written and read again.**  For every
multipart Content-Type value with a valid boundary and every source of bytes: if parts are read from
it, each with a head that is rewritable, writing them succeeds, and from what is written just as
many parts are read, each with the same media type, disposition, content id and bytes. -/
theorem facets_reencode {e : Entity} {value boundary : String} {source : ByteSource}
    {limits limits' : Limits} {host : Host} {ds : List Entity}
    (hm : MediaType.parse value = .ok e.mediaType) (hmulti : e.mediaType.isMultipart = true)
    (hb : e.mediaType.boundary? = some boundary)
    (hvalid : Boundary.isValid boundary.toList = true) (hbody : e.body = .byteSource source)
    (hds : (e.parts host limits).answer = .ok ds) (hne : ds ≠ [])
    (hw : ∀ d ∈ ds, d.head.Rewritable limits' (e.mediaType.is MediaType.formData))
    (host' host'' : Host) :
    ((e.parts host limits).entity.encodeParts host').answer = .ok () ∧
      ∃ ds', (((e.parts host limits).entity.encodeParts host').entity.parts host'' limits').answer =
        .ok ds' ∧ ds'.map facets = ds.map facets := by
  obtain ⟨head, body⟩ := e
  subst hbody
  have hwell := MediaType.wellFormed_of_parseField (MediaType.parse_eq_ok_iff.mp hm)
  obtain ⟨m, given, raws, spills, hparse, hgiven, hdecode, hpopulated, hentity⟩ :=
    decode_of_parts hmulti hds hne
  have hboundary : given = boundary := by
    rw [MediaType.boundary?_of_parse_format hwell hparse, hb] at hgiven
    exact (Option.some.inj hgiven).symm
  subst hboundary
  have hsound := sound_of_decode hvalid hdecode
  have hrenewed : ∀ d ∈ ds, d.Renewed given := by
    intro d hd
    obtain ⟨raw, hraw, hone⟩ := exists_raw_of_mem hpopulated hd
    exact renewed_of_isPopulated (hsound raw hraw) hone (hw d hd)
  have hwrites : List.Forall₂ (Writes (head.mediaType.is MediaType.formData)) ds
      (ds.map (heldPart (head.mediaType.is MediaType.formData))) := by
    rw [List.forall₂_map_right_iff, List.forall₂_same]
    exact fun d hd => (hrenewed d hd).holds.writes _
  obtain ⟨hanswer, hencoded⟩ := encodeParts_of_writes hmulti hb hvalid hne hwrites host'
  have hrecoverable : ∀ d ∈ ds,
      Recoverable given limits' (d.heldPart (head.mediaType.is MediaType.formData)) := by
    intro d hd
    have hd' := hrenewed d hd
    exact ⟨Head.isLegible_of_mem_partHeaders hd'.rereadable _, hd'.quiet, (hw d hd).size_le,
      (hw d hd).count_le⟩
  obtain ⟨ds', hds', -, hreading⟩ := parts_of_recoverable hmulti hparse hgiven hvalid
    (readAll_ofBytes _) hne hrecoverable
    (fun d hd => Head.ofHeaders_readBackAll (hrenewed d hd).rereadable _) host''
  rw [hentity, hencoded]
  exact ⟨hanswer, ds', hds', map_facets_eq hrenewed hreading⟩

theorem exists_of_answer {α : Type} {answer : Except Error (List Entity)} {f : Entity → α}
    {values : List α} (h : answer.toOption.map (·.map f) = some values) :
    ∃ ds, answer = .ok ds ∧ ds.map f = values := by
  cases answer with
  | error e => cases h
  | ok ds => exact ⟨ds, rfl, Option.some.inj h⟩

/-- An entity that holds these bytes, which are delimited by the boundary `b`. -/
def holding (text : String) : Entity where
  head := { mediaType := ⟨"multipart", "mixed", "", ⟨[("boundary", "b")]⟩⟩ }
  body := .byteSource (.ofBytes (Utf8.ofString text))

/-- Text around the message, line feeds alone, brackets in pairs, a continued header line, and a
disposition with white space in its type, semicolons between quotes and a piece that says
nothing. -/
def loose : Entity :=
  holding <| "intro\n--b \nContent-Id: <<x>>\nContent-Type: A/B;\n c=\"d\\\"e\"\n" ++
    "Content-Disposition: Form Data; NAME=\" a;b\"; filename=c'd=e; \"u;V\"=\"w\\\"\"; more\n" ++
    "\nhi\r\n\n--b--\nend"

/-- The disposition in `loose`. -/
def looseDisposition : Disposition where
  type := "form data"
  name := some " a;b"
  filename := some "c'd=e"
  parameters := ⟨[("\"u;v\"", "w\"")]⟩

/-- What the header lines of the part in `loose` say. -/
def looseHead : Head where
  mediaType := ⟨"a", "b", "", ⟨[("c", "d\"e")]⟩⟩
  disposition := some looseDisposition
  contentId := some "x"
  headers := ⟨[("Content-Id", "<<x>>"), ("Content-Type", "A/B; c=\"d\\\"e\""),
    ("Content-Disposition",
      "Form Data; NAME=\" a;b\"; filename=c'd=e; \"u;V\"=\"w\\\"\"; more")]⟩

theorem kept_looseDisposition : looseDisposition.Kept where
  type_ne := by decide
  name := by simp [looseDisposition, Disposition.IsUnescaped]
  filename := by simp [looseDisposition, Disposition.IsUnescaped]
  names := by
    intro n hn
    obtain rfl : n = "\"u;v\"" := List.mem_singleton.mp hn
    exact scan_eq_outside_iff.mp (by decide)

/-- A part of a message that no writer would write. -/
theorem facets_reencode_loose :
    ∃ ds, (loose.parts zeroHost .standard).answer = .ok ds ∧ ds.map Entity.head = [looseHead] ∧
      ((loose.parts zeroHost .standard).entity.encodeParts zeroHost).answer = .ok () ∧
      ∃ ds', (((loose.parts zeroHost .standard).entity.encodeParts zeroHost).entity.parts zeroHost
        .standard).answer = .ok ds' ∧ ds'.map facets = ds.map facets := by
  obtain ⟨ds, hds, hheads⟩ := exists_of_answer
    (show (loose.parts zeroHost .standard).answer.toOption.map (·.map Entity.head) =
      some [looseHead] by decide +kernel)
  have hne : ds ≠ [] := by
    rintro rfl
    cases hheads
  have hw : ∀ d ∈ ds, d.head.Rewritable .standard (loose.mediaType.is MediaType.formData) := by
    intro d hd
    have hhead : d.head ∈ ds.map Entity.head := List.mem_map_of_mem hd
    rw [hheads, List.mem_singleton] at hhead
    rw [hhead]
    refine ⟨by decide, fun disposition h => ?_, by simp [looseHead], by decide +kernel, by decide⟩
    obtain rfl : looseDisposition = disposition := Option.some.inj h
    exact kept_looseDisposition
  have hm : MediaType.parse "multipart/mixed; boundary=b" = .ok loose.mediaType := by decide
  have hvalid : Boundary.isValid "b".toList = true := by decide
  exact ⟨ds, hds, hheads, facets_reencode hm rfl rfl hvalid rfl hds hne hw zeroHost zeroHost⟩

/-- A form field with an empty name. -/
def emptyName : Entity :=
  holding "--b\r\nContent-Disposition: form-data; name=\"\"\r\n\r\nx\r\n--b--"

/-- An empty name is not written, so that there is none when the part is read again. -/
theorem not_facets_reencode_of_empty_name :
    MediaType.parse "multipart/mixed; boundary=b" = .ok emptyName.mediaType ∧
      ∃ ds ds', (emptyName.parts zeroHost .standard).answer = .ok ds ∧
        ((emptyName.parts zeroHost .standard).entity.encodeParts zeroHost).answer = .ok () ∧
        (((emptyName.parts zeroHost .standard).entity.encodeParts zeroHost).entity.parts zeroHost
          .standard).answer = .ok ds' ∧ ds'.map facets ≠ ds.map facets := by
  obtain ⟨ds, hds, hnames⟩ := exists_of_answer
    (show (emptyName.parts zeroHost .standard).answer.toOption.map
      (·.map fun d => d.head.disposition) = some [some (.formField "")] by decide +kernel)
  obtain ⟨ds', hds', hnames'⟩ := exists_of_answer
    (show (((emptyName.parts zeroHost .standard).entity.encodeParts zeroHost).entity.parts zeroHost
      .standard).answer.toOption.map (·.map fun d => d.head.disposition) =
        some [some { type := "form-data" }] by decide +kernel)
  have hanswer : ((emptyName.parts zeroHost .standard).entity.encodeParts zeroHost).answer =
      .ok () := by
    decide +kernel
  refine ⟨by decide, ds, ds', hds, hanswer, hds', fun he => ?_⟩
  have hsame := congrArg (List.map fun facet => facet.2.1) he
  rw [List.map_map, List.map_map] at hsame
  cases hnames'.symm.trans (hsame.trans hnames)

end Entity
end Mime
