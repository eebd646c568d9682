import Mime.Proofs.Disposition
import Mime.Proofs.MediaType

/-! # Lenient reading of what is read strictly

A header value is read leniently where its kind is not known, and strictly as a media type or as a
disposition.  The three readers trim in different places and refuse different pieces, but a piece
that a strict reader takes is one that the lenient reader takes in the same way
(`addLenient_of_addPiece`, `ShowsAs.addPiece`).  So on every text that a strict reader accepts, the
lenient one gives what the strict one does (`lenient_eq_strict`). -/

namespace Mime.Field

open Text

variable {value : String}

/-! ### Media types -/

/-- A piece that a media type takes as a parameter, or as a blank, sets the same leniently. -/
theorem addLenient_of_addPiece {p q : Parameters} {piece : List Char}
    (h : MediaType.addPiece p piece = .ok q) : addLenient p piece = q := by
  rcases MediaType.addPiece_eq_ok_iff.mp h with
    ⟨hblank, rfl⟩ | ⟨name, text, v, hcut, hname, hv, rfl⟩
  · have hnone : cutFirst '=' piece = none := by
      rw [cutFirst_eq_none_iff]
      intro hm
      have htrim := mem_trim hm (by decide)
      rw [hblank] at htrim
      cases htrim
    rw [addLenient, hnone]
  · obtain ⟨name', text', hcut', hname', htext'⟩ := cutFirst_of_trim (by decide) hcut
    simp only [addLenient, hcut', hname', htext', hv]

theorem lenientParameters_of_parse {m : MediaType} (h : MediaType.parse value = .ok m) :
    lenientParameters value = m.parameters := by
  obtain ⟨pieces, types, hsplit, -, hparams, -⟩ :=
    MediaType.parseField_eq_ok (MediaType.parse_eq_ok_iff.mp h)
  rw [lenientParameters, hsplit]
  have hstep : ∀ {p q p' : Parameters} (piece : List Char), p' = p →
      MediaType.addPiece p piece = .ok q → addLenient p' piece = q := by
    rintro p q p' piece rfl hq
    exact addLenient_of_addPiece hq
  exact related_of_foldlM (R := fun p p' => p' = p) hstep rfl hparams

/-- In front of the parameters of a media type there are no quotes and no semicolons. -/
theorem not_punctuation_of_parseTypes {t : MediaType} {piece : List Char}
    (h : MediaType.parseTypes value piece = .ok t) : ∀ c ∈ piece, c ≠ '"' ∧ c ≠ ';' := by
  obtain ⟨primary, sub, hcut, hprimary, hsub, -⟩ := MediaType.parseTypes_eq_ok_iff.mp h
  have hnot : ∀ d : Char, isSpace d = false → isTokenChar d = false → d.toLower = d → d ≠ '/' →
      d ∉ piece := by
    intro d hspace htoken hlower hslash hm
    have hmem : d ∈ (trim piece).map Char.toLower :=
      List.mem_map.mpr ⟨d, mem_trim hm hspace, hlower⟩
    rw [(cutFirst_eq_some_iff.mp hcut).1, List.mem_append, List.mem_cons] at hmem
    rcases hmem with hmem | hmem | hmem
    · exact not_mem_of_isToken hprimary htoken (mem_trim hmem hspace)
    · exact hslash hmem
    · exact not_mem_of_isToken hsub htoken (mem_trim hmem hspace)
  intro c hc
  constructor
  · rintro rfl
    exact hnot '"' (by decide) (by decide) (by decide) (by decide) hc
  · rintro rfl
    exact hnot ';' (by decide) (by decide) (by decide) (by decide) hc

/-- The value without its parameters is read as the media type without its parameters. -/
theorem parse_bareValue {m : MediaType} (h : MediaType.parse value = .ok m) :
    MediaType.parse (bareValue value) = .ok { m with parameters := Parameters.empty } := by
  obtain ⟨pieces, types, hsplit, htypes, -, hm⟩ :=
    MediaType.parseField_eq_ok (MediaType.parse_eq_ok_iff.mp h)
  have hpunctuation := not_punctuation_of_parseTypes htypes
  have hbare : bareValue value = String.ofList (trim (pieces.headD [])) := by
    rw [bareValue, takeWhile_of_splitUnquoted hsplit]
    intro hm
    exact (hpunctuation _ hm).2 rfl
  have hwhole : Whole (trim (pieces.headD [])) := by
    apply whole_of_forall
    intro c hc
    exact hpunctuation c (mem_of_mem_trim hc)
  obtain ⟨primary, sub, hcut, hprimary, hsub, rfl⟩ := MediaType.parseTypes_eq_ok_iff.mp htypes
  have hagain : MediaType.parseTypes (bareValue value) (trim (pieces.headD [])) = .ok _ :=
    MediaType.parseTypes_eq_ok_iff.mpr
      ⟨primary, sub, by rw [trim_trim]; exact hcut, hprimary, hsub, rfl⟩
  rw [MediaType.parse_eq_ok_iff, MediaType.parseField, hbare, String.toList_ofList,
    splitUnquoted_of_whole hwhole, ← hbare]
  dsimp only
  rw [List.headD_cons, hagain, hm]
  rfl

/-! ### Dispositions -/

/-- Parameters that show what a disposition says: its name and its filename, and besides these its
other parameters. -/
structure ShowsAs (d : Disposition) (p : Parameters) : Prop where
  lower : p.IsLower
  name : p.get? "name" = d.name
  filename : p.get? "filename" = d.filename
  others : (p.erase "name").erase "filename" = d.parameters

theorem ShowsAs.assign {d : Disposition} {p : Parameters} (h : ShowsAs d p) (name v : String) :
    ShowsAs (d.assign (Text.lower name) v) (p.insert name v) := by
  have hsame : ∀ other : String, Text.lower other = other →
      (sameName name other = true ↔ Text.lower name = other) := by
    intro other hother
    rw [sameName_iff, hother]
  have hown := hsame "name" (by decide)
  have hfile := hsame "filename" (by decide)
  have hname := Parameters.get?_insert h.lower name v "name"
  have hfilename := Parameters.get?_insert h.lower name v "filename"
  have hothers := Parameters.erase_insert h.lower name v "name"
  have hrest := Parameters.erase_insert (h.lower.erase "name") name v "filename"
  by_cases hn : Text.lower name = "name"
  · have hnot : ¬ sameName name "filename" = true := by
      rw [hfile, hn]
      decide
    rw [if_pos (hown.mpr hn)] at hname hothers
    rw [if_neg hnot] at hfilename
    rw [Disposition.assign, if_pos hn]
    refine ⟨h.lower.insert name v, hname, hfilename.trans h.filename, ?_⟩
    rw [hothers]
    exact h.others
  · rw [if_neg (mt hown.mp hn)] at hname hothers
    by_cases hf : Text.lower name = "filename"
    · rw [if_pos (hfile.mpr hf)] at hfilename hrest
      rw [Disposition.assign, if_neg hn, if_pos hf]
      refine ⟨h.lower.insert name v, hname.trans h.name, hfilename, ?_⟩
      rw [hothers, hrest]
      exact h.others
    · rw [if_neg (mt hfile.mp hf)] at hfilename hrest
      have hinsert : d.parameters.insert (Text.lower name) v = d.parameters.insert name v := by
        rw [Parameters.insert, Parameters.insert, lower_lower]
      rw [Disposition.assign, if_neg hn, if_neg hf]
      refine ⟨h.lower.insert name v, hname.trans h.name, hfilename.trans h.filename, ?_⟩
      rw [hothers, hrest, h.others]
      exact hinsert.symm

theorem ShowsAs.addPiece {d e : Disposition} {p : Parameters} (piece : List Char)
    (h : ShowsAs d p) (he : Disposition.addPiece d piece = .ok e) :
    ShowsAs e (addLenient p piece) := by
  rcases Disposition.addPiece_eq_ok_iff.mp he with ⟨hcut, rfl⟩ | ⟨name, text, v, hcut, hv, rfl⟩
  · simp only [addLenient, hcut]
    exact h
  · simp only [addLenient, hcut, hv]
    exact h.assign _ _

theorem showsAs_of_parse {d : Disposition} (h : Disposition.parse value = .ok d) :
    ShowsAs d (lenientParameters value) := by
  obtain ⟨pieces, hsplit, hpieces⟩ := Disposition.parse_eq_ok h
  rw [lenientParameters, hsplit]
  exact related_of_foldlM ShowsAs.addPiece ⟨nofun, rfl, rfl, rfl⟩ hpieces

/-! ### Both kinds of values -/

/-- **The lenient reader agrees with the strict ones.**  Of a text that is read as a media type it
gives the parameters and the boundary, and in front of the parameters there is the text of the media
type without them.  Of a text that is read as a disposition it gives the name, the filename and,
besides these two, the other parameters. -/
theorem lenient_eq_strict (value : String) :
    (∀ m, MediaType.parse value = .ok m →
      lenientParameters value = m.parameters ∧ lenientBoundary? value = m.boundary? ∧
        MediaType.parse (bareValue value) = .ok { m with parameters := Parameters.empty }) ∧
    ∀ d, Disposition.parse value = .ok d →
      (lenientParameters value).get? "name" = d.name ∧
        (lenientParameters value).get? "filename" = d.filename ∧
        ((lenientParameters value).erase "name").erase "filename" = d.parameters := by
  constructor
  · intro m h
    have hparams := lenientParameters_of_parse h
    refine ⟨hparams, ?_, parse_bareValue h⟩
    rw [lenientBoundary?, hparams]
    rfl
  · intro d h
    have hshows := showsAs_of_parse h
    exact ⟨hshows.name, hshows.filename, hshows.others⟩

/-- A value that both strict readers accept, with a semicolon between quotes, a blank piece, and
names in letters of both cases, one of them given twice. -/
theorem lenient_eq_strict_both :
    let value := " Text/A+B ;name=\"x;\\\"\"; ;Boundary = b ;\tNAME=\"\";filename=f"
    let m : MediaType :=
      ⟨"text", "a", "b", ⟨[("name", ""), ("boundary", "b"), ("filename", "f")]⟩⟩
    let d : Disposition := ⟨"text/a+b", some "", some "f", ⟨[("boundary", "b")]⟩⟩
    (MediaType.parse value = .ok m ∧ lenientParameters value = m.parameters ∧
      lenientBoundary? value = m.boundary? ∧
      MediaType.parse (bareValue value) = .ok { m with parameters := Parameters.empty }) ∧
    Disposition.parse value = .ok d ∧ (lenientParameters value).get? "name" = d.name ∧
      (lenientParameters value).get? "filename" = d.filename ∧
      ((lenientParameters value).erase "name").erase "filename" = d.parameters := by
  intro value m d
  have hm : MediaType.parse value = .ok m := by decide +kernel
  have hd : Disposition.parse value = .ok d := by decide +kernel
  exact ⟨⟨hm, (lenient_eq_strict value).1 m hm⟩, hd, (lenient_eq_strict value).2 d hd⟩

end Mime.Field
