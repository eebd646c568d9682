import Mime.Proofs.MediaType

/-! # Suffixes, and the media types that are read again

A subtype is cut at its last plus sign (`cutSuffix_eq_iff`).  What is read or built of tokens is
`Normal`: its names are in small letters, and there is no plus sign in its suffix.  A normal media
type is written with the subtype and the suffix joined again, and an empty suffix without its plus
sign.  So it is read back as it was written just when this loses nothing (`Normal.roundTrips_iff`):
the suffix is not empty, or the subtype is not and has no plus sign in it either.

That settles what becomes of a media type that was read (`roundTrips_iff_of_parse`): its type and
its parameters are always kept.  A media type that was built of tokens, with any texts as the values
of its parameters, is read back if its subtype does not end with a plus sign
(`roundTrips_built`). -/

namespace Mime.MediaType

open Text Mime.Field

variable {m : MediaType}

/-! ### Subtypes and suffixes -/

theorem cutSuffix_eq_iff {s a b : List Char} :
    cutSuffix s = (a, b) ↔ ('+' ∉ s ∧ a = s ∧ b = []) ∨ (s = a ++ '+' :: b ∧ '+' ∉ b) := by
  cases h : cutLast '+' s with
  | none =>
      have hs := cutLast_eq_none_iff.mp h
      rw [cutSuffix, h, Option.getD_none, Prod.mk.injEq]
      constructor
      · rintro ⟨rfl, rfl⟩
        exact .inl ⟨hs, rfl, rfl⟩
      · rintro (⟨-, rfl, rfl⟩ | ⟨rfl, -⟩)
        · exact ⟨rfl, rfl⟩
        · simp at hs
  | some cut =>
      rw [cutSuffix, h, Option.getD_some]
      constructor
      · rintro rfl
        exact .inr (cutLast_eq_some_iff.mp h)
      · rintro (⟨hs, -, -⟩ | hcut)
        · rw [cutLast_eq_none_iff.mpr hs] at h
          cases h
        · exact Option.some.inj (h.symm.trans (cutLast_eq_some_iff.mpr hcut))

theorem plus_not_mem_cutSuffix (s : List Char) : '+' ∉ (cutSuffix s).2 := by
  cases hcut : cutSuffix s with
  | mk a b =>
      rcases cutSuffix_eq_iff.mp hcut with ⟨-, -, rfl⟩ | ⟨-, hb⟩
      · exact List.not_mem_nil
      · exact hb

/-- The subtype and the suffix as they are written. -/
def subtype (m : MediaType) : List Char :=
  m.sub.toList ++ if m.suffix.isEmpty then [] else '+' :: m.suffix.toList

theorem types_eq (m : MediaType) : m.types = m.primary.toList ++ '/' :: m.subtype := by
  simp [types, subtype]

theorem subtype_of_suffix_eq (h : m.suffix = "") : m.subtype = m.sub.toList := by
  rw [subtype, h]
  exact List.append_nil _

theorem subtype_of_suffix_ne (h : m.suffix ≠ "") :
    m.subtype = m.sub.toList ++ '+' :: m.suffix.toList := by
  rw [subtype, if_neg (by simpa using h)]

theorem subtype_eq_nil_iff : m.subtype = [] ↔ m.sub = "" ∧ m.suffix = "" := by
  by_cases h : m.suffix = ""
  · rw [subtype_of_suffix_eq h, String.toList_eq_nil_iff]
    simp [h]
  · rw [subtype_of_suffix_ne h]
    simp [h]

/-! ### Normal media types -/

/-- Names in small letters, and no plus sign in the suffix. -/
structure Normal (m : MediaType) : Prop extends m.WellFormed where
  lower_primary : lower m.primary = m.primary
  lower_sub : lower m.sub = m.sub
  lower_suffix : lower m.suffix = m.suffix
  plus_suffix : '+' ∉ m.suffix.toList

theorem normal_ofTypes {primary sub : String} (hprimary : isToken primary.toList = true)
    (hsub : isToken sub.toList = true) : (ofTypes primary sub).Normal := by
  have hchars := (isToken_iff.mp (isToken_map_toLower hsub)).2
  have hlower : ∀ {s : List Char}, (∀ c ∈ s, c ∈ (lower sub).toList) →
      lower (String.ofList s) = String.ofList s := by
    intro s hs
    rw [toList_lower] at hs
    rw [lower, String.toList_ofList, map_toLower_of_forall_mem hs]
  refine ⟨⟨?_, fun c hc => ?_, fun c hc => ?_, Parameters.canonical_empty⟩, lower_lower primary,
    hlower fun _ => mem_of_cutSuffix.1, hlower fun _ => mem_of_cutSuffix.2, ?_⟩
  · rw [ofTypes, toList_lower]
    exact isToken_map_toLower hprimary
  · rw [ofTypes, String.toList_ofList, toList_lower] at hc
    exact hchars c (mem_of_cutSuffix.1 hc)
  · rw [ofTypes, String.toList_ofList, toList_lower] at hc
    exact hchars c (mem_of_cutSuffix.2 hc)
  · rw [ofTypes, String.toList_ofList]
    exact plus_not_mem_cutSuffix _

theorem exists_ofTypes_of_parseTypes {value : String} {piece : List Char}
    (h : parseTypes value piece = .ok m) :
    ∃ primary sub : String, isToken primary.toList = true ∧ isToken sub.toList = true ∧
      m = ofTypes primary sub := by
  obtain ⟨primary, sub, hcut, hprimary, hsub, rfl⟩ := parseTypes_eq_ok_iff.mp h
  refine ⟨String.ofList (trim primary), String.ofList (trim sub), by simpa using hprimary,
    by simpa using hsub, ?_⟩
  have hp : (trim primary).map Char.toLower = trim primary :=
    map_toLower_of_forall_mem fun c hc => (mem_of_cutFirst hcut).1 (mem_of_mem_trim hc)
  have hs : (trim sub).map Char.toLower = trim sub :=
    map_toLower_of_forall_mem fun c hc => (mem_of_cutFirst hcut).2 (mem_of_mem_trim hc)
  simp only [ofTypes, lower, String.toList_ofList, hp, hs]

theorem normal_of_parse {value : String} (h : parse value = .ok m) : m.Normal := by
  have hfield := parse_eq_ok_iff.mp h
  obtain ⟨pieces, types, -, htypes, -, hm⟩ := parseField_eq_ok hfield
  obtain ⟨primary, sub, hprimary, hsub, rfl⟩ := exists_ofTypes_of_parseTypes htypes
  have ht := normal_ofTypes hprimary hsub
  have hwell := wellFormed_of_parseField hfield
  rw [hm] at hwell ⊢
  exact ⟨hwell, ht.lower_primary, ht.lower_sub, ht.lower_suffix, ht.plus_suffix⟩

/-! ### Reading the types that were written -/

theorem parseTypes_of_trim_eq {piece : List Char} {primary sub : String}
    (hprimary : isToken primary.toList = true) (hsub : isToken sub.toList = true)
    (htrim : trim piece = primary.toList ++ '/' :: sub.toList) (value : String) :
    parseTypes value piece = .ok (ofTypes primary sub) := by
  have hp := isToken_map_toLower hprimary
  have hs := isToken_map_toLower hsub
  have hslash : '/' ∉ primary.toList.map Char.toLower := not_mem_of_isToken hp (by decide)
  have hcut : cutFirst '/' ((trim piece).map Char.toLower) =
      some (primary.toList.map Char.toLower, sub.toList.map Char.toLower) := by
    rw [htrim, List.map_append, List.map_cons]
    exact cutFirst_append hslash _
  rw [parseTypes_eq_ok_iff]
  refine ⟨_, _, hcut, ?_, ?_, ?_⟩
  · rwa [trim_of_isToken hp]
  · rwa [trim_of_isToken hs]
  · rw [trim_of_isToken hp, trim_of_isToken hs, ofTypes, lower, lower, String.toList_ofList]

namespace Normal

theorem isTokenChar_of_mem_subtype (h : m.Normal) : ∀ c ∈ m.subtype, isTokenChar c = true := by
  intro c hc
  rw [subtype, List.mem_append] at hc
  rcases hc with hc | hc
  · exact h.sub c hc
  · split at hc
    · cases hc
    · rcases List.mem_cons.mp hc with rfl | hc
      · decide
      · exact h.suffix c hc

theorem map_toLower_subtype (h : m.Normal) : m.subtype.map Char.toLower = m.subtype := by
  have hsub : m.sub.toList.map Char.toLower = m.sub.toList := by
    rw [← toList_lower, h.lower_sub]
  have hsuffix : m.suffix.toList.map Char.toLower = m.suffix.toList := by
    rw [← toList_lower, h.lower_suffix]
  by_cases he : m.suffix = ""
  · rw [subtype_of_suffix_eq he, hsub]
  · rw [subtype_of_suffix_ne he, List.map_append, List.map_cons, hsub, hsuffix]
    rfl

theorem trim_types_eq (h : m.Normal) :
    trim m.types = m.primary.toList ++ '/' :: (String.ofList m.subtype).toList := by
  rw [trim_types h.toWellFormed, types_eq, String.toList_ofList]

/-- Without subtype and suffix, the written types are refused. -/
theorem parseTypes_types_of_nil (h : m.Normal) (hnil : m.subtype = []) (value : String) :
    parseTypes value m.types = .error (.badSubtype value) := by
  have hslash : '/' ∉ m.primary.toList := not_mem_of_isToken h.primary (by decide)
  have hcut : cutFirst '/' ((trim m.types).map Char.toLower) = some (m.primary.toList, []) := by
    rw [trim_types h.toWellFormed, types_eq, hnil, List.map_append, ← toList_lower,
      h.lower_primary]
    exact cutFirst_append hslash []
  rw [parseTypes, hcut]
  simp only [trim_of_isToken h.primary, h.primary, trim_nil, Bool.not_true, Bool.false_eq_true,
    if_false]
  rfl

theorem parseTypes_types (h : m.Normal) (hne : m.subtype ≠ []) (value : String) :
    parseTypes value m.types = .ok (ofTypes m.primary (String.ofList m.subtype)) :=
  parseTypes_of_trim_eq h.primary
    (by rw [String.toList_ofList]; exact isToken_iff.mpr ⟨hne, h.isTokenChar_of_mem_subtype⟩)
    h.trim_types_eq value

/-- Joined and cut again, subtype and suffix are the same unless a plus sign is lost. -/
theorem cutSuffix_subtype_iff (h : m.Normal) :
    cutSuffix m.subtype = (m.sub.toList, m.suffix.toList) ↔
      (m.suffix = "" → '+' ∉ m.sub.toList) := by
  rw [cutSuffix_eq_iff]
  by_cases he : m.suffix = ""
  · rw [subtype_of_suffix_eq he, he]
    simp
  · rw [subtype_of_suffix_ne he]
    simp [he, h.plus_suffix]

theorem ofTypes_subtype (h : m.Normal) :
    ofTypes m.primary (String.ofList m.subtype) =
      { primary := m.primary
        sub := String.ofList (cutSuffix m.subtype).1
        suffix := String.ofList (cutSuffix m.subtype).2 } := by
  rw [ofTypes, h.lower_primary, toList_lower, String.toList_ofList, h.map_toLower_subtype]

/-- **The media types that are read back as they were written.** -/
theorem roundTrips_iff (h : m.Normal) :
    m.RoundTrips ↔ (m.suffix = "" → m.sub ≠ "" ∧ '+' ∉ m.sub.toList) := by
  rw [RoundTrips, parse_eq_ok_iff, parseField_format h.toWellFormed, map_eq_ok_iff]
  by_cases hnil : m.subtype = []
  · obtain ⟨hsub, hsuffix⟩ := subtype_eq_nil_iff.mp hnil
    rw [h.parseTypes_types_of_nil hnil]
    simp [hsuffix, hsub]
  · have hne : m.suffix = "" → m.sub ≠ "" := fun hsuffix hsub =>
      hnil (subtype_eq_nil_iff.mpr ⟨hsub, hsuffix⟩)
    have hcut : (m.suffix = "" → m.sub ≠ "" ∧ '+' ∉ m.sub.toList) ↔
        (m.suffix = "" → '+' ∉ m.sub.toList) :=
      ⟨fun hm he => (hm he).2, fun hm he => ⟨hne he, hm he⟩⟩
    rw [h.parseTypes_types hnil, hcut, ← h.cutSuffix_subtype_iff, h.ofTypes_subtype]
    constructor
    · rintro ⟨t, ht, hm⟩
      cases ht
      have hsub : String.ofList (cutSuffix m.subtype).1 = m.sub := congrArg sub hm
      have hsuffix : String.ofList (cutSuffix m.subtype).2 = m.suffix := congrArg suffix hm
      rw [← hsub, ← hsuffix, String.toList_ofList, String.toList_ofList]
    · intro he
      refine ⟨_, rfl, ?_⟩
      simp only [he, String.ofList_toList]

/-- Whatever becomes of the subtype, type and parameters are read back. -/
theorem kept_of_parse_format {n : MediaType} (h : m.Normal) (hn : parse m.format = .ok n) :
    n.primary = m.primary ∧ n.parameters = m.parameters := by
  rw [parse_eq_ok_iff, parseField_format h.toWellFormed, map_eq_ok_iff] at hn
  obtain ⟨t, ht, rfl⟩ := hn
  by_cases hnil : m.subtype = []
  · rw [h.parseTypes_types_of_nil hnil] at ht
    cases ht
  · rw [h.parseTypes_types hnil, h.ofTypes_subtype] at ht
    cases ht
    exact ⟨rfl, rfl⟩

end Normal

/-- **What was read is read back, if no plus sign is lost.**  A media type that was read is read
back as it was written just when it has a suffix, or a subtype without a plus sign.  In any case its
type and its parameters, in their order and with their values, are kept. -/
theorem roundTrips_iff_of_parse {value : String} (h : parse value = .ok m) :
    (m.RoundTrips ↔ (m.suffix = "" → m.sub ≠ "" ∧ '+' ∉ m.sub.toList)) ∧
      ∀ n, parse m.format = .ok n → n.primary = m.primary ∧ n.parameters = m.parameters :=
  ⟨(normal_of_parse h).roundTrips_iff, fun _ hn => (normal_of_parse h).kept_of_parse_format hn⟩

/-- A subtype with two plus signs, and a value that is given twice, the second time with a quote. -/
theorem roundTrips_iff_of_parse_two_plus_signs :
    parse "Application/A+B+xml; t=\"\\\\;\"; T=x\"y\n\"" =
        .ok ⟨"application", "a+b", "xml", ⟨[("t", "x\"y\n\"")]⟩⟩ ∧
      RoundTrips ⟨"application", "a+b", "xml", ⟨[("t", "x\"y\n\"")]⟩⟩ := by
  have h : parse "Application/A+B+xml; t=\"\\\\;\"; T=x\"y\n\"" =
      .ok ⟨"application", "a+b", "xml", ⟨[("t", "x\"y\n\"")]⟩⟩ := rfl
  exact ⟨h, (roundTrips_iff_of_parse h).1.mpr (by decide)⟩

/-- The plus sign at the end is lost, and then the one before it is taken for that of a suffix. -/
theorem not_roundTrips_of_plus_at_end :
    parse "application/vnd.a+b+" = .ok ⟨"application", "vnd.a+b", "", ⟨[]⟩⟩ ∧
      ¬ RoundTrips ⟨"application", "vnd.a+b", "", ⟨[]⟩⟩ :=
  ⟨rfl, by decide⟩

/-! ### Media types that were built -/

/-- Two tokens build a media type that is read back, unless the second ends with a plus sign. -/
theorem roundTrips_ofTypes {primary sub : String} (hprimary : isToken primary.toList = true)
    (hsub : isToken sub.toList = true) (hplus : sub.toList.getLast? ≠ some '+') :
    (ofTypes primary sub).RoundTrips := by
  rw [(normal_ofTypes hprimary hsub).roundTrips_iff]
  intro hsuffix
  have hcut : cutSuffix (lower sub).toList = ((ofTypes primary sub).sub.toList, []) := by
    have hb : (cutSuffix (lower sub).toList).2 = [] := by
      rwa [ofTypes, String.ofList_eq_empty_iff] at hsuffix
    rw [ofTypes, String.toList_ofList, ← hb]
  rcases cutSuffix_eq_iff.mp hcut with ⟨hm, he, -⟩ | ⟨he, -⟩
  · rw [he]
    refine ⟨fun hnil => ?_, hm⟩
    rw [← String.toList_eq_nil_iff, he, toList_lower, List.map_eq_nil_iff] at hnil
    exact (isToken_iff.mp hsub).1 hnil
  · have hlast : (sub.toList.getLast?).map Char.toLower = some '+' := by
      rw [← List.getLast?_map, ← toList_lower, he, List.getLast?_concat]
    obtain ⟨c, hc, hlower⟩ := Option.map_eq_some_iff.mp hlast
    rw [eq_of_toLower_eq hlower (by decide)] at hc
    exact absurd hc hplus

theorem RoundTrips.withParameters {pairs : List (String × String)} (hm : m.RoundTrips)
    (hnames : ∀ e ∈ pairs, isToken e.1.toList = true) :
    (pairs.foldl (fun m e => m.withParameter e.1 e.2) m).RoundTrips := by
  induction pairs generalizing m with
  | nil => exact hm
  | cons e rest ih =>
      exact ih (hm.withParameter (hnames e List.mem_cons_self) e.2)
        fun d hd => hnames d (List.mem_cons_of_mem _ hd)

/-- **What was built is read back.**  A media type that was built of two tokens, the second of which
does not end with a plus sign, is read back with all its parameters, whatever texts their values
are. -/
theorem roundTrips_built {primary sub : String} {pairs : List (String × String)}
    (hprimary : isToken primary.toList = true) (hsub : isToken sub.toList = true)
    (hplus : sub.toList.getLast? ≠ some '+') (hnames : ∀ e ∈ pairs, isToken e.1.toList = true) :
    (pairs.foldl (fun m e => m.withParameter e.1 e.2) (ofTypes primary sub)).RoundTrips :=
  (roundTrips_ofTypes hprimary hsub hplus).withParameters hnames

/-- Values with everything that means something in the text, and one that is given twice. -/
theorem roundTrips_built_punctuation :
    ([("Title", " \"a;b\\=\r\n"), ("q", ""), ("title", "é\\")].foldl
      (fun m e => m.withParameter e.1 e.2) (ofTypes "Text" "Vnd+x+JSON")).RoundTrips :=
  roundTrips_built (by decide) (by decide) (by decide) (by decide)

end Mime.MediaType
