import Mime.Disposition
import Mime.Proofs.Field.Splitting
import Mime.Proofs.Parameters

/-! # Dispositions that are written and read

The type and the names of the parameters are written as they are, and so are the name and the
filename, but between quotes.  So a disposition is read back as it was written (`parse_format`) if
it is `Regular`: its type and the names of its parameters are pieces in small letters without white
space around them, and its name and filename need no escape.  With tokens in place of pieces, and
without line breaks, it is `WireSafe`: it is written in one line (`not_break_of_mem_format`).

A disposition that was read has such a type, and names of parameters that are such pieces if no
quoted string is left open in them (`parsed_of_parse`).  So it is read back if it is `Kept`
(`roundTrips_of_parse`): no field is empty, and none has quotes that it is written with as if they
were those of the text. -/

namespace Mime.Disposition

open Text Mime.Field

/-- A text that stands between quotes as it is. -/
def IsUnescaped (s : String) : Prop :=
  s ≠ "" ∧ ∀ c ∈ s.toList, c ≠ '"' ∧ c ≠ '\\'

/-- A name that a parameter can have when it is written as it is: it is read as one name, and as
none of those that have a place of their own. -/
structure IsName (n : String) : Prop where
  whole : Whole n.toList
  equals : '=' ∉ n.toList
  trim_eq : trim n.toList = n.toList
  lower_eq : lower n = n
  ne_name : n ≠ "name"
  ne_filename : n ≠ "filename"

/-- A disposition that can be written and read back.  That the names of the parameters are distinct
holds of all that were set one after the other (`Parameters.nodup_names_insert`). -/
structure Regular (d : Disposition) : Prop where
  type_ne : d.type ≠ ""
  type_whole : Whole d.type.toList
  type_trim : trim d.type.toList = d.type.toList
  type_lower : lower d.type = d.type
  name : ∀ v ∈ d.name, IsUnescaped v
  filename : ∀ v ∈ d.filename, IsUnescaped v
  names : ∀ n ∈ d.parameters.names, IsName n
  nodup : d.parameters.names.Nodup

/-- A text that stands between quotes as it is, in one line. -/
def IsBare (s : String) : Prop :=
  s ≠ "" ∧ ∀ c ∈ s.toList, c ≠ '"' ∧ c ≠ '\\' ∧ c ≠ '\r' ∧ c ≠ '\n'

/-- A disposition that can be written in one line and read back. -/
structure WireSafe (d : Disposition) : Prop where
  type_token : isToken d.type.toList = true
  type_lower : lower d.type = d.type
  name : ∀ v ∈ d.name, IsBare v
  filename : ∀ v ∈ d.filename, IsBare v
  parameters : d.parameters.Canonical
  own_names : ∀ n ∈ d.parameters.names, n ≠ "name" ∧ n ≠ "filename"
  values : ∀ e ∈ d.parameters.entries, ∀ c ∈ e.2.toList, c ≠ '\r' ∧ c ≠ '\n'

variable {d : Disposition}

theorem IsBare.unescaped {s : String} (h : IsBare s) : IsUnescaped s :=
  ⟨h.1, fun c hc => ⟨(h.2 c hc).1, (h.2 c hc).2.1⟩⟩

theorem wireSafe_formField {name : String} (h : IsBare name) : (formField name).WireSafe := by
  have htoken : isToken "form-data".toList = true := by decide
  have hlower : lower "form-data" = "form-data" := by decide
  exact ⟨htoken, hlower, by simpa [formField] using h, nofun, Parameters.canonical_empty, nofun,
    nofun⟩

theorem isName_of_isToken {n : String} (h : isToken n.toList = true) (hlower : lower n = n)
    (hname : n ≠ "name") (hfilename : n ≠ "filename") : IsName n :=
  ⟨whole_of_isToken h, not_mem_of_isToken h (by decide), trim_of_isToken h, hlower, hname,
    hfilename⟩

theorem ne_of_isToken {s : String} (h : isToken s.toList = true) : s ≠ "" := by
  rintro rfl
  cases h

theorem regular_of_isToken (htoken : isToken d.type.toList = true) (hlower : lower d.type = d.type)
    (hname : ∀ v ∈ d.name, IsUnescaped v) (hfilename : ∀ v ∈ d.filename, IsUnescaped v)
    (hnames : ∀ n ∈ d.parameters.names, IsName n) (hdistinct : d.parameters.names.Nodup) :
    d.Regular :=
  ⟨ne_of_isToken htoken, whole_of_isToken htoken, trim_of_isToken htoken, hlower, hname, hfilename,
    hnames, hdistinct⟩

theorem WireSafe.regular (h : d.WireSafe) : d.Regular :=
  regular_of_isToken h.type_token h.type_lower (fun v hv => (h.name v hv).unescaped)
    (fun v hv => (h.filename v hv).unescaped)
    (fun n hn => isName_of_isToken (h.parameters.token n hn) (h.parameters.lower_eq n hn)
      (h.own_names n hn).1 (h.own_names n hn).2)
    h.parameters.nodup

/-! ### Reading one parameter -/

/-- What a piece sets: nothing if it has no equals sign, else the parameter around the first one. -/
theorem addPiece_eq_ok_iff {e : Disposition} {piece : List Char} :
    addPiece d piece = .ok e ↔
      (cutFirst '=' piece = none ∧ e = d) ∨
        ∃ name value v, cutFirst '=' piece = some (name, value) ∧
          unquote (trim value) = some v ∧
          e = d.assign (lower (String.ofList (trim name))) (String.ofList v) := by
  have hname : ∀ name, String.ofList ((trim name).map Char.toLower) =
      lower (String.ofList (trim name)) := by
    intro name
    rw [lower, String.toList_ofList]
  constructor
  · intro h
    unfold addPiece at h
    split at h
    · rename_i hcut
      cases h
      exact .inl ⟨hcut, rfl⟩
    · rename_i name value hcut
      dsimp only at h
      split at h
      · cases h
      · rename_i v hv
        cases h
        exact .inr ⟨name, value, v, hcut, hv, by rw [hname]⟩
  · rintro (⟨hcut, rfl⟩ | ⟨name, value, v, hcut, hv, rfl⟩)
    · simp only [addPiece, hcut]
    · simp only [addPiece, hcut, hv, hname]

/-- The type and the parameters that a text is read as. -/
theorem parse_eq_ok {value : String} (h : parse value = .ok d) :
    ∃ pieces, splitUnquoted value.toList = some pieces ∧
      pieces.tail.foldlM addPiece
        { type := String.ofList ((trim (pieces.headD [])).map Char.toLower) } = .ok d := by
  have hfield : parseField value = .ok d := mapError_eq_ok_iff.mp h
  unfold parseField at hfield
  split at hfield
  · cases hfield
  · rename_i pieces hsplit
    exact ⟨pieces, hsplit, hfield⟩

theorem addPiece_namedPiece {name v : String} {value : List Char} (hequals : '=' ∉ name.toList)
    (hname : trim name.toList = name.toList) (hlower : lower name = name)
    (hvalue : trim value = value) (hread : unquote value = some v.toList) (d : Disposition) :
    addPiece d (namedPiece name value) = .ok (d.assign name v) := by
  have hspace : '=' ∉ ' ' :: name.toList := by
    rw [List.mem_cons, not_or]
    exact ⟨by decide, hequals⟩
  have hmap : String.ofList (name.toList.map Char.toLower) = name := hlower
  have htrim : trim (' ' :: name.toList) = name.toList := by
    rw [trim_cons (by decide), hname]
  rw [addPiece, namedPiece, cutFirst_append hspace]
  simp only [htrim, hmap, hvalue, hread, String.ofList_toList]

theorem addPiece_parameterPiece {e : String × String} (h : IsName e.1) (d : Disposition) :
    addPiece d (parameterPiece e) =
      .ok { d with parameters := d.parameters.insert e.1 e.2 } := by
  rw [parameterPiece, addPiece_namedPiece h.equals h.trim_eq h.lower_eq (trim_quoteIfNeeded _)
    (unquote_quoteIfNeeded _), assign, if_neg h.ne_name, if_neg h.ne_filename]

theorem escape_eq_self : ∀ {s : List Char}, (∀ c ∈ s, c ≠ '"' ∧ c ≠ '\\') → Field.escape s = s
  | [], _ => rfl
  | c :: s, h => by
      have ih := escape_eq_self fun d hd => h d (List.mem_cons_of_mem _ hd)
      have hc := h c List.mem_cons_self
      rw [Field.escape] at ih ⊢
      rw [List.flatMap_cons, ih, if_neg (not_or.mpr hc)]
      rfl

theorem encloseInQuotes_of_isUnescaped {v : String} (h : IsUnescaped v) :
    encloseInQuotes v.toList = '"' :: Field.escape v.toList ++ ['"'] := by
  have hhead : v.toList.head? ≠ some '"' := fun hc => (h.2 _ (List.mem_of_mem_head? hc)).1 rfl
  have hlast : v.toList.getLast? ≠ some '"' := fun hc => (h.2 _ (List.mem_of_getLast? hc)).1 rfl
  rw [encloseInQuotes, if_neg hhead, if_neg (fun hc => hlast hc.1), escape_eq_self h.2]
  rfl

/-! ### The pieces of a disposition -/

/-- The piece of a parameter that is always written between quotes. -/
def quotedPiece (name v : String) : List Char :=
  namedPiece name ('"' :: Field.escape v.toList ++ ['"'])

/-- The piece of the name or the filename, if there is one. -/
def ownPieces (name : String) (value : Option String) : List (List Char) :=
  value.toList.map (quotedPiece name)

theorem formatQuoted_eq {name : String} {value : Option String} (h : ∀ v ∈ value, IsUnescaped v) :
    formatQuoted name value = (ownPieces name value).flatMap fun t => ';' :: t := by
  cases value with
  | none => rfl
  | some v =>
      have hv := h v rfl
      have hne : v.isEmpty = false := by
        rw [Bool.eq_false_iff]
        exact fun he => hv.1 (String.isEmpty_iff.mp he)
      rw [formatQuoted]
      rw [hne, if_neg (by simp), encloseInQuotes_of_isUnescaped hv]
      simp [ownPieces, quotedPiece, namedPiece]

/-- All pieces behind the type. -/
def pieces (d : Disposition) : List (List Char) :=
  ownPieces "name" d.name ++ ownPieces "filename" d.filename ++
    d.parameters.entries.map parameterPiece

theorem toList_format_of_ne (hne : d.type ≠ "") :
    d.format.toList = d.type.toList ++ formatQuoted "name" d.name ++
      formatQuoted "filename" d.filename ++ d.parameters.format := by
  have htype : d.type.isEmpty = false := by simpa using hne
  rw [format, htype, if_neg (by simp), String.toList_ofList]

theorem toList_format (h : d.Regular) :
    d.format.toList = d.type.toList ++ d.pieces.flatMap fun t => ';' :: t := by
  rw [toList_format_of_ne h.type_ne, formatQuoted_eq h.name, formatQuoted_eq h.filename, format_eq,
    pieces, List.flatMap_append, List.flatMap_append]
  simp

theorem whole_ownPieces {name : String} (hname : isToken name.toList = true)
    (value : Option String) : ∀ t ∈ ownPieces name value, Whole t := by
  intro t ht
  obtain ⟨v, -, rfl⟩ := List.mem_map.mp ht
  exact whole_namedPiece (whole_of_isToken hname) (whole_quoted v.toList)

theorem whole_pieces (h : d.Regular) : ∀ t ∈ d.pieces, Whole t := by
  intro t ht
  rw [pieces, List.mem_append, List.mem_append] at ht
  rcases ht with (ht | ht) | ht
  · exact whole_ownPieces (by decide) d.name t ht
  · exact whole_ownPieces (by decide) d.filename t ht
  · obtain ⟨e, he, rfl⟩ := List.mem_map.mp ht
    exact whole_parameterPiece (h.names e.1 (List.mem_map_of_mem he)).whole

/-! ### Reading what was written -/

theorem foldlM_ownPieces {name : String} (hname : isToken name.toList = true)
    (hlower : lower name = name) (value : Option String) (d : Disposition) :
    (ownPieces name value).foldlM addPiece d =
      .ok (value.elim d fun v => d.assign name v) := by
  cases value with
  | none => rfl
  | some v =>
      have hpiece : addPiece d (quotedPiece name v) = .ok (d.assign name v) :=
        addPiece_namedPiece (not_mem_of_isToken hname (by decide)) (trim_of_isToken hname) hlower
          (trim_quoted _) (unquoteFrom_escape v.toList []) d
      show (addPiece d (quotedPiece name v) >>= fun d => pure d) = _
      rw [hpiece]
      rfl

theorem foldlM_parameters : ∀ {l : List (String × String)} (d : Disposition),
    (∀ e ∈ l, IsName e.1) →
    (l.map parameterPiece).foldlM addPiece d =
      .ok { d with parameters := l.foldl (fun q e => q.insert e.1 e.2) d.parameters }
  | [], _, _ => rfl
  | e :: l, d, h => by
      rw [List.map_cons, List.foldlM_cons, addPiece_parameterPiece (h e List.mem_cons_self)]
      exact foldlM_parameters _ fun f hf => h f (List.mem_cons_of_mem _ hf)

/-- **A disposition that can be written is read back.** -/
theorem parse_format (h : d.Regular) : parse d.format = .ok d := by
  have hsplit := splitUnquoted_pieces h.type_whole (whole_pieces h)
  rw [← toList_format h] at hsplit
  have htype : String.ofList ((trim d.type.toList).map Char.toLower) = d.type := by
    rw [h.type_trim]
    exact h.type_lower
  have hnames : ∀ e ∈ d.parameters.entries, IsName e.1 := fun e he =>
    h.names e.1 (List.mem_map_of_mem he)
  have hparams := Parameters.foldl_insert (fun e he => (hnames e he).lower_eq) h.nodup
  have hfold := foldlM_parameters { type := d.type, name := d.name, filename := d.filename } hnames
  have hown : d.pieces.foldlM addPiece { type := d.type } = .ok d := by
    rw [pieces, List.foldlM_append, List.foldlM_append,
      foldlM_ownPieces (by decide) (by decide)]
    show ((ownPieces "filename" d.filename).foldlM addPiece _ >>= _) = _
    rw [foldlM_ownPieces (by decide) (by decide)]
    show (d.parameters.entries.map parameterPiece).foldlM addPiece _ = _
    rw [hparams] at hfold
    rw [← hfold]
    cases d.name <;> cases d.filename <;> rfl
  rw [parse, parseField, hsplit]
  dsimp only
  rw [List.headD_cons, List.tail_cons, htype, hown]
  rfl

/-- **What can stand in a disposition is read back.**  The type is a token in small letters, the
name and the filename are absent or not empty and without quotes and backslashes, and the parameters
have distinct tokens in small letters as names, other than these two, and any texts as values. -/
theorem parse_format_of_unescaped (htoken : isToken d.type.toList = true)
    (hlower : lower d.type = d.type)
    (hname : ∀ v ∈ d.name, v ≠ "" ∧ ∀ c ∈ v.toList, c ≠ '"' ∧ c ≠ '\\')
    (hfilename : ∀ v ∈ d.filename, v ≠ "" ∧ ∀ c ∈ v.toList, c ≠ '"' ∧ c ≠ '\\')
    (hnames : ∀ n ∈ d.parameters.names,
      isToken n.toList = true ∧ lower n = n ∧ n ≠ "name" ∧ n ≠ "filename")
    (hdistinct : d.parameters.names.Nodup) : parse d.format = .ok d := by
  refine parse_format (regular_of_isToken htoken hlower hname hfilename (fun n hn => ?_) hdistinct)
  obtain ⟨hn, hsmall, hown⟩ := hnames n hn
  exact isName_of_isToken hn hsmall hown.1 hown.2

/-- Names that look like parameters, with spaces around them, and values that need escapes. -/
theorem parse_format_of_unescaped_punctuation :
    parse (format
      ⟨"attachment", some " a; size=1 ", some "é=\r\n;", ⟨[("size", "\"\\;\n"), ("x", "")]⟩⟩) =
        .ok ⟨"attachment", some " a; size=1 ", some "é=\r\n;",
          ⟨[("size", "\"\\;\n"), ("x", "")]⟩⟩ :=
  parse_format_of_unescaped (by decide) (by decide) (by simp) (by simp) (by decide) (by decide)

/-! ### The text of a disposition -/

theorem not_break_of_mem_ownPieces {name : String} {value : Option String}
    (hname : isToken name.toList = true) (hvalue : ∀ v ∈ value, IsBare v) :
    ∀ t ∈ ownPieces name value, ∀ c ∈ t, c ≠ '\r' ∧ c ≠ '\n' := by
  intro t ht c hc
  obtain ⟨v, hv, rfl⟩ := List.mem_map.mp ht
  have hbare := hvalue v (Option.mem_toList.mp hv)
  rw [quotedPiece, escape_eq_self fun c hc => ⟨(hbare.2 c hc).1, (hbare.2 c hc).2.1⟩] at hc
  simp only [namedPiece, List.cons_append, List.mem_append, List.mem_cons, List.not_mem_nil,
    or_false] at hc
  rcases hc with rfl | hc | rfl | rfl | hc | rfl
  · decide
  · exact not_break_of_isToken hname c hc
  · decide
  · decide
  · exact (hbare.2 c hc).2.2
  · decide

theorem not_break_of_mem_format (h : d.WireSafe) :
    ∀ c ∈ d.format.toList, c ≠ '\r' ∧ c ≠ '\n' := by
  intro c hc
  rw [toList_format h.regular, pieces, List.flatMap_append, List.flatMap_append,
    ← format_eq] at hc
  simp only [List.mem_append, List.mem_flatMap, List.mem_cons] at hc
  rcases hc with hc | (⟨t, ht, rfl | hc⟩ | ⟨t, ht, rfl | hc⟩) | hc
  · exact not_break_of_isToken h.type_token c hc
  · decide
  · exact not_break_of_mem_ownPieces (by decide) h.name t ht c hc
  · decide
  · exact not_break_of_mem_ownPieces (by decide) h.filename t ht c hc
  · exact Parameters.not_break_of_mem_format h.parameters h.values c hc

theorem trim_format (h : d.Regular) : trim d.format.toList = d.format.toList := by
  rw [toList_format h]
  have htype : d.type.toList ≠ [] := fun he => h.type_ne (String.toList_eq_nil_iff.mp he)
  refine trim_append htype h.type_trim (getLast?_pieces fun t ht => ?_)
  have hown : ∀ (name : String) (value : Option String), ∀ t ∈ ownPieces name value,
      t ≠ [] ∧ ∀ c ∈ t.getLast?, isSpace c = false := by
    intro name value t ht
    obtain ⟨v, -, rfl⟩ := List.mem_map.mp ht
    exact ⟨by simp [quotedPiece, namedPiece], getLast?_namedPiece _ (by simp) (trim_quoted _)⟩
  rw [pieces, List.mem_append, List.mem_append] at ht
  rcases ht with (ht | ht) | ht
  · exact hown "name" d.name t ht
  · exact hown "filename" d.filename t ht
  · exact Parameters.getLast?_parameterPieces d.parameters.entries t ht

/-! ### Dispositions that were read -/

/-- Written and read again, the disposition is the same. -/
def RoundTrips (d : Disposition) : Prop :=
  parse d.format = .ok d

/-- What holds of a disposition that was read: its type and the names of its parameters are parts of
the pieces that they were read from, in small letters. -/
structure Parsed (d : Disposition) : Prop where
  type_whole : Whole d.type.toList
  type_trim : trim d.type.toList = d.type.toList
  type_lower : lower d.type = d.type
  names : ∀ n ∈ d.parameters.names, QuotesClosed n.toList → IsName n
  nodup : d.parameters.names.Nodup

/-- What stands in front of the equals sign of a piece is read as a name again, unless a quoted
string in it goes on behind the equals sign. -/
theorem isName_of_cutFirst {piece name value : List Char} (hpiece : Whole piece)
    (hcut : cutFirst '=' piece = some (name, value)) {n : String}
    (hn : n.toList = (trim name).map Char.toLower) (hlower : lower n = n) (hname : n ≠ "name")
    (hfilename : n ≠ "filename") (hclosed : QuotesClosed n.toList) : IsName n := by
  obtain ⟨rfl, hequals⟩ := cutFirst_eq_some_iff.mp hcut
  have hscan : scan .outside (trim name) = .outside := by
    rw [← scan_map_toLower, ← hn]
    exact scan_of_quotesClosed hclosed
  have hwhole : Whole (trim name) := by
    obtain ⟨before, after, hbefore, -, hs⟩ := exists_trim name
    have hfront : scan .outside before = .outside :=
      (scan_eq_outside_iff_of_not_mem (not_quote_of_blank hbefore)).mpr rfl
    rw [hs, List.append_assoc, List.append_assoc] at hpiece
    exact hpiece.middle hfront hscan
  refine ⟨hn ▸ hwhole.map_toLower, fun hm => ?_, ?_, hlower, hname, hfilename⟩
  · rw [hn] at hm
    obtain ⟨c, hc, he⟩ := List.mem_map.mp hm
    rw [eq_of_toLower_eq he (.inl (by decide))] at hc
    exact hequals (mem_of_mem_trim hc)
  · rw [hn]
    exact trim_map_toLower (trim_trim name)

theorem Parsed.addPiece {e : Disposition} {piece : List Char} (h : d.Parsed) (hpiece : Whole piece)
    (hd : addPiece d piece = .ok e) : e.Parsed := by
  rcases addPiece_eq_ok_iff.mp hd with ⟨-, rfl⟩ | ⟨name, value, v, hcut, -, rfl⟩
  · exact h
  have hn : (lower (String.ofList (trim name))).toList = (trim name).map Char.toLower := by
    rw [toList_lower, String.toList_ofList]
  have hlower := lower_lower (String.ofList (trim name))
  unfold assign
  split
  · exact ⟨h.type_whole, h.type_trim, h.type_lower, h.names, h.nodup⟩
  split
  · exact ⟨h.type_whole, h.type_trim, h.type_lower, h.names, h.nodup⟩
  rename_i hname hfilename
  refine ⟨h.type_whole, h.type_trim, h.type_lower, fun n hm => ?_,
    Parameters.nodup_names_insert h.nodup _ _⟩
  obtain ⟨f, hf, rfl⟩ := List.mem_map.mp hm
  rcases Parameters.mem_insert hf with hf | rfl
  · exact h.names f.1 (List.mem_map_of_mem hf)
  · dsimp only
    rw [hlower]
    exact isName_of_cutFirst hpiece hcut hn hlower hname hfilename

theorem parsed_of_parse {value : String} (h : parse value = .ok d) : d.Parsed := by
  obtain ⟨pieces, hsplit, hpieces⟩ := parse_eq_ok h
  refine invariant_of_foldlM (fun t ht _ _ ha => ha.addPiece
    (whole_of_mem_splitUnquoted hsplit (List.mem_of_mem_tail ht))) ?_ hpieces
  have hwhole : Whole (trim (pieces.headD [])) := by
    cases pieces with
    | nil => exact whole_nil
    | cons t rest => exact (whole_of_mem_splitUnquoted hsplit List.mem_cons_self).trim
  have htrim : trim (trim (pieces.headD [])) = trim (pieces.headD []) := trim_trim _
  generalize trim (pieces.headD []) = type at hwhole htrim
  have hlower : String.ofList (type.map Char.toLower) = lower (String.ofList type) := by
    rw [lower, String.toList_ofList]
  have htoList : (lower (String.ofList type)).toList = type.map Char.toLower := by
    rw [toList_lower, String.toList_ofList]
  rw [hlower]
  refine ⟨?_, ?_, lower_lower _, fun n hn => absurd hn List.not_mem_nil, List.nodup_nil⟩
  · rw [htoList]
    exact hwhole.map_toLower
  · rw [htoList]
    exact trim_map_toLower htrim

/-- A disposition of which nothing is lost or changed when it is written: it has a type, its name
and its filename are absent or not empty and need no escape, and each quoted string in the name of
another parameter ends in that name. -/
structure Kept (d : Disposition) : Prop where
  type_ne : d.type ≠ ""
  name : ∀ v ∈ d.name, IsUnescaped v
  filename : ∀ v ∈ d.filename, IsUnescaped v
  names : ∀ n ∈ d.parameters.names, QuotesClosed n.toList

/-- **What was read is read back**, whatever its type and the names and values of its parameters, if
no part of it is empty and quotes are where they mean no harm. -/
theorem roundTrips_of_parse {value : String} (h : parse value = .ok d) (hk : d.Kept) :
    d.RoundTrips := by
  have hd := parsed_of_parse h
  exact parse_format ⟨hk.type_ne, hd.type_whole, hd.type_trim, hd.type_lower, hk.name, hk.filename,
    fun n hn => hd.names n hn (hk.names n hn), hd.nodup⟩

/-! ### Dispositions that were read from one line -/

/-- What holds of a disposition that was read from one line. -/
structure Legible (d : Disposition) : Prop where
  type_trim : trim d.type.toList = d.type.toList
  type : '\n' ∉ d.type.toList
  name : ∀ v ∈ d.name, '\n' ∉ v.toList
  filename : ∀ v ∈ d.filename, '\n' ∉ v.toList
  parameters : ∀ e ∈ d.parameters.entries, '\n' ∉ e.1.toList ∧ '\n' ∉ e.2.toList

theorem not_mem_map_toLower {s : List Char} (h : '\n' ∉ s) : '\n' ∉ s.map Char.toLower := by
  intro hm
  obtain ⟨c, hc, he⟩ := List.mem_map.mp hm
  exact h (eq_of_toLower_eq he (by decide) ▸ hc)

theorem Legible.assign (h : d.Legible) {name value : String} (hname : '\n' ∉ name.toList)
    (hvalue : '\n' ∉ value.toList) : (d.assign name value).Legible := by
  unfold Disposition.assign
  split
  · exact ⟨h.type_trim, h.type, by simpa using hvalue, h.filename, h.parameters⟩
  · split
    · exact ⟨h.type_trim, h.type, h.name, by simpa using hvalue, h.parameters⟩
    · refine ⟨h.type_trim, h.type, h.name, h.filename, fun e he => ?_⟩
      rcases Parameters.mem_insert he with he | rfl
      · exact h.parameters e he
      · refine ⟨?_, hvalue⟩
        rw [toList_lower]
        exact not_mem_map_toLower hname

theorem Legible.addPiece {e : Disposition} {piece : List Char} (h : d.Legible)
    (hpiece : '\n' ∉ piece) (hd : addPiece d piece = .ok e) : e.Legible := by
  rcases addPiece_eq_ok_iff.mp hd with ⟨-, rfl⟩ | ⟨name, value, v, hcut, hv, rfl⟩
  · exact h
  · apply h.assign
    · rw [toList_lower, String.toList_ofList]
      apply not_mem_map_toLower
      intro hm
      exact hpiece ((mem_of_cutFirst hcut).1 (mem_of_mem_trim hm))
    · rw [String.toList_ofList]
      intro hm
      exact hpiece ((mem_of_cutFirst hcut).2 (mem_of_mem_trim (mem_of_unquote hv hm)))

/-- A disposition that is read from one line is legible. -/
theorem legible_of_parse {value : String} (h : parse value = .ok d) (hvalue : '\n' ∉ value.toList) :
    d.Legible := by
  obtain ⟨pieces, hsplit, hpiece⟩ := parse_eq_ok h
  have hpieces : ∀ t ∈ pieces, '\n' ∉ t := fun t ht hm =>
    hvalue (mem_of_splitUnquoted hsplit ht hm)
  have hfirst : '\n' ∉ pieces.headD [] := by
    cases pieces with
    | nil => exact List.not_mem_nil
    | cons t rest => exact hpieces t List.mem_cons_self
  refine invariant_of_foldlM
    (fun t ht _ _ ha => ha.addPiece (hpieces t (List.mem_of_mem_tail ht))) ?_ hpiece
  refine ⟨?_, ?_, by simp, by simp, by simp [Parameters.empty]⟩
  · rw [String.toList_ofList]
    exact trim_map_toLower (trim_trim _)
  · rw [String.toList_ofList]
    exact not_mem_map_toLower fun hm => hfirst (mem_of_mem_trim hm)

theorem not_mem_formatQuoted {name : String} {value : Option String} (hname : '\n' ∉ name.toList)
    (hvalue : ∀ v ∈ value, '\n' ∉ v.toList) : '\n' ∉ formatQuoted name value := by
  cases value with
  | none => exact List.not_mem_nil
  | some v =>
      simp only [formatQuoted]
      split
      · exact List.not_mem_nil
      · intro hm
        simp only [List.mem_append, List.mem_cons, List.not_mem_nil, or_false] at hm
        rcases hm with ((hm | hm) | hm) | hm | hm
        · revert hm
          decide
        · revert hm
          decide
        · exact hname hm
        · revert hm
          decide
        · rcases mem_encloseInQuotes hm with hm | hm
          · exact hvalue v rfl hm
          · revert hm
            decide

namespace Legible

theorem not_mem_format (h : d.Legible) : '\n' ∉ d.format.toList := by
  by_cases hne : d.type = ""
  · have he : d.format = "" := by
      rw [format, hne]
      rfl
    rw [he]
    decide
  · rw [toList_format_of_ne hne]
    simp only [List.mem_append, not_or]
    refine ⟨⟨⟨h.type, ?_⟩, ?_⟩, fun hm => ?_⟩
    · exact not_mem_formatQuoted (by decide) h.name
    · exact not_mem_formatQuoted (by decide) h.filename
    · rcases Parameters.mem_format hm with ⟨e, he, hm | hm⟩ | hm
      · exact (h.parameters e he).1 hm
      · exact (h.parameters e he).2 hm
      · revert hm
        decide

theorem getLast?_formatQuoted (name : String) (value : Option String) :
    ∀ c ∈ (formatQuoted name value).getLast?, isSpace c = false := by
  cases value with
  | none => simp [formatQuoted]
  | some v =>
      simp only [formatQuoted]
      split
      · simp
      · have hlast := getLast?_encloseInQuotes v.toList
        have hne : encloseInQuotes v.toList ≠ [] := by
          intro he
          rw [he] at hlast
          cases hlast
        rw [List.getLast?_append, List.getLast?_cons_of_ne_nil hne, hlast, Option.some_or]
        simp only [Option.mem_def, Option.some.injEq, forall_eq']
        decide

theorem trim_format (h : d.Legible) (hne : d.type ≠ "") :
    trim d.format.toList = d.format.toList := by
  have htype : d.type.toList ≠ [] := fun he => hne (String.toList_eq_nil_iff.mp he)
  have hname := trim_append htype h.type_trim (getLast?_formatQuoted "name" d.name)
  have hnil : ∀ {s t : List Char}, s ≠ [] → s ++ t ≠ [] := fun hs he =>
    hs (List.append_eq_nil_iff.mp he).1
  have hfilename := trim_append (hnil htype) hname (getLast?_formatQuoted "filename" d.filename)
  rw [toList_format_of_ne hne]
  exact trim_append (hnil (hnil htype)) hfilename Parameters.getLast?_format

end Legible

/-- A disposition that is written in one line, without white space around it, and is read back. -/
structure Rereadable (d : Disposition) : Prop where
  type_ne : d.type ≠ ""
  roundTrips : d.RoundTrips
  trim_format : trim d.format.toList = d.format.toList
  not_mem_format : '\n' ∉ d.format.toList

theorem WireSafe.rereadable (h : d.WireSafe) : d.Rereadable where
  type_ne := by
    intro he
    have := isEmpty_of_isToken h.type_token
    rw [he] at this
    cases this
  roundTrips := parse_format h.regular
  trim_format := Disposition.trim_format h.regular
  not_mem_format := fun hm => (not_break_of_mem_format h _ hm).2 rfl

theorem Legible.rereadable (h : d.Legible) (hne : d.type ≠ "") (hd : d.RoundTrips) :
    d.Rereadable :=
  ⟨hne, hd, h.trim_format hne, h.not_mem_format⟩

theorem Rereadable.format_ne_empty (h : d.Rereadable) : d.format ≠ "" := by
  intro he
  have hl := toList_format_of_ne h.type_ne
  rw [he] at hl
  simp only [List.append_assoc] at hl
  exact h.type_ne (String.toList_eq_nil_iff.mp (List.append_eq_nil_iff.mp hl.symm).1)

end Mime.Disposition
