import Mime.MediaType
import Mime.Proofs.Field.Spelling
import Mime.Proofs.Parameters

/-! # Media types that are written and read

A media type that was read is `WellFormed`: its type is a token, its subtype and suffix are of token
characters, and its parameters are canonical.  Written and read again, a well-formed media type
keeps its parameters, so only its type and subtype decide whether it is the same
(`parseField_format`).  Therefore a media type that is read back as it was written still is with
another parameter (`RoundTrips.withParameter`). -/

namespace Mime.MediaType

open Text Mime.Field

/-- Written and read again, the media type is the same. -/
def RoundTrips (m : MediaType) : Prop :=
  parse m.format = .ok m

instance (m : MediaType) : Decidable m.RoundTrips :=
  match h : parse m.format with
  | .ok n => decidable_of_iff (n = m) (by rw [RoundTrips, h, Except.ok.injEq])
  | .error e => .isFalse (by rw [RoundTrips, h]; exact nofun)

/-- What holds of a media type that was read. -/
structure WellFormed (m : MediaType) : Prop where
  primary : isToken m.primary.toList = true
  sub : ∀ c ∈ m.sub.toList, isTokenChar c = true
  suffix : ∀ c ∈ m.suffix.toList, isTokenChar c = true
  parameters : m.parameters.Canonical

variable {m : MediaType}

/-! ### Reading gives well-formed media types -/

theorem parse_eq_ok_iff {value : String} : parse value = .ok m ↔ parseField value = .ok m :=
  mapError_eq_ok_iff

theorem mem_of_cutSuffix {c : Char} {s : List Char} :
    (c ∈ (cutSuffix s).1 → c ∈ s) ∧ (c ∈ (cutSuffix s).2 → c ∈ s) := by
  unfold cutSuffix cutLast
  cases h : cutFirst '+' s.reverse with
  | none => simp
  | some cut =>
      obtain ⟨after, before⟩ := cut
      have hm := mem_of_cutFirst (c := c) h
      simpa [And.comm] using hm

/-- The types that are read: two tokens around the first slash, the second of them cut at its last
plus sign. -/
theorem parseTypes_eq_ok_iff {value : String} {piece : List Char} :
    parseTypes value piece = .ok m ↔
      ∃ primary sub, cutFirst '/' ((trim piece).map Char.toLower) = some (primary, sub) ∧
        isToken (trim primary) = true ∧ isToken (trim sub) = true ∧
        m = { primary := String.ofList (trim primary)
              sub := String.ofList (cutSuffix (trim sub)).1
              suffix := String.ofList (cutSuffix (trim sub)).2 } := by
  constructor
  · intro h
    unfold parseTypes at h
    split at h
    · cases h
    · rename_i primary sub hcut
      dsimp only at h
      split at h
      · cases h
      · rename_i hprimary
        split at h
        · cases h
        · rename_i hsub
          simp only [Bool.not_eq_true', Bool.not_eq_false] at hprimary hsub
          cases h
          exact ⟨primary, sub, hcut, hprimary, hsub, rfl⟩
  · rintro ⟨primary, sub, hcut, hprimary, hsub, rfl⟩
    simp only [parseTypes, hcut, hprimary, hsub, Bool.not_true, Bool.false_eq_true, if_false]

theorem wellFormed_of_parseTypes {value : String} {piece : List Char}
    (h : parseTypes value piece = .ok m) :
    isToken m.primary.toList = true ∧ (∀ c ∈ m.sub.toList, isTokenChar c = true) ∧
      (∀ c ∈ m.suffix.toList, isTokenChar c = true) := by
  obtain ⟨primary, sub, -, hprimary, hsub, rfl⟩ := parseTypes_eq_ok_iff.mp h
  have hchars := (isToken_iff.mp hsub).2
  simp only [String.toList_ofList]
  exact ⟨hprimary, fun c hc => hchars c (mem_of_cutSuffix.1 hc),
    fun c hc => hchars c (mem_of_cutSuffix.2 hc)⟩

/-- The whole text only shows in messages. -/
theorem parseTypes_congr {value : String} {piece : List Char} {t : MediaType}
    (h : parseTypes value piece = .ok t) (other : String) : parseTypes other piece = .ok t :=
  parseTypes_eq_ok_iff.mpr (parseTypes_eq_ok_iff.mp h)

/-- What a piece sets: nothing if it is blank, else the parameter around its first equals sign. -/
theorem addPiece_eq_ok_iff {p q : Parameters} {piece : List Char} :
    addPiece p piece = .ok q ↔
      (trim piece = [] ∧ q = p) ∨
        ∃ name value v, cutFirst '=' (trim piece) = some (name, value) ∧
          isToken (trim name) = true ∧ unquote (trim value) = some v ∧
          q = p.insert (String.ofList (trim name)) (String.ofList v) := by
  by_cases hblank : trim piece = []
  · have hkept : addPiece p piece = .ok p := by
      rw [addPiece, hblank]
      rfl
    rw [hkept, hblank, Except.ok.injEq]
    constructor
    · rintro rfl
      exact .inl ⟨rfl, rfl⟩
    · rintro (⟨-, rfl⟩ | ⟨name, value, v, hcut, -⟩)
      · rfl
      · cases hcut
  · have hempty : (trim piece).isEmpty = false := List.isEmpty_eq_false_iff.mpr hblank
    simp only [addPiece, hempty, Bool.false_eq_true, if_false, hblank, false_and, false_or]
    constructor
    · intro h
      split at h
      · cases h
      · rename_i name value hcut
        split at h
        · cases h
        · rename_i hname
          split at h
          · cases h
          · rename_i v hv
            cases h
            exact ⟨name, value, v, hcut, by simpa using hname, hv, rfl⟩
    · rintro ⟨name, value, v, hcut, hname, hv, rfl⟩
      simp only [hcut, hname, hv, Bool.not_true, Bool.false_eq_true, if_false]

theorem canonical_addPiece {p q : Parameters} {piece : List Char} (hp : p.Canonical)
    (h : addPiece p piece = .ok q) : q.Canonical := by
  rcases addPiece_eq_ok_iff.mp h with ⟨-, rfl⟩ | ⟨name, value, v, -, hname, -, rfl⟩
  · exact hp
  · exact hp.insert (by simpa using hname) _

theorem not_mem_addPiece {c : Char} {p q : Parameters} {piece : List Char} (hc : c ∉ piece)
    (hp : ∀ e ∈ p.entries, c ∉ e.2.toList) (h : addPiece p piece = .ok q) :
    ∀ e ∈ q.entries, c ∉ e.2.toList := by
  rcases addPiece_eq_ok_iff.mp h with ⟨-, rfl⟩ | ⟨name, value, v, hcut, -, hv, rfl⟩
  · exact hp
  · intro e he
    rcases Parameters.mem_insert he with he | rfl
    · exact hp e he
    · intro hm
      rw [String.toList_ofList] at hm
      exact hc (mem_of_mem_trim ((mem_of_cutFirst hcut).2 (mem_of_mem_trim (mem_of_unquote hv hm))))

theorem parseField_eq_ok {value : String} (h : parseField value = .ok m) :
    ∃ pieces types, splitUnquoted value.toList = some pieces ∧
      parseTypes value (pieces.headD []) = .ok types ∧
      pieces.tail.foldlM addPiece Parameters.empty = .ok m.parameters ∧
      m = { types with parameters := m.parameters } := by
  unfold parseField at h
  split at h
  · cases h
  · rename_i pieces hsplit
    obtain ⟨types, htypes, hrest⟩ := bind_eq_ok_iff.mp h
    obtain ⟨parameters, hparams, hm⟩ := bind_eq_ok_iff.mp hrest
    cases hm
    exact ⟨pieces, types, hsplit, htypes, hparams, rfl⟩

/-- Whatever text is read as a media type, the media type is well formed. -/
theorem wellFormed_of_parseField {value : String} (h : parseField value = .ok m) :
    m.WellFormed := by
  obtain ⟨pieces, types, -, htypes, hparams, hm⟩ := parseField_eq_ok h
  have ht := wellFormed_of_parseTypes htypes
  rw [hm]
  exact ⟨ht.1, ht.2.1, ht.2.2, invariant_of_foldlM
    (fun _ _ _ _ => canonical_addPiece) Parameters.canonical_empty hparams⟩

theorem not_mem_of_parseField {c : Char} {value : String} (h : parseField value = .ok m)
    (hc : c ∉ value.toList) : ∀ e ∈ m.parameters.entries, c ∉ e.2.toList := by
  obtain ⟨pieces, -, hsplit, -, hparams, -⟩ := parseField_eq_ok h
  refine invariant_of_foldlM
    (P := fun p => ∀ e ∈ p.entries, c ∉ e.2.toList) (fun piece hpiece _ _ => ?_) ?_ hparams
  · exact not_mem_addPiece fun hm =>
      hc (mem_of_splitUnquoted hsplit (List.mem_of_mem_tail hpiece) hm)
  · simp [Parameters.empty]

/-! ### The text of a media type -/

/-- The text of the type and subtype. -/
def types (m : MediaType) : List Char :=
  m.primary.toList ++ '/' :: m.sub.toList ++
    if m.suffix.isEmpty then [] else '+' :: m.suffix.toList

theorem toList_format (hne : m.isEmpty = false) :
    m.format.toList = m.types ++ m.parameters.format := by
  rw [format, hne, if_neg (by simp), String.toList_ofList, types]

theorem mem_types {c : Char} (h : m.WellFormed) (hc : c ∈ m.types) :
    isTokenChar c = true ∨ c = '/' ∨ c = '+' := by
  simp only [types, List.mem_append, List.mem_cons] at hc
  rcases hc with (hc | rfl | hc) | hc
  · exact .inl ((isToken_iff.mp h.primary).2 c hc)
  · simp
  · exact .inl (h.sub c hc)
  · split at hc
    · cases hc
    · rcases List.mem_cons.mp hc with rfl | hc
      · simp
      · exact .inl (h.suffix c hc)

theorem isEmpty_eq_false (h : isToken m.primary.toList = true) : m.isEmpty = false := by
  rw [isEmpty, isEmpty_of_isToken h, Bool.false_and]

theorem whole_types (h : m.WellFormed) : Whole m.types := by
  apply whole_of_forall
  intro c hc
  rcases mem_types h hc with hc | rfl | rfl
  · exact isTokenChar_ne hc
  · decide
  · decide

theorem trim_types (h : m.WellFormed) : trim m.types = m.types := by
  have hspace : ∀ c ∈ m.types, isSpace c = false := by
    intro c hc
    rcases mem_types h hc with hc | rfl | rfl
    · exact isSpace_of_isTokenChar hc
    · decide
    · decide
  exact trim_eq_self (fun c hc => hspace c (List.mem_of_mem_head? hc))
    fun c hc => hspace c (List.mem_of_getLast? hc)

theorem types_ne_nil (m : MediaType) : m.types ≠ [] := by
  simp [types]

theorem trim_format (h : m.WellFormed) : trim m.format.toList = m.format.toList := by
  rw [toList_format (isEmpty_eq_false h.primary)]
  exact trim_append (types_ne_nil m) (trim_types h) Parameters.getLast?_format

theorem format_ne_empty (h : m.WellFormed) : m.format ≠ "" := by
  intro he
  have hl := toList_format (isEmpty_eq_false h.primary)
  rw [he] at hl
  exact types_ne_nil m (List.append_eq_nil_iff.mp hl.symm).1

theorem not_mem_format (h : m.WellFormed)
    (hvalues : ∀ e ∈ m.parameters.entries, '\n' ∉ e.2.toList) : '\n' ∉ m.format.toList := by
  rw [toList_format (isEmpty_eq_false h.primary), List.mem_append, not_or]
  constructor
  · intro hm
    rcases mem_types h hm with hm | hm | hm
    · exact (not_break_of_isTokenChar hm).2 rfl
    · revert hm
      decide
    · revert hm
      decide
  · intro hm
    rcases Parameters.mem_format hm with ⟨e, he, hm | hm⟩ | hm
    · exact (not_break_of_isToken (h.parameters.token e.1 (List.mem_map_of_mem he)) _ hm).2 rfl
    · exact hvalues e he hm
    · revert hm
      decide

theorem not_break_of_mem_format (h : m.WellFormed)
    (hvalues : ∀ e ∈ m.parameters.entries, ∀ c ∈ e.2.toList, c ≠ '\r' ∧ c ≠ '\n') :
    ∀ c ∈ m.format.toList, c ≠ '\r' ∧ c ≠ '\n' := by
  intro c hc
  rw [toList_format (isEmpty_eq_false h.primary), List.mem_append] at hc
  rcases hc with hc | hc
  · rcases mem_types h hc with hc | rfl | rfl
    · exact not_break_of_isTokenChar hc
    · decide
    · decide
  · exact Parameters.not_break_of_mem_format h.parameters hvalues c hc

/-! ### Reading what was written -/

theorem addPiece_text (t : SpelledPiece) (p : Parameters) :
    addPiece p t.text = .ok (t.given.elim p fun e => p.insert e.1 e.2) := by
  rw [addPiece_eq_ok_iff, t.trim_text, SpelledPiece.given]
  cases t.parameter with
  | none => exact .inl ⟨rfl, rfl⟩
  | some e =>
      refine .inr ⟨_, _, e.value.value, e.cutFirst_text, ?_, ?_, ?_⟩
      · rw [e.trim_name]
        exact e.name.isToken
      · rw [e.trim_value]
        exact e.value.unquote_text
      · rw [e.trim_name]
        rfl

theorem addPiece_parameterPiece {e : String × String} (h : isToken e.1.toList = true)
    (p : Parameters) : addPiece p (parameterPiece e) = .ok (p.insert e.1 e.2) := by
  have hpiece := addPiece_text (SpelledPiece.ofPair e h) p
  rwa [SpelledPiece.text_ofPair, SpelledPiece.given_ofPair] at hpiece

theorem foldlM_addPiece : ∀ {l : List (String × String)} (p : Parameters),
    (∀ e ∈ l, isToken e.1.toList = true) →
    (l.map parameterPiece).foldlM addPiece p = .ok (l.foldl (fun q e => q.insert e.1 e.2) p)
  | [], _, _ => rfl
  | e :: l, p, h => by
      rw [List.map_cons, List.foldlM_cons, addPiece_parameterPiece (h e List.mem_cons_self)]
      exact foldlM_addPiece _ fun d hd => h d (List.mem_cons_of_mem _ hd)

/-- A media type that is written and read keeps its parameters. -/
theorem parseField_format (h : m.WellFormed) :
    parseField m.format =
      (parseTypes m.format m.types).map fun t => { t with parameters := m.parameters } := by
  have htoken : ∀ e ∈ m.parameters.entries, isToken e.1.toList = true := fun e he =>
    h.parameters.token e.1 (List.mem_map_of_mem he)
  have hlower := h.parameters.isLower
  have hsplit := splitUnquoted_format (whole_types h) htoken
  rw [← toList_format (isEmpty_eq_false h.primary)] at hsplit
  have hparams := foldlM_addPiece Parameters.empty htoken
  rw [Parameters.foldl_insert hlower h.parameters.nodup] at hparams
  rw [parseField, hsplit]
  dsimp only
  rw [List.headD_cons, List.tail_cons, hparams]
  cases parseTypes m.format m.types <;> rfl

theorem boundary?_of_parse_format {n : MediaType} (h : m.WellFormed)
    (hn : parse m.format = .ok n) : n.boundary? = m.boundary? := by
  rw [parse_eq_ok_iff, parseField_format h, map_eq_ok_iff] at hn
  obtain ⟨t, -, rfl⟩ := hn
  rfl

namespace RoundTrips

theorem wellFormed (h : m.RoundTrips) : m.WellFormed :=
  wellFormed_of_parseField (parse_eq_ok_iff.mp h)

/-- **Setting a parameter keeps a media type readable.** -/
theorem withParameter (h : m.RoundTrips) {name : String} (hname : isToken name.toList = true)
    (value : String) : (m.withParameter name value).RoundTrips := by
  have hm := h.wellFormed
  have hw : (m.withParameter name value).WellFormed :=
    ⟨hm.primary, hm.sub, hm.suffix, hm.parameters.insert hname value⟩
  rw [RoundTrips, parse_eq_ok_iff, parseField_format hm, map_eq_ok_iff] at h
  rw [RoundTrips, parse_eq_ok_iff, parseField_format hw, map_eq_ok_iff]
  obtain ⟨t, ht, he⟩ := h
  refine ⟨t, parseTypes_congr ht _, ?_⟩
  rw [MediaType.withParameter, ← he]

end RoundTrips

theorem boundary?_withParameter (hlower : m.parameters.IsLower) {boundary : String}
    (hne : boundary.isEmpty = false) :
    (m.withParameter "boundary" boundary).boundary? = some boundary := by
  have hget : (m.parameters.insert "boundary" boundary).get? "boundary" = some boundary := by
    rw [Parameters.get?_insert hlower, sameName_refl, if_pos rfl]
  rw [boundary?, MediaType.withParameter, hget, Option.filter_some, hne]
  rfl

end Mime.MediaType
