import Mime.Proofs.Field.Quoted
import Mime.Proofs.Success
import Mime.Proofs.Text.Ascii

/-! # Parameters that are written and read

Parameters are `Canonical` if their names are distinct tokens in small letters.  Those that are read
are, setting one keeps them so (`Canonical.insert`), and canonical parameters are the same when they
are given again one after the other (`Canonical.foldl_insert`). -/

namespace Mime.Parameters

open Text Mime.Field

/-- The names of the parameters, in order. -/
def names (p : Parameters) : List String :=
  p.entries.map Prod.fst

/-- Distinct tokens in small letters as names. -/
structure Canonical (p : Parameters) : Prop where
  token : ∀ name ∈ p.names, isToken name.toList = true
  lower_eq : ∀ name ∈ p.names, lower name = name
  nodup : p.names.Nodup

variable {p : Parameters}

theorem canonical_empty : Canonical empty :=
  ⟨by simp [names, empty], by simp [names, empty], by simp [names, empty]⟩

theorem names_insert (p : Parameters) (name value : String) :
    (p.insert name value).names =
      if lower name ∈ p.names then p.names else p.names ++ [lower name] :=
  map_fst_assign (lower name) value p.entries

theorem nodup_names_insert (h : p.names.Nodup) (name value : String) :
    (p.insert name value).names.Nodup := by
  rw [names_insert]
  split
  · exact h
  · rename_i hm
    rw [List.nodup_append]
    refine ⟨h, by simp, fun a ha b hb => ?_⟩
    rw [List.mem_singleton.mp hb]
    rintro rfl
    exact hm ha

theorem mem_assign {name value : String} {e : String × String} : ∀ {l : List (String × String)},
    e ∈ assign name value l → e ∈ l ∨ e = (name, value)
  | [], h => .inr (by simpa [assign] using h)
  | d :: l, h => by
      unfold assign at h
      split at h
      · rcases List.mem_cons.mp h with rfl | h
        · exact .inr rfl
        · exact .inl (List.mem_cons_of_mem _ h)
      · rcases List.mem_cons.mp h with rfl | h
        · exact .inl List.mem_cons_self
        · exact (mem_assign h).imp_left (List.mem_cons_of_mem _)

theorem mem_insert {name value : String} {e : String × String}
    (h : e ∈ (p.insert name value).entries) : e ∈ p.entries ∨ e = (lower name, value) :=
  mem_assign h

theorem Canonical.insert (h : p.Canonical) {name : String} (hname : isToken name.toList = true)
    (value : String) : (p.insert name value).Canonical := by
  have hnew : isToken (lower name).toList = true := by
    rw [toList_lower]
    exact isToken_map_toLower hname
  have hmem : ∀ n ∈ (p.insert name value).names, n ∈ p.names ∨ n = lower name := by
    intro n hn
    rw [names_insert] at hn
    split at hn
    · exact .inl hn
    · simpa using hn
  refine ⟨fun n hn => ?_, fun n hn => ?_, nodup_names_insert h.nodup name value⟩
  · rcases hmem n hn with hn | rfl
    · exact h.token n hn
    · exact hnew
  · rcases hmem n hn with hn | rfl
    · exact h.lower_eq n hn
    · exact lower_lower name

/-! ### Names in small letters -/

/-- Names in small letters.  All parameters that were set have such a name (`isLower_ofList`). -/
def IsLower (p : Parameters) : Prop :=
  ∀ e ∈ p.entries, lower e.1 = e.1

theorem Canonical.isLower (h : p.Canonical) : p.IsLower :=
  fun e he => h.lower_eq e.1 (List.mem_map_of_mem he)

theorem IsLower.insert (h : p.IsLower) (name value : String) : (p.insert name value).IsLower := by
  intro e he
  rcases mem_insert he with he | rfl
  · exact h e he
  · exact lower_lower name

theorem isLower_ofList (pairs : List (String × String)) : (ofList pairs).IsLower := by
  suffices h : ∀ p : Parameters, p.IsLower →
      (pairs.foldl (fun p e => p.insert e.1 e.2) p).IsLower from h empty nofun
  induction pairs with
  | nil => exact fun p hp => hp
  | cons e pairs ih => exact fun p hp => ih _ (hp.insert e.1 e.2)

theorem foldl_insert_append : ∀ {l : List (String × String)} {p : Parameters},
    (∀ e ∈ l, lower e.1 = e.1) → ((p.entries ++ l).map Prod.fst).Nodup →
    l.foldl (fun q e => q.insert e.1 e.2) p = ⟨p.entries ++ l⟩
  | [], p, _, _ => by simp
  | e :: l, p, hlower, hnodup => by
      have hnew : lower e.1 ∉ p.entries.map Prod.fst := by
        rw [hlower e List.mem_cons_self]
        rw [List.map_append, List.nodup_append] at hnodup
        intro hm
        exact hnodup.2.2 e.1 hm e.1 (by simp) rfl
      have hins : p.insert e.1 e.2 = ⟨p.entries ++ [e]⟩ := by
        rw [Parameters.insert, assign_of_not_mem hnew, hlower e List.mem_cons_self]
      have hrest := foldl_insert_append (l := l) (p := ⟨p.entries ++ [e]⟩)
        (fun d hd => hlower d (List.mem_cons_of_mem _ hd)) (by simpa using hnodup)
      rw [List.foldl_cons, hins, hrest]
      simp

theorem foldl_insert (hlower : p.IsLower) (hnodup : p.names.Nodup) :
    p.entries.foldl (fun q e => q.insert e.1 e.2) empty = p := by
  have h := foldl_insert_append (p := empty) hlower hnodup
  simpa [empty] using h

theorem find?_assign (name value other : String) : ∀ {l : List (String × String)},
    (∀ e ∈ l, lower e.1 = e.1) →
    ((assign (lower name) value l).find? fun e => sameName e.1 other).map Prod.snd =
      if sameName name other then some value
      else (l.find? fun e => sameName e.1 other).map Prod.snd
  | [], _ => by
      cases h : sameName name other <;> simp [assign, sameName_lower, h]
  | e :: l, hlower => by
      have ih := find?_assign name value other fun d hd => hlower d (List.mem_cons_of_mem _ hd)
      have he := hlower e List.mem_cons_self
      by_cases hname : e.1 = lower name
      · rw [assign, if_pos hname, List.find?_cons, List.find?_cons, hname, sameName_lower]
        cases sameName name other <;> rfl
      · rw [assign, if_neg hname, List.find?_cons, List.find?_cons]
        cases h : sameName e.1 other with
        | true => simp [sameName_eq_false_of_ne he hname h]
        | false => exact ih

/-- The value that was set is found, and all other values are as they were. -/
theorem get?_insert (h : p.IsLower) (name value other : String) :
    (p.insert name value).get? other = if sameName name other then some value else p.get? other :=
  find?_assign name value other h

/-! ### Parameters that are taken out -/

theorem eraseP_assign (name value other : String) : ∀ {l : List (String × String)},
    (∀ e ∈ l, lower e.1 = e.1) →
    (assign (lower name) value l).eraseP (fun e => sameName e.1 other) =
      if sameName name other then l.eraseP fun e => sameName e.1 other
      else assign (lower name) value (l.eraseP fun e => sameName e.1 other)
  | [], _ => by
      cases h : sameName name other <;> simp [assign, sameName_lower, h]
  | e :: l, hlower => by
      have ih := eraseP_assign name value other fun d hd => hlower d (List.mem_cons_of_mem _ hd)
      have he := hlower e List.mem_cons_self
      by_cases hname : e.1 = lower name
      · rw [assign, if_pos hname, List.eraseP_cons, List.eraseP_cons, hname, sameName_lower]
        cases h : sameName name other with
        | true => rfl
        | false => simp [assign, hname]
      · rw [assign, if_neg hname, List.eraseP_cons, List.eraseP_cons]
        cases h : sameName e.1 other with
        | true => simp [sameName_eq_false_of_ne he hname h]
        | false =>
            rw [cond_false, cond_false, ih]
            cases sameName name other <;> simp [assign, hname]

/-- Taking out a parameter undoes setting it, and does not touch a parameter of another name. -/
theorem erase_insert (h : p.IsLower) (name value other : String) :
    (p.insert name value).erase other =
      if sameName name other then p.erase other else (p.erase other).insert name value := by
  simp only [erase, Parameters.insert, eraseP_assign name value other h]
  split <;> rfl

theorem IsLower.erase (h : p.IsLower) (name : String) : (p.erase name).IsLower := by
  intro e he
  exact h e (List.mem_of_mem_eraseP he)

/-! ### The text of parameters -/

theorem mem_escape {c : Char} {s : List Char} (h : c ∈ Field.escape s) : c ∈ s ∨ c = '\\' := by
  rw [Field.escape, List.mem_flatMap] at h
  obtain ⟨d, hd, hc⟩ := h
  split at hc
  · rcases List.mem_cons.mp hc with rfl | hc
    · exact .inr rfl
    · exact .inl (List.mem_singleton.mp hc ▸ hd)
  · exact .inl (List.mem_singleton.mp hc ▸ hd)

theorem mem_quoteIfNeeded {c : Char} {s : List Char} (h : c ∈ quoteIfNeeded s) :
    c ∈ s ∨ c = '"' ∨ c = '\\' := by
  unfold quoteIfNeeded at h
  split at h
  · exact .inl h
  · rw [List.cons_append, List.mem_cons, List.mem_append, List.mem_singleton] at h
    rcases h with rfl | h | rfl
    · simp
    · exact (mem_escape h).imp_right .inr
    · simp

/-- A character of the written parameters is part of a name or of a value, or it is punctuation. -/
theorem mem_format {c : Char} (h : c ∈ p.format) :
    (∃ e ∈ p.entries, c ∈ e.1.toList ∨ c ∈ e.2.toList) ∨ c ∈ [';', ' ', '=', '"', '\\'] := by
  simp only [format, List.mem_flatMap, List.mem_append, List.mem_cons, List.not_mem_nil,
    or_false] at h
  obtain ⟨e, he, ((rfl | rfl) | hc) | rfl | hc⟩ := h
  · simp
  · simp
  · exact .inl ⟨e, he, .inl hc⟩
  · simp
  · rcases mem_quoteIfNeeded hc with hc | rfl | rfl
    · exact .inl ⟨e, he, .inr hc⟩
    · simp
    · simp

theorem not_break_of_mem_format (h : p.Canonical)
    (hvalues : ∀ e ∈ p.entries, ∀ c ∈ e.2.toList, c ≠ '\r' ∧ c ≠ '\n') :
    ∀ c ∈ p.format, c ≠ '\r' ∧ c ≠ '\n' := by
  intro c hc
  rcases mem_format hc with ⟨e, he, hc | hc⟩ | hc
  · exact not_break_of_isToken (h.token e.1 (List.mem_map_of_mem he)) c hc
  · exact hvalues e he c hc
  · constructor <;> (rintro rfl; revert hc; decide)

theorem getLast?_parameterPieces (l : List (String × String)) : ∀ t ∈ l.map parameterPiece,
    t ≠ [] ∧ ∀ c ∈ t.getLast?, isSpace c = false := by
  intro t ht
  obtain ⟨e, -, rfl⟩ := List.mem_map.mp ht
  exact ⟨by simp [parameterPiece, namedPiece],
    getLast?_namedPiece _ (quoteIfNeeded_ne_nil _) (trim_quoteIfNeeded _)⟩

theorem getLast?_format : ∀ c ∈ p.format.getLast?, isSpace c = false := by
  rw [format_eq]
  exact getLast?_pieces (getLast?_parameterPieces p.entries)

end Mime.Parameters
