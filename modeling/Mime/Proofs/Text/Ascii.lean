import Mathlib
import Mime.Field.Token
import Mime.Proofs.Text.Trim
import Mime.Text.Ascii

/-! # Small letters and separators

Making letters small changes only the ASCII capitals (`toLower_cases`).  It keeps a token a token
(`isToken_map_toLower`) and a trimmed text trimmed (`trim_map_toLower`).  The cuts at a separator
are told by what they give (`cutFirst_eq_some_iff`, `cutLast_eq_some_iff`). -/

namespace Mime.Text

/-- A character is kept, or it is a capital and its small letter is 32 places further. -/
theorem toLower_cases (c : Char) :
    c.toLower = c ∧ ¬ (65 ≤ c.toNat ∧ c.toNat ≤ 90) ∨
      (65 ≤ c.toNat ∧ c.toNat ≤ 90) ∧ c.toLower.toNat = c.toNat + 32 := by
  by_cases h : 65 ≤ c.toNat ∧ c.toNat ≤ 90
  · right
    refine ⟨h, ?_⟩
    have hc : c.val ≥ 'A'.val ∧ c.val ≤ 'Z'.val := h
    have hsum : (c.val + ('a'.val - 'A'.val)).toNat = c.val.toNat + 32 := by
      rw [UInt32.toNat_add]
      show (c.val.toNat + 32) % 4294967296 = _
      have : c.val.toNat ≤ 90 := h.2
      omega
    have hlower : c.toLower = ⟨c.val + ('a'.val - 'A'.val), _⟩ := dif_pos hc
    rw [hlower]
    exact hsum
  · left
    exact ⟨dif_neg h, h⟩

theorem map_toLower_of_forall_mem {s t : List Char} (h : ∀ c ∈ s, c ∈ t.map Char.toLower) :
    s.map Char.toLower = s := by
  refine (List.map_congr_left fun c hc => ?_).trans (List.map_id' s)
  obtain ⟨d, -, rfl⟩ := List.mem_map.mp (h c hc)
  exact Char.toLower_toLower_eq_toLower d

/-- A character that is no capital is not made from another one, unless it is a small letter. -/
theorem eq_of_toLower_eq {c d : Char} (h : c.toLower = d) (hd : d.toNat < 97 ∨ 122 < d.toNat) :
    c = d := by
  rcases toLower_cases c with ⟨he, -⟩ | ⟨hc, he⟩
  · rw [← he, h]
  · rw [h] at he
    omega

theorem isSpace_toLower {c : Char} (h : isSpace c = false) : isSpace c.toLower = false := by
  rcases toLower_cases c with ⟨he, -⟩ | ⟨hc, he⟩
  · rwa [he]
  · simp only [isSpace, Bool.or_eq_false_iff, Bool.and_eq_false_iff, decide_eq_false_iff_not,
      beq_eq_false_iff_ne, ne_eq]
    omega

theorem trim_map_toLower {s : List Char} (h : trim s = s) :
    trim (s.map Char.toLower) = s.map Char.toLower := by
  obtain ⟨hhead, hlast⟩ := trim_eq_self_iff.mp h
  refine trim_eq_self ?_ ?_
  · intro c hc
    rw [List.head?_map, Option.mem_def, Option.map_eq_some_iff] at hc
    obtain ⟨d, hd, rfl⟩ := hc
    exact isSpace_toLower (hhead d hd)
  · intro c hc
    rw [List.getLast?_map, Option.mem_def, Option.map_eq_some_iff] at hc
    obtain ⟨d, hd, rfl⟩ := hc
    exact isSpace_toLower (hlast d hd)

@[simp] theorem lower_lower (s : String) : lower (lower s) = lower s := by
  rw [lower, lower, String.toList_ofList, List.map_map]
  congr 1
  exact List.map_congr_left fun c _ => Char.toLower_toLower_eq_toLower c

theorem sameName_lower (a b : String) : sameName (lower a) b = sameName a b := by
  rw [sameName, lower_lower, sameName]

theorem sameName_eq_false_of_ne {a b c : String} (ha : lower a = a) (hab : a ≠ lower b)
    (hc : sameName a c = true) : sameName b c = false := by
  rw [Bool.eq_false_iff]
  intro hbc
  rw [sameName_iff] at hc hbc
  exact hab (ha.symm.trans (hc.trans hbc.symm))

theorem mem_of_cutFirst {sep c : Char} {s a b : List Char} (h : cutFirst sep s = some (a, b)) :
    (c ∈ a → c ∈ s) ∧ (c ∈ b → c ∈ s) := by
  unfold cutFirst at h
  split at h
  · simp only [Option.some.injEq, Prod.mk.injEq] at h
    obtain ⟨rfl, rfl⟩ := h
    exact ⟨fun hc => (List.takeWhile_prefix _).subset hc,
      fun hc => (List.dropWhile_suffix _).subset (List.mem_of_mem_drop hc)⟩
  · cases h

theorem not_mem_of_cutFirst {sep : Char} {s a b : List Char} (h : cutFirst sep s = some (a, b)) :
    sep ∉ a := by
  unfold cutFirst at h
  split at h
  · simp only [Option.some.injEq, Prod.mk.injEq] at h
    rw [← h.1]
    intro hm
    simpa using List.all_eq_true.mp List.all_takeWhile sep hm
  · cases h

theorem cutFirst_eq_some_iff {sep : Char} {s a b : List Char} :
    cutFirst sep s = some (a, b) ↔ s = a ++ sep :: b ∧ sep ∉ a := by
  constructor
  · intro h
    refine ⟨?_, not_mem_of_cutFirst h⟩
    unfold cutFirst at h
    split at h
    · rename_i hm
      simp only [Option.some.injEq, Prod.mk.injEq] at h
      obtain ⟨rfl, rfl⟩ := h
      have hsplit := List.takeWhile_append_dropWhile (p := (· != sep)) (l := s)
      have hhead := head?_dropWhile (p := (· != sep)) (s := s)
      cases hd : s.dropWhile (· != sep) with
      | nil =>
          rw [hd, List.append_nil] at hsplit
          rw [← hsplit] at hm
          simpa using List.all_eq_true.mp List.all_takeWhile sep hm
      | cons c rest =>
          rw [hd] at hsplit hhead
          obtain rfl : c = sep := by simpa using hhead
          exact hsplit.symm
    · cases h
  · rintro ⟨rfl, h⟩
    exact cutFirst_append h b

theorem cutLast_eq_some_iff {sep : Char} {s a b : List Char} :
    cutLast sep s = some (a, b) ↔ s = a ++ sep :: b ∧ sep ∉ b := by
  rw [cutLast, Option.map_eq_some_iff]
  constructor
  · rintro ⟨⟨after, before⟩, hcut, he⟩
    obtain ⟨hs, hm⟩ := cutFirst_eq_some_iff.mp hcut
    cases he
    refine ⟨?_, by simpa using hm⟩
    rw [← s.reverse_reverse, hs]
    simp
  · rintro ⟨rfl, h⟩
    exact ⟨(b.reverse, a.reverse), cutFirst_eq_some_iff.mpr ⟨by simp, by simpa using h⟩, by simp⟩

theorem cutLast_eq_none_iff {sep : Char} {s : List Char} : cutLast sep s = none ↔ sep ∉ s := by
  rw [cutLast, Option.map_eq_none_iff, cutFirst_eq_none_iff, List.mem_reverse]

/-- Where a trimmed text is cut, the text itself is cut, too, with the same trims on both sides. -/
theorem cutFirst_of_trim {sep : Char} (hsep : isSpace sep = false) {s a b : List Char}
    (h : cutFirst sep (trim s) = some (a, b)) :
    ∃ a' b', cutFirst sep s = some (a', b') ∧ trim a' = trim a ∧ trim b' = trim b := by
  obtain ⟨before, after, hbefore, hafter, hs⟩ := exists_trim s
  obtain ⟨htrim, hm⟩ := cutFirst_eq_some_iff.mp h
  refine ⟨before ++ a, b ++ after, ?_, trim_of_blank_append hbefore a,
    trim_append_of_blank hafter b⟩
  rw [cutFirst_eq_some_iff]
  constructor
  · rw [htrim] at hs
    rw [hs]
    simp
  · intro hmem
    rcases List.mem_append.mp hmem with hmem | hmem
    · rw [hbefore sep hmem] at hsep
      cases hsep
    · exact hm hmem

theorem toList_lower (s : String) : (lower s).toList = s.toList.map Char.toLower := by
  rw [lower, String.toList_ofList]

end Mime.Text

namespace Mime.Field

theorem isTokenChar_of_letter {c : Char} (h : 97 ≤ c.toNat ∧ c.toNat ≤ 122) :
    isTokenChar c = true := by
  have hne : ∀ d : Char, d.toNat < 97 ∨ 122 < d.toNat → c ≠ d := by
    rintro d hd rfl
    omega
  have h1 : '\x20' < c := by
    show 32 < c.toNat
    omega
  have h2 : c < '\x7f' := by
    show c.toNat < 127
    omega
  have h3 : isSpecial c = false := by
    simp only [isSpecial, List.mem_cons, List.not_mem_nil, or_false, decide_eq_false_iff_not,
      not_or]
    exact ⟨hne _ (by decide), hne _ (by decide), hne _ (by decide), hne _ (by decide),
      hne _ (by decide), hne _ (by decide), hne _ (by decide), hne _ (by decide),
      hne _ (by decide), hne _ (by decide), hne _ (by decide), hne _ (by decide),
      hne _ (by decide), hne _ (by decide), hne _ (by decide)⟩
  simp [isTokenChar, h1, h2, h3]

theorem isTokenChar_toLower {c : Char} (h : isTokenChar c = true) :
    isTokenChar c.toLower = true := by
  rcases Text.toLower_cases c with ⟨he, -⟩ | ⟨hc, he⟩
  · rwa [he]
  · exact isTokenChar_of_letter (by omega)

theorem isToken_map_toLower {s : List Char} (h : isToken s = true) :
    isToken (s.map Char.toLower) = true := by
  rw [isToken_iff] at h ⊢
  refine ⟨by simpa using h.1, fun c hc => ?_⟩
  obtain ⟨d, hd, rfl⟩ := List.mem_map.mp hc
  exact isTokenChar_toLower (h.2 d hd)

end Mime.Field
