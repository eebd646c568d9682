import Mathlib.Data.List.DropRight
import Mime.Text.Whitespace

/-! # Trimming

A text is its own trim just when there is white space at neither end (`trim_eq_self_iff`), and white
space put in front (`trim_of_blank_append`) or behind (`trim_append_of_blank`) does not change the
trim. -/

namespace Mime.Text

theorem head?_dropWhile {p : Char → Bool} {s : List Char} :
    ∀ c ∈ (s.dropWhile p).head?, p c = false := by
  intro c hc
  have h := List.head?_dropWhile_not p s
  rw [Option.mem_def.mp hc] at h
  exact h

theorem dropEndWhile_eq_rdropWhile (p : Char → Bool) (s : List Char) :
    dropEndWhile p s = s.rdropWhile p := rfl

theorem getLast?_dropEndWhile {p : Char → Bool} {s : List Char} :
    ∀ c ∈ (dropEndWhile p s).getLast?, p c = false := by
  rw [dropEndWhile, List.getLast?_reverse]
  exact head?_dropWhile

theorem dropEndWhile_append {p : Char → Bool} {x y : List Char} (hy : ∀ c ∈ y, p c = true)
    (hx : ∀ c ∈ x.getLast?, p c = false) : dropEndWhile p (x ++ y) = x := by
  have hr : ∀ c ∈ y.reverse, p c = true := fun c hc => hy c (List.mem_reverse.mp hc)
  rw [dropEndWhile, List.reverse_append, List.dropWhile_append_of_pos hr]
  cases h : x.reverse with
  | nil => rw [List.reverse_eq_nil_iff.mp h]; rfl
  | cons c r =>
      have hc : p c = false := hx c (by rw [← List.head?_reverse, h]; rfl)
      rw [List.dropWhile_cons, if_neg (by simp [hc]), ← h, List.reverse_reverse]

theorem dropEndWhile_append_right {p : Char → Bool} {x : List Char}
    (hx : ∀ c ∈ x.getLast?, p c = false) (y : List Char) :
    dropEndWhile p (x ++ y) = x ++ dropEndWhile p y := by
  rw [dropEndWhile, List.reverse_append, List.dropWhile_append]
  cases h : (y.reverse.dropWhile p).isEmpty with
  | true =>
      have hy : dropEndWhile p y = [] := by
        rw [dropEndWhile, List.isEmpty_iff.mp h]
        rfl
      have hdrop := dropEndWhile_append (p := p) (x := x) (y := []) (by simp) hx
      rw [List.append_nil, dropEndWhile] at hdrop
      rw [if_pos rfl, hdrop, hy, List.append_nil]
  | false => rw [if_neg (by simp), List.reverse_append, List.reverse_reverse, dropEndWhile]

theorem mem_of_mem_dropEndWhile {p : Char → Bool} {c : Char} {s : List Char}
    (h : c ∈ dropEndWhile p s) : c ∈ s := by
  rw [dropEndWhile_eq_rdropWhile] at h
  exact (List.rdropWhile_prefix p s).subset h

theorem head?_of_head?_dropEndWhile {p : Char → Bool} {c : Char} {s : List Char}
    (h : (dropEndWhile p s).head? = some c) : s.head? = some c := by
  rw [dropEndWhile_eq_rdropWhile] at h
  obtain ⟨t, ht⟩ := List.rdropWhile_prefix p s
  rw [← ht, List.head?_append, h]
  rfl

theorem mem_of_mem_trim {c : Char} {s : List Char} (h : c ∈ trim s) : c ∈ s :=
  (List.dropWhile_suffix _).subset (mem_of_mem_dropEndWhile h)

theorem head?_trim {s : List Char} : ∀ c ∈ (trim s).head?, isSpace c = false := by
  intro c hc
  exact head?_dropWhile c (head?_of_head?_dropEndWhile hc)

theorem getLast?_trim {s : List Char} : ∀ c ∈ (trim s).getLast?, isSpace c = false :=
  getLast?_dropEndWhile

/-- A text is its own trim if it neither starts nor ends with white space, and only then. -/
theorem trim_eq_self_iff {s : List Char} :
    trim s = s ↔ (∀ c ∈ s.head?, isSpace c = false) ∧ ∀ c ∈ s.getLast?, isSpace c = false := by
  constructor
  · intro h
    rw [← h]
    exact ⟨head?_trim, getLast?_trim⟩
  · exact fun h => trim_eq_self h.1 h.2

@[simp] theorem trim_trim (s : List Char) : trim (trim s) = trim s :=
  trim_eq_self_iff.mpr ⟨head?_trim, getLast?_trim⟩

/-- A trimmed text stays trimmed with a text behind it that does not end with white space. -/
theorem trim_append {s t : List Char} (hne : s ≠ []) (hs : trim s = s)
    (ht : ∀ c ∈ t.getLast?, isSpace c = false) : trim (s ++ t) = s ++ t := by
  rw [trim_eq_self_iff] at hs
  refine trim_eq_self ?_ ?_
  · intro c hc
    rw [List.head?_append, List.head?_eq_some_head hne] at hc
    exact hs.1 c (by rw [List.head?_eq_some_head hne]; exact hc)
  · intro c hc
    rw [List.getLast?_append] at hc
    cases hl : t.getLast? with
    | none =>
        rw [hl] at hc
        exact hs.2 c hc
    | some d =>
        rw [hl] at hc
        exact ht c (hl.trans hc)

theorem trim_append_of_blank {t : List Char} (ht : ∀ c ∈ t, isSpace c = true) (s : List Char) :
    trim (s ++ t) = trim s := by
  rw [trim, List.dropWhile_append]
  cases h : (s.dropWhile isSpace).isEmpty with
  | true =>
      have hs : trim s = [] := by
        rw [trim, List.isEmpty_iff.mp h]
        rfl
      have ht' : t.dropWhile isSpace = [] := by
        rw [← List.append_nil t, List.dropWhile_append_of_pos ht, List.dropWhile_nil]
      rw [if_pos rfl, ht', hs]
      rfl
  | false =>
      have hr : ∀ c ∈ t.reverse, isSpace c = true := fun c hc => ht c (List.mem_reverse.mp hc)
      rw [if_neg (by simp), dropEndWhile, List.reverse_append, List.dropWhile_append_of_pos hr]
      rfl

theorem exists_dropEndWhile (p : Char → Bool) (s : List Char) :
    ∃ after, (∀ c ∈ after, p c = true) ∧ s = dropEndWhile p s ++ after := by
  refine ⟨s.rtakeWhile p, fun c hc => List.mem_rtakeWhile_imp hc, ?_⟩
  rw [dropEndWhile_eq_rdropWhile, List.rdropWhile_append_rtakeWhile]

theorem trim_dropEndWhile {p : Char → Bool} (hp : ∀ c, p c = true → isSpace c = true)
    (s : List Char) : trim (dropEndWhile p s) = trim s := by
  obtain ⟨after, hafter, hs⟩ := exists_dropEndWhile p s
  have hspace : ∀ c ∈ after, isSpace c = true := fun c hc => hp c (hafter c hc)
  rw [← trim_append_of_blank hspace, ← hs]

theorem trim_of_blank_append {t : List Char} (ht : ∀ c ∈ t, isSpace c = true) (s : List Char) :
    trim (t ++ s) = trim s := by
  rw [trim, List.dropWhile_append_of_pos ht, trim]

theorem trim_cons {c : Char} (hc : isSpace c = true) (s : List Char) : trim (c :: s) = trim s :=
  trim_of_blank_append (t := [c]) (by simpa using hc) s

theorem exists_trim (s : List Char) : ∃ before after, (∀ c ∈ before, isSpace c = true) ∧
    (∀ c ∈ after, isSpace c = true) ∧ s = before ++ (trim s ++ after) := by
  obtain ⟨after, hafter, hs⟩ := exists_dropEndWhile isSpace (s.dropWhile isSpace)
  refine ⟨s.takeWhile isSpace, after, ?_, hafter, ?_⟩
  · intro c hc
    exact List.all_eq_true.mp List.all_takeWhile c hc
  · rw [trim, ← hs, List.takeWhile_append_dropWhile]

theorem mem_trim {c : Char} {s : List Char} (h : c ∈ s) (hc : isSpace c = false) : c ∈ trim s := by
  obtain ⟨before, after, hbefore, hafter, hs⟩ := exists_trim s
  rw [hs, List.mem_append, List.mem_append] at h
  rcases h with h | h | h
  · rw [hbefore c h] at hc
    cases hc
  · exact h
  · rw [hafter c h] at hc
    cases hc

end Mime.Text
