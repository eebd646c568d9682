import Mime.Host

/-! # Valid boundaries

A valid boundary is not empty and holds no line break, and a generated boundary is valid
(`isValid_generateBoundary`). -/

namespace Mime.Boundary

theorem wellPlaced_ne : ∀ {s : List Char}, wellPlaced s = true → ∀ c ∈ s, c ≠ '\r' ∧ c ≠ '\n'
  | [], _, c, hc => by simp at hc
  | [d], h, c, hc => by
      rw [List.mem_singleton.mp hc]
      constructor <;> (rintro rfl; revert h; decide)
  | d :: e :: s, h, c, hc => by
      obtain ⟨hd, hs⟩ : (isBoundaryChar d || d == ' ') = true ∧ wellPlaced (e :: s) = true := by
        simpa [wellPlaced] using h
      rcases List.mem_cons.mp hc with rfl | hc
      · constructor <;> (rintro rfl; revert hd; decide)
      · exact wellPlaced_ne hs c hc

theorem not_break_of_isValid {s : List Char} (h : isValid s = true) :
    ∀ c ∈ s, c ≠ '\r' ∧ c ≠ '\n' := by
  rw [isValid, Bool.and_eq_true] at h
  exact wellPlaced_ne h.2

theorem length_le_of_isValid {s : List Char} (h : isValid s = true) : s.length ≤ maxLength := by
  rw [isValid, Bool.and_eq_true, Bool.and_eq_true, decide_eq_true_eq] at h
  exact h.1.2

theorem ne_empty_of_isValid {boundary : String} (h : isValid boundary.toList = true) :
    boundary.isEmpty = false := by
  rw [Bool.eq_false_iff]
  intro he
  rw [String.isEmpty_iff.mp he] at h
  revert h
  decide

/-! ### Generated boundaries -/

theorem wellPlaced_of_forall : ∀ {s : List Char}, (∀ c ∈ s, isBoundaryChar c = true) →
    wellPlaced s = true
  | [], _ => rfl
  | [c], h => h c List.mem_cons_self
  | c :: d :: s, h => by
      have hc := h c List.mem_cons_self
      have ih := wellPlaced_of_forall (s := d :: s) fun e he => h e (List.mem_cons_of_mem _ he)
      simp [wellPlaced, hc, ih]

theorem isBoundaryChar_digitChar : ∀ n < 16, isBoundaryChar (Nat.digitChar n) = true := by decide

theorem isBoundaryChar_hexByte (b : UInt8) : ∀ c ∈ hexByte b, isBoundaryChar c = true := by
  have hb := b.toNat_lt
  intro c hc
  simp only [hexByte, List.mem_cons, List.not_mem_nil, or_false] at hc
  rcases hc with rfl | rfl
  · exact isBoundaryChar_digitChar _ (by omega)
  · exact isBoundaryChar_digitChar _ (by omega)

theorem length_ofBytes (bytes : Bytes) : (ofBytes bytes).toList.length = 2 * bytes.length := by
  rw [ofBytes, String.toList_ofList]
  induction bytes with
  | nil => rfl
  | cons b bytes ih =>
      rw [List.flatMap_cons, List.length_append, ih, List.length_cons]
      show 2 + _ = _
      omega

theorem isValid_ofBytes {bytes : Bytes} (hne : bytes ≠ []) (hlen : 2 * bytes.length ≤ maxLength) :
    isValid (ofBytes bytes).toList = true := by
  have hl := length_ofBytes bytes
  have hpos := List.length_pos_iff.mpr hne
  have hempty : (ofBytes bytes).toList.isEmpty = false := by
    rw [List.isEmpty_eq_false_iff]
    intro h
    rw [h, List.length_nil] at hl
    omega
  have hplaced : wellPlaced (ofBytes bytes).toList = true := by
    apply wellPlaced_of_forall
    intro c hc
    rw [ofBytes, String.toList_ofList, List.mem_flatMap] at hc
    obtain ⟨b, -, hc⟩ := hc
    exact isBoundaryChar_hexByte b c hc
  rw [isValid, hempty, hplaced, hl]
  simpa using hlen

theorem isValid_generateBoundary (host : Host) :
    isValid host.generateBoundary.1.toList = true := by
  have hlen : ((List.range randomBytes).map fun i =>
      host.entropy.byteAt (host.entropy.used + i)).length = 16 := by
    rw [List.length_map, List.length_range]
    rfl
  refine isValid_ofBytes (fun h => ?_) ?_
  · rw [h] at hlen
    cases hlen
  · rw [hlen]
    decide

end Mime.Boundary
