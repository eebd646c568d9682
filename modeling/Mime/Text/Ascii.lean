/-! # ASCII letter case

Names of types, parameters, headers and charsets ignore the case of the ASCII letters and of no
others: `lower` maps `A`–`Z` to `a`–`z` and leaves every other character alone. -/

namespace Mime.Text

/-- The text with its ASCII capital letters made small. -/
def lower (s : String) : String :=
  String.ofList (s.toList.map Char.toLower)

/-- Whether two names are equal but for the case of ASCII letters. -/
def sameName (a b : String) : Bool :=
  lower a == lower b

@[simp] theorem sameName_refl (a : String) : sameName a a = true := by simp [sameName]

theorem sameName_comm (a b : String) : sameName a b = sameName b a := by
  simp [sameName, Bool.beq_comm]

theorem sameName_iff {a b : String} : sameName a b = true ↔ lower a = lower b := by
  simp [sameName]

theorem sameName_congr {a b : String} (h : sameName a b = true) (c : String) :
    sameName c a = sameName c b := by
  rw [sameName, sameName, sameName_iff.mp h]

/-- Names that differ are not both the same as a third one. -/
theorem sameName_eq_false {a b c : String} (hc : sameName a c = true)
    (h : sameName b c = false) : sameName a b = false := by
  rw [sameName_comm, sameName_congr hc]
  exact h

/-- The text before the first `sep` and the text after it. -/
def cutFirst (sep : Char) (s : List Char) : Option (List Char × List Char) :=
  if sep ∈ s then some (s.takeWhile (· != sep), (s.dropWhile (· != sep)).drop 1) else none

/-- The text before the last `sep` and the text after it. -/
def cutLast (sep : Char) (s : List Char) : Option (List Char × List Char) :=
  (cutFirst sep s.reverse).map fun (after, before) => (before.reverse, after.reverse)

theorem cutFirst_eq_none_iff {sep : Char} {s : List Char} : cutFirst sep s = none ↔ sep ∉ s := by
  simp [cutFirst]

/-- Cutting at a separator undoes joining at it, if the first half does not hold the separator. -/
theorem cutFirst_append {sep : Char} {a : List Char} (h : sep ∉ a) (b : List Char) :
    cutFirst sep (a ++ sep :: b) = some (a, b) := by
  have ha : ∀ c ∈ a, (c != sep) = true := by
    intro c hc
    have hne : c ≠ sep := fun e => h (e ▸ hc)
    simp [hne]
  simp [cutFirst, List.takeWhile_append_of_pos ha, List.dropWhile_append_of_pos ha]

end Mime.Text
