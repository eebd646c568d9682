import Mathlib.Algebra.Group.Nat.Defs
import Mime.Text.Utf8

/-! # Reading back what was written in UTF-8

The table of lead bytes announces exactly what `String.utf8EncodeChar` writes: a scalar value of
`k` bytes has a lead byte that announces `k - 1` following ones, and the bounds of the first of
them are met because a scalar value is neither too short for its form nor a surrogate.  So
`Utf8.next` reads each character back (`scan_encodeChar`), and both decoders give back an encoded
text (`decodeLossy_encode`, `decode?_encode`).  An ASCII character is in a text just where its byte
is in the encoded one (`mem_encode_iff`).

Malformed input is read byte by byte where it has to be, but an ASCII byte is always read by itself
(`decodeLossy_append`), and an ASCII character is read nowhere else (`mem_of_mem_decodeLossy`). -/

namespace Mime.Utf8

/-! ### Lead bytes -/

theorem lead?_one : ∀ k < 128, lead? (UInt8.ofNat k) = some ⟨0, 0x80, 0xBF, k⟩ := by decide

theorem lead?_two : ∀ k < 32, 2 ≤ k → lead? (UInt8.ofNat (k + 0xC0)) = some ⟨1, 0x80, 0xBF, k⟩ := by
  decide

theorem lead?_three : ∀ k < 16, lead? (UInt8.ofNat (k + 0xE0)) =
    some ⟨2, if k = 0 then 0xA0 else 0x80, if k = 13 then 0x9F else 0xBF, k⟩ := by
  decide

theorem lead?_four : ∀ k < 5, lead? (UInt8.ofNat (k + 0xF0)) =
    some ⟨3, if k = 0 then 0x90 else 0x80, if k = 4 then 0x8F else 0xBF, k⟩ := by
  decide

/-! ### Following bytes -/

/-- The last six bits of a number, as a following byte. -/
def tail (v : Nat) : UInt8 := UInt8.ofNat (v % 64 + 0x80)

theorem toNat_tail (v : Nat) : (tail v).toNat = v % 64 + 128 := by
  rw [tail, UInt8.toNat_ofNat']
  omega

theorem following_tail {low high : UInt8} {v : Nat} (hl : low.toNat ≤ v % 64 + 128)
    (hh : v % 64 + 128 ≤ high.toNat) (n value : Nat) (rest : Bytes) :
    following (n + 1) low high value (tail v :: rest) =
      following n 0x80 0xBF (value * 64 + v % 64) rest := by
  have h1 : low ≤ tail v := by rwa [UInt8.le_iff_toNat_le, toNat_tail]
  have h2 : tail v ≤ high := by rwa [UInt8.le_iff_toNat_le, toNat_tail]
  have h3 : (tail v).toNat - 128 = v % 64 := by rw [toNat_tail]; omega
  simp only [following, h1, h2, decide_true, Bool.and_self, if_true, h3]

theorem following_tail_free (n value v : Nat) (rest : Bytes) :
    following (n + 1) 0x80 0xBF value (tail v :: rest) =
      following n 0x80 0xBF (value * 64 + v % 64) rest := by
  refine following_tail ?_ ?_ n value rest
  · show 128 ≤ _
    omega
  · show _ ≤ 191
    omega

/-! ### Characters -/

theorem scan_of_lead? {b : UInt8} {l : Lead} {c : Char} {bytes rest : Bytes} (hl : lead? b = some l)
    (hf : following l.following l.low l.high l.bits bytes = (some c.toNat, rest)) :
    scan (b :: bytes) = some c :: scan rest := by
  have hn : next b bytes = (some c, rest) := by simp [next, hl, hf]
  rw [scan_cons, hn]

theorem not_surrogate (c : Char) : ¬ (0xD800 ≤ c.toNat ∧ c.toNat ≤ 0xDFFF) := by
  have := c.valid
  simp only [UInt32.isValidChar, Nat.isValidChar] at this
  show ¬ (0xD800 ≤ c.val.toNat ∧ c.val.toNat ≤ 0xDFFF)
  omega

theorem toNat_lt_110000 (c : Char) : c.toNat < 0x110000 := by
  have := c.valid
  simp only [UInt32.isValidChar, Nat.isValidChar] at this
  show c.val.toNat < 0x110000
  omega

theorem scan_encodeChar_one {c : Char} (h : c.toNat ≤ 0x7F) (rest : Bytes) :
    scan (String.utf8EncodeChar c ++ rest) = some c :: scan rest := by
  have he : String.utf8EncodeChar c = [UInt8.ofNat c.toNat] := if_pos h
  rw [he]
  exact scan_of_lead? (lead?_one _ (by omega)) rfl

theorem scan_encodeChar_two {c : Char} (hl : ¬ c.toNat ≤ 0x7F) (hh : c.toNat ≤ 0x7FF)
    (rest : Bytes) : scan (String.utf8EncodeChar c ++ rest) = some c :: scan rest := by
  have he : String.utf8EncodeChar c = [UInt8.ofNat (c.toNat / 64 % 32 + 0xC0), tail c.toNat] :=
    (if_neg hl).trans (if_pos hh)
  rw [he, Nat.mod_eq_of_lt (by omega : c.toNat / 64 < 32)]
  refine scan_of_lead? (lead?_two _ (by omega) (by omega)) ?_
  have hv : c.toNat / 64 * 64 + c.toNat % 64 = c.toNat := by omega
  show following 1 _ _ _ (tail c.toNat :: rest) = _
  rw [following_tail_free, following, hv]

theorem scan_encodeChar_three {c : Char} (hl : ¬ c.toNat ≤ 0x7FF) (hh : c.toNat ≤ 0xFFFF)
    (rest : Bytes) : scan (String.utf8EncodeChar c ++ rest) = some c :: scan rest := by
  have hs := not_surrogate c
  have he : String.utf8EncodeChar c =
      [UInt8.ofNat (c.toNat / 4096 % 16 + 0xE0), tail (c.toNat / 64), tail c.toNat] :=
    (if_neg (by show ¬ c.toNat ≤ 0x7F; omega)).trans ((if_neg hl).trans (if_pos hh))
  rw [he, Nat.mod_eq_of_lt (by omega : c.toNat / 4096 < 16)]
  refine scan_of_lead? (lead?_three _ (by omega)) ?_
  have hv : (c.toNat / 4096 * 64 + c.toNat / 64 % 64) * 64 + c.toNat % 64 = c.toNat := by omega
  show following 2 _ _ _ (tail (c.toNat / 64) :: tail c.toNat :: rest) = _
  rw [following_tail, following_tail_free, following, hv]
  · dsimp only
    split
    · show 160 ≤ _
      omega
    · show 128 ≤ _
      omega
  · dsimp only
    split
    · show _ ≤ 159
      omega
    · show _ ≤ 191
      omega

theorem scan_encodeChar_four {c : Char} (hl : ¬ c.toNat ≤ 0xFFFF) (rest : Bytes) :
    scan (String.utf8EncodeChar c ++ rest) = some c :: scan rest := by
  have hmax := toNat_lt_110000 c
  have he : String.utf8EncodeChar c =
      [UInt8.ofNat (c.toNat / 262144 % 8 + 0xF0), tail (c.toNat / 4096), tail (c.toNat / 64),
        tail c.toNat] :=
    (if_neg (by show ¬ c.toNat ≤ 0x7F; omega)).trans
      ((if_neg (by show ¬ c.toNat ≤ 0x7FF; omega)).trans (if_neg hl))
  rw [he, Nat.mod_eq_of_lt (by omega : c.toNat / 262144 < 8)]
  refine scan_of_lead? (lead?_four _ (by omega)) ?_
  have hv : ((c.toNat / 262144 * 64 + c.toNat / 4096 % 64) * 64 + c.toNat / 64 % 64) * 64 +
      c.toNat % 64 = c.toNat := by omega
  show following 3 _ _ _
    (tail (c.toNat / 4096) :: tail (c.toNat / 64) :: tail c.toNat :: rest) = _
  rw [following_tail, following_tail_free, following_tail_free, following, hv]
  · dsimp only
    split
    · show 144 ≤ _
      omega
    · show 128 ≤ _
      omega
  · dsimp only
    split
    · show _ ≤ 143
      omega
    · show _ ≤ 191
      omega

theorem scan_encodeChar (c : Char) (rest : Bytes) :
    scan (String.utf8EncodeChar c ++ rest) = some c :: scan rest := by
  by_cases h1 : c.toNat ≤ 0x7F
  · exact scan_encodeChar_one h1 rest
  by_cases h2 : c.toNat ≤ 0x7FF
  · exact scan_encodeChar_two h1 h2 rest
  by_cases h3 : c.toNat ≤ 0xFFFF
  · exact scan_encodeChar_three h2 h3 rest
  · exact scan_encodeChar_four h3 rest

/-! ### Texts -/

theorem scan_encode : ∀ s : List Char, scan (encode s) = s.map some
  | [] => scan_nil
  | c :: s => by rw [encode_cons, scan_encodeChar, scan_encode s, List.map_cons]

/-- A text that was encoded is read back without a replacement character. -/
theorem decodeLossy_encode (s : List Char) : decodeLossy (encode s) = s := by
  rw [decodeLossy, scan_encode, List.map_map]
  exact List.map_id' s

theorem decode?_encode (s : List Char) : decode? (encode s) = some s := by
  simp [decode?, scan_encode]

/-! ### ASCII -/

theorem encodeChar_ascii {c : Char} (h : c.toNat < 128) :
    String.utf8EncodeChar c = [UInt8.ofNat c.toNat] :=
  if_pos (Nat.le_of_lt_succ h)

/-- The other characters have a lead byte and one, two or three following bytes. -/
theorem encodeChar_cases {c : Char} (h : ¬ c.toNat < 128) :
    (c.toNat < 0x800 ∧ ∃ lead : UInt8, 0xC0 ≤ lead.toNat ∧
      String.utf8EncodeChar c = [lead, tail c.toNat]) ∨
    (0x800 ≤ c.toNat ∧ c.toNat < 0x10000 ∧ ∃ lead : UInt8, 0xE0 ≤ lead.toNat ∧
      String.utf8EncodeChar c = [lead, tail (c.toNat / 64), tail c.toNat]) ∨
    (0x10000 ≤ c.toNat ∧ ∃ lead : UInt8, 0xF0 ≤ lead.toNat ∧ String.utf8EncodeChar c =
      [lead, tail (c.toNat / 4096), tail (c.toNat / 64), tail c.toNat]) := by
  have hone : ¬ c.val.toNat ≤ 0x7F := fun hc => h (Nat.lt_succ_of_le hc)
  have hlead : ∀ k n, k + n < 256 → n ≤ (UInt8.ofNat (k + n)).toNat := by
    intro k n hk
    rw [UInt8.toNat_ofNat', Nat.mod_eq_of_lt hk]
    omega
  unfold String.utf8EncodeChar
  dsimp only
  rw [if_neg hone]
  split
  · rename_i htwo
    exact .inl ⟨Nat.lt_succ_of_le htwo, _, hlead _ 0xC0 (by omega), rfl⟩
  · rename_i htwo
    split
    · rename_i hthree
      exact .inr (.inl ⟨Nat.lt_of_not_le htwo, Nat.lt_succ_of_le hthree, _,
        hlead _ 0xE0 (by omega), rfl⟩)
    · rename_i hthree
      exact .inr (.inr ⟨Nat.lt_of_not_le hthree, _, hlead _ 0xF0 (by omega), rfl⟩)

/-- A byte below 128 is the whole of a character. -/
theorem eq_of_mem_encodeChar {c : Char} {b : UInt8} (h : b ∈ String.utf8EncodeChar c)
    (hb : b.toNat < 128) : c.toNat = b.toNat := by
  have htail : ∀ v, b ≠ tail v := fun v he => by
    rw [he, toNat_tail] at hb
    omega
  have hlead : ∀ lead : UInt8, 0xC0 ≤ lead.toNat → b ≠ lead := fun lead hle he => by
    rw [he] at hb
    omega
  by_cases h1 : c.toNat < 128
  · rw [encodeChar_ascii h1, List.mem_singleton] at h
    rw [h, UInt8.toNat_ofNat', Nat.mod_eq_of_lt (by omega)]
  · exfalso
    rcases encodeChar_cases h1 with ⟨-, lead, hle, he⟩ | ⟨-, -, lead, hle, he⟩ | ⟨-, lead, hle, he⟩
    all_goals
      have hne := hlead lead (by omega)
      simp [he, htail, hne] at h

theorem encode_flatten (texts : List (List Char)) :
    encode texts.flatten = (texts.map encode).flatten := by
  induction texts with
  | nil => rfl
  | cons text texts ih =>
      rw [List.flatten_cons, encode_append, ih]
      rfl

theorem mem_encode_iff {c : Char} (hc : c.toNat < 128) {s : List Char} :
    UInt8.ofNat c.toNat ∈ encode s ↔ c ∈ s := by
  have hb : (UInt8.ofNat c.toNat).toNat = c.toNat := by
    rw [UInt8.toNat_ofNat', Nat.mod_eq_of_lt (by omega)]
  rw [encode, List.mem_flatMap]
  constructor
  · rintro ⟨d, hd, hmem⟩
    have he := eq_of_mem_encodeChar hmem (by omega)
    rw [hb] at he
    rwa [← Char.toNat_inj.mp he]
  · intro h
    exact ⟨c, h, by rw [encodeChar_ascii hc, List.mem_singleton]⟩

/-! ### Input that may be malformed -/

/-- Induction on the readings of the input. -/
theorem scan_induction {P : Bytes → Prop} (nil : P [])
    (cons : ∀ b rest, P (next b rest).2 → P (b :: rest)) (bytes : Bytes) : P bytes := by
  induction hn : bytes.length using Nat.strongRecOn generalizing bytes with
  | ind n ih =>
    cases bytes with
    | nil => exact nil
    | cons b rest =>
        refine cons b rest (ih _ ?_ _ rfl)
        rw [← hn]
        exact Nat.lt_succ_of_le (next_length_le b rest)

theorem lead?_bounds : ∀ k < 256, ∀ l ∈ lead? (UInt8.ofNat k), 128 ≤ l.low.toNat ∧
    (128 ≤ k → 1 ≤ l.following ∧
      128 ≤ (l.bits * 64 + (l.low.toNat - 128)) * 64 ^ (l.following - 1)) := by
  decide +kernel

theorem lead?_eq_some {b : UInt8} {l : Lead} (h : lead? b = some l) : 128 ≤ l.low.toNat ∧
    (128 ≤ b.toNat → 1 ≤ l.following ∧
      128 ≤ (l.bits * 64 + (l.low.toNat - 128)) * 64 ^ (l.following - 1)) :=
  lead?_bounds b.toNat b.toNat_lt l (by rwa [UInt8.ofNat_toNat])

section ascii

variable {b : UInt8}

theorem following_append (hb : b.toNat < 128) (y : Bytes) : ∀ (n : Nat) {low : UInt8} (high : UInt8)
    (value : Nat) (x : Bytes), 128 ≤ low.toNat →
    following n low high value (x ++ b :: y) =
      ((following n low high value x).1, (following n low high value x).2 ++ b :: y)
  | 0, _, _, _, _, _ => rfl
  | n + 1, low, high, value, [], hlow => by
      have hout : ¬ low ≤ b := by
        rw [UInt8.le_iff_toNat_le]
        omega
      simp [following, hout]
  | n + 1, low, high, value, c :: x, hlow => by
      rw [List.cons_append, following, following]
      split
      · exact following_append hb y n 0xBF _ x (by decide)
      · rfl

theorem next_append (hb : b.toNat < 128) (a : UInt8) (x y : Bytes) :
    next a (x ++ b :: y) = ((next a x).1, (next a x).2 ++ b :: y) := by
  unfold next
  cases hl : lead? a with
  | none => rfl
  | some l =>
      dsimp only
      rw [following_append hb y _ _ _ x (lead?_eq_some hl).1]

theorem next_ascii (hb : b.toNat < 128) (rest : Bytes) :
    next b rest = (some (Char.ofNat b.toNat), rest) := by
  have hl := lead?_one b.toNat hb
  rw [UInt8.ofNat_toNat] at hl
  rw [next, hl]
  rfl

/-- An ASCII byte is read by itself, whatever stands in front of it. -/
theorem decodeLossy_append (hb : b.toNat < 128) (x y : Bytes) :
    decodeLossy (x ++ b :: y) = decodeLossy x ++ Char.ofNat b.toNat :: decodeLossy y := by
  induction x using scan_induction with
  | nil => simp [decodeLossy, scan_cons, next_ascii hb]
  | cons a x ih =>
      have hcons : ∀ z, decodeLossy (a :: z) =
          (next a z).1.getD '\uFFFD' :: decodeLossy (next a z).2 := by
        intro z
        rw [decodeLossy, scan_cons]
        rfl
      rw [List.cons_append, hcons, hcons, next_append hb, ih]
      rfl

end ascii

theorem suffix_following (n : Nat) (low high : UInt8) (value : Nat) (rest : Bytes) :
    (following n low high value rest).2 <:+ rest := by
  induction n generalizing low high value rest with
  | zero => exact List.suffix_rfl
  | succ n ih =>
      cases rest with
      | nil => exact List.suffix_rfl
      | cons b rest =>
          rw [following]
          split
          · exact (ih ..).trans (List.suffix_cons b rest)
          · exact List.suffix_rfl

theorem le_following_free : ∀ (n value : Nat) {rest : Bytes} {v : Nat},
    (following n 0x80 0xBF value rest).1 = some v → value * 64 ^ n ≤ v
  | 0, value, _, v, h => by
      rw [Nat.pow_zero, Nat.mul_one]
      exact Nat.le_of_eq (Option.some.inj h)
  | n + 1, value, [], v, h => by cases h
  | n + 1, value, b :: rest, v, h => by
      rw [following] at h
      split at h
      · have ih := le_following_free n _ h
        refine Nat.le_trans ?_ ih
        rw [Nat.pow_succ, Nat.mul_comm (64 ^ n), ← Nat.mul_assoc]
        exact Nat.mul_le_mul_right _ (Nat.le_add_right _ _)
      · cases h

/-- The scalar value of a sequence is not below what its lead byte and bounds allow. -/
theorem le_following {n : Nat} {low high : UInt8} {value : Nat} {rest : Bytes} {v : Nat}
    (h : (following (n + 1) low high value rest).1 = some v) :
    (value * 64 + (low.toNat - 128)) * 64 ^ n ≤ v := by
  cases rest with
  | nil => cases h
  | cons b rest =>
      rw [following] at h
      split at h
      · rename_i hb
        simp only [Bool.and_eq_true, decide_eq_true_eq, UInt8.le_iff_toNat_le] at hb
        refine Nat.le_trans (Nat.mul_le_mul_right _ ?_) (le_following_free n _ h)
        show _ ≤ value * 64 + (b.toNat - 128)
        omega
      · cases h

theorem toNat_ofNat_ascii : ∀ k < 128, (Char.ofNat k).toNat = k := by decide

theorem toNat_ofNat (v : Nat) : (Char.ofNat v).toNat = v ∨ (Char.ofNat v).toNat = 0 := by
  by_cases hv : v.isValidChar
  · rw [Char.ofNat, dif_pos hv]
    exact .inl rfl
  · rw [Char.ofNat, dif_neg hv]
    exact .inr rfl

theorem toNat_eq_of_next {b : UInt8} {rest : Bytes} {c : Char} (h : (next b rest).1 = some c)
    (hc : c.toNat < 128) (hpos : 0 < c.toNat) : b.toNat = c.toNat := by
  rcases Nat.lt_or_ge b.toNat 128 with hb | hb
  · rw [next_ascii hb] at h
    rw [← Option.some.inj h, toNat_ofNat_ascii _ hb]
  · exfalso
    unfold next at h
    cases hl : lead? b with
    | none =>
        rw [hl] at h
        cases h
    | some l =>
        obtain ⟨hone, hlarge⟩ := (lead?_eq_some hl).2 hb
        rw [hl] at h
        obtain ⟨v, hv, rfl⟩ := Option.map_eq_some_iff.mp h
        obtain ⟨n, hn⟩ : ∃ n, l.following = n + 1 := ⟨l.following - 1, by omega⟩
        rw [hn] at hv
        rw [hn, Nat.add_sub_cancel] at hlarge
        have hle := Nat.le_trans hlarge (le_following hv)
        rcases toNat_ofNat v with h | h <;> omega

/-- Where an ASCII character is read, its byte is, even if the input is malformed. -/
theorem mem_of_mem_decodeLossy {c : Char} (hc : c.toNat < 128) (hpos : 0 < c.toNat)
    {bytes : Bytes} (h : c ∈ decodeLossy bytes) : UInt8.ofNat c.toNat ∈ bytes := by
  induction bytes using scan_induction with
  | nil => simp [decodeLossy] at h
  | cons b rest ih =>
      rw [decodeLossy, scan_cons, List.map_cons, List.mem_cons] at h
      rcases h with h | h
      · cases hn : (next b rest).1 with
        | none =>
            rw [hn] at h
            rw [h] at hc
            exact absurd hc (show ¬ 0xFFFD < 128 by decide)
        | some d =>
            rw [hn] at h
            subst h
            rw [← toNat_eq_of_next hn hc hpos, UInt8.ofNat_toNat]
            exact List.mem_cons_self
      · refine List.mem_cons_of_mem _ ((List.IsSuffix.subset ?_) (ih h))
        unfold next
        split
        · exact List.suffix_rfl
        · exact suffix_following ..

end Mime.Utf8
