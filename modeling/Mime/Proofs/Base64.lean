import Mime.Base64.Content
import Mime.Proofs.Text.Utf8

/-! # The spelling of bytes in Base64

Bytes have one spelling in Base64, and it is the only text that decodes to them, but for white space
(`decode_eq_ok_iff`).  The symbols stand for six bits each: read as the digits of a number in base
64 they are the number that the bytes are in base 256, with zeros for the bits that the padding
leaves over (`spells_encode`). -/

namespace Mime.Base64

/-! ### Symbols -/

theorem sextet?_symbol : ∀ n < 64, sextet? (symbol n) = some n := by decide

theorem symbol_of_sextet?_ofNat :
    ∀ k < 256, ∀ n ∈ sextet? (UInt8.ofNat k), n < 64 ∧ symbol n = UInt8.ofNat k := by
  decide +kernel

/-- A byte is the symbol of at most one value, of six bits. -/
theorem sextet?_eq_some_iff {b : UInt8} {n : Nat} : sextet? b = some n ↔ n < 64 ∧ symbol n = b := by
  constructor
  · intro h
    have hb := symbol_of_sextet?_ofNat b.toNat b.toNat_lt n
    rw [UInt8.ofNat_toNat] at hb
    exact hb h
  · rintro ⟨hn, rfl⟩
    exact sextet?_symbol n hn

theorem plain_symbol : ∀ n < 64, symbol n ≠ pad ∧ isAsciiSpace (symbol n) = false ∧
    (symbol n).toNat < 128 := by decide

theorem symbol_ne_pad {n : Nat} (h : n < 64) : symbol n ≠ pad :=
  (plain_symbol n h).1

/-! ### Groups

Three bytes are twenty-four bits, and so are four symbols. -/

@[simp] theorem firstByte_sextets (a b : UInt8) :
    firstByte (a.toNat / 4) (a.toNat % 4 * 16 + b.toNat / 16) = a := by
  have ha := a.toNat_lt
  have hb := b.toNat_lt
  apply UInt8.toNat_inj.mp
  rw [firstByte, UInt8.toNat_ofNat']
  omega

@[simp] theorem firstByte_last (a : UInt8) :
    firstByte (a.toNat / 4) (a.toNat % 4 * 16) = a :=
  firstByte_sextets a 0

@[simp] theorem secondByte_sextets (m : Nat) (b c : UInt8) :
    secondByte (m * 16 + b.toNat / 16) (b.toNat % 16 * 4 + c.toNat / 64) = b := by
  have hb := b.toNat_lt
  have hc := c.toNat_lt
  apply UInt8.toNat_inj.mp
  rw [secondByte, UInt8.toNat_ofNat']
  omega

@[simp] theorem secondByte_last (m : Nat) (b : UInt8) :
    secondByte (m * 16 + b.toNat / 16) (b.toNat % 16 * 4) = b :=
  secondByte_sextets m b 0

@[simp] theorem thirdByte_sextets (m : Nat) (c : UInt8) :
    thirdByte (m * 4 + c.toNat / 64) (c.toNat % 64) = c := by
  have hc := c.toNat_lt
  apply UInt8.toNat_inj.mp
  rw [thirdByte, UInt8.toNat_ofNat']
  omega

section group

variable {x y z w : Nat}

theorem toNat_firstByte (hx : x < 64) (hy : y < 64) : (firstByte x y).toNat = x * 4 + y / 16 := by
  rw [firstByte, UInt8.toNat_ofNat']
  omega

theorem toNat_secondByte (hz : z < 64) : (secondByte y z).toNat = y % 16 * 16 + z / 4 := by
  rw [secondByte, UInt8.toNat_ofNat']
  omega

theorem toNat_thirdByte (hw : w < 64) : (thirdByte z w).toNat = z % 4 * 64 + w := by
  rw [thirdByte, UInt8.toNat_ofNat']
  omega

theorem encode_one (hx : x < 64) (hy : y < 64) (hzero : y % 16 = 0) :
    encode [firstByte x y] = [symbol x, symbol y, pad, pad] := by
  have hfirst : (x * 4 + y / 16) / 4 = x := by omega
  have hsecond : (x * 4 + y / 16) % 4 * 16 = y := by omega
  rw [encode, toNat_firstByte hx hy, hfirst, hsecond]

theorem encode_two (hx : x < 64) (hy : y < 64) (hz : z < 64) (hzero : z % 4 = 0) :
    encode [firstByte x y, secondByte y z] = [symbol x, symbol y, symbol z, pad] := by
  have hfirst : (x * 4 + y / 16) / 4 = x := by omega
  have hsecond : (x * 4 + y / 16) % 4 * 16 + (y % 16 * 16 + z / 4) / 16 = y := by omega
  have hthird : (y % 16 * 16 + z / 4) % 16 * 4 = z := by omega
  rw [encode, toNat_firstByte hx hy, toNat_secondByte hz, hfirst, hsecond, hthird]

theorem encode_three (hx : x < 64) (hy : y < 64) (hz : z < 64) (hw : w < 64) (rest : Bytes) :
    encode (firstByte x y :: secondByte y z :: thirdByte z w :: rest) =
      symbol x :: symbol y :: symbol z :: symbol w :: encode rest := by
  have hfirst : (x * 4 + y / 16) / 4 = x := by omega
  have hsecond : (x * 4 + y / 16) % 4 * 16 + (y % 16 * 16 + z / 4) / 16 = y := by omega
  have hthird : (y % 16 * 16 + z / 4) % 16 * 4 + (z % 4 * 64 + w) / 64 = z := by omega
  have hfourth : (z % 4 * 64 + w) % 64 = w := by omega
  rw [encode, toNat_firstByte hx hy, toNat_secondByte hz, toNat_thirdByte hw, hfirst, hsecond,
    hthird, hfourth]

end group

/-! ### Reading what was written -/

/-- Four symbols without padding stand for three bytes, whatever follows. -/
theorem decodeCompact?_group {a b c d : UInt8} (hd : d ≠ pad) (rest : Bytes) :
    decodeCompact? (a :: b :: c :: d :: rest) = (do
      let x ← sextet? a
      let y ← sextet? b
      let z ← sextet? c
      let w ← sextet? d
      let bytes ← decodeCompact? rest
      some (firstByte x y :: secondByte y z :: thirdByte z w :: bytes)) := by
  cases rest with
  | nil =>
      simp only [decodeCompact?, decodeLast?, if_neg hd]
      rfl
  | cons e rest =>
      rw [decodeCompact?]
      nofun

theorem decodeCompact?_encode (bytes : Bytes) : decodeCompact? (encode bytes) = some bytes := by
  fun_induction encode bytes with
  | case1 => rfl
  | case2 a =>
      have ha := a.toNat_lt
      have hx := sextet?_symbol (a.toNat / 4) (by omega)
      have hy := sextet?_symbol (a.toNat % 4 * 16) (by omega)
      simp [decodeCompact?, decodeLast?, hx, hy]
  | case3 a b =>
      have ha := a.toNat_lt
      have hb := b.toNat_lt
      have hx := sextet?_symbol (a.toNat / 4) (by omega)
      have hy := sextet?_symbol (a.toNat % 4 * 16 + b.toNat / 16) (by omega)
      have hz := sextet?_symbol (b.toNat % 16 * 4) (by omega)
      have hc := symbol_ne_pad (n := b.toNat % 16 * 4) (by omega)
      simp [decodeCompact?, decodeLast?, hx, hy, hz, hc]
  | case4 a b c rest ih =>
      have ha := a.toNat_lt
      have hb := b.toNat_lt
      have hc := c.toNat_lt
      have hx := sextet?_symbol (a.toNat / 4) (by omega)
      have hy := sextet?_symbol (a.toNat % 4 * 16 + b.toNat / 16) (by omega)
      have hz := sextet?_symbol (b.toNat % 16 * 4 + c.toNat / 64) (by omega)
      have hw := sextet?_symbol (c.toNat % 64) (by omega)
      rw [decodeCompact?_group (symbol_ne_pad (by omega))]
      simp [hx, hy, hz, hw, ih]

/-! ### What is read was written so -/

/-- A last group that is read was written for the bytes that it stands for. -/
theorem eq_encode_of_decodeLast? {a b c d : UInt8} {bytes : Bytes}
    (h : decodeLast? a b c d = some bytes) : [a, b, c, d] = encode bytes := by
  simp only [decodeLast?, bind, Option.bind_eq_some_iff, sextet?_eq_some_iff] at h
  obtain ⟨x, ⟨hx, rfl⟩, y, ⟨hy, rfl⟩, h⟩ := h
  split at h
  · split at h
    · split at h
      · cases h
        subst_vars
        exact (encode_one hx hy ‹_›).symm
      · cases h
    · simp only [Option.bind_eq_some_iff, sextet?_eq_some_iff] at h
      obtain ⟨z, ⟨hz, rfl⟩, h⟩ := h
      split at h
      · cases h
        subst_vars
        exact (encode_two hx hy hz ‹_›).symm
      · cases h
  · simp only [Option.bind_eq_some_iff, sextet?_eq_some_iff] at h
    obtain ⟨z, ⟨hz, rfl⟩, w, ⟨hw, rfl⟩, h⟩ := h
    cases h
    exact (encode_three hx hy hz hw []).symm

theorem eq_encode_of_decodeCompact? {text bytes : Bytes} (h : decodeCompact? text = some bytes) :
    text = encode bytes := by
  fun_induction decodeCompact? text generalizing bytes with
  | case1 =>
      cases h
      rfl
  | case2 a b c d => exact eq_encode_of_decodeLast? h
  | case3 a b c d rest hrest ih =>
      simp only [bind, Option.bind_eq_some_iff, sextet?_eq_some_iff] at h
      obtain ⟨x, ⟨hx, rfl⟩, y, ⟨hy, rfl⟩, z, ⟨hz, rfl⟩, w, ⟨hw, rfl⟩, more, hmore, h⟩ := h
      cases h
      rw [encode_three hx hy hz hw, ih hmore]
  | case4 text => cases h

/-- **A text of symbols alone** is read just where it is the spelling of some bytes. -/
theorem decodeCompact?_eq_some_iff {text bytes : Bytes} :
    decodeCompact? text = some bytes ↔ text = encode bytes := by
  constructor
  · exact eq_encode_of_decodeCompact?
  · rintro rfl
    exact decodeCompact?_encode bytes

/-! ### The digits of a number -/

/-- The number with the given digits in a base, the first one leading, behind those of `n`. -/
def valueFrom (base n : Nat) (digits : List Nat) : Nat :=
  digits.foldl (fun n digit => n * base + digit) n

/-- Whether a text spells bytes in groups of four symbols: the symbols and the padding fill the
groups, and the symbols are the digits in base 64 of the number with the bytes as its digits in base
256, of which two more bits are zero for each padding symbol. -/
def Spells (bytes text : Bytes) : Prop :=
  ∃ sextets pads, text = sextets.map symbol ++ List.replicate pads pad ∧
    (∀ n ∈ sextets, n < 64) ∧ pads = 2 * bytes.length % 3 ∧
    sextets.length + pads = (bytes.length + 2) / 3 * 4 ∧
    ∀ n, valueFrom 64 n sextets = valueFrom 256 n (bytes.map UInt8.toNat) * 4 ^ pads

theorem spells_encode (bytes : Bytes) : Spells bytes (encode bytes) := by
  fun_induction encode bytes with
  | case1 => exact ⟨[], 0, rfl, nofun, rfl, rfl, fun n => (Nat.mul_one n).symm⟩
  | case2 a =>
      have ha := a.toNat_lt
      refine ⟨[a.toNat / 4, a.toNat % 4 * 16], 2, rfl, ?_, by simp, by simp, fun n => ?_⟩
      · simp only [List.forall_mem_cons, List.not_mem_nil, false_implies, implies_true, and_true]
        omega
      · simp only [valueFrom, List.map_cons, List.map_nil, List.foldl_cons, List.foldl_nil]
        omega
  | case3 a b =>
      have ha := a.toNat_lt
      have hb := b.toNat_lt
      refine ⟨[a.toNat / 4, a.toNat % 4 * 16 + b.toNat / 16, b.toNat % 16 * 4], 1, rfl, ?_, by simp,
        by simp, fun n => ?_⟩
      · simp only [List.forall_mem_cons, List.not_mem_nil, false_implies, implies_true, and_true]
        omega
      · simp only [valueFrom, List.map_cons, List.map_nil, List.foldl_cons, List.foldl_nil]
        omega
  | case4 a b c rest ih =>
      have ha := a.toNat_lt
      have hb := b.toNat_lt
      have hc := c.toNat_lt
      obtain ⟨sextets, pads, hrest, hlt, hpads, hlen, hvalue⟩ := ih
      refine ⟨a.toNat / 4 :: (a.toNat % 4 * 16 + b.toNat / 16) ::
        (b.toNat % 16 * 4 + c.toNat / 64) :: c.toNat % 64 :: sextets, pads, ?_, ?_, ?_, ?_,
        fun n => ?_⟩
      · rw [hrest]
        rfl
      · simp only [List.forall_mem_cons]
        refine ⟨?_, ?_, ?_, ?_, hlt⟩ <;> omega
      · simp only [List.length_cons]
        omega
      · simp only [List.length_cons]
        omega
      · -- both numbers go on from the same one behind a whole group
        have hgroup : (((n * 64 + a.toNat / 4) * 64 + (a.toNat % 4 * 16 + b.toNat / 16)) * 64 +
            (b.toNat % 16 * 4 + c.toNat / 64)) * 64 + c.toNat % 64 =
            ((n * 256 + a.toNat) * 256 + b.toNat) * 256 + c.toNat := by
          omega
        have hnext := hvalue (((n * 256 + a.toNat) * 256 + b.toNat) * 256 + c.toNat)
        unfold valueFrom at hnext ⊢
        simp only [List.map_cons, List.foldl_cons]
        rw [hgroup]
        exact hnext

/-! ### White space -/

/-- A text without its white space. -/
def compact (text : Bytes) : Bytes :=
  text.filter fun b => !isAsciiSpace b

/-- `Spaced symbols text` says that the text is the symbols with white space put in anywhere. -/
inductive Spaced : Bytes → Bytes → Prop where
  | nil : Spaced [] []
  | symbol (b : UInt8) {symbols text : Bytes} : Spaced symbols text →
      Spaced (b :: symbols) (b :: text)
  | space {b : UInt8} {symbols text : Bytes} : isAsciiSpace b = true → Spaced symbols text →
      Spaced symbols (b :: text)

theorem spaced_compact (text : Bytes) : Spaced (compact text) text := by
  induction text with
  | nil => exact .nil
  | cons b text ih =>
      cases hb : isAsciiSpace b with
      | true =>
          have hcompact : compact (b :: text) = compact text := by simp [compact, hb]
          rw [hcompact]
          exact .space hb ih
      | false =>
          have hcompact : compact (b :: text) = b :: compact text := by simp [compact, hb]
          rw [hcompact]
          exact .symbol b ih

/-- Symbols that are no white space are what is left of a text without its white space just where
they are spread over the text. -/
theorem compact_eq_iff_spaced {symbols text : Bytes} (h : ∀ b ∈ symbols, isAsciiSpace b = false) :
    compact text = symbols ↔ Spaced symbols text := by
  constructor
  · rintro rfl
    exact spaced_compact text
  · intro hspaced
    induction hspaced with
    | nil => rfl
    | symbol b _ ih =>
        obtain ⟨hb, hrest⟩ := List.forall_mem_cons.mp h
        simp only [compact, List.filter_cons, hb, Bool.not_false, if_true]
        exact congrArg (b :: ·) (ih hrest)
    | space hb _ ih =>
        simp only [compact, List.filter_cons, hb, Bool.not_true, Bool.false_eq_true, if_false]
        exact ih h

/-! ### Texts -/

theorem plain_of_mem_encode {bytes : Bytes} {b : UInt8} (h : b ∈ encode bytes) :
    isAsciiSpace b = false ∧ b.toNat < 128 := by
  obtain ⟨sextets, pads, htext, hlt, -⟩ := spells_encode bytes
  rw [htext, List.mem_append] at h
  rcases h with h | h
  · obtain ⟨n, hn, rfl⟩ := List.mem_map.mp h
    exact (plain_symbol n (hlt n hn)).2
  · rw [List.eq_of_mem_replicate h]
    decide

theorem ofString_encodeToString (bytes : Bytes) :
    Utf8.ofString (encodeToString bytes) = encode bytes := by
  have hbytes : ∀ text : Bytes, (∀ b ∈ text, b.toNat < 128) →
      Utf8.encode (text.map fun b => Char.ofNat b.toNat) = text := by
    intro text htext
    induction text with
    | nil => rfl
    | cons b text ih =>
        obtain ⟨hb, hrest⟩ := List.forall_mem_cons.mp htext
        have hchar := Utf8.toNat_ofNat_ascii b.toNat hb
        rw [List.map_cons, Utf8.encode_cons, ih hrest, Utf8.encodeChar_ascii (by omega), hchar,
          UInt8.ofNat_toNat]
        rfl
  rw [Utf8.ofString, encodeToString, String.toList_ofList]
  exact hbytes _ fun b hb => (plain_of_mem_encode hb).2

theorem decode_eq_ok_iff_encode {text bytes : Bytes} :
    decode text = .ok bytes ↔ compact text = encode bytes := by
  have hdecode : decode? text = decodeCompact? (compact text) := rfl
  rw [← decodeCompact?_eq_some_iff, decode, hdecode]
  cases decodeCompact? (compact text) with
  | none => simp
  | some found => simp

theorem decode_encodeToString (bytes : Bytes) :
    decode (Utf8.ofString (encodeToString bytes)) = .ok bytes := by
  rw [ofString_encodeToString, decode_eq_ok_iff_encode, compact, List.filter_eq_self]
  intro b hb
  rw [(plain_of_mem_encode hb).1, Bool.not_false]

/-- **Bytes have one spelling in Base64.**  A text is read as some bytes just where it is, without
its white space, the text that is written for them: that is, just where it is this text with white
space put in anywhere.  All other texts are refused.  What is written fills groups of four symbols,
with padding, and stands for the number that the bytes are. -/
theorem decode_eq_ok_iff (text bytes : Bytes) :
    (decode text = .ok bytes ↔ compact text = Utf8.ofString (encodeToString bytes)) ∧
      (decode text = .ok bytes ↔ Spaced (Utf8.ofString (encodeToString bytes)) text) ∧
      (decode text = .error (.decode .base64) ↔
        ∀ bytes, compact text ≠ Utf8.ofString (encodeToString bytes)) ∧
      Spells bytes (Utf8.ofString (encodeToString bytes)) := by
  simp only [ofString_encodeToString]
  refine ⟨decode_eq_ok_iff_encode, ?_, ?_, spells_encode bytes⟩
  · rw [decode_eq_ok_iff_encode]
    apply compact_eq_iff_spaced
    intro b hb
    exact (plain_of_mem_encode hb).1
  · constructor
    · intro h bytes hbytes
      cases h.symm.trans (decode_eq_ok_iff_encode.mpr hbytes)
    · intro h
      cases hdecode : decode? text with
      | none => rw [decode, hdecode]
      | some found =>
          have hok : decode text = .ok found := by rw [decode, hdecode]
          exact absurd (decode_eq_ok_iff_encode.mp hok) (h found)

/-- Line breaks do not matter, and the bits that the padding leaves over do. -/
example : decode? (Utf8.ofString "Z\r\ng ==") = some [102] ∧ decode? (Utf8.ofString "Zh==") = none ∧
    decode? (Utf8.ofString "Zg") = none := by
  decide +kernel

end Mime.Base64
