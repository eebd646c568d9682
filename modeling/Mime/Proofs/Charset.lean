import Mime.Charset.Codec
import Mime.Proofs.Text.Utf8

/-! # Text that is read back in its charset

A charset is read in its own way, but not each is written so: text for UTF-16 and for the
replacement charset is written in UTF-8 (`output`, `encode?_output`).  Of these charsets nothing is
read back but the empty text.  For UTF-16 this is a matter of counting: as UTF-16 each ASCII
character takes two ASCII bytes, and in UTF-8 it is one (`not_readsUtf16_encode`).  In UTF-8 and in
a single-byte charset whatever could be written is read back: byte by byte, a character is at the
place of the table where it was found (`decodeByte?_of_encodeChar?`).  The multi-byte charsets are
read and written by their codecs, which do not always agree: Shift_JIS has the yen sign where it
reads a backslash.  So there the codec decides (`ReadsBack`, `decode?_eq_some_iff_of_encode?`).  But
ASCII text comes back in all of them that keep it (`readsBack_of_plain`). -/

namespace Mime.Charset

theorem encode?_output [Codecs] (c : Charset) (text : List Char) :
    c.output.encode? text = c.encode? text := by
  obtain ⟨name, scheme⟩ := c
  cases scheme <;> rfl

/-! ### Byte by byte -/

theorem mapM_of_mapM {α β : Type} {write : α → Option β} {read : β → Option α}
    (h : ∀ a b, write a = some b → read b = some a) :
    ∀ {text : List α} {bytes : List β}, text.mapM write = some bytes → bytes.mapM read = some text
  | [], bytes, hwrite => by
      cases hwrite
      rfl
  | a :: text, bytes, hwrite => by
      simp only [List.mapM_cons, bind, Option.bind_eq_some_iff] at hwrite
      obtain ⟨b, hb, rest, hrest, hbytes⟩ := hwrite
      cases hbytes
      simp only [List.mapM_cons, h a b hb, mapM_of_mapM h hrest]
      rfl

theorem decodeByte?_ascii (upper : List Nat) {c : Char} (hc : c.toNat < 0x80) :
    decodeByte? upper (UInt8.ofNat c.toNat) = some c := by
  have hb : (UInt8.ofNat c.toNat).toNat = c.toNat := by
    rw [UInt8.toNat_ofNat']
    omega
  have hlt : UInt8.ofNat c.toNat < 0x80 := by
    rw [UInt8.lt_iff_toNat_lt, hb]
    exact hc
  rw [decodeByte?, if_pos hlt, hb, Char.ofNat_toNat]

theorem decodeByte?_of_encodeChar? {upper : List Nat} (hupper : upper.length = 128) {c : Char}
    {b : UInt8} (h : encodeChar? upper c = some b) : decodeByte? upper b = some c := by
  by_cases hc : c.toNat < 0x80
  · rw [encodeChar?, if_pos hc] at h
    cases h
    exact decodeByte?_ascii upper hc
  · rw [encodeChar?, if_neg hc, Option.map_eq_some_iff] at h
    obtain ⟨i, hi, rfl⟩ := h
    obtain ⟨hlt, hfound, -⟩ := List.findIdx?_eq_some_iff_getElem.mp hi
    have hpoint : upper[i] = c.toNat := by simpa using hfound
    have hb : (UInt8.ofNat (0x80 + i)).toNat = 0x80 + i := by
      rw [UInt8.toNat_ofNat']
      omega
    have hge : ¬ UInt8.ofNat (0x80 + i) < 0x80 := by
      rw [UInt8.lt_iff_toNat_lt, hb]
      show ¬ 0x80 + i < 128
      omega
    have hzero : c.toNat ≠ 0 := by omega
    rw [decodeByte?, if_neg hge, hb, Nat.add_sub_cancel_left, List.getElem?_eq_getElem hlt, hpoint,
      Option.bind_some, charOfPoint?, if_neg hzero, Char.ofNat_toNat]

/-- Whether a table, if there is one, is that of the whole upper half. -/
def Scheme.isWhole : Scheme → Bool
  | .singleByte upper => upper.codePoints.length == 128
  | _ => true

theorem isWhole_of_registry : registry.all (fun entry => entry.1.scheme.isWhole) = true := by
  decide +kernel

theorem isWhole_of_ofDeclaration? {declared : Option String} {c : Charset}
    (h : ofDeclaration? declared = some c) : c.scheme.isWhole = true := by
  cases declared with
  | none =>
      cases h
      rfl
  | some label =>
      simp only [ofDeclaration?, ofLabel?, Option.map_eq_some_iff] at h
      obtain ⟨entry, hentry, rfl⟩ := h
      have hmem := List.mem_of_find?_eq_some hentry
      exact List.all_eq_true.mp isWhole_of_registry entry hmem

/-! ### UTF-16 -/

/-- How bytes are read as UTF-16: two for a character that is a unit itself, and four for one
above. -/
inductive ReadsUtf16 (bigEndian : Bool) : Bytes → List Char → Prop where
  | nil : ReadsUtf16 bigEndian [] []
  | unit {a b : UInt8} {rest : Bytes} {c : Char} {text : List Char}
      (toNat_eq : c.toNat = decodeUtf16From.wordOf bigEndian a b)
      (tail : ReadsUtf16 bigEndian rest text) : ReadsUtf16 bigEndian (a :: b :: rest) (c :: text)
  | pair {a b a' b' : UInt8} {rest : Bytes} {c : Char} {text : List Char}
      (le_word : 0xD800 ≤ decodeUtf16From.wordOf bigEndian a b)
      (word_lt : decodeUtf16From.wordOf bigEndian a b < 0xDC00) (le_toNat : 0x10000 ≤ c.toNat)
      (tail : ReadsUtf16 bigEndian rest text) :
      ReadsUtf16 bigEndian (a :: b :: a' :: b' :: rest) (c :: text)

theorem toNat_char {n : Nat} (h : n.isValidChar) : (Char.ofNat n).toNat = n := by
  rw [Char.ofNat, dif_pos h]
  rfl

theorem wordOf_eq_or (bigEndian : Bool) (a b : UInt8) :
    decodeUtf16From.wordOf bigEndian a b = a.toNat * 256 + b.toNat ∨
      decodeUtf16From.wordOf bigEndian a b = b.toNat * 256 + a.toNat := by
  cases bigEndian with
  | true => exact .inl rfl
  | false => exact .inr rfl

theorem wordOf_lt (bigEndian : Bool) (a b : UInt8) :
    decodeUtf16From.wordOf bigEndian a b < 0x10000 := by
  have ha := a.toNat_lt
  have hb := b.toNat_lt
  rcases wordOf_eq_or bigEndian a b with h | h <;> omega

theorem readsUtf16_of_decodeUtf16From {bigEndian : Bool} {done text : List Char} {bytes : Bytes}
    (h : decodeUtf16From bigEndian done bytes = some text) :
    ∃ more, text = done.reverse ++ more ∧ ReadsUtf16 bigEndian bytes more := by
  fun_induction decodeUtf16From bigEndian done bytes with
  | case1 done =>
      cases h
      exact ⟨[], (List.append_nil _).symm, .nil⟩
  | case2 => cases h
  | case3 done a b rest word hword ih =>
      obtain ⟨more, rfl, hmore⟩ := ih h
      refine ⟨Char.ofNat word :: more, by simp, .unit (toNat_char ?_) hmore⟩
      have hlt := wordOf_lt bigEndian a b
      show word < 55296 ∨ 57343 < word ∧ word < 1114112
      omega
  | case4 => cases h
  | case5 done a b word hword hhigh a' b' rest low hlow point ih =>
      obtain ⟨more, rfl, hmore⟩ := ih h
      have hpoint : (Char.ofNat point).toNat = point := by
        apply toNat_char
        show point < 55296 ∨ 57343 < point ∧ point < 1114112
        omega
      refine ⟨Char.ofNat point :: more, by simp, .pair ?_ ?_ ?_ hmore⟩ <;> omega
  | case6 => cases h
  | case7 => cases h

/-! ### UTF-8 read as UTF-16 -/

/-- The number of bytes of a character in UTF-16. -/
def utf16Size (c : Char) : Nat :=
  if c.toNat < 0x10000 then 2 else 4

/-- The number of bytes of a text in UTF-16. -/
def utf16Length : List Char → Nat
  | [] => 0
  | c :: text => utf16Size c + utf16Length text

section counting

variable {bigEndian : Bool} {bytes : Bytes} {text : List Char}

/-- An ASCII character is read from two ASCII bytes. -/
theorem ReadsUtf16.two_mul_countP_le (h : ReadsUtf16 bigEndian bytes text) :
    2 * text.countP (·.toNat < 128) ≤ bytes.countP (·.toNat < 128) := by
  induction h with
  | nil => exact Nat.le_refl 0
  | @unit a b rest c text htoNat _ ih =>
      simp only [List.countP_cons, decide_eq_true_eq]
      by_cases hc : c.toNat < 128
      · have hab : a.toNat < 128 ∧ b.toNat < 128 := by
          rcases wordOf_eq_or bigEndian a b with h | h <;> omega
        rw [if_pos hc, if_pos hab.1, if_pos hab.2]
        omega
      · rw [if_neg hc]
        omega
  | @pair a b a' b' rest c text _ _ hc _ ih =>
      have hnot : ¬ c.toNat < 128 := by omega
      simp only [List.countP_cons, decide_eq_true_eq]
      rw [if_neg hnot]
      omega

theorem ReadsUtf16.length_eq (h : ReadsUtf16 bigEndian bytes text) :
    bytes.length = utf16Length text := by
  induction h with
  | nil => rfl
  | @unit a b rest c text htoNat _ ih =>
      have hlt := wordOf_lt bigEndian a b
      rw [utf16Length, utf16Size, if_pos (by omega), ← ih, List.length_cons, List.length_cons]
      omega
  | @pair a b a' b' rest c text _ _ hc _ ih =>
      rw [utf16Length, utf16Size, if_neg (by omega), ← ih]
      simp only [List.length_cons]
      omega

/-- In UTF-8 an ASCII character is one ASCII byte, and there are no others. -/
theorem countP_encode (text : List Char) :
    (Utf8.encode text).countP (·.toNat < 128) = text.countP (·.toNat < 128) := by
  induction text with
  | nil => rfl
  | cons c text ih =>
      rw [Utf8.encode_cons, List.countP_append, ih, List.countP_cons, Nat.add_comm]
      congr 1
      by_cases hc : c.toNat < 128
      · have hb : c.toNat % 256 < 128 := by omega
        rw [Utf8.encodeChar_ascii hc]
        simp [hc, hb]
      · simp only [hc, decide_false, Bool.false_eq_true, if_false, List.countP_eq_zero,
          decide_eq_true_eq]
        intro b hb hlt
        rw [Utf8.eq_of_mem_encodeChar hb hlt] at hc
        exact hc hlt

/-- A character outside ASCII has as many bytes in UTF-8 as in UTF-16, or one more. -/
theorem length_encodeChar {c : Char} (h : ¬ c.toNat < 128) :
    (String.utf8EncodeChar c).length =
      utf16Size c + if 0x800 ≤ c.toNat ∧ c.toNat < 0x10000 then 1 else 0 := by
  rw [utf16Size]
  rcases Utf8.encodeChar_cases h with ⟨hc, _, -, he⟩ | ⟨hc, hc', _, -, he⟩ | ⟨hc, _, -, he⟩
  · rw [he, if_pos (by omega), if_neg (by omega)]
    rfl
  · rw [he, if_pos hc', if_pos ⟨hc, hc'⟩]
    rfl
  · rw [he, if_neg (by omega), if_neg (by omega)]
    rfl

/-- Without ASCII characters UTF-8 is not shorter than UTF-16. -/
theorem utf16Length_le (h : ∀ c ∈ text, ¬ c.toNat < 128) :
    utf16Length text ≤ (Utf8.encode text).length := by
  induction text with
  | nil => exact Nat.le_refl 0
  | cons c text ih =>
      obtain ⟨hc, hrest⟩ := List.forall_mem_cons.mp h
      have hle := ih hrest
      have hsize := length_encodeChar hc
      rw [utf16Length, Utf8.encode_cons, List.length_append]
      omega

/-- The first two bytes of a character in UTF-8 are no unit of it in UTF-16, but for a unit from 800
on. -/
theorem wordOf_encodeChar {c : Char} (h : ¬ c.toNat < 128) : ∃ a b more,
    String.utf8EncodeChar c = a :: b :: more ∧ 0x80C0 ≤ decodeUtf16From.wordOf bigEndian a b ∧
      (0x10000 ≤ c.toNat → decodeUtf16From.wordOf bigEndian a b < 0xD800 ∨
        0xDC00 ≤ decodeUtf16From.wordOf bigEndian a b) := by
  have hword : ∀ (lead : UInt8) v, 0xC0 ≤ lead.toNat →
      0x80C0 ≤ decodeUtf16From.wordOf bigEndian lead (Utf8.tail v) ∧
        (0xF0 ≤ lead.toNat → decodeUtf16From.wordOf bigEndian lead (Utf8.tail v) < 0xD800 ∨
          0xDC00 ≤ decodeUtf16From.wordOf bigEndian lead (Utf8.tail v)) := by
    intro lead v hlead
    have hlt := lead.toNat_lt
    have htail := Utf8.toNat_tail v
    rcases wordOf_eq_or bigEndian lead (Utf8.tail v) with h | h <;> omega
  rcases Utf8.encodeChar_cases h with ⟨hc, lead, hlead, he⟩ | ⟨hc, hc', lead, hlead, he⟩ |
    ⟨hc, lead, hlead, he⟩
  · exact ⟨_, _, _, he, (hword lead _ hlead).1, fun hge => by omega⟩
  · exact ⟨_, _, _, he, (hword lead _ (by omega)).1, fun hge => by omega⟩
  · exact ⟨_, _, _, he, (hword lead _ (by omega)).1, fun _ => (hword lead _ (by omega)).2 hlead⟩

/-- **No text in UTF-8 is the same text in UTF-16**, but for the empty one. -/
theorem not_readsUtf16_encode (hne : text ≠ []) :
    ¬ ReadsUtf16 bigEndian (Utf8.encode text) text := by
  intro h
  -- two ASCII bytes for each ASCII character, and there is only one
  have hascii : ∀ c ∈ text, ¬ c.toNat < 128 := by
    have hcount := h.two_mul_countP_le
    rw [countP_encode] at hcount
    have hzero : text.countP (·.toNat < 128) = 0 := by omega
    simpa using List.countP_eq_zero.mp hzero
  have hlen := h.length_eq
  cases text with
  | nil => exact hne rfl
  | cons c text =>
      obtain ⟨hc, hrest⟩ := List.forall_mem_cons.mp hascii
      have hle := utf16Length_le hrest
      have hsize := length_encodeChar hc
      obtain ⟨a, b, more, he, hword, hpair⟩ := @wordOf_encodeChar bigEndian c hc
      rw [utf16Length, Utf8.encode_cons, List.length_append] at hlen
      -- so no character may have three bytes, and of the others the first two are no unit
      have hthree : ¬ (0x800 ≤ c.toNat ∧ c.toNat < 0x10000) := by
        intro hthree
        rw [if_pos hthree] at hsize
        omega
      rw [Utf8.encode_cons, he, List.cons_append, List.cons_append] at h
      generalize more ++ Utf8.encode text = rest at h
      have hlt := wordOf_lt bigEndian a b
      cases h with
      | unit htoNat _ => omega
      | pair hle hlt hge _ =>
          have hnone := hpair hge
          omega

/-- What is written in UTF-8 is read in UTF-16 as the same text just where there is none. -/
theorem decodeUtf16From_encode_eq_some_iff :
    decodeUtf16From bigEndian [] (Utf8.encode text) = some text ↔ text = [] := by
  constructor
  · intro hread
    obtain ⟨more, htext, hmore⟩ := readsUtf16_of_decodeUtf16From hread
    rw [List.reverse_nil, List.nil_append] at htext
    subst htext
    by_cases hne : text = []
    · exact hne
    · exact absurd hmore (not_readsUtf16_encode hne)
  · rintro rfl
    rfl

end counting

/-! ### Reading back -/

/-- Whether what a codec writes of a text is read as that text. -/
def Codec.ReadsBack (codec : Codec) (text : List Char) : Prop :=
  (codec.encode? text).bind codec.decode? = some text

variable [Codecs]

/-- Whether what a charset writes of a text is read as that text. -/
def ReadsBack (c : Charset) (text : List Char) : Prop :=
  match c.scheme with
  | .utf16 _ | .replacement => text = []
  | .multiByte m => (Codecs.codec m).ReadsBack text
  | .utf8 | .singleByte _ => True

/-- **Text that is written in a charset** comes back in every single-byte charset and in UTF-8,
never from UTF-16 or the replacement charset unless it is empty, and from a multi-byte charset where
its codec agrees with itself. -/
theorem decode?_eq_some_iff_of_encode? {c : Charset} (hc : c.scheme.isWhole = true)
    {text : List Char} {bytes : Bytes} (h : c.encode? text = some bytes) :
    c.decode? bytes = some text ↔ c.ReadsBack text := by
  obtain ⟨name, scheme⟩ := c
  cases scheme with
  | utf8 =>
      cases h
      exact iff_of_true (Utf8.decode?_encode text) trivial
  | singleByte upper =>
      have hupper : upper.codePoints.length = 128 := by simpa [Scheme.isWhole] using hc
      refine iff_of_true ?_ trivial
      exact mapM_of_mapM (fun _ _ => decodeByte?_of_encodeChar? hupper) h
  | multiByte m =>
      have hbytes : (Codecs.codec m).encode? text = some bytes := h
      show (Codecs.codec m).decode? bytes = some text ↔ (Codecs.codec m).ReadsBack text
      rw [Codec.ReadsBack, hbytes, Option.bind_some]
  | utf16 bigEndian =>
      cases h
      exact decodeUtf16From_encode_eq_some_iff
  | replacement =>
      cases h
      constructor
      · intro hread
        simp only [decode?] at hread
        split at hread
        · exact (Option.some.inj hread).symm
        · cases hread
      · rintro rfl
        rfl

/-! ### ASCII -/

/-- An ASCII character other than the controls that shift and escape, for which ISO-2022-JP has uses
of its own. -/
def IsPlain (c : Char) : Prop :=
  c.toNat < 0x80 ∧ c.toNat ∉ [0x0E, 0x0F, 0x1B]

instance : DecidablePred IsPlain :=
  fun c => inferInstanceAs (Decidable (c.toNat < 0x80 ∧ c.toNat ∉ [0x0E, 0x0F, 0x1B]))

/-- A codec that writes and reads plain text as ASCII, which is the same in UTF-8. -/
structure Codec.KeepsPlain (codec : Codec) : Prop where
  encode?_eq : ∀ text, (∀ c ∈ text, IsPlain c) → codec.encode? text = some (Utf8.encode text)
  decode?_eq : ∀ text, (∀ c ∈ text, IsPlain c) → codec.decode? (Utf8.encode text) = some text

section plain

variable {text : List Char} (htext : ∀ c ∈ text, IsPlain c)

include htext

omit [Codecs] in
theorem mapM_write_of_plain {write : Char → Option UInt8}
    (h : ∀ c, IsPlain c → write c = some (UInt8.ofNat c.toNat)) :
    text.mapM write = some (Utf8.encode text) := by
  induction text with
  | nil => rfl
  | cons c text ih =>
      obtain ⟨hc, hrest⟩ := List.forall_mem_cons.mp htext
      rw [Utf8.encode_cons, Utf8.encodeChar_ascii hc.1]
      simp only [List.mapM_cons, h c hc, ih hrest]
      rfl

omit [Codecs] in
theorem mapM_read_of_plain {read : UInt8 → Option Char}
    (h : ∀ c, IsPlain c → read (UInt8.ofNat c.toNat) = some c) :
    (Utf8.encode text).mapM read = some text := by
  induction text with
  | nil => rfl
  | cons c text ih =>
      obtain ⟨hc, hrest⟩ := List.forall_mem_cons.mp htext
      rw [Utf8.encode_cons, Utf8.encodeChar_ascii hc.1, List.singleton_append]
      simp only [List.mapM_cons, h c hc, ih hrest]
      rfl

theorem encode?_of_plain (hkeeps : ∀ m, (Codecs.codec m).KeepsPlain) (c : Charset) :
    c.encode? text = some (Utf8.encode text) := by
  obtain ⟨name, scheme⟩ := c
  cases scheme with
  | utf8 | utf16 bigEndian | replacement => rfl
  | singleByte upper => exact mapM_write_of_plain htext fun c hc => if_pos hc.1
  | multiByte m => exact (hkeeps m).encode?_eq text htext

/-- Plain text is read back in every charset that is written in itself. -/
theorem readsBack_of_plain (hkeeps : ∀ m, (Codecs.codec m).KeepsPlain) {c : Charset}
    (hself : c.output = c) : c.ReadsBack text := by
  obtain ⟨name, scheme⟩ := c
  cases scheme with
  | utf8 | singleByte upper => trivial
  | utf16 bigEndian | replacement => cases hself
  | multiByte m =>
      show (Codecs.codec m).ReadsBack text
      rw [Codec.ReadsBack, (hkeeps m).encode?_eq text htext]
      exact (hkeeps m).decode?_eq text htext

end plain

/-! ### Codecs of single bytes -/

/-- The codec that reads and writes byte by byte. -/
def Codec.ofBytes (read : UInt8 → Option Char) (write : Char → Option UInt8) : Codec where
  decode? bytes := bytes.mapM read
  encode? text := text.mapM write

/-- The single bytes of Shift_JIS: ASCII and the katakana of half width.  The yen sign and the
overline are written as the backslash and the tilde. -/
def Codec.halfWidth : Codec :=
  .ofBytes
    (fun b =>
      if b < 0x80 then some (Char.ofNat b.toNat)
      else if 0xA1 ≤ b ∧ b ≤ 0xDF then some (Char.ofNat (0xFF61 + (b.toNat - 0xA1)))
      else none)
    (fun c =>
      if c.toNat < 0x80 then some (UInt8.ofNat c.toNat)
      else if c = '¥' then some 0x5C
      else if c = '‾' then some 0x7E
      else if 0xFF61 ≤ c.toNat ∧ c.toNat ≤ 0xFF9F then some (UInt8.ofNat (c.toNat - 0xFF61 + 0xA1))
      else none)

/-- What all charsets have of ASCII. -/
def Codec.plain : Codec :=
  .ofBytes
    (fun b => (some (Char.ofNat b.toNat)).filter fun c => IsPlain c)
    (fun c => if IsPlain c then some (UInt8.ofNat c.toNat) else none)

/-- Codecs that know no character of more than one byte. -/
@[reducible] def Codecs.halfWidth : Codecs where
  codec
    | .shiftJis => .halfWidth
    | _ => .plain

omit [Codecs] in
theorem Codecs.keepsPlain_halfWidth (m : MultiByte) : (Codecs.halfWidth.codec m).KeepsPlain := by
  have hlt : ∀ {c : Char}, IsPlain c → UInt8.ofNat c.toNat < 0x80 ∧
      Char.ofNat (UInt8.ofNat c.toNat).toNat = c := by
    intro c hc
    have hb := UInt8.toNat_ofNat_of_lt' (Nat.lt_trans hc.1 (by decide : 0x80 < UInt8.size))
    rw [UInt8.lt_iff_toNat_lt, hb, Char.ofNat_toNat]
    exact ⟨hc.1, rfl⟩
  have hhalf : Codec.halfWidth.KeepsPlain :=
    ⟨fun text h => mapM_write_of_plain h fun c hc => if_pos hc.1,
      fun text h => mapM_read_of_plain h fun c hc => by rw [if_pos (hlt hc).1, (hlt hc).2]⟩
  have hplain : Codec.plain.KeepsPlain :=
    ⟨fun text h => mapM_write_of_plain h fun c hc => if_pos hc,
      fun text h => mapM_read_of_plain h fun c hc => by
        rw [(hlt hc).2, Option.filter_some, if_pos (decide_eq_true hc)]⟩
  cases m
  case shiftJis => exact hhalf
  all_goals exact hplain

end Mime.Charset
