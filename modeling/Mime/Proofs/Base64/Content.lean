import Mathlib.Control.Monad.Basic
import Mime.Proofs.Base64
import Mime.Proofs.Charset
import Mime.Proofs.Success

/-! # Text in Base64

Base64 keeps the bytes that a text is written in, and both ways go through the charset that the
declaration selects.  So a text that can be written is read back just where its charset reads back
what it is written in (`decodeText_eq_ok_iff_of_encodeText`).  That is so in UTF-8 and in the
single-byte charsets, and not in UTF-16 and the replacement charset, which are written in UTF-8; in
the multi-byte charsets of East Asia it is a matter of their codecs.  Plain ASCII text can be
written in any charset and comes back from those that are written in themselves
(`decodeText_encodeText_of_plain`). -/

namespace Mime.Base64

variable [Charset.Codecs]

theorem encodeText_eq_ok_iff {text spelled : String} {declared : Option String} :
    encodeText text declared = .ok spelled ↔ ∃ c bytes, Charset.ofDeclaration? declared = some c ∧
      c.encode? text.toList = some bytes ∧ encodeToString bytes = spelled := by
  rw [encodeText, map_eq_ok_iff, Charset.encodeText]
  cases Charset.ofDeclaration? declared with
  | none => simp
  | some c =>
      cases h : c.encode? text.toList with
      | none => simp [h]
      | some bytes => simp [h]

theorem decodeText_encodeToString (bytes : Bytes) (declared : Option String) :
    decodeText (encodeToString bytes) declared = Charset.decodeText bytes declared := by
  rw [decodeText, decode_encodeToString]
  rfl

theorem decodeText_encodeToString_eq_ok_iff {text : String} {declared : Option String} {c : Charset}
    {bytes : Bytes} (hc : Charset.ofDeclaration? declared = some c)
    (hbytes : c.encode? text.toList = some bytes) :
    decodeText (encodeToString bytes) declared = .ok text ↔ c.ReadsBack text.toList := by
  rw [← Charset.decode?_eq_some_iff_of_encode? (Charset.isWhole_of_ofDeclaration? hc) hbytes,
    decodeText_encodeToString, Charset.decodeText, hc]
  cases hdec : c.decode? bytes with
  | none => simp [hdec]
  | some read =>
      simp only [hdec, Except.ok.injEq, Option.some.injEq]
      exact ⟨fun h => by rw [← h, String.toList_ofList], fun h => by rw [h, String.ofList_toList]⟩

/-- **A text survives Base64** just where its charset reads back what it writes of it.  It is
written in the charset of the output, which need not be the one that the declaration selects, and
read in the latter. -/
theorem decodeText_eq_ok_iff_of_encodeText {text spelled : String} {declared : Option String}
    (h : encodeText text declared = .ok spelled) :
    ∃ c bytes, Charset.ofDeclaration? declared = some c ∧
      c.output.encode? text.toList = some bytes ∧ spelled = encodeToString bytes ∧
      decodeText spelled declared = Charset.decodeText bytes declared ∧
      (decodeText spelled declared = .ok text ↔ c.ReadsBack text.toList) := by
  obtain ⟨c, bytes, hc, hbytes, rfl⟩ := encodeText_eq_ok_iff.mp h
  have houtput : c.output.encode? text.toList = some bytes := by
    rw [Charset.encode?_output, hbytes]
  exact ⟨c, bytes, hc, houtput, rfl, decodeText_encodeToString bytes declared,
    decodeText_encodeToString_eq_ok_iff hc hbytes⟩

omit [Charset.Codecs] in
/-- Letters that take one byte each in KOI8-R, and a katakana of half width in Shift_JIS, come back;
the yen sign is written there as a backslash. -/
theorem decodeText_eq_ok_iff_of_encodeText_halfWidth :
    (@encodeText .halfWidth "Да" (some " KOI8-R ") = .ok "5ME=" ∧
      @decodeText .halfWidth "5ME=" (some " KOI8-R ") = .ok "Да") ∧
    (@encodeText .halfWidth "ｶ" (some "shift_jis") = .ok "tg==" ∧
      @decodeText .halfWidth "tg==" (some "shift_jis") = .ok "ｶ") ∧
    (@encodeText .halfWidth "¥" (some "shift_jis") = .ok "XA==" ∧
      @decodeText .halfWidth "XA==" (some "shift_jis") ≠ .ok "¥") := by
  have hkoi : Charset.ofDeclaration? (some " KOI8-R ") =
      some ⟨"KOI8-R", .singleByte Charset.Table.koi8R⟩ := by decide +kernel
  have hsjis : Charset.ofDeclaration? (some "shift_jis") =
      some ⟨"Shift_JIS", .multiByte .shiftJis⟩ := by decide +kernel
  have hletters : @encodeText .halfWidth "Да" (some " KOI8-R ") = .ok "5ME=" := by decide +kernel
  have hkatakana : @encodeText .halfWidth "ｶ" (some "shift_jis") = .ok "tg==" := by decide +kernel
  have hyen : @encodeText .halfWidth "¥" (some "shift_jis") = .ok "XA==" := by decide +kernel
  refine ⟨⟨hletters, ?_⟩, ⟨hkatakana, ?_⟩, hyen, ?_⟩
  · obtain ⟨c, -, hc, -, -, -, hiff⟩ :=
      @decodeText_eq_ok_iff_of_encodeText .halfWidth _ _ _ hletters
    cases hc.symm.trans hkoi
    exact hiff.mpr trivial
  · obtain ⟨c, -, hc, -, -, -, hiff⟩ :=
      @decodeText_eq_ok_iff_of_encodeText .halfWidth _ _ _ hkatakana
    cases hc.symm.trans hsjis
    have hback : (Charset.Codec.halfWidth.encode? ['ｶ']).bind Charset.Codec.halfWidth.decode? =
        some ['ｶ'] := by decide +kernel
    exact hiff.mpr hback
  · obtain ⟨c, -, hc, -, -, -, hiff⟩ :=
      @decodeText_eq_ok_iff_of_encodeText .halfWidth _ _ _ hyen
    cases hc.symm.trans hsjis
    have hback : (Charset.Codec.halfWidth.encode? ['¥']).bind Charset.Codec.halfWidth.decode? ≠
        some ['¥'] := by decide +kernel
    exact fun hread => hback (hiff.mp hread)

/-- Plain text can be written in each charset that there is, and comes back from all of them that
are written in themselves. -/
theorem decodeText_encodeText_of_plain (hkeeps : ∀ m, (Charset.Codecs.codec m).KeepsPlain)
    {text : String} (htext : ∀ c ∈ text.toList, Charset.IsPlain c) {declared : Option String}
    {c : Charset} (hc : Charset.ofDeclaration? declared = some c) :
    ∃ spelled, encodeText text declared = .ok spelled ∧
      (c.output = c → decodeText spelled declared = .ok text) := by
  have hbytes := Charset.encode?_of_plain htext hkeeps c
  refine ⟨_, encodeText_eq_ok_iff.mpr ⟨c, _, hc, hbytes, rfl⟩, fun hself => ?_⟩
  rw [decodeText_encodeToString_eq_ok_iff hc hbytes]
  exact Charset.readsBack_of_plain htext hkeeps hself

omit [Charset.Codecs] in
/-- Whatever the codecs, two letters for UTF-16 are written in UTF-8, and these bytes are not read
as the two letters. -/
theorem not_decodeText_of_encodeText_utf16 :
    ¬ ∃ _ : Charset.Codecs, ∀ (text spelled : String) (declared : Option String),
      encodeText text declared = .ok spelled → decodeText spelled declared = .ok text := by
  rintro ⟨_, h⟩
  have hc : Charset.ofDeclaration? (some "utf-16le") = some ⟨"UTF-16LE", .utf16 false⟩ := by
    decide +kernel
  have hbytes : Charset.encode? ⟨"UTF-16LE", .utf16 false⟩ "ab".toList =
      some (Utf8.encode "ab".toList) := rfl
  have hread := h "ab" _ _ (encodeText_eq_ok_iff.mpr ⟨_, _, hc, hbytes, rfl⟩)
  have hempty : "ab".toList = [] := (decodeText_encodeToString_eq_ok_iff hc hbytes).mp hread
  exact absurd hempty (by decide)

end Mime.Base64
