import Mime.Field.Lenient
import Mime.Proofs.Text.Trim

/-! # Values that are read back from between quotes

A text is `Whole` if no separator of pieces is in it and it leaves the quotes as it found them.
Tokens are, and so is every text between quotes in which quotes and backslashes have a backslash in
front of them.  These are the ways to write a value (`SpelledValue`): each is one piece
(`SpelledValue.whole_text`) that `unquote` reads as it is meant (`SpelledValue.unquote_text`), and
`quoteIfNeeded` chooses one of them.  So a value followed by parameters is cut into just these
(`splitUnquoted_format`), and `unquote` gives the value of each (`unquote_quoteIfNeeded`). -/

namespace Mime.Field

open Text

/-! ### Pieces -/

/-- Outside of quotes, the text is part of one piece and ends outside of quotes. -/
def Whole (s : List Char) : Prop :=
  ∀ piece rest, splitFrom .outside piece (s ++ rest) = splitFrom .outside (s.reverse ++ piece) rest

theorem whole_nil : Whole [] := fun _ _ => rfl

theorem Whole.append {s t : List Char} (hs : Whole s) (ht : Whole t) : Whole (s ++ t) := by
  intro piece rest
  rw [List.append_assoc, hs, ht, List.reverse_append, List.append_assoc]

theorem whole_of_forall : ∀ {s : List Char}, (∀ c ∈ s, c ≠ '"' ∧ c ≠ ';') → Whole s
  | [], _ => whole_nil
  | c :: s, h => by
      intro piece rest
      have hc := h c List.mem_cons_self
      have ih := whole_of_forall (fun d hd => h d (List.mem_cons_of_mem _ hd)) (c :: piece) rest
      rw [List.cons_append, splitFrom, if_neg fun hs => hc.2 hs.2, Quoting.next, if_neg hc.1, ih]
      simp

theorem not_mem_of_isToken {s : List Char} (h : isToken s = true) {c : Char}
    (hc : isTokenChar c = false) : c ∉ s := by
  intro hm
  rw [(isToken_iff.mp h).2 c hm] at hc
  cases hc

theorem isTokenChar_ne {c : Char} (h : isTokenChar c = true) : c ≠ '"' ∧ c ≠ ';' := by
  constructor <;> (rintro rfl; revert h; decide)

theorem whole_of_isToken {s : List Char} (h : isToken s = true) : Whole s :=
  whole_of_forall fun c hc => isTokenChar_ne ((isToken_iff.mp h).2 c hc)

theorem splitUnquoted_of_whole {s : List Char} (h : Whole s) : splitUnquoted s = some [s] := by
  have := h [] []
  rw [List.append_nil] at this
  rw [splitUnquoted, this, splitFrom, if_pos rfl]
  simp

theorem splitUnquoted_pieces : ∀ {s : List Char} {pieces : List (List Char)}, Whole s →
    (∀ t ∈ pieces, Whole t) →
    splitUnquoted (s ++ pieces.flatMap fun t => ';' :: t) = some (s :: pieces)
  | s, [], hs, _ => by
      rw [List.flatMap_nil, List.append_nil, splitUnquoted_of_whole hs]
  | s, t :: pieces, hs, ht => by
      have ih := splitUnquoted_pieces (ht t List.mem_cons_self)
        fun u hu => ht u (List.mem_cons_of_mem _ hu)
      rw [splitUnquoted] at ih ⊢
      rw [hs, List.flatMap_cons, List.cons_append, splitFrom, if_pos ⟨rfl, rfl⟩, ih]
      simp

theorem mem_of_splitFrom {c : Char} : ∀ {s : List Char} {q : Quoting} {piece t : List Char}
    {pieces : List (List Char)}, splitFrom q piece s = some pieces → t ∈ pieces → c ∈ t →
    c ∈ piece ∨ c ∈ s
  | [], q, piece, t, pieces, h, ht, hc => by
      rw [splitFrom] at h
      split at h
      · cases h
        rw [List.mem_singleton.mp ht, List.mem_reverse] at hc
        exact .inl hc
      · cases h
  | d :: s, q, piece, t, pieces, h, ht, hc => by
      rw [splitFrom] at h
      split at h
      · obtain ⟨rest, hrest, rfl⟩ := Option.map_eq_some_iff.mp h
        rcases List.mem_cons.mp ht with rfl | ht
        · exact .inl (List.mem_reverse.mp hc)
        · rcases mem_of_splitFrom hrest ht hc with hc | hc
          · cases hc
          · exact .inr (List.mem_cons_of_mem _ hc)
      · rcases mem_of_splitFrom h ht hc with hc | hc
        · rcases List.mem_cons.mp hc with rfl | hc
          · exact .inr List.mem_cons_self
          · exact .inl hc
        · exact .inr (List.mem_cons_of_mem _ hc)

theorem mem_of_splitUnquoted {c : Char} {s t : List Char} {pieces : List (List Char)}
    (h : splitUnquoted s = some pieces) (ht : t ∈ pieces) (hc : c ∈ t) : c ∈ s :=
  (mem_of_splitFrom h ht hc).resolve_left List.not_mem_nil

/-- Cutting a text into pieces loses nothing: with a semicolon between each two, they are the text
again. -/
theorem intercalate_splitFrom : ∀ {s : List Char} {q : Quoting} {piece : List Char}
    {pieces : List (List Char)}, splitFrom q piece s = some pieces →
    pieces ≠ [] ∧ [';'].intercalate pieces = piece.reverse ++ s
  | [], q, piece, pieces, h => by
      rw [splitFrom] at h
      split at h
      · cases h
        simp
      · cases h
  | c :: s, q, piece, pieces, h => by
      rw [splitFrom] at h
      split at h
      · rename_i hsep
        obtain ⟨rest, hrest, rfl⟩ := Option.map_eq_some_iff.mp h
        obtain ⟨hne, hjoin⟩ := intercalate_splitFrom hrest
        obtain ⟨t, ts, rfl⟩ := List.exists_cons_of_ne_nil hne
        refine ⟨List.cons_ne_nil _ _, ?_⟩
        rw [List.intercalate_cons_cons, hjoin, hsep.2]
        simp
      · obtain ⟨hne, hjoin⟩ := intercalate_splitFrom h
        refine ⟨hne, ?_⟩
        rw [hjoin]
        simp

/-- The first piece of a text is what stands in front of the first semicolon, unless the piece holds
semicolons itself. -/
theorem takeWhile_of_splitUnquoted {s : List Char} {pieces : List (List Char)}
    (h : splitUnquoted s = some pieces) (hfirst : ';' ∉ pieces.headD []) :
    s.takeWhile (· != ';') = pieces.headD [] := by
  obtain ⟨hne, hjoin⟩ := intercalate_splitFrom h
  obtain ⟨t, ts, rfl⟩ := List.exists_cons_of_ne_nil hne
  rw [List.headD_cons] at hfirst ⊢
  rw [List.reverse_nil, List.nil_append] at hjoin
  have ht : ∀ c ∈ t, (c != ';') = true := by
    intro c hc
    rw [bne_iff_ne]
    rintro rfl
    exact hfirst hc
  rw [← hjoin]
  cases ts with
  | nil =>
      have hall : (t ++ []).takeWhile (· != ';') = t ++ [] := List.takeWhile_append_of_pos ht
      simpa using hall
  | cons u ts =>
      rw [List.intercalate_cons_cons, List.append_assoc, List.takeWhile_append_of_pos ht]
      simp

/-! ### Characters between quotes -/

/-- A character as it is written between quotes.  A quote and a backslash have a backslash in front
of them; any other character may have one. -/
inductive QuotedChar where
  | plain (c : Char) (hc : c ≠ '"' ∧ c ≠ '\\')
  | escaped (c : Char)

namespace QuotedChar

/-- The text of the character between the quotes. -/
def text : QuotedChar → List Char
  | plain c _ => [c]
  | escaped c => ['\\', c]

/-- The character that is meant. -/
def char : QuotedChar → Char
  | plain c _ => c
  | escaped c => c

/-- The character with a backslash only where it needs one. -/
def ofChar (c : Char) : QuotedChar :=
  if h : c = '"' ∨ c = '\\' then escaped c else plain c (not_or.mp h)

theorem text_ofChar (c : Char) :
    (ofChar c).text = if c = '"' ∨ c = '\\' then ['\\', c] else [c] := by
  unfold ofChar
  split <;> rfl

@[simp] theorem char_ofChar (c : Char) : (ofChar c).char = c := by
  unfold ofChar
  split <;> rfl

end QuotedChar

theorem escape_eq (s : List Char) :
    escape s = (s.map QuotedChar.ofChar).flatMap QuotedChar.text := by
  rw [escape, List.flatMap_map]
  exact congrArg (s.flatMap ·) (funext fun c => (QuotedChar.text_ofChar c).symm)

/-- Characters between quotes leave the quotes open. -/
theorem splitFrom_quotedChars : ∀ (chars : List QuotedChar) (piece rest : List Char),
    splitFrom .inside piece (chars.flatMap QuotedChar.text ++ rest) =
      splitFrom .inside ((chars.flatMap QuotedChar.text).reverse ++ piece) rest
  | [], _, _ => rfl
  | q :: chars, piece, rest => by
      have hq : splitFrom .inside piece (q.text ++ (chars.flatMap QuotedChar.text ++ rest)) =
          splitFrom .inside (q.text.reverse ++ piece) (chars.flatMap QuotedChar.text ++ rest) := by
        cases q with
        | plain c hc => simp [QuotedChar.text, splitFrom, Quoting.next, hc.1, hc.2]
        | escaped c => rfl
      rw [List.flatMap_cons, List.append_assoc, hq, splitFrom_quotedChars chars,
        List.reverse_append, List.append_assoc]

theorem whole_quotedChars (chars : List QuotedChar) :
    Whole ('"' :: chars.flatMap QuotedChar.text ++ ['"']) := by
  intro piece rest
  show splitFrom .outside piece ('"' :: ((chars.flatMap QuotedChar.text ++ ['"']) ++ rest)) = _
  have hopen : splitFrom .outside piece ('"' :: ((chars.flatMap QuotedChar.text ++ ['"']) ++ rest)) =
      splitFrom .inside ('"' :: piece) (chars.flatMap QuotedChar.text ++ ('"' :: rest)) := by
    rw [splitFrom, if_neg (by simp), List.append_assoc]
    rfl
  rw [hopen, splitFrom_quotedChars, splitFrom, if_neg (by simp)]
  simp [Quoting.next]

theorem whole_quoted (s : List Char) : Whole ('"' :: escape s ++ ['"']) := by
  rw [escape_eq]
  exact whole_quotedChars _

/-! ### Values -/

theorem mem_of_unquoteFrom {c : Char} {done s v : List Char} (h : unquoteFrom done s = some v)
    (hc : c ∈ v) : c ∈ done ∨ c ∈ s := by
  fun_induction unquoteFrom done s with
  | case1 => cases h
  | case2 done d rest ih =>
      rcases ih h with hc | hc
      · rcases List.mem_cons.mp hc with rfl | hc
        · exact .inr (by simp)
        · exact .inl hc
      · exact .inr (by simp [hc])
  | case3 => cases h
  | case4 =>
      cases h
      exact .inl (List.mem_reverse.mp hc)
  | case5 => cases h
  | case6 done d rest _ _ _ ih =>
      rcases ih h with hc | hc
      · rcases List.mem_cons.mp hc with rfl | hc
        · exact .inr List.mem_cons_self
        · exact .inl hc
      · exact .inr (List.mem_cons_of_mem _ hc)

theorem mem_of_unquote {c : Char} {s v : List Char} (h : unquote s = some v) (hc : c ∈ v) :
    c ∈ s := by
  unfold unquote at h
  split at h
  · exact List.mem_cons_of_mem _ ((mem_of_unquoteFrom h hc).resolve_left List.not_mem_nil)
  · cases h
    exact hc

theorem unquoteFrom_quotedChars : ∀ (chars : List QuotedChar) (done : List Char),
    unquoteFrom done (chars.flatMap QuotedChar.text ++ ['"']) =
      some (done.reverse ++ chars.map QuotedChar.char)
  | [], done => by simp [unquoteFrom, isBlank]
  | q :: chars, done => by
      have ih := unquoteFrom_quotedChars chars (q.char :: done)
      have hr : (q.char :: done).reverse ++ chars.map QuotedChar.char =
          done.reverse ++ (q :: chars).map QuotedChar.char := by simp
      rw [List.flatMap_cons, List.append_assoc, ← hr, ← ih]
      cases q with
      | plain c hc =>
          show unquoteFrom done (c :: (chars.flatMap QuotedChar.text ++ ['"'])) = _
          rw [unquoteFrom, if_neg hc.2, if_neg hc.1]
          · rfl
          · exact fun d r hd => absurd hd hc.2
      | escaped c => rfl

theorem unquoteFrom_escape (s done : List Char) :
    unquoteFrom done (escape s ++ ['"']) = some (done.reverse ++ s) := by
  rw [escape_eq, unquoteFrom_quotedChars, List.map_map]
  simp [Function.comp_def]

theorem isSpace_of_isTokenChar {c : Char} (h : isTokenChar c = true) : isSpace c = false := by
  simp only [isTokenChar, Bool.and_eq_true, decide_eq_true_eq] at h
  have h1 : 0x20 < c.toNat := h.1.1
  have h2 : c.toNat < 0x7F := h.1.2
  simp only [isSpace, Bool.or_eq_false_iff, Bool.and_eq_false_iff, decide_eq_false_iff_not,
    beq_eq_false_iff_ne, ne_eq]
  omega

theorem not_break_of_isTokenChar {c : Char} (h : isTokenChar c = true) : c ≠ '\r' ∧ c ≠ '\n' := by
  constructor <;> (rintro rfl; revert h; decide)

theorem not_break_of_isToken {s : List Char} (h : isToken s = true) :
    ∀ c ∈ s, c ≠ '\r' ∧ c ≠ '\n' := by
  intro c hc
  exact not_break_of_isTokenChar ((isToken_iff.mp h).2 c hc)

theorem isEmpty_of_isToken {s : String} (h : isToken s.toList = true) : s.isEmpty = false := by
  rw [Bool.eq_false_iff]
  intro he
  rw [String.isEmpty_iff.mp he] at h
  revert h
  decide

theorem trim_of_isToken {s : List Char} (h : isToken s = true) : trim s = s :=
  trim_eq_self
    (fun _ hc => isSpace_of_isTokenChar ((isToken_iff.mp h).2 _ (List.mem_of_mem_head? hc)))
    fun _ hc => isSpace_of_isTokenChar ((isToken_iff.mp h).2 _ (List.mem_of_getLast? hc))

theorem unquote_of_isToken {s : List Char} (h : isToken s = true) : unquote s = some s := by
  unfold unquote
  split
  · exact absurd rfl (isTokenChar_ne ((isToken_iff.mp h).2 _ List.mem_cons_self)).1
  · rfl

theorem trim_quoted (s : List Char) : trim ('"' :: s ++ ['"']) = '"' :: s ++ ['"'] := by
  have hq : isSpace '"' = false := by decide
  refine trim_eq_self ?_ ?_
  · rw [List.cons_append, List.head?_cons]
    simp [hq]
  · rw [List.getLast?_concat]
    simp [hq]

/-! ### Values as they may be written -/

/-- A token. -/
structure Token where
  text : List Char
  isToken : Field.isToken text = true := by decide

/-- A value as it may be written: a token, or characters between quotes. -/
inductive SpelledValue where
  | token (t : Token)
  | quoted (chars : List QuotedChar)

namespace SpelledValue

/-- The text of the value. -/
def text : SpelledValue → List Char
  | token t => t.text
  | quoted chars => '"' :: chars.flatMap QuotedChar.text ++ ['"']

/-- The value that is meant. -/
def value : SpelledValue → List Char
  | token t => t.text
  | quoted chars => chars.map QuotedChar.char

theorem whole_text : ∀ v : SpelledValue, Whole v.text
  | token t => whole_of_isToken t.isToken
  | quoted chars => whole_quotedChars chars

theorem trim_text : ∀ v : SpelledValue, trim v.text = v.text
  | token t => trim_of_isToken t.isToken
  | quoted _ => trim_quoted _

theorem text_ne_nil : ∀ v : SpelledValue, v.text ≠ []
  | token t => (isToken_iff.mp t.isToken).1
  | quoted _ => by simp [text]

theorem unquote_text : ∀ v : SpelledValue, unquote v.text = some v.value
  | token t => unquote_of_isToken t.isToken
  | quoted chars => unquoteFrom_quotedChars chars []

/-- The spelling that is chosen for a value: a token if it is one. -/
def ofText (s : List Char) : SpelledValue :=
  if h : Field.isToken s = true then token ⟨s, h⟩ else quoted (s.map QuotedChar.ofChar)

theorem text_ofText (s : List Char) : (ofText s).text = quoteIfNeeded s := by
  unfold ofText quoteIfNeeded
  split
  · rfl
  · rw [text, escape_eq]

@[simp] theorem value_ofText (s : List Char) : (ofText s).value = s := by
  unfold ofText
  split
  · rfl
  · simp [value, Function.comp_def]

end SpelledValue

theorem whole_quoteIfNeeded (s : List Char) : Whole (quoteIfNeeded s) := by
  rw [← SpelledValue.text_ofText]
  exact SpelledValue.whole_text _

theorem trim_quoteIfNeeded (s : List Char) : trim (quoteIfNeeded s) = quoteIfNeeded s := by
  rw [← SpelledValue.text_ofText]
  exact SpelledValue.trim_text _

/-- **Every value is read back as it was written.** -/
theorem unquote_quoteIfNeeded (s : List Char) : unquote (quoteIfNeeded s) = some s := by
  rw [← SpelledValue.text_ofText, SpelledValue.unquote_text, SpelledValue.value_ofText]

theorem quoteIfNeeded_ne_nil (s : List Char) : quoteIfNeeded s ≠ [] := by
  rw [← SpelledValue.text_ofText]
  exact SpelledValue.text_ne_nil _

/-! ### Values between quotes as they are -/

theorem getLast?_encloseInQuotes (s : List Char) : (encloseInQuotes s).getLast? = some '"' := by
  unfold encloseInQuotes
  split <;> split <;> rename_i h
  · rw [List.nil_append, List.append_nil, h.1]
  · rw [List.getLast?_concat]
  · rw [List.append_nil, List.getLast?_append, h.1, Option.some_or]
  · rw [List.getLast?_concat]

theorem mem_encloseInQuotes {c : Char} {s : List Char} (h : c ∈ encloseInQuotes s) :
    c ∈ s ∨ c = '"' := by
  simp only [encloseInQuotes, List.mem_append] at h
  rcases h with (h | h) | h
  · split at h
    · cases h
    · exact .inr (List.mem_singleton.mp h)
  · exact .inl h
  · split at h
    · cases h
    · exact .inr (List.mem_singleton.mp h)

/-! ### Parameters -/

/-- A name and a value as they stand between two semicolons. -/
def namedPiece (name : String) (value : List Char) : List Char :=
  ' ' :: name.toList ++ '=' :: value

/-- A parameter as it stands between two semicolons. -/
def parameterPiece (e : String × String) : List Char :=
  namedPiece e.1 (quoteIfNeeded e.2.toList)

theorem whole_namedPiece {name : String} {value : List Char} (hname : Whole name.toList)
    (hvalue : Whole value) : Whole (namedPiece name value) := by
  have hspace : Whole [' '] := whole_of_forall (by simp)
  have hequals : Whole ['='] := whole_of_forall (by simp)
  have := (hspace.append hname).append (hequals.append hvalue)
  simpa [namedPiece] using this

theorem whole_parameterPiece {e : String × String} (h : Whole e.1.toList) :
    Whole (parameterPiece e) :=
  whole_namedPiece h (whole_quoteIfNeeded _)

theorem getLast?_namedPiece (name : String) {value : List Char} (hne : value ≠ [])
    (htrim : trim value = value) : ∀ c ∈ (namedPiece name value).getLast?, isSpace c = false := by
  rw [namedPiece, List.append_cons, List.getLast?_append, List.getLast?_eq_some_getLast hne,
    Option.some_or, ← List.getLast?_eq_some_getLast hne]
  exact (trim_eq_self_iff.mp htrim).2

theorem getLast?_pieces {pieces : List (List Char)}
    (h : ∀ t ∈ pieces, t ≠ [] ∧ ∀ c ∈ t.getLast?, isSpace c = false) :
    ∀ c ∈ (pieces.flatMap fun t => ';' :: t).getLast?, isSpace c = false := by
  rcases List.eq_nil_or_concat pieces with rfl | ⟨l, t, rfl⟩
  · simp
  · have ht := h t (by simp)
    rw [List.concat_eq_append, List.flatMap_append, List.flatMap_singleton, List.getLast?_append,
      List.getLast?_cons_of_ne_nil ht.1, List.getLast?_eq_some_getLast ht.1, Option.some_or,
      ← List.getLast?_eq_some_getLast ht.1]
    exact ht.2

theorem format_eq (p : Parameters) :
    p.format = (p.entries.map parameterPiece).flatMap fun t => ';' :: t := by
  simp [Parameters.format, parameterPiece, namedPiece, List.flatMap_map]

/-- A value with parameters behind it is cut into the value and the parameters. -/
theorem splitUnquoted_format {s : List Char} (hs : Whole s) {p : Parameters}
    (hp : ∀ e ∈ p.entries, isToken e.1.toList = true) :
    splitUnquoted (s ++ p.format) = some (s :: p.entries.map parameterPiece) := by
  rw [format_eq]
  apply splitUnquoted_pieces hs
  intro t ht
  obtain ⟨e, he, rfl⟩ := List.mem_map.mp ht
  exact whole_parameterPiece (whole_of_isToken (hp e he))

theorem cutFirst_parameterPiece {e : String × String} (h : isToken e.1.toList = true) :
    cutFirst '=' (parameterPiece e) = some (' ' :: e.1.toList, quoteIfNeeded e.2.toList) := by
  refine cutFirst_append ?_ _
  rw [List.mem_cons, not_or]
  exact ⟨by decide, not_mem_of_isToken h (by decide)⟩

theorem trim_space_name {s : List Char} (h : isToken s = true) : trim (' ' :: s) = s := by
  rw [trim_cons (by decide), trim_of_isToken h]

theorem addLenient_parameterPiece {e : String × String} (h : isToken e.1.toList = true)
    (p : Parameters) : addLenient p (parameterPiece e) = p.insert e.1 e.2 := by
  rw [addLenient, cutFirst_parameterPiece h]
  simp only [trim_quoteIfNeeded, unquote_quoteIfNeeded, trim_space_name h, String.ofList_toList]

end Mime.Field
