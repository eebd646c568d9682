import Mime.Proofs.Field.Quoted
import Mime.Proofs.Text.Ascii

/-! # Pieces of a header value

A text has pieces just where a scan from left to right ends outside of quotes
(`splitFrom_eq_none_iff`), that is where each quoted string in it is closed (`scan_eq_outside_iff`).
A cut is made only where the scan is outside of quotes, so that each piece is one piece by itself
(`whole_of_mem_splitUnquoted`), and what stands in front of a cut does not matter for what is behind
it (`splitFrom_append`).  Nothing is lost (`splitUnquoted_loses_nothing`).

A piece is a text with all quoted strings closed and no semicolon outside of them (`whole_iff`).  It
stays one when white space is taken away around it (`Whole.trim`) or letters are made small
(`Whole.map_toLower`). -/

namespace Mime.Field

open Text

/-! ### The scan -/

/-- Where a scan from left to right stands behind a text. -/
def scan (q : Quoting) (s : List Char) : Quoting :=
  s.foldl Quoting.next q

/-- A text in which each quoted string is closed.  Inside one, a quote and a backslash have a
backslash in front of them. -/
inductive QuotesClosed : List Char → Prop where
  | nil : QuotesClosed []
  | plain {c : Char} {s : List Char} : c ≠ '"' → QuotesClosed s → QuotesClosed (c :: s)
  | quoted (chars : List QuotedChar) {s : List Char} : QuotesClosed s →
      QuotesClosed ('"' :: (chars.flatMap QuotedChar.text ++ '"' :: s))

theorem scan_append (q : Quoting) (s t : List Char) : scan q (s ++ t) = scan (scan q s) t :=
  List.foldl_append

theorem scan_quotedChars : ∀ chars : List QuotedChar,
    scan .inside (chars.flatMap QuotedChar.text) = .inside
  | [] => rfl
  | q :: chars => by
      have hq : scan .inside q.text = .inside := by
        cases q with
        | plain c hc => simp [QuotedChar.text, scan, Quoting.next, hc.1, hc.2]
        | escaped c => rfl
      rw [List.flatMap_cons, scan_append, hq, scan_quotedChars chars]

theorem scan_of_quotesClosed {s : List Char} (h : QuotesClosed s) :
    scan .outside s = .outside := by
  induction h with
  | nil => rfl
  | plain hc _ ih =>
      rw [scan, List.foldl_cons, Quoting.next, if_neg hc]
      exact ih
  | quoted chars _ ih =>
      show scan .inside _ = _
      rw [scan_append, scan_quotedChars]
      exact ih

/-- A quoted string that the scan leaves has an end. -/
theorem exists_quotedChars_of_scan : ∀ {s : List Char}, scan .inside s = .outside →
    ∃ (chars : List QuotedChar) (rest : List Char),
      s = chars.flatMap QuotedChar.text ++ '"' :: rest ∧ scan .outside rest = .outside
  | [], h => by cases h
  | c :: s, h => by
      by_cases hquote : c = '"'
      · subst hquote
        exact ⟨[], s, rfl, h⟩
      · by_cases hslash : c = '\\'
        · subst hslash
          -- the character behind the backslash belongs to it
          cases s with
          | nil => cases h
          | cons d s =>
              obtain ⟨chars, rest, rfl, hrest⟩ := exists_quotedChars_of_scan (s := s) h
              exact ⟨.escaped d :: chars, rest, rfl, hrest⟩
        · rw [scan, List.foldl_cons, Quoting.next, if_neg hquote, if_neg hslash] at h
          obtain ⟨chars, rest, rfl, hrest⟩ := exists_quotedChars_of_scan (s := s) h
          exact ⟨.plain c ⟨hquote, hslash⟩ :: chars, rest, rfl, hrest⟩
termination_by s => s.length

theorem quotesClosed_of_scan : ∀ {s : List Char}, scan .outside s = .outside → QuotesClosed s
  | [], _ => .nil
  | c :: s, h => by
      by_cases hquote : c = '"'
      · subst hquote
        obtain ⟨chars, rest, rfl, hrest⟩ := exists_quotedChars_of_scan (s := s) h
        exact .quoted chars (quotesClosed_of_scan hrest)
      · rw [scan, List.foldl_cons, Quoting.next, if_neg hquote] at h
        exact .plain hquote (quotesClosed_of_scan h)
termination_by s => s.length

/-- The scan ends outside of quotes just where each quoted string is closed. -/
theorem scan_eq_outside_iff {s : List Char} : scan .outside s = .outside ↔ QuotesClosed s :=
  ⟨quotesClosed_of_scan, scan_of_quotesClosed⟩

/-! ### The pieces -/

theorem splitFrom_eq_none_iff : ∀ {s : List Char} {q : Quoting} {piece : List Char},
    splitFrom q piece s = none ↔ scan q s ≠ .outside
  | [], q, piece => by
      rw [splitFrom]
      split
      · rename_i hq
        simp [hq, scan]
      · rename_i hq
        simp [hq, scan]
  | c :: s, q, piece => by
      rw [splitFrom]
      split
      · rename_i hsep
        have hnext : q.next c = .outside := by
          rw [hsep.1, hsep.2]
          rfl
        rw [Option.map_eq_none_iff, splitFrom_eq_none_iff, scan, scan, List.foldl_cons, hnext]
      · exact splitFrom_eq_none_iff

/-- What is in front of a semicolon outside of quotes does not matter for what is behind it. -/
theorem splitFrom_append : ∀ {a : List Char} {q : Quoting} {piece : List Char}
    {pieces : List (List Char)}, splitFrom q piece a = some pieces → ∀ b : List Char,
    splitFrom q piece (a ++ ';' :: b) = (splitUnquoted b).map (pieces ++ ·)
  | [], q, piece, pieces, h, b => by
      rw [splitFrom] at h
      split at h
      · rename_i hq
        cases h
        rw [List.nil_append, splitFrom, if_pos ⟨hq, rfl⟩]
        rfl
      · cases h
  | c :: a, q, piece, pieces, h, b => by
      rw [splitFrom] at h
      rw [List.cons_append, splitFrom]
      split at h
      · rename_i hsep
        obtain ⟨rest, hrest, rfl⟩ := Option.map_eq_some_iff.mp h
        rw [if_pos hsep, splitFrom_append hrest b, Option.map_map]
        rfl
      · rename_i hsep
        rw [if_neg hsep]
        exact splitFrom_append h b

/-- If no cut is made in the piece at hand, none is made in any piece when it stands alone. -/
theorem whole_of_mem_splitFrom : ∀ {s : List Char} {q : Quoting} {piece t : List Char}
    {pieces : List (List Char)}, splitFrom q piece s = some pieces →
    (∀ front rest, splitFrom .outside front (piece.reverse ++ rest) =
      splitFrom q (piece ++ front) rest) →
    t ∈ pieces → Whole t
  | [], q, piece, t, pieces, h, hpiece, ht => by
      rw [splitFrom] at h
      split at h
      · rename_i hq
        cases h
        rw [List.mem_singleton.mp ht]
        intro front rest
        rw [hpiece, hq, List.reverse_reverse]
      · cases h
  | c :: s, q, piece, t, pieces, h, hpiece, ht => by
      rw [splitFrom] at h
      split at h
      · rename_i hsep
        obtain ⟨others, hothers, rfl⟩ := Option.map_eq_some_iff.mp h
        rcases List.mem_cons.mp ht with rfl | ht
        · intro front rest
          rw [hpiece, hsep.1, List.reverse_reverse]
        · exact whole_of_mem_splitFrom hothers (fun _ _ => rfl) ht
      · rename_i hsep
        refine whole_of_mem_splitFrom h (fun front rest => ?_) ht
        rw [List.reverse_cons, List.append_assoc, hpiece, List.singleton_append, splitFrom,
          if_neg hsep]
        rfl

theorem whole_of_mem_splitUnquoted {s t : List Char} {pieces : List (List Char)}
    (h : splitUnquoted s = some pieces) (ht : t ∈ pieces) : Whole t :=
  whole_of_mem_splitFrom h (fun _ _ => rfl) ht

/-! ### Parts of a piece -/

/-- Scanned from a state on, the text has no semicolon outside of quotes. -/
def Uncut (q : Quoting) (s : List Char) : Prop :=
  ∀ a b, s = a ++ ';' :: b → scan q a ≠ .outside

theorem splitFrom_of_uncut {q : Quoting} {s : List Char} (h : Uncut q s) (piece rest : List Char) :
    splitFrom q piece (s ++ rest) = splitFrom (scan q s) (s.reverse ++ piece) rest := by
  induction s generalizing q piece with
  | nil => rfl
  | cons c s ih =>
      have hsep : ¬ (q = .outside ∧ c = ';') := by
        rintro ⟨hq, rfl⟩
        exact h [] s rfl hq
      have hrest : Uncut (q.next c) s := fun a b hs => h (c :: a) b (by rw [hs, List.cons_append])
      rw [List.cons_append, splitFrom, if_neg hsep, ih hrest, List.reverse_cons, List.append_assoc]
      rfl

/-- A text is one piece just where all its quoted strings are closed and no semicolon is outside of
them. -/
theorem whole_iff {s : List Char} : Whole s ↔ scan .outside s = .outside ∧ Uncut .outside s := by
  constructor
  · intro h
    have hsplit := splitUnquoted_of_whole h
    constructor
    · refine Decidable.byContradiction fun hscan => ?_
      rw [splitUnquoted, splitFrom_eq_none_iff.mpr hscan] at hsplit
      cases hsplit
    · -- a cut would make two pieces of it
      rintro a b rfl hscan
      obtain ⟨front, hfront⟩ : ∃ front, splitUnquoted a = some front := by
        rw [← Option.ne_none_iff_exists']
        exact fun hnone => splitFrom_eq_none_iff.mp hnone hscan
      rw [splitUnquoted, splitFrom_append hfront, Option.map_eq_some_iff] at hsplit
      obtain ⟨back, hback, htwo⟩ := hsplit
      have hlen := congrArg List.length htwo
      have hfront' := List.length_pos_iff.mpr (intercalate_splitFrom hfront).1
      have hback' := List.length_pos_iff.mpr (intercalate_splitFrom hback).1
      rw [List.length_append, List.length_singleton] at hlen
      omega
  · rintro ⟨hscan, huncut⟩ piece rest
    rw [splitFrom_of_uncut huncut, hscan]

theorem scan_eq_outside_iff_of_not_mem {q : Quoting} {s : List Char} (h : '"' ∉ s) :
    scan q s = .outside ↔ q = .outside := by
  induction s generalizing q with
  | nil => exact Iff.rfl
  | cons c s ih =>
      rw [List.mem_cons, not_or] at h
      obtain ⟨hc, hs⟩ := h
      have hnext : q.next c = .outside ↔ q = .outside := by
        cases q with
        | outside => simp [Quoting.next, Ne.symm hc]
        | inside => by_cases hslash : c = '\\' <;> simp [Quoting.next, Ne.symm hc, hslash]
        | escaped => simp [Quoting.next]
      rw [← hnext]
      exact ih hs

/-- What is left of a piece is a piece if something is taken away in front of it and behind it, both
outside of quotes. -/
theorem Whole.middle {before s after : List Char} (h : Whole (before ++ (s ++ after)))
    (hbefore : scan .outside before = .outside) (hs : scan .outside s = .outside) : Whole s := by
  refine whole_iff.mpr ⟨hs, fun a b hab hscan => ?_⟩
  refine (whole_iff.mp h).2 (before ++ a) (b ++ after) ?_ ?_
  · rw [hab]
    simp
  · rw [scan_append, hbefore, hscan]

theorem not_quote_of_blank {s : List Char} (h : ∀ c ∈ s, isSpace c = true) : '"' ∉ s := by
  intro hm
  cases h _ hm

theorem Whole.trim {s : List Char} (h : Whole s) : Whole (trim s) := by
  obtain ⟨before, after, hbefore, hafter, hs⟩ := exists_trim s
  have hfront : scan .outside before = .outside :=
    (scan_eq_outside_iff_of_not_mem (not_quote_of_blank hbefore)).mpr rfl
  have hscan := (whole_iff.mp h).1
  rw [hs, scan_append, hfront, scan_append,
    scan_eq_outside_iff_of_not_mem (not_quote_of_blank hafter)] at hscan
  rw [hs] at h
  exact h.middle hfront hscan

theorem scan_map_toLower (q : Quoting) (s : List Char) :
    scan q (s.map Char.toLower) = scan q s := by
  have hnext : ∀ (q : Quoting) (c : Char), q.next c.toLower = q.next c := by
    intro q c
    have hsame : ∀ d : Char, d.toNat < 97 → (d.toLower = d) → (c.toLower = d ↔ c = d) := by
      intro d hd hlower
      exact ⟨fun he => eq_of_toLower_eq he (.inl hd), fun he => by rw [he, hlower]⟩
    cases q <;> simp only [Quoting.next, hsame '"' (by decide) rfl, hsame '\\' (by decide) rfl]
  rw [scan, List.foldl_map]
  exact congrArg (fun f => List.foldl f q s) (funext fun q => funext fun c => hnext q c)

theorem Whole.map_toLower {s : List Char} (h : Whole s) : Whole (s.map Char.toLower) := by
  obtain ⟨hscan, huncut⟩ := whole_iff.mp h
  refine whole_iff.mpr ⟨by rw [scan_map_toLower, hscan], fun a b hab => ?_⟩
  obtain ⟨a', t, rfl, rfl, ht⟩ := List.map_eq_append_iff.mp hab
  obtain ⟨c, b', rfl, hc, rfl⟩ := List.map_eq_cons_iff.mp ht
  obtain rfl := eq_of_toLower_eq hc (.inl (by decide))
  rw [scan_map_toLower]
  exact huncut a' b' rfl

/-! ### Nothing is lost -/

/-- **Cutting a text into pieces loses nothing and cuts only outside of quotes.**  There are no
pieces just where the scan ends inside a quoted string, that is where a quoted string is left open.
Else the pieces with semicolons between them are the text, and each is one piece by itself.  Behind
a text that has pieces and a semicolon, any text has the pieces that it has alone, or none if it has
none. -/
theorem splitUnquoted_loses_nothing (s : List Char) :
    (splitUnquoted s = none ↔ scan .outside s ≠ .outside) ∧
    (scan .outside s = .outside ↔ QuotesClosed s) ∧
    ∀ pieces, splitUnquoted s = some pieces →
      [';'].intercalate pieces = s ∧ (∀ t ∈ pieces, splitUnquoted t = some [t]) ∧
      ∀ b, splitUnquoted (s ++ ';' :: b) = (splitUnquoted b).map (pieces ++ ·) := by
  refine ⟨splitFrom_eq_none_iff, scan_eq_outside_iff,
    fun pieces h => ⟨?_, fun t ht => ?_, fun b => ?_⟩⟩
  · exact (intercalate_splitFrom h).2
  · exact splitUnquoted_of_whole (whole_of_mem_splitUnquoted h ht)
  · exact splitFrom_append h b

/-- A semicolon between quotes, and one behind a quote with a backslash in front of it. -/
theorem splitUnquoted_loses_nothing_quoted :
    splitUnquoted "a=\"x;\\\";\";b".toList = some ["a=\"x;\\\";\"".toList, ['b']] ∧
    splitUnquoted "a=\"x;\\\";\";b;c;\"".toList = none := by
  have h : splitUnquoted "a=\"x;\\\";\";b".toList = some ["a=\"x;\\\";\"".toList, ['b']] := by
    decide
  refine ⟨h, ?_⟩
  exact ((splitUnquoted_loses_nothing _).2.2 _ h).2.2 ['c', ';', '"']

end Mime.Field
