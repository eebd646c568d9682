import Mime.Proofs.Multipart.LineReader

/-! # What a reader takes off the input

A reader sees segments, but what it has taken off its input are bytes.  `Holds` says which bytes and
failures an input stands in front of.  A segment that is taken off is so many bytes
(`Holds.segment`), and a failure takes the bytes of the segment that it interrupts
(`Holds.failure`).  So each loop of a reader takes bytes off the front: those of a header block, and
no more than a segment beyond the limit (`takesLines_of_collectLines`), and those of a content with
the delimiter behind it (`taken_of_readContent`). -/

namespace Mime.Multipart

/-! ### Bytes behind segments -/

/-- An input that stands in front of a sequence of bytes and failures.  Behind the segment that ends
with the input there is nothing. -/
def Holds (items : List (Except IoError UInt8)) (input : Incoming) : Prop :=
  input = cut [] items ∨ items = [] ∧ input = []

theorem holds_cut (items : List (Except IoError UInt8)) : Holds items (cut [] items) :=
  .inl rfl

/-- A segment is not too long, and it is not empty if a line feed ends it. -/
structure Segment.Fits (s : Segment) : Prop where
  length_le : s.bytes.length ≤ segmentSize
  ne_nil : s.ending = .line → s.bytes ≠ []

/-- How the first segment is cut off, behind the bytes that were taken before. -/
theorem cut_eq_cons {items : List (Except IoError UInt8)} {item : Except IoError Segment}
    {left : Incoming} {taken : Bytes} (ht : taken.length < segmentSize)
    (h : cut taken items = item :: left) :
    match item with
    | .ok s => s.Fits ∧ ∃ w rest, s.bytes = taken ++ w ∧ items = w.map .ok ++ rest ∧ Holds rest left
    | .error e => ∃ w rest, (taken ++ w).length < segmentSize ∧
        items = w.map .ok ++ .error e :: rest ∧ left = cut [] rest := by
  induction items generalizing taken with
  | nil =>
      cases h
      exact ⟨⟨Nat.le_of_lt ht, nofun⟩, [], [], by simp, rfl, .inr ⟨rfl, rfl⟩⟩
  | cons first rest ih =>
      cases first with
      | error e =>
          cases h
          exact ⟨[], rest, by simpa using ht, rfl, rfl⟩
      | ok b =>
          rw [cut] at h
          split at h
          · cases h
            refine ⟨⟨?_, by simp⟩, [b], rest, rfl, rfl, holds_cut rest⟩
            rw [List.length_append]
            exact ht
          · split at h
            · rename_i hfull
              cases h
              refine ⟨⟨?_, by simp⟩, [b], rest, rfl, rfl, holds_cut rest⟩
              rw [List.length_append]
              exact Nat.le_of_eq hfull
            · rename_i hroom
              have hlt : (taken ++ [b]).length < segmentSize := by
                rw [List.length_append, List.length_singleton]
                omega
              have hrest := ih hlt h
              cases item with
              | ok s =>
                  obtain ⟨hfits, w, rest', hs, rfl, hleft⟩ := hrest
                  exact ⟨hfits, b :: w, rest', by simp [hs], rfl, hleft⟩
              | error e =>
                  obtain ⟨w, rest', hlen, rfl, rfl⟩ := hrest
                  exact ⟨b :: w, rest', by simpa using hlen, rfl, rfl⟩

namespace Holds

variable {items : List (Except IoError UInt8)} {left : Incoming}

theorem segment {s : Segment} (h : Holds items (.ok s :: left)) :
    s.Fits ∧ ∃ rest, items = s.bytes.map .ok ++ rest ∧ Holds rest left := by
  rcases h with h | ⟨-, h⟩
  · obtain ⟨hfits, w, rest, hs, hitems, hleft⟩ := cut_eq_cons (by decide) h.symm
    rw [List.nil_append] at hs
    exact ⟨hfits, rest, hs ▸ hitems, hleft⟩
  · cases h

theorem failure {e : IoError} (h : Holds items (.error e :: left)) :
    ∃ (w : Bytes) (rest : List (Except IoError UInt8)), w.length < segmentSize ∧
      items = w.map .ok ++ .error e :: rest ∧ Holds rest left := by
  rcases h with h | ⟨-, h⟩
  · obtain ⟨w, rest, hlen, hitems, rfl⟩ := cut_eq_cons (by decide) h.symm
    exact ⟨w, rest, hlen, hitems, holds_cut rest⟩
  · cases h

end Holds

/-- The bytes of segments. -/
def bytesOf (segments : List Segment) : Bytes :=
  segments.flatMap Segment.bytes

/-- What is taken off an input in front of bytes and failures, where `left` is left of it: the bytes
of some segments, or also a failure behind them with the bytes of the segment that it interrupts. -/
inductive Takes : List (Except IoError UInt8) → Incoming → Incoming → Bytes → Option IoError → Prop
  | bytes {rest : List (Except IoError UInt8)} {left : Incoming} (segments : List Segment) :
      Holds rest left →
      Takes ((bytesOf segments).map .ok ++ rest) (segments.map .ok ++ left) left (bytesOf segments)
        none
  | failure {rest : List (Except IoError UInt8)} {left : Incoming} (segments : List Segment)
      (lost : Bytes) (e : IoError) : lost.length < segmentSize → Holds rest left →
      Takes ((bytesOf segments ++ lost).map .ok ++ .error e :: rest)
        (segments.map .ok ++ .error e :: left) left (bytesOf segments ++ lost) (some e)

section takes

variable {items : List (Except IoError UInt8)} {input left : Incoming} {taken : Bytes}

theorem Holds.takes_nil (h : Holds items left) : Takes items left left [] none :=
  .bytes [] h

theorem Holds.takes_segment (h : Holds items left) (s : Segment) :
    Takes (s.bytes.map .ok ++ items) (.ok s :: left) left s.bytes none := by
  have htakes := Takes.bytes [s] h
  rw [bytesOf, List.flatMap_singleton] at htakes
  exact htakes

theorem Takes.cons {fault : Option IoError} (h : Takes items input left taken fault)
    (s : Segment) :
    Takes (s.bytes.map .ok ++ items) (.ok s :: input) left (s.bytes ++ taken) fault := by
  cases h with
  | bytes segments h =>
      rw [← List.append_assoc, ← List.map_append]
      exact .bytes (s :: segments) h
  | failure segments lost e hlost h =>
      rw [← List.append_assoc, ← List.map_append, ← List.append_assoc s.bytes]
      exact .failure (s :: segments) lost e hlost h

/-- Where no failure was met, the input begins with the bytes that are taken, and more can be taken
behind them. -/
theorem Takes.behind (h : Takes items input left taken none) :
    ∃ rest, items = taken.map .ok ++ rest ∧ Holds rest left ∧
      ∀ left' taken' fault, Takes rest left left' taken' fault →
        Takes items input left' (taken ++ taken') fault := by
  cases h with
  | @bytes rest left segments h =>
      refine ⟨rest, rfl, h, ?_⟩
      intro left' taken' fault h'
      induction segments with
      | nil => exact h'
      | cons s segments ih =>
          have hstep := ih.cons s
          rw [← List.append_assoc, ← List.append_assoc, ← List.map_append] at hstep
          exact hstep

end takes

/-! ### Header blocks -/

section block

variable {limits : Limits} {items : List (Except IoError UInt8)} {input left : Incoming}

/-- What reading the lines behind a block takes off the input: with the block no more than a segment
beyond the limit, whether the lines are read or not, and something if they are. -/
def TakesLines (limits : Limits) (b : Block) (items : List (Except IoError UInt8))
    (input left : Incoming) (answer : Except Error (List Bytes)) : Prop :=
  ∃ taken fault, Takes items input left taken fault ∧
    b.size + taken.length ≤ limits.maxHeaderSize + segmentSize ∧
    (∀ e, fault = some e → answer = .error (.io e)) ∧ ∀ ls, answer = .ok ls → taken ≠ []

theorem TakesLines.stop {b : Block} {s : Segment} {answer : Except Error (List Bytes)}
    (hb : b.size ≤ limits.maxHeaderSize) (hfits : s.Fits) (hleft : Holds items left)
    (hne : ∀ ls, answer = .ok ls → s.bytes ≠ []) :
    TakesLines limits b (s.bytes.map .ok ++ items) (.ok s :: left) left answer := by
  have hlen := hfits.length_le
  exact ⟨s.bytes, none, hleft.takes_segment s, by omega, nofun, hne⟩

theorem TakesLines.next {b c : Block} {s : Segment} {answer : Except Error (List Bytes)}
    (hsize : c.size = b.size + s.bytes.length) (h : TakesLines limits c items input left answer) :
    TakesLines limits b (s.bytes.map .ok ++ items) (.ok s :: input) left answer := by
  obtain ⟨taken, fault, htakes, hbound, hfault, hne⟩ := h
  refine ⟨s.bytes ++ taken, fault, htakes.cons s, ?_, hfault, ?_⟩
  · rw [List.length_append]
    omega
  · intro ls hls hnil
    exact hne ls hls (List.append_eq_nil_iff.mp hnil).2

theorem takesLines_of_collectLines {b : Block} {answer : Except Error (List Bytes)}
    (hin : Holds items input) (hb : b.size ≤ limits.maxHeaderSize)
    (h : collectLines limits b input = (answer, left)) :
    TakesLines limits b items input left answer := by
  induction input generalizing items b with
  | nil =>
      cases h
      exact ⟨[], none, hin.takes_nil, Nat.le_trans hb (Nat.le_add_right _ _), by simp, by simp⟩
  | cons item rest ih =>
    cases item with
    | error e =>
        cases h
        obtain ⟨lost, behind, hlen, rfl, hleft⟩ := hin.failure
        refine ⟨lost, some e, .failure [] lost e hlen hleft, by omega, ?_, by simp⟩
        rintro _ ⟨rfl⟩
        rfl
    | ok s =>
        obtain ⟨hfits, behind, rfl, hleft⟩ := hin.segment
        rw [collectLines] at h
        dsimp only at h
        split at h
        · cases h
          exact .stop hb hfits hleft (by simp)
        rename_i hsize
        have hfit : (b.addBytes s.bytes).size ≤ limits.maxHeaderSize := Nat.le_of_not_lt hsize
        split at h
        · exact .next rfl (ih hleft hfit h)
        · cases h
          exact .stop hb hfits hleft (by simp)
        · rename_i hline
          split at h
          · cases h
            exact .stop hb hfits hleft fun _ _ => hfits.ne_nil hline
          · split at h
            · cases h
              exact .stop hb hfits hleft (by simp)
            · have hrest := ih (b := (b.addBytes s.bytes).addLine _) hleft hfit h
              exact .next rfl hrest

theorem taken_of_readHeaders {answer : Except Error Headers} (hin : Holds items input)
    (h : readHeaders limits input = (answer, left)) :
    ∃ taken fault, Takes items input left taken fault ∧
      taken.length ≤ limits.maxHeaderSize + segmentSize ∧
      (∀ e, fault = some e → answer = .error (.io e)) ∧
      ∀ headers, answer = .ok headers → taken ≠ [] := by
  unfold readHeaders at h
  cases hread : collectLines limits {} input with
  | mk lines left' =>
      obtain ⟨taken, fault, htakes, hbound, hfault, hne⟩ :=
        takesLines_of_collectLines hin (Nat.zero_le _) hread
      rw [hread] at h
      rw [Nat.zero_add] at hbound
      cases lines with
      | error e =>
          cases h
          refine ⟨taken, fault, htakes, hbound, ?_, nofun⟩
          intro e' he
          cases hfault e' he
          rfl
      | ok ls =>
          cases h
          refine ⟨taken, fault, htakes, hbound, ?_, fun _ _ => hne ls rfl⟩
          intro e' he
          cases hfault e' he

end block

/-! ### Contents -/

/-- The number of bytes that are kept or held back. -/
def Content.size (c : Content) : Nat :=
  c.spool.collected.length + c.held.length

theorem Content.size_add (c : Content) (s : Segment) :
    (c.add s).2.size = c.size + s.bytes.length := by
  have hpieces : ∀ text : Bytes, (c.spool.writeAll [c.held, text]).2.collected.length =
      c.spool.collected.length + (c.held.length + text.length) := by
    intro text
    rw [Spool.writeAll_eq, Spool.collected_keep]
    simp
  have hbreak := congrArg List.length (append_splitBreak s.bytes)
  rw [List.length_append] at hbreak
  unfold add
  split
  · by_cases hcr : s.bytes.getLast? = some carriageReturn
    · obtain ⟨v, hv⟩ := List.getLast?_eq_some_iff.mp hcr
      simp only [size, hpieces, hv, List.getLast?_concat, if_true, List.dropLast_concat,
        List.length_append, List.length_singleton]
      omega
    · simp only [size, hpieces, if_neg hcr, List.length_nil]
      omega
  · split
    · rename_i hcut
      simp only [size, hcut.1, hcut.2, List.length_cons, List.length_nil]
    · simp only [size, hpieces]
      omega

/-- The number of bytes that a delimiter has at least behind the dashes and the boundary: a line
feed, or two more dashes. -/
def Delimiter.least : Delimiter → Nat
  | .next => 1
  | .close => 2

theorem length_of_delimiter? {dashBoundary : Bytes} {s : Segment} {d : Delimiter}
    (h : delimiter? dashBoundary s = some d) : dashBoundary.length + d.least ≤ s.bytes.length := by
  unfold delimiter? at h
  split at h
  · cases h
  · rename_i rest hrest
    rw [dropStart?_eq_some] at hrest
    rw [hrest, List.length_append]
    apply Nat.add_le_add_left
    split at h
    · rename_i rest' hdashes
      rw [dropStart?_eq_some] at hdashes
      dsimp only at h
      split at h
      · cases h
        simp [hdashes, Delimiter.least]
      · cases h
    · split at h
      · rename_i hbreak
        cases h
        cases rest with
        | nil => simp [isLineBreak] at hbreak
        | cons b rest => simp [Delimiter.least]
      · cases h

/-- What reading a content takes off the input: all that is kept, and the delimiter. -/
theorem taken_of_readContent {dashBoundary : Bytes} {part : Nat} {c : Content}
    {items : List (Except IoError UInt8)} {input left : Incoming} {d : Delimiter} {spool : Spool}
    (hin : Holds items input)
    (h : readContent dashBoundary part c input = (.ok d, spool, left)) :
    ∃ taken, Takes items input left taken none ∧
      spool.collected.length + (dashBoundary.length + d.least) ≤ c.size + taken.length := by
  induction input generalizing items c with
  | nil => cases h
  | cons item rest ih =>
    cases item with
    | error e => cases h
    | ok s =>
        obtain ⟨-, behind, rfl, hleft⟩ := hin.segment
        rw [readContent] at h
        cases hd : (if c.atLineStart then delimiter? dashBoundary s else none) with
        | some d' =>
            rw [hd] at h
            cases h
            obtain ⟨-, hs⟩ := Option.ite_none_right_eq_some.mp hd
            have hlen := length_of_delimiter? hs
            refine ⟨s.bytes, hleft.takes_segment s, ?_⟩
            rw [Content.size]
            omega
        | none =>
            rw [hd] at h
            dsimp only at h
            split at h
            · cases h
            · rw [c.add_eq] at h
              obtain ⟨taken, htakes, hbound⟩ := ih hleft h
              refine ⟨s.bytes ++ taken, htakes.cons s, ?_⟩
              rw [Content.size_add] at hbound
              rw [List.length_append]
              omega

theorem taken_of_skipPreamble {dashBoundary : Bytes} {items : List (Except IoError UInt8)}
    {input left : Incoming} {d : Delimiter} (hin : Holds items input)
    (h : skipPreamble dashBoundary true input = (.ok d, left)) :
    ∃ taken, Takes items input left taken none ∧ dashBoundary.length + d.least ≤ taken.length := by
  obtain ⟨spool, hread⟩ := (skipPreamble_eq_ok_iff 0
    (c := { spool := { threshold := 0, spills := .empty } })).mp h
  obtain ⟨taken, htakes, hbound⟩ := taken_of_readContent hin hread
  have hzero : Content.size { spool := { threshold := 0, spills := .empty } } = 0 := rfl
  exact ⟨taken, htakes, by omega⟩

end Mime.Multipart
