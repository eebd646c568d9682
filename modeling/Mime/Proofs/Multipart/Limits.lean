import Mime.Proofs.Multipart.LineParser
import Mime.Proofs.Success

/-! # What limits decide

The limits of a reader decide whether a header block is read and where a content is kept.  They do
not decide what is read: a block that is read under some limits is the same under greater ones
(`collectLines_of_le`), and what is kept of a content does not depend on the spool that it goes to
(`exists_readContent`).  A content is in a spill file just when it is longer than the threshold
(`isSpilled_keep_spool`), in however many pieces it was written.  So a message that is read under
some limits is read under greater ones, and gives the same parts under all limits under which it is
read (`decode_of_limits`). -/

namespace Mime.Multipart

/-! ### Where a content is kept -/

/-- The spool for the content of a part. -/
def Limits.spool (limits : Limits) (spills : Spills) : Spool :=
  { threshold := limits.memoryThreshold, spills }

theorem Limits.keep_spool_of_le (limits : Limits) (spills : Spills) {bytes : Bytes}
    (h : bytes.length ≤ limits.memoryThreshold) :
    (limits.spool spills).keep bytes =
      { threshold := limits.memoryThreshold, memory := bytes.toArray, size := bytes.length
        spills } := by
  rw [Spool.keep_of_le _ rfl (by simpa [spool] using h)]
  simp [spool]

theorem Limits.keep_spool_of_lt (limits : Limits) (spills : Spills) {bytes : Bytes}
    (h : limits.memoryThreshold < bytes.length) :
    (limits.spool spills).keep bytes =
      { threshold := limits.memoryThreshold, size := bytes.length
        file := some ⟨spills.next, bytes.toArray⟩, spills := spills.create.2 } := by
  have hne : bytes ≠ [] := List.ne_nil_of_length_pos (Nat.zero_lt_of_lt h)
  rw [Spool.keep_of_lt _ rfl hne (by simpa [spool] using h)]
  simp [spool]

theorem Limits.collected_keep_spool (limits : Limits) (spills : Spills) (bytes : Bytes) :
    ((limits.spool spills).keep bytes).collected = bytes :=
  Spool.collected_keep _ _

/-- A part whose content is as long as it says, and in a spill file just if that is longer than the
threshold. -/
def RawPart.Stored (threshold : Nat) (p : RawPart) : Prop :=
  ∃ bytes, p.body.readAll = .ok bytes ∧ p.body.size? = some bytes.length ∧
    (p.body.isSpilled = true ↔ threshold < bytes.length)

theorem size?_keep_spool (limits : Limits) (spills : Spills) (bytes : Bytes) :
    ((limits.spool spills).keep bytes).toSource.size? = some bytes.length := by
  rcases Nat.lt_or_ge limits.memoryThreshold bytes.length with h | h
  · rw [limits.keep_spool_of_lt spills h]
    rfl
  · rw [limits.keep_spool_of_le spills h]
    simp [Spool.toSource, ByteSource.size?, ByteSource.ofBytes]

theorem isSpilled_keep_spool (limits : Limits) (spills : Spills) (bytes : Bytes) :
    ((limits.spool spills).keep bytes).toSource.isSpilled = true ↔
      limits.memoryThreshold < bytes.length := by
  rcases Nat.lt_or_ge limits.memoryThreshold bytes.length with h | h
  · rw [limits.keep_spool_of_lt spills h]
    exact iff_of_true rfl h
  · rw [limits.keep_spool_of_le spills h]
    exact iff_of_false Bool.false_ne_true (Nat.not_lt.mpr h)

theorem readAll_keep_spool (limits : Limits) (spills : Spills) (bytes : Bytes) :
    ((limits.spool spills).keep bytes).toSource.readAll = .ok bytes := by
  rw [Spool.readAll_toSource, limits.collected_keep_spool]

theorem stored_keep_spool (limits : Limits) (spills : Spills) (headers : Headers)
    (bytes : Bytes) :
    RawPart.Stored limits.memoryThreshold
      ⟨headers, ((limits.spool spills).keep bytes).toSource⟩ :=
  ⟨bytes, readAll_keep_spool limits spills bytes, size?_keep_spool limits spills bytes,
    isSpilled_keep_spool limits spills bytes⟩

/-! ### What is kept of a content -/

theorem exists_add (bytes held : Bytes) (start : Bool) (segment : Segment) :
    ∃ kept held' start', ∀ s : Spool,
      (⟨s.keep bytes, held, start⟩ : Content).add segment =
        (.ok (), ⟨s.keep kept, held', start'⟩) := by
  have hpieces : ∀ (s : Spool) (text : Bytes),
      (s.keep bytes).writeAll [held, text] = (.ok (), s.keep (bytes ++ (held ++ text))) := by
    intro s text
    rw [Spool.writeAll_eq, List.flatten_cons, List.flatten_singleton, Spool.keep_append s bytes]
  unfold Content.add
  dsimp only
  split
  · exact ⟨_, _, _, fun s => by rw [hpieces]⟩
  · by_cases hcut : held = [carriageReturn] ∧ segment.bytes = [lineFeed]
    · exact ⟨bytes, _, _, fun _ => if_pos hcut⟩
    · exact ⟨_, _, _, fun s => by rw [if_neg hcut, hpieces]⟩

/-- **What is kept of a content** does not depend on the spool that it goes to. -/
theorem exists_readContent (dashBoundary : Bytes) (part : Nat) (input : Incoming) :
    ∀ (bytes held : Bytes) (start : Bool), ∃ answer kept left, ∀ s : Spool,
      readContent dashBoundary part ⟨s.keep bytes, held, start⟩ input =
        (answer, s.keep kept, left) := by
  induction input with
  | nil => exact fun bytes held start => ⟨_, bytes, _, fun _ => rfl⟩
  | cons item rest ih =>
      intro bytes held start
      cases item with
      | error e => exact ⟨_, bytes, _, fun _ => rfl⟩
      | ok segment =>
          by_cases hfound : start = true ∧ ∃ d, delimiter? dashBoundary segment = some d
          · obtain ⟨hstart, d, hd⟩ := hfound
            exact ⟨_, bytes, _, fun s => readContent_cons_of_some hstart hd⟩
          · have hnone : start = true → delimiter? dashBoundary segment = none := fun hstart =>
              Option.eq_none_iff_forall_ne_some.mpr fun d hd => hfound ⟨hstart, d, hd⟩
            by_cases hlast : segment.ending = .input
            · refine ⟨.error (.structural (.cutContent part)), bytes, rest, fun s => ?_⟩
              cases hs : start <;> simp_all [readContent]
            · obtain ⟨kept, held', start', hadd⟩ := exists_add bytes held start segment
              obtain ⟨answer, kept', left, hread⟩ := ih kept held' start'
              exact ⟨answer, kept', left, fun s => by
                rw [readContent_cons_of_none hnone hlast (hadd s), hread]⟩

/-! ### Header blocks under greater limits -/

/-- Limits that admit every header block that others admit. -/
structure Limits.Within (limits limits' : Limits) : Prop where
  size : limits.maxHeaderSize ≤ limits'.maxHeaderSize
  headers : limits.maxHeaders ≤ limits'.maxHeaders

variable {limits limits' : Limits}

/-- Lines that are collected under some limits are collected under greater ones. -/
theorem collectLines_of_le (hle : limits.Within limits') {lines : List Bytes} {left : Incoming}
    {input : Incoming} {b : Block} (h : collectLines limits b input = (.ok lines, left)) :
    collectLines limits' b input = (.ok lines, left) := by
  induction input generalizing b with
  | nil => cases h
  | cons item rest ih =>
      cases item with
      | error e => cases h
      | ok s =>
          unfold collectLines at h ⊢
          dsimp only at h ⊢
          split at h
          · cases h
          rename_i hsize
          rw [if_neg fun hlt => hsize (Nat.lt_of_le_of_lt hle.size hlt)]
          cases hs : s.ending with
          | full =>
              rw [hs] at h
              exact ih h
          | input =>
              rw [hs] at h
              cases h
          | line =>
              rw [hs] at h
              dsimp only at h ⊢
              split at h
              · rename_i hempty
                rw [if_pos hempty]
                exact h
              rename_i hempty
              split at h
              · cases h
              rename_i hcount
              rw [if_neg hempty, if_neg fun hlt => hcount (Nat.lt_of_le_of_lt hle.headers hlt)]
              exact ih h

theorem readHeaders_of_le (hle : limits.Within limits') {headers : Headers}
    {input left : Incoming} (h : readHeaders limits input = (.ok headers, left)) :
    readHeaders limits' input = (.ok headers, left) := by
  unfold readHeaders at h ⊢
  split at h
  · rename_i lines left' hlines
    rw [collectLines_of_le hle hlines]
    exact h
  · cases h

/-! ### Parts under greater limits -/

/-- What can be seen of a part: its headers, how long it says it is, and its content. -/
def RawPart.view (p : RawPart) : Headers × Option Nat × Except IoError Bytes :=
  (p.headers, p.body.size?, p.body.readAll)

theorem view_keep_spool (limits limits' : Limits) (spills spills' : Spills) (headers : Headers)
    (bytes : Bytes) :
    RawPart.view ⟨headers, ((limits.spool spills).keep bytes).toSource⟩ =
      RawPart.view ⟨headers, ((limits'.spool spills').keep bytes).toSource⟩ := by
  simp only [RawPart.view, size?_keep_spool, readAll_keep_spool]

namespace Reader

variable {r r' : Reader} {spills left : Spills}

/-- The reader with other limits. -/
def under (r : Reader) (limits : Limits) : Reader :=
  { r with limits }

/-- A part is read where its headers are and its content is, whatever spool that goes to. -/
theorem readPart_eq_ok_iff {part : RawPart} : r.readPart spills = (.ok part, r', left) ↔
    ∃ headers input d kept input', readHeaders r.limits r.input = (.ok headers, input) ∧
      (∀ s : Spool, readContent (dashBoundary r.boundary) (r.partsRead + 1) { spool := s } input =
        (.ok d, s.keep kept, input')) ∧
      part = ⟨headers, ((r.limits.spool spills).keep kept).toSource⟩ ∧
      r' = { r with input := input', partsRead := r.partsRead + 1, finished := d = .close } ∧
      left = ((r.limits.spool spills).keep kept).spills := by
  unfold readPart
  cases hheaders : readHeaders r.limits r.input with
  | mk answer input =>
    cases answer with
    | error e =>
        constructor
        · nofun
        · rintro ⟨_, _, _, _, _, h, -⟩
          cases h
    | ok headers =>
        obtain ⟨answer, kept, input', hread⟩ := exists_readContent (dashBoundary r.boundary)
          (r.partsRead + 1) input [] [] true
        have hcontent : readContent (dashBoundary r.boundary) (r.partsRead + 1)
            { spool := { threshold := r.limits.memoryThreshold, spills } } input =
              (answer, (r.limits.spool spills).keep kept, input') := hread (r.limits.spool spills)
        dsimp only
        rw [hcontent]
        cases answer with
        | error e =>
            constructor
            · nofun
            · rintro ⟨_, _, d, kept', _, h, hread', -⟩
              cases h
              cases (hread (r.limits.spool spills)).symm.trans (hread' _)
        | ok d =>
            dsimp only
            rw [Spool.finish_eq]
            constructor
            · rintro ⟨⟩
              exact ⟨headers, input, d, kept, input', rfl, hread, rfl, rfl, rfl⟩
            · rintro ⟨_, _, d', kept', input'', h, hread', rfl, rfl, rfl⟩
              cases h
              have hsame := hcontent.symm.trans (hread' (r.limits.spool spills))
              obtain ⟨hd, hrest⟩ := Prod.mk.inj hsame
              obtain ⟨hspool, rfl⟩ := Prod.mk.inj hrest
              cases hd
              rw [hspool]

theorem stored_of_readPart {part : RawPart} (h : r.readPart spills = (.ok part, r', left)) :
    part.Stored r.limits.memoryThreshold ∧ r'.limits = r.limits := by
  obtain ⟨headers, _, _, kept, _, -, -, rfl, rfl, -⟩ := readPart_eq_ok_iff.mp h
  exact ⟨stored_keep_spool _ _ _ _, rfl⟩

theorem readPart_of_le (hle : r.limits.Within limits') {part : RawPart}
    (h : r.readPart spills = (.ok part, r', left)) (spills' : Spills) :
    ∃ part' left', (r.under limits').readPart spills' = (.ok part', r'.under limits', left') ∧
      part'.view = part.view := by
  obtain ⟨headers, input, d, kept, input', hheaders, hcontent, rfl, rfl, -⟩ :=
    readPart_eq_ok_iff.mp h
  exact ⟨_, _, readPart_eq_ok_iff.mpr
    ⟨headers, input, d, kept, input', readHeaders_of_le hle hheaders, hcontent, rfl, rfl, rfl⟩,
    view_keep_spool _ _ _ _ _ _⟩

theorem readPart_of_nextPart {part : RawPart} (hne : r.boundary.isEmpty = false)
    (hs : r.started = true) (h : r.nextPart spills = (.ok (some part), r', left)) :
    r.finished = false ∧ r.readPart spills = (.ok part, r', left) := by
  rcases Bool.eq_false_or_eq_true r.finished with hf | hf
  · rw [nextPart_of_finished hne hf] at h
    cases h
  · rw [nextPart_of_started hne hs hf] at h
    obtain ⟨hanswer, hrest⟩ := Prod.mk.inj h
    obtain ⟨part', hread, hpart⟩ := map_eq_ok_iff.mp hanswer
    cases hpart
    exact ⟨hf, Prod.ext hread hrest⟩

theorem finished_of_nextPart (hne : r.boundary.isEmpty = false) (hs : r.started = true)
    (h : r.nextPart spills = (.ok none, r', left)) : r.finished = true := by
  rcases Bool.eq_false_or_eq_true r.finished with hf | hf
  · exact hf
  · rw [nextPart_of_started hne hs hf] at h
    obtain ⟨part, -, hpart⟩ := map_eq_ok_iff.mp (congrArg Prod.fst h)
    cases hpart

end Reader

/-! ### Messages under greater limits -/

theorem stored_of_decodeFrom {done parts : List RawPart} {r : Reader} {spills left : Spills}
    (hne : r.boundary.isEmpty = false) (hs : r.started = true)
    (hdone : ∀ p ∈ done, p.Stored r.limits.memoryThreshold)
    (h : decodeFrom done r spills = (.ok parts, left)) :
    ∀ p ∈ parts, p.Stored r.limits.memoryThreshold := by
  fun_induction decodeFrom done r spills with
  | case1 => cases h
  | case2 done r spills r' spills' hnext =>
      cases h
      exact fun p hp => hdone p (List.mem_reverse.mp hp)
  | case3 done r spills part r' spills' hnext ih =>
      obtain ⟨-, hread⟩ := Reader.readPart_of_nextPart hne hs hnext
      obtain ⟨hstored, hlimits⟩ := Reader.stored_of_readPart hread
      obtain ⟨_, _, _, _, _, -, -, -, rfl, -⟩ := Reader.readPart_eq_ok_iff.mp hread
      exact ih hne hs (List.forall_mem_cons.mpr ⟨hstored, hdone⟩) h

theorem decodeFrom_of_le {done done' parts : List RawPart} {r : Reader} {spills left : Spills}
    (hne : r.boundary.isEmpty = false) (hs : r.started = true) (hle : r.limits.Within limits')
    (hdone : done'.map RawPart.view = done.map RawPart.view)
    (h : decodeFrom done r spills = (.ok parts, left)) (spills' : Spills) :
    ∃ parts' left', decodeFrom done' (r.under limits') spills' = (.ok parts', left') ∧
      parts'.map RawPart.view = parts.map RawPart.view := by
  fun_induction decodeFrom done r spills generalizing done' spills' with
  | case1 => cases h
  | case2 done r spills r' spills'' hnext =>
      cases h
      have hf := Reader.finished_of_nextPart hne hs hnext
      refine ⟨done'.reverse, spills',
        decodeFrom_of_none (Reader.nextPart_of_finished (r := r.under limits') hne hf spills'), ?_⟩
      rw [List.map_reverse, List.map_reverse, hdone]
  | case3 done r spills part r' spills'' hnext ih =>
      obtain ⟨hf, hread⟩ := Reader.readPart_of_nextPart hne hs hnext
      obtain ⟨part', left', hread', hview⟩ := Reader.readPart_of_le hle hread spills'
      have hnext' : (r.under limits').nextPart spills' =
          (.ok (some part'), r'.under limits', left') := by
        rw [Reader.nextPart_of_started (r := r.under limits') hne hs hf, hread']
        rfl
      obtain ⟨_, _, _, _, _, -, -, -, rfl, -⟩ := Reader.readPart_eq_ok_iff.mp hread
      have hdone' : (part' :: done').map RawPart.view = (part :: done).map RawPart.view := by
        rw [List.map_cons, List.map_cons, hview, hdone]
      obtain ⟨parts', left'', hrest, hviews⟩ := ih hne hs hle hdone' h left'
      exact ⟨parts', left'', (decodeFrom_of_some hnext').trans hrest, hviews⟩

/-- Where a message is read at all, the same input stands behind its first delimiter under all
limits; or there are no parts, because the closing delimiter comes first. -/
theorem decode_cases {boundary : String} {source : ByteSource} {spills left : Spills}
    {parts : List RawPart} (h : decode boundary limits source spills = (.ok parts, left)) :
    boundary.isEmpty = false ∧
      ((parts = [] ∧
          ∀ limits' spills', decode boundary limits' source spills' = (.ok [], spills')) ∨
      ∃ input, ∀ limits' spills', decode boundary limits' source spills' =
        decodeFrom [] { Reader.ofSource boundary limits' source with input, started := true }
          spills') := by
  rcases Bool.eq_false_or_eq_true boundary.isEmpty with hempty | hne
  · have herror : ((Reader.ofSource boundary limits source).nextPart spills).1 =
        .error (.structural .emptyBoundary) := by
      have hempty' : (Reader.ofSource boundary limits source).boundary.isEmpty = true := hempty
      rw [Reader.nextPart, if_pos hempty']
    rw [decode] at h
    cases (congrArg Prod.fst h).symm.trans (decodeFrom_of_error herror)
  · refine ⟨hne, ?_⟩
    cases hskip : skipPreamble (dashBoundary boundary) true
        (Reader.ofSource boundary limits source).input with
    | mk answer input =>
      cases answer with
      | error e =>
          have herror := Reader.nextPart_of_skipPreamble_error
            (r := .ofSource boundary limits source) hne rfl rfl (congrArg Prod.fst hskip) spills
          rw [decode] at h
          cases (congrArg Prod.fst h).symm.trans (decodeFrom_of_error herror)
      | ok d =>
          cases d with
          | close =>
              have hnone : ∀ limits' spills',
                  decode boundary limits' source spills' = (.ok [], spills') := fun _ _ =>
                decodeFrom_of_none (Reader.nextPart_of_skipPreamble_close hne rfl rfl hskip _)
              rw [hnone] at h
              cases h
              exact .inl ⟨rfl, hnone⟩
          | next =>
              exact .inr ⟨input, fun limits' spills' => decodeFrom_congr
                (Reader.nextPart_of_skipPreamble hne rfl rfl hskip spills') []⟩

theorem decode_of_le {boundary : String} {source : ByteSource} {spills left : Spills}
    {parts : List RawPart} (hle : limits.Within limits')
    (h : decode boundary limits source spills = (.ok parts, left)) (spills' : Spills) :
    ∃ parts' left', decode boundary limits' source spills' = (.ok parts', left') ∧
      parts'.map RawPart.view = parts.map RawPart.view := by
  obtain ⟨hne, ⟨rfl, hnone⟩ | ⟨input, hinput⟩⟩ := decode_cases h
  · exact ⟨[], spills', hnone _ _, rfl⟩
  · rw [hinput] at h ⊢
    exact decodeFrom_of_le (r := { Reader.ofSource boundary limits source with
      input, started := true }) hne rfl hle rfl h spills'

/-- Limits that admit what either of two admits. -/
def Limits.sup (limits limits' : Limits) : Limits :=
  { limits with
    maxHeaderSize := max limits.maxHeaderSize limits'.maxHeaderSize
    maxHeaders := max limits.maxHeaders limits'.maxHeaders }

/-- **What limits decide.**  If a message is read, then under each limits a part is in a spill file
just when its content is longer than the threshold, and says how long it is; under any other limits
under which the message is read, its parts are as many and look the same; and it is read under all
limits that admit as large header blocks with as many lines. -/
theorem decode_of_limits {boundary : String} {source : ByteSource} {spills left : Spills}
    {parts : List RawPart} (h : decode boundary limits source spills = (.ok parts, left)) :
    (∀ p ∈ parts, p.Stored limits.memoryThreshold) ∧
      (∀ limits' spills' parts' left',
        decode boundary limits' source spills' = (.ok parts', left') →
        parts'.map RawPart.view = parts.map RawPart.view) ∧
      ∀ limits' spills', limits.maxHeaderSize ≤ limits'.maxHeaderSize →
        limits.maxHeaders ≤ limits'.maxHeaders →
        ∃ parts' left', decode boundary limits' source spills' = (.ok parts', left') := by
  refine ⟨?_, fun limits' spills' parts' left' h' => ?_, fun limits' spills' hsize hheaders => ?_⟩
  · obtain ⟨hne, ⟨rfl, -⟩ | ⟨input, hinput⟩⟩ := decode_cases h
    · simp
    · rw [hinput] at h
      exact stored_of_decodeFrom (r := { Reader.ofSource boundary limits source with
        input, started := true }) hne rfl (by simp) h
  · -- Both are what is read under limits that admit as much as either.
    have hle : limits.Within (limits.sup limits') := ⟨Nat.le_max_left _ _, Nat.le_max_left _ _⟩
    have hle' : limits'.Within (limits.sup limits') :=
      ⟨Nat.le_max_right _ _, Nat.le_max_right _ _⟩
    obtain ⟨both, rest, hboth, hview⟩ := decode_of_le hle h spills
    obtain ⟨both', rest', hboth', hview'⟩ := decode_of_le hle' h' spills
    cases hboth.symm.trans hboth'
    exact hview'.symm.trans hview
  · obtain ⟨parts', left', hread, -⟩ := decode_of_le ⟨hsize, hheaders⟩ h spills'
    exact ⟨parts', left', hread⟩

/-- Two parts, the first with a content of five bytes and the second with none. -/
def twoParts : ByteSource :=
  .ofBytes (Utf8.ofString "--b\r\nA: 1\r\n\r\nhello\r\n--b\r\n\r\n\r\n--b--")

/-- Which parts are in a spill file, where all are read. -/
def places (answer : Except Error (List RawPart) × Spills) : Option (List Bool) :=
  answer.1.toOption.map (·.map fun p => p.body.isSpilled)

theorem exists_of_places {answer : Except Error (List RawPart) × Spills} {spilled : List Bool}
    (h : places answer = some spilled) : ∃ parts left, answer = (.ok parts, left) := by
  obtain ⟨answer, left⟩ := answer
  cases answer with
  | error e => cases h
  | ok parts => exact ⟨parts, left, rfl⟩

/-- The threshold is one byte below the length of a content, and then just that length. -/
theorem decode_of_limits_twoParts :
    places (decode "b" ⟨4, 8, 1⟩ twoParts .empty) = some [true, false] ∧
      places (decode "b" ⟨5, 9, 1⟩ twoParts .empty) = some [false, false] ∧
      ∃ parts left, decode "b" ⟨4, 8, 1⟩ twoParts .empty = (.ok parts, left) ∧
        (∀ p ∈ parts, p.Stored 4) ∧
        ∃ parts' left', decode "b" ⟨5, 9, 1⟩ twoParts .empty = (.ok parts', left') ∧
          parts'.map RawPart.view = parts.map RawPart.view := by
  have hlow : places (decode "b" ⟨4, 8, 1⟩ twoParts .empty) = some [true, false] := by
    decide +kernel
  have hhigh : places (decode "b" ⟨5, 9, 1⟩ twoParts .empty) = some [false, false] := by
    decide +kernel
  obtain ⟨parts, left, h⟩ := exists_of_places hlow
  obtain ⟨hstored, hsame, hgreater⟩ := decode_of_limits h
  obtain ⟨parts', left', h'⟩ := hgreater ⟨5, 9, 1⟩ .empty (by decide) (by decide)
  exact ⟨hlow, hhigh, parts, left, h, hstored, parts', left', h', hsame _ _ _ _ h'⟩

end Mime.Multipart
