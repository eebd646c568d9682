import Mime.Proofs.Multipart.BlockReader

/-! # The reader is a parser of lines

What stands between two delimiters is read as its lines say (`Reader.readPart_of_lines`), and where
the lines end too early the reader fails.  So the parts of a message are those of `parseLines`
(`decode_eq_parseLines`): how the input arrives, the size of segments and the place of the content
do not show in the headers and contents that are read. -/

namespace Mime.Multipart

/-! ### The content of a part -/

/-- At the start of a line nothing but a line break is held back. -/
theorem splitHeld_eq_splitBreak {x : Bytes} (hx : ∀ b ∈ x.getLast?, b = lineFeed) :
    splitHeld x = splitBreak x := by
  rw [splitHeld, if_neg]
  intro h
  have := hx _ h
  revert this
  decide

/-! ### One part -/

/-- The headers of a part, and the bytes that can be read from it. -/
def RawPart.read (p : RawPart) : Headers × Except IoError Bytes :=
  (p.headers, p.body.readAll)

/-- The headers and the content of a part, as they are read from it. -/
def readable (part : Headers × Bytes) : Headers × Except IoError Bytes :=
  (part.1, .ok part.2)

namespace Reader

variable {r : Reader} {ls block : List Bytes}

/-- A reader in front of lines. -/
structure AtLines (r : Reader) (ls : List Bytes) : Prop where
  input_eq : r.input = cut [] (ls.flatten.map .ok)
  lined : Lined ls

theorem readHeaders_of_takeBlock {ls' : List Bytes} (h : r.AtLines ls)
    (hfit : r.limits.Admits block) (hb : takeBlock ls = (block, some ls')) :
    readHeaders r.limits r.input = (.ok (unfold block.dropLast), cut [] (ls'.flatten.map .ok)) := by
  have hread := readHeaders_of_admits [] h.lined hfit hb
  rwa [List.append_nil, List.append_nil, ← h.input_eq] at hread

theorem readPart_of_readHeaders_error {e : Error}
    (h : (readHeaders r.limits r.input).1 = .error e) (spills : Spills) :
    (r.readPart spills).1 = .error e := by
  unfold readPart
  split <;> rename_i hr <;> rw [hr] at h <;> cases h
  rfl

theorem readPart_of_cutBlock (h : r.AtLines ls) (hfit : r.limits.Admits block)
    (hb : takeBlock ls = (block, none)) (spills : Spills) :
    (r.readPart spills).1 = .error (.structural .cutHeaders) := by
  have he := collectLines_of_takeBlock_none (b := {}) h.lined rfl
    (by simpa using hfit.1) (by simpa using hfit.2) hb
  rw [← h.input_eq] at he
  apply readPart_of_readHeaders_error
  unfold readHeaders
  split <;> rename_i hr <;> rw [hr] at he <;> cases he
  rfl

theorem readPart_of_cutContent {ls' : List Bytes} (h : r.AtLines ls) (hfit : r.limits.Admits block)
    (hb : takeBlock ls = (block, some ls'))
    (hc : ∀ l ∈ ls', seenDelimiter? (dashBoundary r.boundary) l = none) (spills : Spills) :
    (r.readPart spills).1 = .error (.structural (.cutContent (r.partsRead + 1))) := by
  have hlined : Lined ls' := (append_of_takeBlock hb ▸ h.lined).of_append
  have he := readContent_of_no_delimiter (r.partsRead + 1)
    { threshold := r.limits.memoryThreshold, spills } [] hlined hc
  rw [readPart, readHeaders_of_takeBlock h hfit hb]
  dsimp only
  change (readContent _ _ { spool := { threshold := r.limits.memoryThreshold, spills } } _).1 = _
    at he
  split <;> rename_i hr <;> rw [hr] at he
  · exact congrArg Except.error (Except.error.inj he)
  · cases he

/-- **A part is what its lines say.**  The reader is left in front of the lines behind the
delimiter. -/
theorem readPart_of_lines {content rest : List Bytes} {line : Bytes} {d : Delimiter}
    (h : r.AtLines ls) (hfit : r.limits.Admits block)
    (hb : takeBlock ls = (block, some (content ++ line :: rest)))
    (hc : ∀ l ∈ content, seenDelimiter? (dashBoundary r.boundary) l = none)
    (hd : seenDelimiter? (dashBoundary r.boundary) line = some d) (spills : Spills) :
    ∃ part r' spills', r.readPart spills = (.ok part, r', spills') ∧
      part.read = readable (readLines block content) ∧
      r'.boundary = r.boundary ∧ r'.limits = r.limits ∧ r'.started = r.started ∧
      r'.partsRead = r.partsRead + 1 ∧ r'.finished = (d = .close) ∧
      (d = .next → r'.AtLines rest) := by
  have hlined : Lined (content ++ line :: rest) := (append_of_takeBlock hb ▸ h.lined).of_append
  obtain ⟨left, he, hleft⟩ := readContent_of_lines (r.partsRead + 1)
    { threshold := r.limits.memoryThreshold, spills } hlined
    (rfl : (Content.after _ []).atLineStart = true) hc hd
  have hheld : splitHeld content.flatten = splitBreak content.flatten :=
    splitHeld_eq_splitBreak (hlined.getLast?_flatten (List.cons_ne_nil _ _))
  rw [List.nil_append, hheld] at he
  change readContent _ _ { spool := { threshold := r.limits.memoryThreshold, spills } } _ = _ at he
  rw [readPart, readHeaders_of_takeBlock h hfit hb]
  dsimp only
  rw [he]
  dsimp only
  rw [Spool.finish_eq]
  refine ⟨_, _, _, rfl, ?_, rfl, rfl, rfl, rfl, by simp, fun hd => ⟨hleft hd, ?_⟩⟩
  · simp [RawPart.read, readable, readLines, Spool.readAll_toSource_keep, Spool.collected]
  · exact hlined.of_append.tail

theorem nextPart_of_started (hne : r.boundary.isEmpty = false) (hs : r.started = true)
    (hf : r.finished = false) (spills : Spills) :
    r.nextPart spills =
      ((r.readPart spills).1.map some, (r.readPart spills).2.1, (r.readPart spills).2.2) := by
  simp only [nextPart, hne, hs, hf, Bool.false_eq_true, if_false, if_true]

theorem nextPart_of_lines {content rest : List Bytes} {line : Bytes} {d : Delimiter}
    (hne : r.boundary.isEmpty = false) (hs : r.started = true) (hf : r.finished = false)
    (h : r.AtLines ls) (hfit : r.limits.Admits block)
    (hb : takeBlock ls = (block, some (content ++ line :: rest)))
    (hc : ∀ l ∈ content, seenDelimiter? (dashBoundary r.boundary) l = none)
    (hd : seenDelimiter? (dashBoundary r.boundary) line = some d) (spills : Spills) :
    ∃ part r' spills', r.nextPart spills = (.ok (some part), r', spills') ∧
      part.read = readable (readLines block content) ∧
      r'.boundary = r.boundary ∧ r'.limits = r.limits ∧ r'.started = true ∧
      r'.partsRead = r.partsRead + 1 ∧ r'.finished = (d = .close) ∧
      (d = .next → r'.AtLines rest) := by
  obtain ⟨part, r', spills', he, hread, hbd, hlim, hst, hn, hfin, hat⟩ :=
    readPart_of_lines h hfit hb hc hd spills
  refine ⟨part, r', spills', ?_, hread, hbd, hlim, hst.trans hs, hn, hfin, hat⟩
  rw [nextPart_of_started hne hs hf, he]
  rfl

theorem nextPart_of_finished (hne : r.boundary.isEmpty = false) (hf : r.finished = true)
    (spills : Spills) : r.nextPart spills = (.ok none, r, spills) := by
  simp only [nextPart, hne, hf, Bool.false_eq_true, if_false, if_true]

/-- In front of the first delimiter, the reader first passes the lines up to it. -/
theorem nextPart_of_skipPreamble {left : Incoming} (hne : r.boundary.isEmpty = false)
    (hs : r.started = false) (hf : r.finished = false)
    (hk : skipPreamble (dashBoundary r.boundary) true r.input = (.ok .next, left))
    (spills : Spills) :
    r.nextPart spills = { r with input := left, started := true }.nextPart spills := by
  rw [nextPart_of_started (r := { r with input := left, started := true }) hne rfl hf]
  simp only [nextPart, hne, hs, hf, hk, Bool.false_eq_true, if_false]

theorem nextPart_of_skipPreamble_error {e : Error} (hne : r.boundary.isEmpty = false)
    (hs : r.started = false) (hf : r.finished = false)
    (hk : (skipPreamble (dashBoundary r.boundary) true r.input).1 = .error e) (spills : Spills) :
    (r.nextPart spills).1 = .error e := by
  simp only [nextPart, hne, hs, hf, Bool.false_eq_true, if_false]
  split <;> rename_i hr <;> rw [hr] at hk <;> cases hk
  rfl

theorem nextPart_of_skipPreamble_close {left : Incoming} (hne : r.boundary.isEmpty = false)
    (hs : r.started = false) (hf : r.finished = false)
    (hk : skipPreamble (dashBoundary r.boundary) true r.input = (.ok .close, left))
    (spills : Spills) :
    r.nextPart spills = (.ok none, { r with input := left, finished := true }, spills) := by
  simp only [nextPart, hne, hs, hf, hk, Bool.false_eq_true, if_false]

end Reader

/-! ### All parts -/

theorem decodeFrom_of_none {parts : List RawPart} {r r' : Reader} {spills spills' : Spills}
    (h : r.nextPart spills = (.ok none, r', spills')) :
    decodeFrom parts r spills = (.ok parts.reverse, spills') := by
  rw [decodeFrom]
  split <;> rename_i h' <;> rw [h] at h' <;> cases h'
  rfl

theorem decodeFrom_of_some {parts : List RawPart} {part : RawPart} {r r' : Reader}
    {spills spills' : Spills} (h : r.nextPart spills = (.ok (some part), r', spills')) :
    decodeFrom parts r spills = decodeFrom (part :: parts) r' spills' := by
  rw [decodeFrom]
  split <;> rename_i h' <;> rw [h] at h' <;> cases h'
  rfl

theorem decodeFrom_congr {r r' : Reader} {spills : Spills}
    (h : r.nextPart spills = r'.nextPart spills) (parts : List RawPart) :
    decodeFrom parts r spills = decodeFrom parts r' spills := by
  rw [decodeFrom, decodeFrom]
  split <;> rename_i hr <;> split <;> rename_i hr' <;>
    cases hr.symm.trans (h.trans hr') <;> rfl

theorem decodeFrom_of_error {parts : List RawPart} {r : Reader} {spills : Spills} {e : Error}
    (h : (r.nextPart spills).1 = .error e) : (decodeFrom parts r spills).1 = .error e := by
  rw [decodeFrom]
  split <;> rename_i h' <;> rw [h'] at h <;> cases h
  rfl

theorem decodeFrom_of_lines {dashed : Bytes} {ls : List Bytes} {parts : List RawPart} {r : Reader}
    {spills : Spills} (hd : dashed = dashBoundary r.boundary) (hne : r.boundary.isEmpty = false)
    (hs : r.started = true) (hf : r.finished = false) (h : r.AtLines ls)
    (hlen : ∀ l ∈ ls, dashed <+: l → l.length ≤ segmentSize)
    (hfit : ∀ block ∈ (Outline.ofLines dashed ls).blocks, r.limits.Admits block) :
    (decodeFrom parts r spills).1.map (·.map RawPart.read) =
      ((Outline.ofLines dashed ls).read (r.partsRead + 1)).map
        (parts.reverse.map RawPart.read ++ ·.map readable) := by
  have hnext := Reader.nextPart_of_started hne hs hf spills
  fun_induction Outline.ofLines dashed ls generalizing parts r spills with
  | case1 ls block hb =>
      subst hd
      have he := Reader.readPart_of_cutBlock h (hfit block (by simp [Outline.blocks])) hb spills
      rw [he] at hnext
      rw [decodeFrom_of_error (congrArg Prod.fst hnext)]
      rfl
  | case2 ls block ls' hb content hc =>
      subst hd
      have happ := append_of_takeBlock hb
      have hlined : Lined ls' := (happ ▸ h.lined).of_append
      have hseen := seen_of_takeContent_none hlined (fun l hl => hlen l (by simp [happ, hl]))
        (congrArg Prod.snd hc)
      have he := Reader.readPart_of_cutContent h (hfit block (by simp [Outline.blocks])) hb hseen
        spills
      rw [he] at hnext
      rw [decodeFrom_of_error (congrArg Prod.fst hnext)]
      rfl
  | case3 ls block ls' hb content rest hc =>
      subst hd
      have happ := append_of_takeBlock hb
      have hlined : Lined ls' := (happ ▸ h.lined).of_append
      obtain ⟨line, rfl, hdl, hcl⟩ := seen_of_takeContent hlined
        (fun l hl => hlen l (by simp [happ, hl])) hc
      obtain ⟨part, r', spills', he, hread, hbd, -, -, -, hfin, -⟩ :=
        Reader.nextPart_of_lines hne hs hf h (hfit block (by simp [Outline.blocks])) hb hcl hdl
          spills
      have hlast := Reader.nextPart_of_finished (r := r') (hbd ▸ hne) (by simpa using hfin) spills'
      rw [decodeFrom_of_some he, decodeFrom_of_none hlast]
      simp [Outline.read, Except.map, hread]
  | case4 ls block ls' hb content rest hc ih =>
      subst hd
      have happ := append_of_takeBlock hb
      have hlined : Lined ls' := (happ ▸ h.lined).of_append
      obtain ⟨line, rfl, hdl, hcl⟩ := seen_of_takeContent hlined
        (fun l hl => hlen l (by simp [happ, hl])) hc
      obtain ⟨part, r', spills', he, hread, hbd, hlim, hst, hn, hfin, hat⟩ :=
        Reader.nextPart_of_lines hne hs hf h (hfit block (by simp [Outline.blocks])) hb hcl hdl
          spills
      have hf' : r'.finished = false := by simpa using hfin
      rw [decodeFrom_of_some he, ih (by rw [hbd]) (hbd ▸ hne) hst hf' (hat rfl)
        (fun l hl => hlen l (by simp [happ, hl]))
        (fun b hb => hlim ▸ hfit b (by simp [Outline.blocks, hb]))
        (Reader.nextPart_of_started (hbd ▸ hne) hst hf' spills'), hn, Outline.read]
      cases (Outline.ofLines (dashBoundary r.boundary) rest).read (r.partsRead + 1 + 1) with
      | error e => rfl
      | ok ps => simp [Except.map, hread]

/-- **The reader is a parser of lines.**  For a boundary that is not empty, an input of which only
lines that fit into a segment begin like a delimiter, and header blocks within the limits, what is
read of the parts is what the lines say, and the failures are those that the lines give. -/
theorem decode_eq_parseLines {boundary : String} (hne : boundary ≠ "") {limits : Limits}
    {source : ByteSource} {input : Bytes} (hsource : flatten source.arrivals = input.map .ok)
    (hlen : ∀ l ∈ lines input, dashBoundary boundary <+: l → l.length ≤ segmentSize)
    (hfit : ∀ block ∈ headerBlocks (dashBoundary boundary) input, limits.Admits block)
    (spills : Spills) :
    (decode boundary limits source spills).1.map (·.map RawPart.read) =
      (parseLines (dashBoundary boundary) input).map (·.map readable) := by
  have hne' : boundary.isEmpty = false := by
    rw [Bool.eq_false_iff]
    exact fun h => hne (String.isEmpty_iff.mp h)
  have hinput : cut [] ((lines input).flatten.map .ok) =
      (Reader.ofSource boundary limits source).input := by
    rw [flatten_lines, ← hsource]
    exact (ofArrivals_eq_cut source.arrivals).symm
  unfold decode parseLines
  unfold headerBlocks at hfit
  cases hk : takeContent (dashBoundary boundary) (lines input) with
  | mk skipped found =>
    rw [hk] at hfit
    cases found with
    | none =>
        have he := skipPreamble_of_takeContent_none (lined_lines input) hlen
          (congrArg Prod.snd hk)
        rw [hinput] at he
        have hnext := Reader.nextPart_of_skipPreamble_error
          (r := .ofSource boundary limits source) hne' rfl rfl he spills
        rw [decodeFrom_of_error hnext]
        rfl
    | some found =>
        obtain ⟨d, rest⟩ := found
        obtain ⟨hlined, hmem, left, he, hleft⟩ :=
          skipPreamble_of_takeContent (lined_lines input) hlen hk
        rw [hinput] at he
        cases d with
        | close =>
            have hnext := Reader.nextPart_of_skipPreamble_close
              (r := .ofSource boundary limits source) hne' rfl rfl he spills
            rw [decodeFrom_of_none hnext]
            rfl
        | next =>
            have hnext := Reader.nextPart_of_skipPreamble (r := .ofSource boundary limits source)
              hne' rfl rfl he spills
            have hat : Reader.AtLines { Reader.ofSource boundary limits source with
                input := left, started := true } rest := ⟨hleft rfl, hlined⟩
            rw [decodeFrom_congr hnext, decodeFrom_of_lines rfl hne' rfl rfl hat
              (fun l hl => hlen l (hmem l hl)) hfit]
            rfl

/-- A message with a preamble, a continued header line and an epilogue. -/
theorem decode_eq_parseLines_preamble_epilogue :
    (decode "b" .standard
        (.ofBytes (Utf8.ofString "intro\r\n--b \r\nA: 1\r\n 2\r\n\r\nx\r\ny\n--b--\r\n--b"))
        .empty).1.map (·.map RawPart.read) =
      .ok [(⟨[("A", "1 2")]⟩, .ok (Utf8.ofString "x\r\ny"))] := by
  refine (@decode_eq_parseLines "b" (by decide) .standard _
    (Utf8.ofString "intro\r\n--b \r\nA: 1\r\n 2\r\n\r\nx\r\ny\n--b--\r\n--b")
    rfl (by decide) (by decide +kernel) .empty).trans ?_
  with_unfolding_all rfl

end Mime.Multipart
