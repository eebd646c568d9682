import Mime.Proofs.Multipart.Closing
import Mime.Proofs.Multipart.HeaderLimits
import Mime.Proofs.Multipart.Limits

/-! # Parts cost input

Each part takes its content, a header block and a delimiter off the input (`taken_of_readPart`), so
that a call which gives a part takes at least the boundary and four bytes beyond the content
(`taken_of_nextPart`).  Summed up over the calls (`Reads.taken`), with the first delimiter or the
closing one as one more (`Reader.surplus`), this bounds the number of parts by the length of the
input, and decoding ends after as many calls (`decode_consumption`). -/

namespace Mime.Multipart

/-- The bytes that a part takes at least, beyond its content. -/
def partSize (boundary : String) : Nat :=
  (Utf8.ofString boundary).length + 4

theorem length_dashBoundary (boundary : String) :
    (dashBoundary boundary).length + 2 = partSize boundary := rfl

namespace Reader

variable {r r' : Reader} {spills left : Spills} {items : List (Except IoError UInt8)}

/-- The bytes of delimiters that a reader has passed beyond what its parts take: those of the first
delimiter, and one more for the second dash of the closing one. -/
def surplus (r : Reader) : Nat :=
  if r.finished then partSize r.boundary
  else if r.started then partSize r.boundary - 1
  else 0

/-! ### One call -/

theorem taken_of_readPart {part : RawPart} (hin : Holds items r.input)
    (h : r.readPart spills = (.ok part, r', left)) :
    ∃ taken content, Takes items r.input r'.input taken none ∧
      part.body.readAll = .ok content ∧ r'.boundary = r.boundary ∧ r'.started = r.started ∧
      partSize r.boundary + content.length + (if r'.finished then 1 else 0) ≤ taken.length := by
  obtain ⟨headers, input, d, kept, input', hheaders, hcontent, rfl, rfl, -⟩ :=
    readPart_eq_ok_iff.mp h
  obtain ⟨block, fault, hblock, -, hfault, hne⟩ := taken_of_readHeaders hin hheaders
  have hnone : fault = none := by
    cases fault with
    | none => rfl
    | some e => cases hfault e rfl
  subst hnone
  obtain ⟨rest, -, hrest, htrans⟩ := hblock.behind
  obtain ⟨taken, htaken, hbound⟩ := taken_of_readContent hrest (hcontent (r.limits.spool spills))
  have hempty : Content.size { spool := r.limits.spool spills } = 0 := rfl
  rw [Limits.collected_keep_spool] at hbound
  have hpositive : 0 < block.length := List.length_pos_iff.mpr (hne headers rfl)
  have hdelimiter : d.least = 1 + if d = .close then 1 else 0 := by
    cases d <;> rfl
  refine ⟨block ++ taken, kept, htrans _ _ _ htaken, ?_, rfl, rfl, ?_⟩
  · exact readAll_keep_spool _ _ _
  · rw [hempty, hdelimiter] at hbound
    rw [List.length_append, ← length_dashBoundary]
    simp only [decide_eq_true_eq]
    omega

/-- Without a boundary every call fails. -/
theorem boundary_ne_of_nextPart {answer : Option RawPart}
    (h : r.nextPart spills = (.ok answer, r', left)) : r.boundary.isEmpty = false := by
  rw [Bool.eq_false_iff]
  intro hempty
  rw [nextPart, if_pos hempty] at h
  cases h

theorem exists_readPart_of_started {answer : Option RawPart} (hne : r.boundary.isEmpty = false)
    (hs : r.started = true) (hf : r.finished = false)
    (h : r.nextPart spills = (.ok answer, r', left)) :
    ∃ part, answer = some part ∧ r.readPart spills = (.ok part, r', left) := by
  rw [nextPart_of_started hne hs hf] at h
  obtain ⟨hanswer, hrest⟩ := Prod.mk.inj h
  obtain ⟨part, hread, rfl⟩ := map_eq_ok_iff.mp hanswer
  exact ⟨part, rfl, Prod.ext hread hrest⟩

/-- A call that does not fail either is in front of a part or meets the closing delimiter, if that
was not met before. -/
theorem cases_of_nextPart {answer : Option RawPart}
    (h : r.nextPart spills = (.ok answer, r', left)) :
    (∃ input part, answer = some part ∧ r.AtPart input ∧
        { r with input, started := true }.readPart spills = (.ok part, r', left)) ∨
      answer = none ∧ (r' = r ∧ r.finished = true ∨
        skipPreamble (dashBoundary r.boundary) true r.input = (.ok .close, r'.input)) := by
  have hne := boundary_ne_of_nextPart h
  rcases Bool.eq_false_or_eq_true r.finished with hf | hf
  · rw [nextPart_of_finished hne hf] at h
    cases h
    exact .inr ⟨rfl, .inl ⟨rfl, hf⟩⟩
  rcases Bool.eq_false_or_eq_true r.started with hs | hs
  · obtain ⟨part, rfl, hread⟩ := exists_readPart_of_started hne hs hf h
    refine .inl ⟨r.input, part, rfl, ⟨hne, hf, .inl ⟨hs, rfl⟩⟩, ?_⟩
    rw [← hs]
    exact hread
  cases hskip : skipPreamble (dashBoundary r.boundary) true r.input with
  | mk found input =>
    cases found with
    | error e =>
        have herror := nextPart_of_skipPreamble_error hne hs hf (congrArg Prod.fst hskip) spills
        rw [h] at herror
        cases herror
    | ok d =>
        cases d with
        | close =>
            rw [nextPart_of_skipPreamble_close hne hs hf hskip] at h
            cases h
            exact .inr ⟨rfl, .inr rfl⟩
        | next =>
            rw [nextPart_of_skipPreamble hne hs hf hskip] at h
            obtain ⟨part, rfl, hread⟩ :=
              exists_readPart_of_started (r := { r with input, started := true }) hne rfl hf h
            exact .inl ⟨input, part, rfl, ⟨hne, hf, .inr ⟨hs, hskip⟩⟩, hread⟩

/-- What is taken to come in front of a part: the first delimiter, if it was not passed before. -/
theorem AtPart.takes {input : Incoming} (h : r.AtPart input) (hin : Holds items r.input) :
    ∃ taken, Takes items r.input input taken none ∧
      partSize r.boundary - 1 ≤ taken.length + r.surplus := by
  rcases h.place with ⟨hs, rfl⟩ | ⟨-, hskip⟩
  · refine ⟨[], hin.takes_nil, ?_⟩
    simp [surplus, hs, h.not_finished]
  · obtain ⟨taken, htakes, hbound⟩ := taken_of_skipPreamble hin hskip
    refine ⟨taken, htakes, ?_⟩
    rw [Delimiter.least] at hbound
    rw [← length_dashBoundary]
    omega

/-- **What a part takes.**  A call that gives a part takes the content of the part and at least the
boundary and four bytes more off the input. -/
theorem taken_of_nextPart {part : RawPart} (hin : Holds items r.input)
    (h : r.nextPart spills = (.ok (some part), r', left)) :
    ∃ taken content, Takes items r.input r'.input taken none ∧
      part.body.readAll = .ok content ∧ r'.boundary = r.boundary ∧ r.surplus ≤ r'.surplus ∧
      partSize r.boundary + content.length + r'.surplus ≤ taken.length + r.surplus := by
  obtain ⟨input, part, ⟨⟩, hpart, hread⟩ | ⟨⟨⟩, -⟩ := cases_of_nextPart h
  have hf := hpart.not_finished
  obtain ⟨front, hfront, hdelimiter⟩ := hpart.takes hin
  obtain ⟨rest, -, hrest, htrans⟩ := hfront.behind
  obtain ⟨taken, content, htakes, hcontent, hboundary, hstarted, hbound⟩ :=
    taken_of_readPart (r := { r with input, started := true }) hrest hread
  dsimp only at hboundary hstarted hbound
  have hbefore : r.surplus ≤ partSize r.boundary - 1 := by
    rw [surplus, hf]
    cases r.started <;> simp
  have hbehind : r'.surplus = partSize r.boundary - 1 + if r'.finished then 1 else 0 := by
    have hpositive : 0 < partSize r.boundary := Nat.succ_pos _
    simp only [surplus, hboundary, hstarted]
    split
    · omega
    · rfl
  refine ⟨front ++ taken, content, htrans _ _ _ htakes, hcontent, hboundary, ?_, ?_⟩
  · omega
  · rw [List.length_append]
    omega

theorem taken_of_nextPart_none (hin : Holds items r.input)
    (h : r.nextPart spills = (.ok none, r', left)) :
    ∃ taken, Takes items r.input r'.input taken none ∧
      partSize r.boundary ≤ taken.length + r.surplus := by
  obtain ⟨input, part, ⟨⟩, -⟩ | ⟨-, ⟨rfl, hf⟩ | hskip⟩ := cases_of_nextPart h
  · refine ⟨[], hin.takes_nil, ?_⟩
    simp [surplus, hf]
  · obtain ⟨taken, htakes, hbound⟩ := taken_of_skipPreamble hin hskip
    exact ⟨taken, htakes, Nat.le_trans hbound (Nat.le_add_right _ _)⟩

/-! ### One call after the other -/

/-- Calls one after the other, each of which gives a part. -/
inductive Reads : Reader → Spills → List RawPart → Reader → Spills → Prop
  | nil (r : Reader) (spills : Spills) : Reads r spills [] r spills
  | cons {r r' last : Reader} {spills spills' left : Spills} {part : RawPart}
      {parts : List RawPart} : r.nextPart spills = (.ok (some part), r', spills') →
      Reads r' spills' parts last left → Reads r spills (part :: parts) last left

theorem Reads.taken {parts : List RawPart} {last : Reader} (h : Reads r spills parts last left)
    (hin : Holds items r.input) :
    ∃ (taken : Bytes) (contents : List Bytes), Takes items r.input last.input taken none ∧
      last.boundary = r.boundary ∧
      parts.map (fun p => p.body.readAll) = contents.map .ok ∧
      parts.length * partSize r.boundary + contents.flatten.length + last.surplus ≤
        taken.length + r.surplus := by
  induction h generalizing items with
  | nil r spills => exact ⟨[], [], hin.takes_nil, rfl, rfl, by simp⟩
  | @cons r r' last spills spills' left part parts hnext _ ih =>
      obtain ⟨front, content, hfront, hcontent, hboundary, -, hone⟩ := taken_of_nextPart hin hnext
      obtain ⟨rest, -, hrest, htrans⟩ := hfront.behind
      obtain ⟨taken, contents, htakes, hlast, hcontents, hmore⟩ := ih hrest
      refine ⟨front ++ taken, content :: contents, htrans _ _ _ htakes, hlast.trans hboundary, ?_,
        ?_⟩
      · rw [List.map_cons, List.map_cons, hcontent, hcontents]
      · rw [hboundary] at hmore
        rw [List.length_cons, Nat.succ_mul, List.flatten_cons, List.length_append,
          List.length_append]
        omega

end Reader

theorem decodeFrom_reads (done : List RawPart) (r : Reader) (spills : Spills) :
    ∃ parts last left, Reader.Reads r spills parts last left ∧
      ((∃ e, (last.nextPart left).1 = .error e ∧ (decodeFrom done r spills).1 = .error e) ∨
        (last.nextPart left).1 = .ok none ∧
          (decodeFrom done r spills).1 = .ok (done.reverse ++ parts)) := by
  fun_induction decodeFrom done r spills with
  | case1 done r spills e r' spills' hnext =>
      exact ⟨[], r, spills, .nil r spills, .inl ⟨e, congrArg Prod.fst hnext, rfl⟩⟩
  | case2 done r spills r' spills' hnext =>
      refine ⟨[], r, spills, .nil r spills, .inr ⟨congrArg Prod.fst hnext, ?_⟩⟩
      rw [List.append_nil]
  | case3 done r spills part r' spills' hnext ih =>
      obtain ⟨parts, last, left, hreads, hend⟩ := ih
      refine ⟨part :: parts, last, left, .cons hnext hreads, ?_⟩
      rw [List.reverse_cons, List.append_assoc, List.singleton_append] at hend
      exact hend

theorem Reader.exists_holds_after (boundary : String) (limits : Limits) (arrivals : List Arrival)
    (states : List Spills) : ∃ before items, flatten arrivals = before ++ items ∧
      Holds items ((ofArrivals boundary limits arrivals).after states).input := by
  have hstands := stands_after (stands_ofArrivals boundary limits arrivals) states
  obtain ⟨passed, hall⟩ := hstands.input_suffix
  rw [ofArrivals_eq_cut] at hall
  by_cases hnil : ((ofArrivals boundary limits arrivals).after states).input = []
  · exact ⟨flatten arrivals, [], (List.append_nil _).symm, .inr ⟨rfl, hnil⟩⟩
  · obtain ⟨before, items, hitems, hcut⟩ := exists_of_cut_eq_append hnil hall.symm
    exact ⟨before, items, hitems, .inl hcut.symm⟩

/-- The number of bytes among bytes and failures. -/
def byteCount (items : List (Except IoError UInt8)) : Nat :=
  items.countP Except.isOk

theorem length_le_byteCount (taken : Bytes) (rest : List (Except IoError UInt8)) :
    taken.length ≤ byteCount (taken.map .ok ++ rest) := by
  have hall : (taken.map Except.ok : List (Except IoError UInt8)).countP Except.isOk =
      taken.length := by
    rw [List.countP_map]
    exact List.countP_eq_length.mpr fun _ _ => rfl
  rw [byteCount, List.countP_append, hall]
  exact Nat.le_add_right _ _

/-- Decoding is calls that give parts, and one that gives none or fails, and together they take no
more bytes than there are. -/
theorem decode_reads (boundary : String) (limits : Limits) (source : ByteSource) (spills : Spills) :
    ∃ (parts : List RawPart) (last : Reader) (left : Spills) (contents : List Bytes),
      Reader.Reads (.ofSource boundary limits source) spills parts last left ∧
      parts.map (fun p => p.body.readAll) = contents.map .ok ∧
      parts.length * partSize boundary + contents.flatten.length ≤
        byteCount (flatten source.arrivals) ∧
      ((∃ e, (last.nextPart left).1 = .error e ∧
          (decode boundary limits source spills).1 = .error e) ∨
        (last.nextPart left).1 = .ok none ∧
          (decode boundary limits source spills).1 = .ok parts ∧
          (parts.length + 1) * partSize boundary + contents.flatten.length ≤
            byteCount (flatten source.arrivals)) := by
  obtain ⟨parts, last, left, hreads, hend⟩ :=
    decodeFrom_reads [] (Reader.ofSource boundary limits source) spills
  have hin : Holds (flatten source.arrivals) (Reader.ofSource boundary limits source).input :=
    .inl (ofArrivals_eq_cut source.arrivals)
  obtain ⟨taken, contents, htakes, hlast, hcontents, hbound⟩ := hreads.taken hin
  obtain ⟨rest, hitems, hrest, htrans⟩ := htakes.behind
  have hboundary : (Reader.ofSource boundary limits source).boundary = boundary := rfl
  have hzero : (Reader.ofSource boundary limits source).surplus = 0 := rfl
  rw [hboundary, hzero] at hbound
  have hcount := length_le_byteCount taken rest
  rw [← hitems] at hcount
  refine ⟨parts, last, left, contents, hreads, hcontents, by omega, hend.imp_right ?_⟩
  rintro ⟨hnone, hdecode⟩
  refine ⟨hnone, hdecode, ?_⟩
  -- the last call takes the closing delimiter, if none of those before has done so
  cases hnext : last.nextPart left with
  | mk answer behind =>
    obtain ⟨r', left'⟩ := behind
    rw [hnext] at hnone
    cases hnone
    obtain ⟨closing, hclosing, hpart⟩ := Reader.taken_of_nextPart_none hrest hnext
    obtain ⟨rest', hitems', -, -⟩ := (htrans _ _ _ hclosing).behind
    have hcount' := length_le_byteCount (taken ++ closing) rest'
    rw [← hitems', List.length_append] at hcount'
    rw [hlast, hboundary] at hpart
    rw [Nat.succ_mul]
    omega

/-- **Decoding ends, and parts cost input.**  Whatever was called before, a call that gives a part
takes at least the content and `partSize` bytes more off the input.  Decoding ends after finitely
many such calls, of which there are no more than the input has room for.  If it gives parts, these
with their contents, and one more, are no longer than the input. -/
theorem decode_consumption (boundary : String) (limits : Limits) (source : ByteSource)
    (spills : Spills) :
    (∀ states spills' part r' left',
      ((Reader.ofSource boundary limits source).after states).nextPart spills' =
        (.ok (some part), r', left') →
      ∃ (before items : List (Except IoError UInt8)) (taken content : Bytes),
        flatten source.arrivals = before ++ items ∧
        Takes items ((Reader.ofSource boundary limits source).after states).input r'.input taken
          none ∧
        part.body.readAll = .ok content ∧
        partSize boundary + content.length ≤ taken.length) ∧
    (∃ parts last left, Reader.Reads (.ofSource boundary limits source) spills parts last left ∧
      parts.length * partSize boundary ≤ byteCount (flatten source.arrivals) ∧
      ((∃ e, (last.nextPart left).1 = .error e ∧
          (decode boundary limits source spills).1 = .error e) ∨
        (last.nextPart left).1 = .ok none ∧
          (decode boundary limits source spills).1 = .ok parts)) ∧
    ∀ parts, (decode boundary limits source spills).1 = .ok parts →
      ∃ contents : List Bytes, parts.map (fun p => p.body.readAll) = contents.map .ok ∧
        (parts.length + 1) * partSize boundary + contents.flatten.length ≤
          byteCount (flatten source.arrivals) := by
  obtain ⟨parts, last, left, contents, hreads, hcontents, hbound, hend⟩ :=
    decode_reads boundary limits source spills
  refine ⟨?_, ⟨parts, last, left, hreads, by omega, ?_⟩, ?_⟩
  · intro states spills' part r' left' h
    rw [Reader.ofSource] at h ⊢
    obtain ⟨before, items, hitems, hin⟩ :=
      Reader.exists_holds_after boundary limits source.arrivals states
    obtain ⟨taken, content, htakes, hcontent, -, hle, hbound⟩ := Reader.taken_of_nextPart hin h
    have hstands := Reader.stands_after
      (Reader.stands_ofArrivals boundary limits source.arrivals) states
    rw [hstands.boundary_eq] at hbound
    exact ⟨before, items, taken, content, hitems, htakes, hcontent, by omega⟩
  · exact hend.imp_right (And.imp_right And.left)
  · intro parts' hdecode'
    rcases hend with ⟨e, -, herror⟩ | ⟨-, hdecode, hlength⟩
    · rw [hdecode'] at herror
      cases herror
    · rw [hdecode'] at hdecode
      cases hdecode
      exact ⟨contents, hcontents, hlength⟩

/-- Two parts without headers and contents, of which the first is read by a call of its own: there
is not a byte more than they must have. -/
theorem decode_consumption_two_parts :
    let source := ByteSource.ofBytes (Utf8.ofString "--b\n\n--b\n\n--b--")
    byteCount (flatten source.arrivals) = (2 + 1) * partSize "b" ∧
      (∃ (parts : List RawPart) (contents : List Bytes),
        (decode "b" .standard source .empty).1 = .ok parts ∧ parts.length = 2 ∧
        parts.map (fun p => p.body.readAll) = contents.map .ok ∧
        (2 + 1) * partSize "b" + contents.flatten.length ≤ byteCount (flatten source.arrivals)) ∧
      ∃ (part : RawPart) (r' : Reader) (left' : Spills) (items : List (Except IoError UInt8))
        (taken content : Bytes),
        ((Reader.ofSource "b" .standard source).after []).nextPart .empty =
          (.ok (some part), r', left') ∧
        Takes items ((Reader.ofSource "b" .standard source).after []).input r'.input taken none ∧
        part.body.readAll = .ok content ∧ partSize "b" + content.length ≤ taken.length := by
  intro source
  obtain ⟨hcall, -, hparts⟩ := decode_consumption "b" .standard source .empty
  refine ⟨by decide +kernel, ?_, ?_⟩
  · have htwo : (decode "b" .standard source .empty).1.toOption.map List.length = some 2 := by
      decide +kernel
    cases hdecode : (decode "b" .standard source .empty).1 with
    | error e =>
        rw [hdecode] at htwo
        cases htwo
    | ok parts =>
        rw [hdecode] at htwo
        have hlength : parts.length = 2 := Option.some.inj htwo
        obtain ⟨contents, hcontents, hbound⟩ := hparts parts hdecode
        rw [hlength] at hbound
        exact ⟨parts, contents, rfl, hlength, hcontents, hbound⟩
  · have hsome : (((Reader.ofSource "b" .standard source).after []).nextPart .empty).1.toOption.any
        Option.isSome = true := by
      decide +kernel
    cases hnext : ((Reader.ofSource "b" .standard source).after []).nextPart .empty with
    | mk answer behind =>
      rw [hnext] at hsome
      obtain ⟨r', left'⟩ := behind
      match answer, hsome with
      | .ok (some part), _ =>
          obtain ⟨-, items, taken, content, -, htakes, hcontent, hbound⟩ :=
            hcall [] _ part r' left' hnext
          exact ⟨part, r', left', items, taken, content, rfl, htakes, hcontent, hbound⟩

end Mime.Multipart
