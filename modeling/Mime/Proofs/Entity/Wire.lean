import Mime.Proofs.Entity.Closing
import Mime.Proofs.Entity.Head
import Mime.Proofs.Multipart.Message
import Mime.Proofs.Sink

/-! # The bytes of a tree of parts

`settleParts` gives a boundary to each part list in a tree that has none, in the order in which the
lists are written, and `wireParts` says what is written of each part then: its header lines and the
bytes of its body, in which a part list is a message of its own.  Writing a tree whose leaves are
empty or values succeeds with just these bytes and leaves the tree with its boundaries
(`writeParts_eq`). -/

namespace Mime.Entity

open Multipart

/-- A host whose random bytes are zeros. -/
def zeroHost : Host where
  entropy := ⟨fun _ => 0, 0⟩

/-! ### Boundaries of a tree -/

/-- The head of a part, with a boundary if its body is a part list, and the boundary. -/
def settleHead (head : Head) (body : Body Entity) (host : Host) : Option String × Head × Host :=
  if body.kind = .partList ∧ head.mediaType.isMultipart then
    let (nested, head, host) := head.withBoundary host
    (some nested, head, host)
  else (none, head, host)

theorem settleHead_leaf {body : Body Entity} (hbody : body.kind ≠ .partList) (head : Head)
    (host : Host) : settleHead head body host = (none, head, host) :=
  if_neg fun h => hbody h.1

theorem settleHead_list {head : Head} {body : Body Entity} (hbody : body.kind = .partList)
    (hmultipart : head.mediaType.isMultipart = true) (host : Host) :
    settleHead head body host =
      (some (head.withBoundary host).1, (head.withBoundary host).2.1,
        (head.withBoundary host).2.2) :=
  if_pos ⟨hbody, hmultipart⟩

mutual

/-- A body in which all part lists have boundaries, and the host after giving them out. -/
def settleBody (body : Body Entity) (host : Host) : Body Entity × Host :=
  match body with
  | .partList parts =>
    let (parts, host) := settleParts parts host
    (.partList parts, host)
  | .empty => (.empty, host)
  | .dataSource data => (.dataSource data, host)
  | .byteSource source => (.byteSource source, host)
  | .liveStream stream => (.liveStream stream, host)

/-- A part in which all part lists have boundaries, and the host after giving them out. -/
def settle (part : Entity) (host : Host) : Entity × Host :=
  match part with
  | ⟨head, body⟩ =>
    let (_, head, host) := settleHead head body host
    let (body, host) := settleBody body host
    (⟨head, body⟩, host)

/-- Parts in which all part lists have boundaries, and the host after giving them out. -/
def settleParts (parts : List Entity) (host : Host) : List Entity × Host :=
  match parts with
  | [] => ([], host)
  | part :: rest =>
    let (part, host) := settle part host
    let (rest, host) := settleParts rest host
    (part :: rest, host)

end

/-! ### Bytes of a tree -/

/-- The boundary of a media type that has one. -/
def boundaryOf (m : MediaType) : String :=
  m.boundary?.getD ""

mutual

/-- The bytes that are written of a body without sources. -/
def bodyBytes (m : MediaType) (body : Body Entity) : Bytes :=
  match body with
  | .dataSource data => data.toBytes
  | .partList parts => messageBytes (boundaryOf m) (wireParts (m.is MediaType.formData) parts)
  | .empty | .byteSource _ | .liveStream _ => []

/-- The header lines of a part, and the bytes of its body. -/
def wirePart (inForm : Bool) (part : Entity) : Headers × Bytes :=
  match part with
  | ⟨head, body⟩ => (head.partHeaders inForm, bodyBytes head.mediaType body)

/-- The header lines of parts, and the bytes of their bodies. -/
def wireParts (inForm : Bool) (parts : List Entity) : List (Headers × Bytes) :=
  match parts with
  | [] => []
  | part :: rest => wirePart inForm part :: wireParts inForm rest

end

theorem wireParts_eq_map (inForm : Bool) : ∀ parts : List Entity,
    wireParts inForm parts = parts.map (wirePart inForm)
  | [] => rfl
  | part :: rest => by rw [wireParts, wireParts_eq_map inForm rest, List.map_cons]

mutual

/-- A body that is empty, a value, or a list of parts that can be written.  Such a list is not
empty and belongs to a multipart type, whose boundary is valid if it declares one. -/
def BodySafe (m : MediaType) (body : Body Entity) : Prop :=
  match body with
  | .empty | .dataSource _ => True
  | .partList parts =>
    parts ≠ [] ∧ m.isMultipart = true ∧ (∀ b ∈ m.boundary?, Boundary.isValid b.toList = true) ∧
      PartsSafe parts
  | .byteSource _ | .liveStream _ => False

/-- A part with a head and a body that can be written. -/
def PartSafe (part : Entity) : Prop :=
  match part with
  | ⟨head, body⟩ => head.WireSafe ∧ BodySafe head.mediaType body

/-- Parts that can be written. -/
def PartsSafe (parts : List Entity) : Prop :=
  match parts with
  | [] => True
  | part :: rest => PartSafe part ∧ PartsSafe rest

end

/-! ### Writing a tree -/

theorem write_of_limit_eq_none {sink : Sink} (h : sink.limit = none) (host : Host) (bytes : Bytes) :
    (⟨sink, host⟩ : Output).write bytes = (.ok (), ⟨sink.push bytes, host⟩) := by
  rw [Output.write, Sink.write_of_limit_eq_none h]
  rfl

theorem checkBoundary_eq_ok_iff {boundary : String} {first : Bool} :
    (if first then checkBoundary boundary else .ok ()) = .ok () ↔
      (first = true → Boundary.isValid boundary.toList = true) := by
  cases first with
  | false => simp
  | true =>
      rw [if_pos rfl, checkBoundary]
      split
      · rename_i h
        exact iff_of_true rfl fun _ => h
      · rename_i h
        exact iff_of_false nofun fun hvalid => h (hvalid rfl)

/-- A body that is safe to write, with the boundary that its parts are delimited by. -/
structure Settled (nested : Option String) (m : MediaType) (body : Body Entity) : Prop where
  safe : BodySafe m body
  boundary : body.kind = .partList → m.boundary? = some (boundaryOf m) ∧
    Boundary.isValid (boundaryOf m).toList = true ∧ nested = some (boundaryOf m)

theorem boundaryOf_of_eq_some {m : MediaType} {boundary : String}
    (h : m.boundary? = some boundary) : boundaryOf m = boundary := by
  rw [boundaryOf, h]
  rfl

/-- A head with a part list has a boundary, its own or a generated one. -/
theorem boundary?_withBoundary {head : Head} (hlower : head.mediaType.parameters.IsLower)
    (host : Host) :
    (head.withBoundary host).2.1.mediaType.boundary? = some (head.withBoundary host).1 := by
  unfold Head.withBoundary
  cases h : head.mediaType.boundary? with
  | some boundary => exact h
  | none =>
      have hvalid := Boundary.isValid_generateBoundary host
      exact MediaType.boundary?_withParameter hlower (Boundary.ne_empty_of_isValid hvalid)

theorem isValid_withBoundary {head : Head}
    (hb : ∀ b ∈ head.mediaType.boundary?, Boundary.isValid b.toList = true) (host : Host) :
    Boundary.isValid (head.withBoundary host).1.toList = true := by
  unfold Head.withBoundary
  cases h : head.mediaType.boundary? with
  | some boundary => exact hb boundary h
  | none => exact Boundary.isValid_generateBoundary host

theorem isMultipart_withBoundary (head : Head) (host : Host) :
    (head.withBoundary host).2.1.mediaType.isMultipart = head.mediaType.isMultipart := by
  unfold Head.withBoundary
  cases head.mediaType.boundary? with
  | some boundary => rfl
  | none => rfl

theorem settled_settleHead {head : Head} {body : Body Entity} (hm : head.mediaType.WellFormed)
    (h : BodySafe head.mediaType body) (host : Host) :
    Settled (settleHead head body host).1 (settleHead head body host).2.1.mediaType body := by
  cases body with
  | partList parts =>
      obtain ⟨hne, hmulti, hb, hparts⟩ := h
      have hsome := boundary?_withBoundary hm.parameters.isLower host
      have hvalid := isValid_withBoundary hb host
      have hof := boundaryOf_of_eq_some hsome
      rw [settleHead_list rfl hmulti]
      refine ⟨?_, fun _ => ⟨?_, ?_, ?_⟩⟩
      · refine ⟨hne, (isMultipart_withBoundary head host).trans hmulti, ?_, hparts⟩
        intro b hmem
        rw [hsome, Option.mem_some_iff] at hmem
        rwa [← hmem]
      · rw [hof, hsome]
      · rwa [hof]
      · rw [hof]
  | empty => exact ⟨h, nofun⟩
  | dataSource data => exact ⟨h, nofun⟩
  | byteSource source => exact h.elim
  | liveStream stream => exact h.elim

theorem roundTrips_settleHead {head : Head} (hm : head.mediaType.RoundTrips) (body : Body Entity)
    (host : Host) : (settleHead head body host).2.1.mediaType.RoundTrips := by
  unfold settleHead
  split
  · exact Head.roundTrips_withBoundary hm host
  · exact hm

theorem wireSafe_settleHead {head : Head} (h : head.WireSafe) (body : Body Entity) (host : Host) :
    (settleHead head body host).2.1.WireSafe := by
  unfold settleHead
  split
  · exact h.withBoundary host
  · exact h

theorem writeParts_cons_eq_ok_iff {boundary : String} {inForm first : Bool} {part : Entity}
    {rest parts : List Entity} {sink : Sink} {host : Host} {o' : Output}
    (hsink : sink.limit = none) :
    writeParts boundary inForm first (part :: rest) ⟨sink, host⟩ = (.ok (), parts, o') ↔
      (first = true → Boundary.isValid boundary.toList = true) ∧ ∃ body o rest',
        writePartBody (settleHead part.head part.body host).1
          ((settleHead part.head part.body host).2.1.mediaType.is MediaType.formData) part.body
          ⟨sink.push (Utf8.encode (openDelimiter boundary first ++
            headerBlock ((settleHead part.head part.body host).2.1.partHeaders inForm))),
            (settleHead part.head part.body host).2.2⟩ = (.ok (), body, o) ∧
        writeParts boundary inForm false rest o = (.ok (), rest', o') ∧
        parts = ⟨(settleHead part.head part.body host).2.1, body⟩ :: rest' := by
  have hhead : (if part.body.kind = .partList ∧ part.head.mediaType.isMultipart = true then
      (some (part.head.withBoundary host).1, (part.head.withBoundary host).2.1,
        (part.head.withBoundary host).2.2)
      else (none, part.head, host)) = settleHead part.head part.body host := rfl
  obtain ⟨head, body⟩ := part
  dsimp only at hhead ⊢
  rw [writeParts, ← checkBoundary_eq_ok_iff]
  dsimp only
  rw [hhead, write_of_limit_eq_none hsink]
  cases (if first then checkBoundary boundary else .ok ()) with
  | error e => simp
  | ok u =>
      dsimp only
      generalize writePartBody _ _ _ _ = written
      obtain ⟨answer, body', o⟩ := written
      cases answer with
      | error e => simp
      | ok u =>
          constructor
          · intro h
            obtain ⟨hanswer, hlist⟩ := Prod.mk.inj h
            obtain ⟨rfl, rfl⟩ := Prod.mk.inj hlist
            exact ⟨rfl, body', o, _, rfl, Prod.ext hanswer rfl, rfl⟩
          · rintro ⟨-, body'', o'', rest', hbody, hrest, rfl⟩
            cases hbody
            dsimp only
            rw [hrest]

theorem writeParts_cons {boundary : String} {inForm first : Bool} {part : Entity}
    {body : Body Entity} {rest rest' : List Entity} {sink : Sink} {host : Host} {o o' : Output}
    (hb : Boundary.isValid boundary.toList = true) (hsink : sink.limit = none)
    (hbody : writePartBody (settleHead part.head part.body host).1
        ((settleHead part.head part.body host).2.1.mediaType.is MediaType.formData) part.body
        ⟨sink.push (Utf8.encode (openDelimiter boundary first ++
          headerBlock ((settleHead part.head part.body host).2.1.partHeaders inForm))),
          (settleHead part.head part.body host).2.2⟩ = (.ok (), body, o))
    (hrest : writeParts boundary inForm false rest o = (.ok (), rest', o')) :
    writeParts boundary inForm first (part :: rest) ⟨sink, host⟩ =
      (.ok (), ⟨(settleHead part.head part.body host).2.1, body⟩ :: rest', o') :=
  (writeParts_cons_eq_ok_iff hsink).mpr ⟨fun _ => hb, body, o, rest', hbody, hrest, rfl⟩

/-- The bytes of parts, with or without parts in front of them. -/
def listBytes (boundary : String) (first : Bool) (parts : List (Headers × Bytes)) : Bytes :=
  if first then messageBytes boundary parts else tailBytes boundary parts

theorem listBytes_cons (boundary : String) (first : Bool) (headers : Headers) (bytes : Bytes)
    (rest : List (Headers × Bytes)) :
    Utf8.encode (openDelimiter boundary first ++ headerBlock headers) ++ bytes ++
        listBytes boundary false rest =
      listBytes boundary first ((headers, bytes) :: rest) := by
  rw [Utf8.encode_append, Writer.encode_openDelimiter]
  cases first <;> simp [listBytes, messageBytes, tailBytes, partBytes]

theorem writeParts_nil {boundary : String} (inForm : Bool) {sink : Sink}
    (hsink : sink.limit = none) (host : Host) :
    writeParts boundary inForm false [] ⟨sink, host⟩ =
      (.ok (), [], ⟨sink.push (listBytes boundary false []), host⟩) := by
  rw [writeParts, if_neg (by simp), write_of_limit_eq_none hsink, Writer.encode_closeDelimiter]
  rfl

mutual

/-- **Writing a body.**  Just its bytes are written, and its part lists have boundaries then. -/
theorem writePartBody_eq {nested : Option String} {m : MediaType} {sink : Sink}
    (hsink : sink.limit = none) (host : Host) :
    ∀ {body : Body Entity}, Settled nested m body →
    writePartBody nested (m.is MediaType.formData) body ⟨sink, host⟩ =
      (.ok (), (settleBody body host).1,
        ⟨sink.push (bodyBytes m (settleBody body host).1), (settleBody body host).2⟩)
  | .empty, _ => by
      rw [writePartBody]
      rfl
  | .dataSource data, _ => by
      rw [writePartBody, write_of_limit_eq_none hsink]
      rfl
  | .partList parts, h => by
      obtain ⟨⟨hne, -, -, hparts⟩, hboundary⟩ := h
      obtain ⟨-, hvalid, rfl⟩ := hboundary rfl
      rw [writePartBody]
      dsimp only
      rw [writeParts_eq hvalid _ true hsink host hparts fun _ => hne]
      rfl
  | .byteSource source, h => h.safe.elim
  | .liveStream stream, h => h.safe.elim

theorem writePartBody_of_partSafe {sink : Sink} (hsink : sink.limit = none) (host : Host)
    (inForm : Bool) : ∀ {part : Entity}, PartSafe part →
    writePartBody (settleHead part.head part.body host).1
        ((settleHead part.head part.body host).2.1.mediaType.is MediaType.formData) part.body
        ⟨sink, (settleHead part.head part.body host).2.2⟩ =
      (.ok (), (settle part host).1.body,
        ⟨sink.push (wirePart inForm (settle part host).1).2, (settle part host).2⟩)
  | ⟨_, _⟩, h => writePartBody_eq hsink _ (settled_settleHead h.1.mediaType.wellFormed h.2 host)

/-- **Writing parts.**  Just their bytes are written, and their part lists have boundaries then. -/
theorem writeParts_eq {boundary : String} (hb : Boundary.isValid boundary.toList = true)
    (inForm first : Bool) {sink : Sink} (hsink : sink.limit = none) (host : Host) :
    ∀ {parts : List Entity}, PartsSafe parts → (first = true → parts ≠ []) →
    writeParts boundary inForm first parts ⟨sink, host⟩ =
      (.ok (), (settleParts parts host).1,
        ⟨sink.push (listBytes boundary first (wireParts inForm (settleParts parts host).1)),
          (settleParts parts host).2⟩)
  | [], _, hne => by
      have hfirst : first = false := Bool.eq_false_iff.mpr fun h => hne h rfl
      rw [hfirst, writeParts_nil inForm hsink]
      rfl
  | part :: rest, h, _ => by
      obtain ⟨hpart, hrest⟩ := h
      have hhere := Sink.limit_push hsink (Utf8.encode (openDelimiter boundary first ++
        headerBlock ((settleHead part.head part.body host).2.1.partHeaders inForm)))
      rw [writeParts_cons hb hsink (writePartBody_of_partSafe hhere host inForm hpart)
        (writeParts_eq hb inForm false (Sink.limit_push hhere _) _ hrest nofun), Sink.push_push,
        Sink.push_push,
        ← List.append_assoc, listBytes_cons]
      cases part
      rfl

end

/-! ### Replacing a part list by its bytes -/

section encodeParts

variable {head : Head} {parts : List Entity}

theorem encodeParts_of_writeParts {host : Host} {parts' : List Entity} {o : Output}
    (hmulti : head.mediaType.isMultipart = true)
    (h : writeParts (head.withBoundary host).1
      ((head.withBoundary host).2.1.mediaType.is MediaType.formData) true parts
      ⟨.unlimited, (head.withBoundary host).2.2⟩ = (.ok (), parts', o)) :
    (encodeParts ⟨head, .partList parts⟩ host).answer = .ok () ∧
      (encodeParts ⟨head, .partList parts⟩ host).entity =
        ⟨(head.withBoundary host).2.1, .byteSource (.ofBytes o.sink.data)⟩ := by
  rw [encodeParts, mediaType, hmulti, ensureBoundary]
  dsimp only
  rw [serialize]
  dsimp only
  rw [mediaType, h]
  exact ⟨rfl, rfl⟩

theorem writeParts_of_encodeParts {host : Host}
    (h : (encodeParts ⟨head, .partList parts⟩ host).answer = .ok ()) :
    head.mediaType.isMultipart = true ∧ ∃ parts' o, writeParts (head.withBoundary host).1
      ((head.withBoundary host).2.1.mediaType.is MediaType.formData) true parts
      ⟨.unlimited, (head.withBoundary host).2.2⟩ = (.ok (), parts', o) := by
  unfold encodeParts at h
  split at h
  · cases h
  · rename_i hmulti
    refine ⟨by simpa [mediaType] using hmulti, ?_⟩
    unfold ensureBoundary serialize at h
    dsimp only at h
    cases hwrite : writeParts (head.withBoundary host).1
        ((head.withBoundary host).2.1.mediaType.is MediaType.formData) true parts
        ⟨.unlimited, (head.withBoundary host).2.2⟩ with
    | mk answer rest =>
      rw [mediaType, hwrite] at h
      cases answer with
      | error e => cases h
      | ok u => exact ⟨rest.1, rest.2, rfl⟩

theorem encodeParts_eq (hm : head.mediaType.WellFormed)
    (h : BodySafe head.mediaType (.partList parts)) (host : Host) :
    (encodeParts ⟨head, .partList parts⟩ host).answer = .ok () ∧
      (encodeParts ⟨head, .partList parts⟩ host).entity =
        ⟨(settle ⟨head, .partList parts⟩ host).1.head,
          .byteSource (.ofBytes (bodyBytes (settle ⟨head, .partList parts⟩ host).1.mediaType
            (settle ⟨head, .partList parts⟩ host).1.body))⟩ := by
  obtain ⟨hne, hmulti, hb, hparts⟩ := h
  have hsome := boundary?_withBoundary hm.parameters.isLower host
  have hvalid := isValid_withBoundary hb host
  have hsettle : (settle ⟨head, .partList parts⟩ host).1 = ⟨(head.withBoundary host).2.1,
      .partList (settleParts parts (head.withBoundary host).2.2).1⟩ := by
    rw [settle, settleHead_list rfl hmulti]
    rfl
  have hwrite := writeParts_eq hvalid
    ((head.withBoundary host).2.1.mediaType.is MediaType.formData) true
    (show Sink.unlimited.limit = none from rfl) (head.withBoundary host).2.2 hparts fun _ => hne
  rw [(encodeParts_of_writeParts hmulti hwrite).1, (encodeParts_of_writeParts hmulti hwrite).2,
    hsettle, Sink.data_push, bodyBytes, mediaType, boundaryOf_of_eq_some hsome]
  exact ⟨rfl, rfl⟩

end encodeParts

end Mime.Entity
