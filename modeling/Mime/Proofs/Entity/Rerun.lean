import Mime.Proofs.Entity.Detach
import Mime.Proofs.Entity.FailingSink

/-! # Writing a tree again

A tree without sources and streams can be written more than once.  If all lists in it are of
multipart types, they have their boundaries after the first time (`settleHead_settleHead`), and so
the same bytes are written every other time (`repeats_writeParts`).  With what writing leaves of any
tree, that is what becomes of an entity that is serialized (`left_of_serialize`). -/

namespace Mime.Entity

open Multipart

/-! ### Lists of multipart types -/

mutual

/-- Whether all part lists in a body under a media type are of multipart types, with parameters that
were set. -/
def BodyMultipart (m : MediaType) (body : Body Entity) : Prop :=
  match body with
  | .partList parts => m.isMultipart = true ∧ m.parameters.IsLower ∧ PartsMultipart parts
  | .empty | .dataSource _ | .byteSource _ | .liveStream _ => True

/-- Whether all part lists in parts are of multipart types, with parameters that were set. -/
def PartsMultipart (parts : List Entity) : Prop :=
  match parts with
  | [] => True
  | ⟨head, body⟩ :: rest => BodyMultipart head.mediaType body ∧ PartsMultipart rest

end

theorem withBoundary_withBoundary {head : Head} (hlower : head.mediaType.parameters.IsLower)
    (host host' : Host) : (head.withBoundary host).2.1.withBoundary host' =
      ((head.withBoundary host).1, (head.withBoundary host).2.1, host') := by
  have hfound := boundary?_withBoundary hlower host
  generalize head.withBoundary host = settled at hfound ⊢
  rw [Head.withBoundary, hfound]

theorem BodyMultipart.of_list {m : MediaType} {body : Body Entity} (hmulti : BodyMultipart m body)
    (hlist : body.kind = .partList) : m.isMultipart = true ∧ m.parameters.IsLower := by
  cases body with
  | partList parts =>
      rw [BodyMultipart] at hmulti
      exact ⟨hmulti.1, hmulti.2.1⟩
  | _ => cases hlist

/-- The head that a part was written with stays the same. -/
theorem settleHead_settleHead {head : Head} {body body' : Body Entity}
    (hmulti : BodyMultipart head.mediaType body) (hkind : body'.kind = body.kind)
    (host host' : Host) : settleHead (settleHead head body host).2.1 body' host' =
      ((settleHead head body host).1, (settleHead head body host).2.1, host') := by
  by_cases hlist : body.kind = .partList
  · obtain ⟨hmultipart, hlower⟩ := hmulti.of_list hlist
    have hmultipart' := (isMultipart_withBoundary head host).trans hmultipart
    rw [settleHead_list hlist hmultipart, settleHead_list (hkind.trans hlist) hmultipart',
      withBoundary_withBoundary hlower]
  · rw [settleHead_leaf hlist, settleHead_leaf (by rwa [hkind])]

/-- A list of a multipart type is written with the boundary of its head. -/
theorem isSome_settleHead {head : Head} {body : Body Entity}
    (hmulti : BodyMultipart head.mediaType body) (hlist : body.kind = .partList) (host : Host) :
    (settleHead head body host).1.isSome = true := by
  rw [settleHead_list hlist (hmulti.of_list hlist).1]
  rfl

/-! ### Steps that can be taken again -/

section steps

variable {α β : Type}

theorem andThen_of_ok {step : Written α} {stopped : α → β} {next : α → Output → Written β}
    (h : (andThen step stopped next).1 = .ok ()) :
    step.1 = .ok () ∧ andThen step stopped next = next step.2.1 step.2.2 := by
  obtain ⟨answer, a, o⟩ := step
  cases answer with
  | error e => cases h
  | ok u => exact ⟨rfl, rfl⟩

/-- A step that, if it succeeds, can be taken again on what it leaves, with any sink that has no
limit: then it writes the same bytes and leaves the same. -/
def Repeats (o : Output) (written : Written α) (again : α → Output → Written α) : Prop :=
  written.1 = .ok () → ∃ bytes, written.2.2.sink.data = o.sink.data ++ bytes ∧
    ∀ (sink : Sink) (host : Host), sink.limit = none → ∃ host',
      again written.2.1 ⟨sink, host⟩ = (.ok (), written.2.1, ⟨sink.push bytes, host'⟩)

theorem Repeats.skip {o : Output} {a : α} {again : α → Output → Written α}
    (hagain : ∀ o', again a o' = (.ok (), a, o')) : Repeats o (again a o) again := by
  intro _
  rw [hagain]
  exact ⟨[], (List.append_nil _).symm, fun sink host _ => ⟨host, hagain _⟩⟩

theorem writeBytes_of_limit_eq_none {sink : Sink} (hsink : sink.limit = none) (host : Host)
    (bytes : Bytes) : writeBytes ⟨sink, host⟩ bytes = (.ok (), (), ⟨sink.push bytes, host⟩) := by
  rw [writeBytes, Output.write, Sink.write_of_limit_eq_none hsink]
  rfl

theorem data_of_writeBytes {o : Output} {bytes : Bytes} (h : (writeBytes o bytes).1 = .ok ()) :
    (writeBytes o bytes).2.2.sink.data = o.sink.data ++ bytes := by
  unfold writeBytes Output.write at h ⊢
  cases hwrite : o.sink.write bytes with
  | mk answer sink =>
    rw [hwrite] at h
    cases answer with
    | error e => cases h
    | ok u => exact Sink.data_of_write_eq_ok hwrite

theorem repeats_writeBytes (o : Output) (bytes : Bytes) :
    Repeats o (writeBytes o bytes) fun _ o' => writeBytes o' bytes := by
  intro hok
  exact ⟨bytes, data_of_writeBytes hok, fun sink host hsink =>
    ⟨host, writeBytes_of_limit_eq_none hsink host bytes⟩⟩

theorem Repeats.leaving {o : Output} {written : Written α} {again : α → Output → Written α}
    {f : α → β} {again' : β → Output → Written β} (h : Repeats o written again)
    (hagain : ∀ a o', again' (f a) o' = leaving f (again a o')) :
    Repeats o (leaving f written) again' := by
  intro hok
  obtain ⟨bytes, hdata, hrepeat⟩ := h hok
  refine ⟨bytes, hdata, fun sink host hsink => ?_⟩
  obtain ⟨host', hwrite⟩ := hrepeat sink host hsink
  refine ⟨host', ?_⟩
  show again' (f written.2.1) ⟨sink, host⟩ = _
  rw [hagain, hwrite]
  rfl

end steps

/-! ### Trees without open leaves -/

theorem kind_writePartBody {body : Body Entity} (hleaves : openLeaves body = [])
    (nested : Option String) (inForm : Bool) (o : Output) :
    (writePartBody nested inForm body o).2.1.kind = body.kind := by
  cases body with
  | empty => rw [writePartBody]
  | dataSource data => rw [writePartBody]
  | byteSource source => rw [openLeaves] at hleaves; cases hleaves
  | liveStream stream => rw [openLeaves] at hleaves; cases hleaves
  | partList parts =>
      cases nested with
      | some boundary => rw [writePartBody]; rfl
      | none => rw [writePartBody]; rfl

theorem repeats_cons {boundary : String} {inForm first : Bool} {head : Head} {body : Body Entity}
    {rest : List Entity} {o : Output} (hmulti : BodyMultipart head.mediaType body)
    (hkind : ∀ nested inForm o, (writePartBody nested inForm body o).2.1.kind = body.kind)
    (hbody : ∀ nested inForm o, (body.kind = .partList → nested.isSome = true) →
      Repeats o (writePartBody nested inForm body o) (writePartBody nested inForm))
    (hrest : ∀ o, Repeats o (writeParts boundary inForm false rest o)
      (writeParts boundary inForm false)) :
    Repeats o (writeParts boundary inForm first (⟨head, body⟩ :: rest) o)
      (writeParts boundary inForm first) := by
  intro hok
  by_cases hb : first = true → Boundary.isValid boundary.toList = true
  · have hsettle := fun (body' : Body Entity) (hk : body'.kind = body.kind) =>
      settleHead_settleHead hmulti hk o.host
    have hnested := fun hlist => isSome_settleHead hmulti hlist o.host
    rw [writeParts_cons_eq hb] at hok ⊢
    generalize settleHead head body o.host = settled at *
    obtain ⟨nested, head', host⟩ := settled
    dsimp only at *
    obtain ⟨hfront, hstep⟩ := andThen_of_ok hok
    have hfrontData := data_of_writeBytes hfront
    rw [hstep] at hok ⊢
    obtain ⟨hwritten, hstep⟩ := andThen_of_ok hok
    rw [hstep] at hok ⊢
    obtain ⟨bodyBytes, hbodyData, hbodyAgain⟩ := hbody nested _ _ hnested hwritten
    obtain ⟨restBytes, hrestData, hrestAgain⟩ := hrest _ hok
    refine ⟨frontBytes boundary inForm first head' ++ (bodyBytes ++ restBytes), ?_, ?_⟩
    · rw [leaving, hrestData, hbodyData, hfrontData, List.append_assoc, List.append_assoc]
    -- the lines, the body and the other parts are the same again, each behind the one before
    · intro sink host' hsink
      obtain ⟨host₂, hbody₂⟩ := hbodyAgain
        (sink.push (frontBytes boundary inForm first head')) host' hsink
      obtain ⟨host₃, hrest₃⟩ := hrestAgain
        ((sink.push (frontBytes boundary inForm first head')).push bodyBytes) host₂ hsink
      refine ⟨host₃, ?_⟩
      rw [leaving, writeParts_cons_eq hb, hsettle _ (hkind _ _ _)]
      dsimp only
      rw [writeBytes_of_limit_eq_none hsink, andThen_ok, hbody₂, andThen_ok, hrest₃,
        Sink.push_push, Sink.push_push]
      rfl
  · obtain ⟨rfl, hinvalid⟩ := Classical.not_imp.mp hb
    rw [writeParts_of_not_isValid (Bool.eq_false_iff.mpr hinvalid)] at hok
    cases hok

mutual

/-- **The body of a part without open leaves** is written again as it was written. -/
theorem repeats_writePartBody {m : MediaType} {nested : Option String} (inForm : Bool)
    (o : Output) : ∀ {body : Body Entity}, openLeaves body = [] → BodyMultipart m body →
    (body.kind = .partList → nested.isSome = true) →
    Repeats o (writePartBody nested inForm body o) (writePartBody nested inForm)
  | .empty, _, _, _ => .skip fun o' => by rw [writePartBody]
  | .dataSource data, _, _, _ => by
      have hagain : ∀ o', writePartBody nested inForm (.dataSource data) o' =
          leaving (fun _ => Body.dataSource data) (writeBytes o' data.toBytes) := by
        intro o'
        rw [writePartBody]
        rfl
      rw [hagain]
      exact (repeats_writeBytes o data.toBytes).leaving fun _ => hagain
  | .byteSource source, hleaves, _, _ => by
      rw [openLeaves] at hleaves
      cases hleaves
  | .liveStream stream, hleaves, _, _ => by
      rw [openLeaves] at hleaves
      cases hleaves
  | .partList parts, hleaves, hmulti, hnested => by
      obtain ⟨boundary, rfl⟩ := Option.isSome_iff_exists.mp (hnested rfl)
      have hagain : ∀ parts o', writePartBody (some boundary) inForm (.partList parts) o' =
          leaving Body.partList (writeParts boundary inForm true parts o') := by
        intro parts o'
        rw [writePartBody]
        rfl
      rw [openLeaves] at hleaves
      rw [BodyMultipart] at hmulti
      rw [hagain]
      exact (repeats_writeParts boundary inForm true o hleaves hmulti.2.2).leaving hagain
termination_by body => sizeOf body

/-- **Parts without open leaves** are written again as they were written. -/
theorem repeats_writeParts (boundary : String) (inForm first : Bool) (o : Output) :
    ∀ {parts : List Entity}, openPartsLeaves parts = [] → PartsMultipart parts →
    Repeats o (writeParts boundary inForm first parts o) (writeParts boundary inForm first)
  | [], _, _ => by
      cases first with
      | true => exact .skip fun o' => by rw [writeParts, if_pos rfl]
      | false =>
          have hagain : ∀ o', writeParts boundary inForm false [] o' = leaving (fun _ => [])
              (writeBytes o' (Utf8.encode (closeDelimiter boundary))) := by
            intro o'
            rw [writeParts]
            rfl
          rw [hagain]
          exact (repeats_writeBytes o _).leaving fun _ => hagain
  | ⟨head, body⟩ :: rest, hleaves, hmulti => by
      rw [openPartsLeaves, List.append_eq_nil_iff] at hleaves
      rw [PartsMultipart] at hmulti
      exact repeats_cons hmulti.1 (kind_writePartBody hleaves.1)
        (fun _ inForm o => repeats_writePartBody inForm o hleaves.1 hmulti.1)
        fun o => repeats_writeParts boundary inForm false o hleaves.2 hmulti.2
termination_by parts => sizeOf parts

end

/-! ### Serializing -/

/-- What writes the same bytes to every sink without a limit writes to any sink what this accepts of
them, and succeeds just if that is all. -/
theorem data_serialize_of_unlimited {e : Entity} {boundary : String} {bytes : Bytes}
    (h : ∀ (sink : Sink) (host : Host), sink.limit = none → ∃ host',
      e.serialize boundary ⟨sink, host⟩ = (.ok (), e, ⟨sink.push bytes, host'⟩)) (o : Output) :
    (e.serialize boundary o).2.2.sink.data = (o.sink.write bytes).2.data ∧
      ((e.serialize boundary o).1 = .ok () ↔ (o.sink.write bytes).1 = .ok ()) := by
  obtain ⟨sink, host⟩ := o
  cases hlimit : sink.limit with
  | none =>
      obtain ⟨host', hwrite⟩ := h sink host hlimit
      rw [hwrite, Sink.write_of_limit_eq_none hlimit]
      exact ⟨rfl, iff_of_true rfl rfl⟩
  | some limit =>
      obtain ⟨room, failure⟩ := limit
      obtain ⟨full, hfull, rfl⟩ : ∃ full : Sink, full.limit = none ∧
          full.limitedTo room failure = sink :=
        ⟨{ sink with limit := none }, rfl, by rw [Sink.limitedTo, ← hlimit]⟩
      obtain ⟨host', hwrite⟩ := h full host hfull
      have hshort : CutShort full room failure _ _ := cutShort_serialize hfull boundary host e
      obtain ⟨bytes', hdata, hcut, hfits, hexceeds⟩ := hshort
      rw [hwrite] at hdata hfits
      obtain rfl : bytes = bytes' := by simpa using hdata
      rcases Nat.lt_or_ge room bytes.length with hlt | hle
      · obtain ⟨err, herr, -⟩ := hexceeds hlt
        rw [hcut, herr, Sink.write_limitedTo_of_lt hlt]
        exact ⟨(Sink.data_push full _).symm, iff_of_false nofun nofun⟩
      · rw [hfits hle, Sink.write_limitedTo_of_le hle]
        exact ⟨rfl, iff_of_true rfl rfl⟩

/-- **What serializing leaves of an entity** is the entity with a list of as many parts, in which
heads and bodies are kept.  The first open leaves are detached and the others are as they were; if
it succeeded, all are detached.  If there were none and all lists are of multipart types, then the
same bytes are written another time, as many as the sink accepts. -/
theorem left_of_serialize {e : Entity} {parts : List Entity} (hlist : e.body = .partList parts)
    (boundary : String) (o : Output) :
    ∃ k ≤ (openPartsLeaves parts).length, ∃ parts',
      (e.serialize boundary o).2.1 = e.withBody (.partList parts') ∧
      PartsKept (detachParts k parts) parts' ∧
      openPartsLeaves parts' = (openPartsLeaves parts).drop k ∧
      ((e.serialize boundary o).1 = .ok () → openPartsLeaves parts' = [] ∧
        (openPartsLeaves parts = [] → PartsMultipart parts → ∃ bytes,
          (e.serialize boundary o).2.2.sink.data = o.sink.data ++ bytes ∧
          ∀ o', let again := (e.serialize boundary o).2.1.serialize boundary o'
            again.2.2.sink.data = (o'.sink.write bytes).2.data ∧
            (again.1 = .ok () ↔ (o'.sink.write bytes).1 = .ok ()))) := by
  have hserialize : ∀ parts o, (e.withBody (.partList parts)).serialize boundary o =
      leaving (fun parts => e.withBody (.partList parts))
        (writeParts boundary (e.mediaType.is MediaType.formData) true parts o) := fun _ _ => rfl
  have heq : e.withBody (.partList parts) = e := by
    rw [← hlist]
    cases e
    rfl
  obtain ⟨k, hk, hkept, hall⟩ := detaches_writeParts boundary
    (e.mediaType.is MediaType.formData) true o parts
  have hleaves := hkept.openPartsLeaves_eq.trans (openPartsLeaves_detachParts parts hk)
  have hwritten := hserialize parts o
  rw [heq] at hwritten
  rw [hwritten]
  refine ⟨k, hk, _, rfl, hkept, hleaves, fun hok => ⟨?_, fun hnone hmulti => ?_⟩⟩
  · rw [hleaves, hall hok, List.drop_length]
  · obtain ⟨bytes, hdata, hagain⟩ := repeats_writeParts boundary
      (e.mediaType.is MediaType.formData) true o hnone hmulti hok
    refine ⟨bytes, hdata, data_serialize_of_unlimited fun sink host hsink => ?_⟩
    obtain ⟨host', hwrite⟩ := hagain sink host hsink
    refine ⟨host', ?_⟩
    rw [leaving, hserialize, hwrite]
    rfl

/-- A list of parts without a boundary. -/
def draft (leaves : List (Body Entity)) : Entity where
  head := { mediaType := ⟨"multipart", "mixed", "", ⟨[]⟩⟩ }
  body := .partList (leaves.map fun leaf => { body := leaf })

/-- In a list in a list the second of three readers fails, so the third one is open; and a list with
a value in it is written twice. -/
theorem left_of_serialize_draft :
    let reader (arrival : Arrival) : Body Entity := .byteSource (.ofReader [arrival])
    let readers := [reader (.ok [97]), reader (.error ⟨.brokenPipe, "gone"⟩), reader (.ok [98])]
    let cut := draft [] |>.withBody (.partList [draft readers])
    let full := draft [] |>.withBody (.partList [draft [.dataSource ⟨.binary [97], false⟩]])
    let first := full.serialize "out" ⟨.unlimited, zeroHost⟩
    openLeaves (cut.serialize "out" ⟨.unlimited, zeroHost⟩).2.1.body = [reader (.ok [98])] ∧
      (first.2.1.serialize "out" ⟨.unlimited, zeroHost⟩).2.2.sink.data = first.2.2.sink.data := by
  intro reader readers cut full first
  constructor
  · obtain ⟨k, hk, parts', hleft, -, hopen, -⟩ :=
      left_of_serialize (e := cut) rfl "out" ⟨.unlimited, zeroHost⟩
    have hlength :
        (openLeaves (cut.serialize "out" ⟨.unlimited, zeroHost⟩).2.1.body).length = 1 := by
      decide +kernel
    have hreaders : openPartsLeaves [draft readers] = readers := by
      simp only [draft, readers, reader, List.map, openPartsLeaves, openLeaves, List.append_nil,
        List.cons_append, List.nil_append]
    rw [hreaders] at hk hopen
    rw [hleft] at hlength ⊢
    have hbody : openLeaves (cut.withBody (.partList parts')).body = openPartsLeaves parts' := by
      rw [withBody, openLeaves]
    rw [hbody, hopen] at hlength ⊢
    obtain rfl : k = 2 := by
      rw [List.length_drop, show readers.length = 3 from rfl] at hlength
      omega
    rfl
  · have hnone : openPartsLeaves [draft [.dataSource ⟨.binary [97], false⟩]] = [] := by
      simp only [draft, List.map, openPartsLeaves, openLeaves, List.append_nil]
    have hmulti : PartsMultipart [draft [.dataSource ⟨.binary [97], false⟩]] := by
      simp only [draft, List.map, PartsMultipart, BodyMultipart, and_true]
      exact ⟨by decide +kernel, Parameters.isLower_ofList []⟩
    obtain ⟨_, _, _, _, _, _, hall⟩ :=
      left_of_serialize (e := full) rfl "out" ⟨.unlimited, zeroHost⟩
    have hok : first.1 = .ok () := by
      have htrue : first.1.toBool = true := by decide +kernel
      cases hfirst : first.1 with
      | error e => rw [hfirst] at htrue; cases htrue
      | ok u => rfl
    obtain ⟨bytes, hdata, hagain⟩ := (hall hok).2 hnone hmulti
    rw [hdata, (hagain ⟨.unlimited, zeroHost⟩).1]
    exact Sink.data_push _ bytes

end Mime.Entity
