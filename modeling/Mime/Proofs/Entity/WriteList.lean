import Mathlib.Data.List.Forall2
import Mime.Proofs.Entity.Wire

/-! # Writing the parts of one list

A part `Writes` its header lines and the bytes of its body, if no boundary has to be made for it.
That is so of a part that holds a source, as far as the source can be read
(`Holds.writes`).  A list of such parts is written as a message, which takes the place of
the list (`encodeParts_of_writes`). -/

namespace Mime.Entity

open Multipart

/-! ### Copying what arrives -/

theorem joinArrivals_ok (bytes : Bytes) (rest : List Arrival) :
    ByteSource.joinArrivals (.ok bytes :: rest) =
      (ByteSource.joinArrivals rest).map (bytes ++ ·) := by
  unfold ByteSource.joinArrivals
  rw [List.mapM_cons]
  cases rest.mapM id <;> rfl

/-- What arrives is copied to a sink without a limit just when there is no failure in it. -/
theorem copy_eq_ok_iff {host : Host} {arrivals : List Arrival} {sink : Sink} {o : Output}
    (hsink : sink.limit = none) : (⟨sink, host⟩ : Output).copy arrivals = (.ok (), o) ↔
      ∃ bytes, ByteSource.joinArrivals arrivals = .ok bytes ∧ o = ⟨sink.push bytes, host⟩ := by
  induction arrivals generalizing sink with
  | nil =>
      have hjoin : ByteSource.joinArrivals [] = .ok [] := rfl
      constructor
      · intro h
        cases h
        exact ⟨[], hjoin, rfl⟩
      · rintro ⟨bytes, hbytes, rfl⟩
        cases hjoin.symm.trans hbytes
        rfl
  | cons arrival rest ih =>
      cases arrival with
      | error e =>
          constructor
          · intro h
            cases h
          · rintro ⟨bytes, hbytes, -⟩
            cases hbytes
      | ok piece =>
          have hcopy : (⟨sink, host⟩ : Output).copy (.ok piece :: rest) =
              (⟨sink.push piece, host⟩ : Output).copy rest := by
            rw [Output.copy, Sink.copy, Sink.write_of_limit_eq_none hsink]
            rfl
          simp only [hcopy, ih (Sink.limit_push hsink piece), joinArrivals_ok, map_eq_ok_iff,
            Sink.push_push]
          constructor
          · rintro ⟨bytes, hbytes, rfl⟩
            exact ⟨piece ++ bytes, ⟨bytes, hbytes, rfl⟩, rfl⟩
          · rintro ⟨_, ⟨bytes, hbytes, rfl⟩, rfl⟩
            exact ⟨bytes, hbytes, rfl⟩

/-! ### Parts that need no boundary -/

/-- A body that is written as just these bytes, whatever was written before it. -/
def WritesBody (nested : Option String) (m : MediaType) (body : Body Entity) (bytes : Bytes) :
    Prop :=
  ∀ {sink : Sink} (host : Host), sink.limit = none → ∃ body' host',
    writePartBody nested (m.is MediaType.formData) body ⟨sink, host⟩ =
      (.ok (), body', ⟨sink.push bytes, host'⟩)

/-- A part that is written as these header lines and these bytes, without a boundary being made. -/
def Writes (inForm : Bool) (d : Entity) (part : Headers × Bytes) : Prop :=
  d.head.partHeaders inForm = part.1 ∧
    ∃ nested, (∀ host, settleHead d.head d.body host = (nested, d.head, host)) ∧
      WritesBody nested d.head.mediaType d.body part.2

/-- An entity holds bytes that can be read. -/
def Holds (d : Entity) (bytes : Bytes) : Prop :=
  ∃ source, d.body = .byteSource source ∧ source.readAll = .ok bytes

theorem Holds.writes {d : Entity} {bytes : Bytes} (h : d.Holds bytes) (inForm : Bool) :
    Writes inForm d (d.head.partHeaders inForm, bytes) := by
  obtain ⟨head, body⟩ := d
  obtain ⟨source, rfl, hread⟩ := h
  refine ⟨rfl, none, fun host => ?_, ?_⟩
  · rw [settleHead, if_neg]
    rintro ⟨hkind, -⟩
    cases hkind
  · intro sink host hsink
    have hcopy : (⟨sink, host⟩ : Output).copy source.arrivals =
        (.ok (), ⟨sink.push bytes, host⟩) := (copy_eq_ok_iff hsink).mpr ⟨bytes, hread, rfl⟩
    rw [writePartBody_byteSource]
    dsimp only
    rw [hcopy]
    exact ⟨_, _, rfl⟩

theorem writeParts_of_writes {boundary : String} (hb : Boundary.isValid boundary.toList = true)
    {inForm : Bool} {ds : List Entity} {parts : List (Headers × Bytes)}
    (h : List.Forall₂ (Writes inForm) ds parts) {first : Bool} (hne : first = true → ds ≠ [])
    {sink : Sink} (hsink : sink.limit = none) (host : Host) :
    ∃ ds' host', writeParts boundary inForm first ds ⟨sink, host⟩ =
      (.ok (), ds', ⟨sink.push (listBytes boundary first parts), host'⟩) := by
  induction h generalizing first sink host with
  | nil =>
      have hfirst : first = false := Bool.eq_false_iff.mpr fun h => hne h rfl
      exact ⟨[], host, by rw [hfirst, writeParts_nil inForm hsink]⟩
  | @cons d part ds parts hd _ ih =>
      obtain ⟨hheaders, nested, hsettle, hbody⟩ := hd
      have hhere := Sink.limit_push hsink (Utf8.encode (openDelimiter boundary first ++
        headerBlock (d.head.partHeaders inForm)))
      obtain ⟨body, host', hwrite⟩ := hbody host hhere
      have hlater : false = true → ds ≠ [] := by simp
      obtain ⟨ds', host'', hrest⟩ := ih hlater (Sink.limit_push hhere part.2) host'
      refine ⟨⟨d.head, body⟩ :: ds', host'', ?_⟩
      refine (writeParts_cons hb hsink (by rw [hsettle]; exact hwrite) hrest).trans ?_
      rw [hsettle, Sink.push_push, Sink.push_push, ← List.append_assoc, listBytes_cons, hheaders]

theorem writes_of_partList {head : Head} {boundary : String} {ds : List Entity}
    {parts : List (Headers × Bytes)} (hmulti : head.mediaType.isMultipart = true)
    (hb : head.mediaType.boundary? = some boundary)
    (hvalid : Boundary.isValid boundary.toList = true) (hne : ds ≠ [])
    (h : List.Forall₂ (Writes (head.mediaType.is MediaType.formData)) ds parts) (inForm : Bool) :
    Writes inForm ⟨head, .partList ds⟩
      (head.partHeaders inForm, messageBytes boundary parts) := by
  refine ⟨rfl, some boundary, fun host => ?_, fun host hsink => ?_⟩
  · rw [settleHead_list rfl hmulti, Head.withBoundary, hb]
  · obtain ⟨ds', host', hwrite⟩ := writeParts_of_writes hvalid h (fun _ => hne) hsink host
    rw [writePartBody]
    dsimp only
    rw [hwrite]
    exact ⟨_, _, rfl⟩

/-- **A list of parts is replaced by the message** that they are written as. -/
theorem encodeParts_of_writes {head : Head} {boundary : String} {ds : List Entity}
    {parts : List (Headers × Bytes)} (hmulti : head.mediaType.isMultipart = true)
    (hb : head.mediaType.boundary? = some boundary)
    (hvalid : Boundary.isValid boundary.toList = true) (hne : ds ≠ [])
    (h : List.Forall₂ (Writes (head.mediaType.is MediaType.formData)) ds parts) (host : Host) :
    (encodeParts ⟨head, .partList ds⟩ host).answer = .ok () ∧
      (encodeParts ⟨head, .partList ds⟩ host).entity =
        ⟨head, .byteSource (.ofBytes (messageBytes boundary parts))⟩ := by
  have hboundary : head.withBoundary host = (boundary, head, host) := by rw [Head.withBoundary, hb]
  obtain ⟨ds', host', hwrite⟩ := writeParts_of_writes hvalid h (fun _ => hne)
    (show Sink.unlimited.limit = none from rfl) host
  have hlist : writeParts (head.withBoundary host).1
      ((head.withBoundary host).2.1.mediaType.is MediaType.formData) true ds
      ⟨.unlimited, (head.withBoundary host).2.2⟩ =
        (.ok (), ds', ⟨Sink.unlimited.push (listBytes boundary true parts), host'⟩) := by
    rw [hboundary]
    exact hwrite
  have hencode := encodeParts_of_writeParts hmulti hlist
  rw [hboundary, Sink.data_push] at hencode
  exact hencode

end Mime.Entity
