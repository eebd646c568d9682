import Mime.Proofs.Entity.WriteList

/-! # Sources as values

A tree of parts may hold sources and streams, which are used up when it is written.  In
`materialize` they are replaced by the bytes that they deliver.  If a tree is written, so is this
one, as the same bytes (`encodeParts_materialize`). -/

namespace Mime

theorem Host.generateBoundary_congr {host host' : Host} (h : host.entropy = host'.entropy) :
    host.generateBoundary.1 = host'.generateBoundary.1 ∧
      host.generateBoundary.2.entropy = host'.generateBoundary.2.entropy := by
  rw [generateBoundary, generateBoundary, h]
  exact ⟨rfl, rfl⟩

namespace Entity

open Multipart

/-- The bytes that arrive, as a value. -/
def valueOf (arrivals : List Arrival) : Body Entity :=
  match ByteSource.joinArrivals arrivals with
  | .ok bytes => .dataSource ⟨.binary bytes, false⟩
  | .error _ => .empty

mutual

/-- A body in which sources and streams are the values of the bytes they deliver. -/
def materializeBody (body : Body Entity) : Body Entity :=
  match body with
  | .empty => .empty
  | .dataSource data => .dataSource data
  | .partList parts => .partList (materializeParts parts)
  | .byteSource source => valueOf source.arrivals
  | .liveStream stream => valueOf stream.arrivals

/-- A part in which sources and streams are the values of the bytes they deliver. -/
def materialize (part : Entity) : Entity :=
  match part with
  | ⟨head, body⟩ => ⟨head, materializeBody body⟩

/-- Parts in which sources and streams are the values of the bytes they deliver. -/
def materializeParts (parts : List Entity) : List Entity :=
  match parts with
  | [] => []
  | part :: rest => materialize part :: materializeParts rest

end

theorem materializeParts_eq_map : ∀ parts : List Entity,
    materializeParts parts = parts.map materialize
  | [] => rfl
  | part :: rest => by rw [materializeParts, materializeParts_eq_map rest, List.map_cons]

theorem kind_valueOf_ne (arrivals : List Arrival) : (valueOf arrivals).kind ≠ .partList := by
  unfold valueOf
  split <;> nofun

theorem kind_materializeBody (body : Body Entity) :
    (materializeBody body).kind = .partList ↔ body.kind = .partList := by
  cases body with
  | empty => rfl
  | dataSource data => rfl
  | partList parts => exact iff_of_true rfl rfl
  | byteSource source => exact iff_of_false (kind_valueOf_ne _) nofun
  | liveStream stream => exact iff_of_false (kind_valueOf_ne _) nofun

/-! ### Writing the same bytes -/

/-- Outputs to the same sink, which has no limit, that draw on the same random bytes. -/
structure Alike (o o' : Output) : Prop where
  sink : o.sink = o'.sink
  entropy : o.host.entropy = o'.host.entropy
  limit : o.sink.limit = none

theorem settleHead_materialize (part : Entity) {host host' : Host}
    (h : host.entropy = host'.entropy) :
    (settleHead part.head part.body host).1 =
        (settleHead part.materialize.head part.materialize.body host').1 ∧
      (settleHead part.head part.body host).2.1 =
        (settleHead part.materialize.head part.materialize.body host').2.1 ∧
      (settleHead part.head part.body host).2.2.entropy =
        (settleHead part.materialize.head part.materialize.body host').2.2.entropy := by
  obtain ⟨head, body⟩ := part
  obtain ⟨hboundary, hentropy⟩ := Host.generateBoundary_congr h
  rw [materialize, settleHead, settleHead]
  simp only [kind_materializeBody]
  split
  · unfold Head.withBoundary
    cases head.mediaType.boundary? with
    | some boundary => exact ⟨rfl, rfl, h⟩
    | none =>
        dsimp only
        rw [hboundary]
        exact ⟨rfl, rfl, hentropy⟩
  · exact ⟨rfl, rfl, h⟩

theorem Alike.write {o o' p : Output} {bytes : Bytes} (h : Alike o o')
    (hwrite : o.write bytes = (.ok (), p)) :
    ∃ p', o'.write bytes = (.ok (), p') ∧ Alike p p' := by
  obtain ⟨sink, host⟩ := o
  obtain ⟨_, host'⟩ := o'
  obtain ⟨rfl, hentropy, hlimit⟩ := h
  rw [write_of_limit_eq_none hlimit] at hwrite
  cases hwrite
  exact ⟨_, write_of_limit_eq_none hlimit host' bytes, rfl, hentropy, Sink.limit_push hlimit bytes⟩

/-- What arrives is written as its value, and no random bytes are drawn on. -/
theorem Alike.writePartBody_valueOf {nested : Option String} {inForm : Bool}
    {arrivals : List Arrival} {o o' p : Output} (h : Alike o o')
    (hcopy : o.copy arrivals = (.ok (), p)) :
    ∃ body p', writePartBody nested inForm (valueOf arrivals) o' = (.ok (), body, p') ∧
      Alike p p' := by
  obtain ⟨sink, host⟩ := o
  obtain ⟨bytes, hjoin, rfl⟩ := (copy_eq_ok_iff h.limit).mp hcopy
  obtain ⟨p', hwrite, hp⟩ := h.write (write_of_limit_eq_none h.limit host bytes)
  refine ⟨.dataSource ⟨.binary bytes, false⟩, p', ?_, hp⟩
  rw [valueOf, hjoin]
  dsimp only
  rw [writePartBody, DataSource.toBytes]
  dsimp only
  rw [hwrite]

/-- A part list in a part is written with a boundary that the random bytes decide. -/
theorem Alike.exists_boundary {o o' : Output} (h : Alike o o') (nested : Option String)
    (inForm : Bool) : ∃ boundary q q', Alike q q' ∧
      (∀ parts, writePartBody nested inForm (.partList parts) o =
        ((writeParts boundary inForm true parts q).1,
          .partList (writeParts boundary inForm true parts q).2.1,
          (writeParts boundary inForm true parts q).2.2)) ∧
      ∀ parts, writePartBody nested inForm (.partList parts) o' =
        ((writeParts boundary inForm true parts q').1,
          .partList (writeParts boundary inForm true parts q').2.1,
          (writeParts boundary inForm true parts q').2.2) := by
  cases nested with
  | some boundary =>
      exact ⟨boundary, o, o', h, fun parts => by rw [writePartBody], fun parts => by
        rw [writePartBody]⟩
  | none =>
      obtain ⟨hboundary, hentropy⟩ := Host.generateBoundary_congr h.entropy
      refine ⟨o.host.generateBoundary.1, { o with host := o.host.generateBoundary.2 },
        { o' with host := o'.host.generateBoundary.2 }, ⟨h.sink, hentropy, h.limit⟩, ?_, ?_⟩
      · intro parts
        rw [writePartBody]
      · intro parts
        rw [writePartBody, hboundary]

mutual

theorem writePartBody_materializeBody {nested : Option String} {inForm : Bool}
    {body' : Body Entity} {o o' p : Output} (h : Alike o o') : ∀ {body : Body Entity},
    writePartBody nested inForm body o = (.ok (), body', p) →
    ∃ body'' p', writePartBody nested inForm (materializeBody body) o' = (.ok (), body'', p') ∧
      Alike p p'
  | .empty, hwrite => by
      rw [writePartBody] at hwrite
      cases hwrite
      exact ⟨.empty, o', by rw [materializeBody, writePartBody], h⟩
  | .dataSource data, hwrite => by
      rw [writePartBody, write_of_limit_eq_none h.limit] at hwrite
      cases hwrite
      obtain ⟨p', hwrite, hp⟩ := h.write (write_of_limit_eq_none h.limit _ data.toBytes)
      exact ⟨.dataSource data, p', by rw [materializeBody, writePartBody, hwrite], hp⟩
  | .byteSource source, hwrite => by
      rw [writePartBody_byteSource] at hwrite
      obtain ⟨hcopy, hrest⟩ := Prod.mk.inj hwrite
      obtain ⟨-, rfl⟩ := Prod.mk.inj hrest
      obtain ⟨body, p', hwrite, hp⟩ := h.writePartBody_valueOf (Prod.ext hcopy rfl)
      exact ⟨body, p', hwrite, hp.sink, hp.entropy, hp.limit⟩
  | .liveStream stream, hwrite => by
      rw [writePartBody] at hwrite
      obtain ⟨hcopy, hrest⟩ := Prod.mk.inj hwrite
      obtain ⟨-, rfl⟩ := Prod.mk.inj hrest
      obtain ⟨body, p', hwrite, hp⟩ := h.writePartBody_valueOf (Prod.ext hcopy rfl)
      exact ⟨body, p', hwrite, hp.sink, hp.entropy, hp.limit⟩
  | .partList parts, hwrite => by
      obtain ⟨boundary, q, q', hq, hhere, hthere⟩ := h.exists_boundary nested inForm
      rw [hhere] at hwrite
      obtain ⟨hanswer, hrest⟩ := Prod.mk.inj hwrite
      obtain ⟨-, rfl⟩ := Prod.mk.inj hrest
      obtain ⟨ds, p', hparts, hp⟩ := writeParts_materializeParts hq (Prod.ext hanswer rfl)
      exact ⟨.partList ds, p', by rw [materializeBody, hthere, hparts], hp⟩

theorem writePartBody_materialize {inForm : Bool} {body' : Body Entity} {p : Output}
    {sink : Sink} (hsink : sink.limit = none) {host host' : Host}
    (hentropy : host.entropy = host'.entropy) : ∀ {part : Entity},
    writePartBody (settleHead part.head part.body host).1 inForm part.body
      ⟨sink, (settleHead part.head part.body host).2.2⟩ = (.ok (), body', p) →
    ∃ body'' p', writePartBody
        (settleHead part.materialize.head part.materialize.body host').1 inForm
        part.materialize.body
        ⟨sink, (settleHead part.materialize.head part.materialize.body host').2.2⟩ =
      (.ok (), body'', p') ∧ Alike p p'
  | ⟨head, body⟩, hwrite => by
      obtain ⟨hnested, -, hsettled⟩ := settleHead_materialize ⟨head, body⟩ hentropy
      have hlike : Alike ⟨sink, (settleHead head body host).2.2⟩
          ⟨sink, (settleHead head (materializeBody body) host').2.2⟩ := ⟨rfl, hsettled, hsink⟩
      rw [← hnested]
      exact writePartBody_materializeBody hlike hwrite

theorem writeParts_materializeParts {boundary : String} {inForm first : Bool}
    {ds : List Entity} {o o' p : Output} (h : Alike o o') : ∀ {parts : List Entity},
    writeParts boundary inForm first parts o = (.ok (), ds, p) →
    ∃ ds' p', writeParts boundary inForm first (materializeParts parts) o' = (.ok (), ds', p') ∧
      Alike p p'
  | [], hwrite => by
      cases first with
      | true =>
          rw [writeParts, if_pos rfl] at hwrite
          cases hwrite
          exact ⟨[], o', by rw [materializeParts, writeParts, if_pos rfl], h⟩
      | false =>
          rw [writeParts, if_neg (by simp)] at hwrite
          obtain ⟨hanswer, hrest⟩ := Prod.mk.inj hwrite
          obtain ⟨-, rfl⟩ := Prod.mk.inj hrest
          obtain ⟨p', hclose, hp⟩ := h.write (Prod.ext hanswer rfl)
          exact ⟨[], p', by rw [materializeParts, writeParts, if_neg (by simp), hclose], hp⟩
  | part :: rest, hwrite => by
      obtain ⟨sink, host⟩ := o
      obtain ⟨_, host'⟩ := o'
      obtain ⟨rfl, hentropy, hlimit⟩ := h
      obtain ⟨hvalid, body', q, rest', hbody, hrest, -⟩ :=
        (writeParts_cons_eq_ok_iff hlimit).mp hwrite
      obtain ⟨body'', q', hbody', hq⟩ :=
        writePartBody_materialize (Sink.limit_push hlimit _) hentropy hbody
      obtain ⟨ds', p', hrest', hp⟩ := writeParts_materializeParts hq hrest
      dsimp only at hentropy
      rw [(settleHead_materialize part hentropy).2.1] at hbody'
      exact ⟨_, p', (writeParts_cons_eq_ok_iff hlimit).mpr
        ⟨hvalid, body'', q', ds', hbody', hrest', rfl⟩, hp⟩

end

/-- **A tree that is written is written as the same bytes** with values for its sources. -/
theorem encodeParts_materialize {e : Entity} {host : Host} (hkind : e.kind = .partList)
    (h : (e.encodeParts host).answer = .ok ()) :
    (e.encodeParts host).entity = (e.materialize.encodeParts host).entity := by
  obtain ⟨head, body⟩ := e
  cases body with
  | partList parts =>
      obtain ⟨hmulti, parts', o, hwrite⟩ := writeParts_of_encodeParts h
      have hhere : Alike ⟨.unlimited, (head.withBoundary host).2.2⟩
          ⟨.unlimited, (head.withBoundary host).2.2⟩ := ⟨rfl, rfl, rfl⟩
      obtain ⟨parts'', o', hwrite', hlike⟩ := writeParts_materializeParts hhere hwrite
      rw [materialize, materializeBody, (encodeParts_of_writeParts hmulti hwrite).2,
        (encodeParts_of_writeParts hmulti hwrite').2, hlike.sink]
  | empty => cases hkind
  | dataSource data => cases hkind
  | byteSource source => cases hkind
  | liveStream stream => cases hkind

end Entity
end Mime
