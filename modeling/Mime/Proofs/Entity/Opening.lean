import Mime.Proofs.Entity.Materialize
import Mime.Proofs.Entity.RoundTrip

/-! # Reading only some of the parts of a tree

The parts of a part are read when they are asked for.  `openAt` asks for those at the end of a path,
and `openAll` for those at the ends of several, one after the other.  An entity `Shows` a part when
it says the same and holds the bytes of its body, or parts that show the parts of the body.  An
entity still shows a tree after any part list in it was opened (`openAt_of_shows`), and what shows a
part is written as the part is (`writes_of_shows`).  So what is read of a tree, in whole or in part,
is written as the bytes that it was read from (`encodeParts_openAll`). -/

namespace Mime.Entity

open Multipart

/-! ### Opening part lists -/

/-- Asks for the parts along a path: those of the entity, then those of the part of it with the
first number of the path, and so on. -/
def openAt (limits : Limits) (path : List Nat) (e : Entity) (host : Host) : Outcome Unit :=
  match path with
  | [] =>
    let o := e.parts host limits
    ⟨o.answer.map fun _ => (), o.entity, o.host⟩
  | i :: path =>
    match e.parts host limits with
    | ⟨.error err, e, host⟩ => ⟨.error err, e, host⟩
    | ⟨.ok ds, e, host⟩ =>
      match ds[i]? with
      | none => ⟨.ok (), e, host⟩
      | some d =>
        let o := openAt limits path d host
        ⟨o.answer, e.withBody (.partList (ds.set i o.entity)), o.host⟩

/-- Asks for the parts along one path after the other, up to the first failure. -/
def openAll (limits : Limits) (paths : List (List Nat)) (e : Entity) (host : Host) :
    Outcome Unit :=
  match paths with
  | [] => ⟨.ok (), e, host⟩
  | path :: paths =>
    match e.openAt limits path host with
    | ⟨.error err, e, host⟩ => ⟨.error err, e, host⟩
    | ⟨.ok (), e, host⟩ => openAll limits paths e host

/-- A path leads from a list of parts to the list in one of them, and so on. -/
def Leads (path : List Nat) (parts : List Entity) : Prop :=
  match path with
  | [] => True
  | i :: path => ∃ part inner, parts[i]? = some part ∧ part.body = .partList inner ∧
      Leads path inner

theorem leads_materializeParts {path : List Nat} : ∀ {parts : List Entity}, Leads path parts →
    Leads path (materializeParts parts) := by
  induction path with
  | nil => exact fun h => h
  | cons i path ih =>
      rintro parts ⟨⟨head, body⟩, inner, hpart, rfl, hleads⟩
      refine ⟨⟨head, .partList (materializeParts inner)⟩, materializeParts inner, ?_, rfl,
        ih hleads⟩
      rw [materializeParts_eq_map, List.getElem?_map, hpart]
      rfl

theorem getElem?_settleParts {part : Entity} : ∀ {parts : List Entity} {i : Nat},
    parts[i]? = some part → ∀ host : Host,
    ∃ host', (settleParts parts host).1[i]? = some (part.settle host').1
  | _ :: _, 0, h, host => by
      cases h
      exact ⟨host, rfl⟩
  | _ :: rest, i + 1, h, host => by
      have hrest : rest[i]? = some part := h
      exact getElem?_settleParts hrest _

theorem leads_settleParts {path : List Nat} : ∀ {parts : List Entity}, Leads path parts →
    ∀ host : Host, Leads path (settleParts parts host).1 := by
  induction path with
  | nil => exact fun h _ => h
  | cons i path ih =>
      rintro parts ⟨⟨head, body⟩, inner, hpart, rfl, hleads⟩ host
      obtain ⟨host', hsettled⟩ := getElem?_settleParts hpart host
      exact ⟨_, _, hsettled, rfl, ih hleads _⟩

/-! ### Showing a tree -/

mutual

/-- An entity holds the bytes of a body, or parts that show those of the body. -/
def ShowsBody (d : Entity) (m : MediaType) (body : Body Entity) : Prop :=
  d.Holds (bodyBytes m body) ∨
    match body with
    | .partList parts =>
      ∃ ds, d.body = .partList ds ∧ ShowsParts (m.is MediaType.formData) ds parts
    | .empty | .dataSource _ | .byteSource _ | .liveStream _ => False

/-- An entity says what is read of a part, and holds the bytes of its body or parts that show those
of the body. -/
def Shows (inForm : Bool) (d part : Entity) : Prop :=
  match part with
  | ⟨head, body⟩ => d.head = head.asRead inForm ∧ ShowsBody d head.mediaType body

/-- As many entities as parts, each of which shows its part. -/
def ShowsParts (inForm : Bool) (ds parts : List Entity) : Prop :=
  match parts with
  | [] => ds = []
  | part :: rest => ∃ d ds', ds = d :: ds' ∧ Shows inForm d part ∧ ShowsParts inForm ds' rest

end

theorem showsParts_iff {inForm : Bool} : ∀ {parts ds : List Entity},
    ShowsParts inForm ds parts ↔ List.Forall₂ (Shows inForm) ds parts
  | [], ds => by rw [ShowsParts, List.forall₂_nil_right_iff]
  | part :: rest, ds => by
      rw [ShowsParts, List.forall₂_cons_right_iff]
      constructor
      · rintro ⟨d, ds', rfl, hd, hrest⟩
        exact ⟨d, ds', hd, showsParts_iff.mp hrest, rfl⟩
      · rintro ⟨d, ds', hd, hrest, rfl⟩
        exact ⟨d, ds', rfl, hd, showsParts_iff.mpr hrest⟩

theorem shows_of_reading {inForm : Bool} {d : Entity} : ∀ {part : Entity},
    d.reading = readingOf inForm part → Shows inForm d part
  | ⟨head, body⟩, h => by
      obtain ⟨source, rfl, hread⟩ := exists_source_of_reading h
      refine ⟨rfl, ?_⟩
      unfold ShowsBody
      exact .inl ⟨source, rfl, hread⟩

theorem forall₂_shows_of_reading {inForm : Bool} {ds parts : List Entity}
    (h : ds.map reading = parts.map (readingOf inForm)) :
    List.Forall₂ (Shows inForm) ds parts := by
  rw [← List.forall₂_eq_eq_eq, List.forall₂_map_left_iff, List.forall₂_map_right_iff] at h
  exact h.imp fun _ _ => shows_of_reading

theorem exists_shows_of_getElem? {inForm : Bool} {ds parts : List Entity}
    (h : List.Forall₂ (Shows inForm) ds parts) {i : Nat} {part : Entity}
    (hpart : parts[i]? = some part) : ∃ d, ds[i]? = some d ∧ Shows inForm d part ∧
      ∀ d', Shows inForm d' part → List.Forall₂ (Shows inForm) (ds.set i d') parts := by
  induction h generalizing i with
  | nil => cases hpart
  | @cons d p ds parts hd hrest ih =>
      cases i with
      | zero =>
          cases hpart
          exact ⟨d, rfl, hd, fun d' hd' => .cons hd' hrest⟩
      | succ i =>
          obtain ⟨c, hc, hshows, hset⟩ := ih hpart
          exact ⟨c, hc, hshows, fun c' hc' => .cons hd (hset c' hc')⟩

/-! ### Opening what shows a tree -/

section opening

variable {limits : Limits}

theorem parts_of_showsBody {d : Entity} {parts : List Entity}
    (h : BodySealed limits d.mediaType (.partList parts))
    (hd : ShowsBody d d.mediaType (.partList parts)) (host : Host) :
    ∃ ds host', d.parts host limits = ⟨.ok ds, d.withBody (.partList ds), host'⟩ ∧
      List.Forall₂ (Shows (d.mediaType.is MediaType.formData)) ds parts := by
  obtain ⟨head, body⟩ := d
  rcases hd with ⟨source, rfl, hread⟩ | ⟨ds, rfl, hshows⟩
  · obtain ⟨ds, hanswer, hentity, hreading⟩ := parts_of_sealed h hread host
    refine ⟨ds, (Entity.parts ⟨head, .byteSource source⟩ host limits).host, ?_,
      forall₂_shows_of_reading hreading⟩
    rw [withBody, ← hanswer, ← hentity]
  · exact ⟨ds, host, parts_partList h.2.2.1 ds host, showsParts_iff.mp hshows⟩

/-- **Opening a part list** of an entity that shows a tree leaves one that shows it. -/
theorem openAt_of_shows {path : List Nat} : ∀ {d : Entity} {parts : List Entity},
    BodySealed limits d.mediaType (.partList parts) →
    ShowsBody d d.mediaType (.partList parts) → Leads path parts → ∀ host : Host,
    ∃ ds host', d.openAt limits path host = ⟨.ok (), d.withBody (.partList ds), host'⟩ ∧
      List.Forall₂ (Shows (d.mediaType.is MediaType.formData)) ds parts := by
  induction path with
  | nil =>
      intro d parts h hd _ host
      obtain ⟨ds, host', hparts, hshows⟩ := parts_of_showsBody h hd host
      exact ⟨ds, host', by rw [openAt, hparts]; rfl, hshows⟩
  | cons i path ih =>
      rintro d parts h hd ⟨⟨head, body⟩, inner, hpart, rfl, hleads⟩ host
      obtain ⟨ds, host', hparts, hshows⟩ := parts_of_showsBody h hd host
      obtain ⟨c, hc, ⟨hhead, hcshows⟩, hset⟩ := exists_shows_of_getElem? hshows hpart
      obtain ⟨-, -, -, -, -, hsealed⟩ := h
      have hinner := (hsealed.of_mem _ (List.mem_of_getElem? hpart)).2.2
      have hm : head.mediaType = c.mediaType := (congrArg Head.mediaType hhead).symm
      rw [hm] at hinner hcshows
      obtain ⟨cs, host'', hopen, hcs⟩ := ih hinner hcshows hleads host'
      refine ⟨ds.set i (c.withBody (.partList cs)), host'', ?_, hset _ ⟨hhead, ?_⟩⟩
      · rw [openAt, hparts]
        dsimp only
        rw [hc]
        dsimp only
        rw [hopen]
        rfl
      -- The part that was opened takes its own place in the list.
      · rw [hm]
        exact .inr ⟨cs, rfl, showsParts_iff.mpr hcs⟩

/-- **Opening several part lists** of an entity that shows a tree leaves one that shows it. -/
theorem openAll_of_shows {head : Head} {parts : List Entity}
    (h : BodySealed limits head.mediaType (.partList parts)) {paths : List (List Nat)}
    (hpaths : ∀ path ∈ paths, Leads path parts) {ds : List Entity}
    (hd : List.Forall₂ (Shows (head.mediaType.is MediaType.formData)) ds parts) (host : Host) :
    ∃ ds' host', openAll limits paths ⟨head, .partList ds⟩ host =
        ⟨.ok (), ⟨head, .partList ds'⟩, host'⟩ ∧
      List.Forall₂ (Shows (head.mediaType.is MediaType.formData)) ds' parts := by
  induction paths generalizing ds host with
  | nil => exact ⟨ds, host, rfl, hd⟩
  | cons path paths ih =>
      have hshows : ShowsBody ⟨head, .partList ds⟩ head.mediaType (.partList parts) :=
        .inr ⟨ds, rfl, showsParts_iff.mpr hd⟩
      obtain ⟨ds', host', hopen, hd'⟩ :=
        openAt_of_shows (d := ⟨head, .partList ds⟩) h hshows (hpaths path List.mem_cons_self) host
      rw [openAll, hopen]
      exact ih (fun p hp => hpaths p (List.mem_cons_of_mem _ hp)) hd' host'

end opening

/-! ### Writing what shows a tree -/

mutual

theorem writes_of_showsBody {limits : Limits} {inForm : Bool} {d : Entity} :
    ∀ {body : Body Entity}, BodySealed limits d.mediaType body →
    ShowsBody d d.mediaType body →
    Writes inForm d (d.head.partHeaders inForm, bodyBytes d.mediaType body)
  | .partList parts, h, hd => by
      rcases hd with hholds | ⟨ds, hbody, hshows⟩
      · exact hholds.writes inForm
      · obtain ⟨head, body⟩ := d
        subst hbody
        obtain ⟨hne, -, hmulti, hb, hvalid, hsealed⟩ := h
        have hds : ds ≠ [] := by
          rintro rfl
          exact hne (List.forall₂_nil_left_iff.mp (showsParts_iff.mp hshows))
        rw [bodyBytes]
        exact writes_of_partList hmulti hb hvalid hds (writes_of_showsParts hsealed hshows) inForm
  | .empty, _, hd => (hd.resolve_right id).writes inForm
  | .dataSource data, _, hd => (hd.resolve_right id).writes inForm
  | .byteSource source, _, hd => (hd.resolve_right id).writes inForm
  | .liveStream stream, _, hd => (hd.resolve_right id).writes inForm

theorem writes_of_shows {limits : Limits} {boundary : String} {inForm : Bool} {d : Entity} :
    ∀ {part : Entity}, PartSealed limits boundary inForm part → Shows inForm d part →
    Writes inForm d (wirePart inForm part)
  | ⟨head, body⟩, h, hd => by
      obtain ⟨hhead, hbody⟩ := hd
      have hm : head.mediaType = d.mediaType := (congrArg Head.mediaType hhead).symm
      have hsealed := h.2.2
      have hheaders : d.head.partHeaders inForm = head.partHeaders inForm := by
        rw [hhead, Head.partHeaders_asRead]
      rw [hm] at hsealed hbody
      rw [wirePart, ← hheaders, hm]
      exact writes_of_showsBody hsealed hbody

theorem writes_of_showsParts {limits : Limits} {boundary : String} {inForm : Bool}
    {ds : List Entity} : ∀ {parts : List Entity}, PartsSealed limits boundary inForm parts →
    ShowsParts inForm ds parts → List.Forall₂ (Writes inForm) ds (wireParts inForm parts)
  | [], _, hd => by
      cases hd
      exact .nil
  | _ :: _, h, hd => by
      obtain ⟨d, ds', rfl, hone, hrest⟩ := hd
      exact .cons (writes_of_shows h.1 hone) (writes_of_showsParts h.2 hrest)

end

/-- The bytes of a sealed tree are written again, whatever was opened in it. -/
theorem encodeParts_of_sealed (head : Head) {source : ByteSource} {limits : Limits}
    {parts : List Entity} (h : BodySealed limits head.mediaType (.partList parts))
    (hread : source.readAll = .ok (bodyBytes head.mediaType (.partList parts)))
    {paths : List (List Nat)} (hpaths : ∀ path ∈ paths, Leads path parts) (host host' : Host) :
    let opened := openAll limits ([] :: paths) ⟨head, .byteSource source⟩ host
    opened.answer = .ok () ∧ (opened.entity.encodeParts host').answer = .ok () ∧
      (opened.entity.encodeParts host').entity =
        ⟨head, .byteSource (.ofBytes (bodyBytes head.mediaType (.partList parts)))⟩ := by
  have hshows : ShowsBody ⟨head, .byteSource source⟩ head.mediaType (.partList parts) :=
    .inl ⟨source, rfl, hread⟩
  have hroot : Leads [] parts := trivial
  obtain ⟨ds₁, host₁, hopen, hd₁⟩ :=
    openAt_of_shows (d := ⟨head, .byteSource source⟩) h hshows hroot host
  obtain ⟨ds, host₂, hall, hd⟩ := openAll_of_shows h hpaths hd₁ host₁
  have hopened : openAll limits ([] :: paths) ⟨head, .byteSource source⟩ host =
      ⟨.ok (), ⟨head, .partList ds⟩, host₂⟩ := by
    rw [openAll, hopen]
    exact hall
  obtain ⟨hne, -, hmulti, hb, hvalid, hparts⟩ := h
  have hds : ds ≠ [] := by
    rintro rfl
    exact hne (List.forall₂_nil_left_iff.mp hd)
  have hwrites := writes_of_showsParts hparts (showsParts_iff.mpr hd)
  rw [hopened, bodyBytes]
  exact ⟨rfl, encodeParts_of_writes hmulti hb hvalid hds hwrites host'⟩

/-! ### A tree that was written -/

/-- The bytes that a tree was replaced by are those of a sealed tree with the same paths in it. -/
theorem exists_sealed {e : Entity} {parts : List Entity} {host : Host} {limits : Limits}
    (hbody : e.body = .partList parts) (hm : e.mediaType.RoundTrips)
    (hsafe : BodySafe e.mediaType e.materialize.body)
    (hfits : BodyFits limits (e.materialize.settle host).1.mediaType
      (e.materialize.settle host).1.body)
    (hencode : (e.encodeParts host).answer = .ok ()) :
    ∃ head sealed, (e.encodeParts host).entity =
        ⟨head, .byteSource (.ofBytes (bodyBytes head.mediaType (.partList sealed)))⟩ ∧
      BodySealed limits head.mediaType (.partList sealed) ∧
      ∀ path, Leads path parts → Leads path sealed := by
  obtain ⟨head, body⟩ := e
  subst hbody
  obtain ⟨-, hentity⟩ := encodeParts_eq hm.wellFormed hsafe host
  have hsettled := settled_settleHead hm.wellFormed hsafe host
  have hm' := roundTrips_settleHead hm (.partList (materializeParts parts)) host
  exact ⟨_, _, (encodeParts_materialize rfl hencode).trans hentity,
    bodySealed_settleBody hm' _ hsettled hfits,
    fun path hpath => leads_settleParts (leads_materializeParts hpath) _⟩

theorem setByteSource_format {m : MediaType} (hm : m.RoundTrips) (d : Entity) (host : Host)
    (source : ByteSource) : d.setByteSource host source (some m.format) =
      ⟨.ok (), ⟨{ d.head with mediaType := m }, .byteSource source⟩, host.releaseBody d.body⟩ := by
  have hparse : MediaType.parse m.format = .ok m := hm
  rw [setByteSource, attach, Option.getD_some, hparse]
  rfl

/-- **What is read of a tree, in whole or in part, is written as the bytes that it was read from.**
For every tree of parts, of any depth, with empty bodies, values, sources and streams for its
leaves: if part lists are not empty and belong to multipart types with valid boundaries or none, the
heads are safe to write, no line of a part begins like a delimiter of its list, and the header
blocks are within the limits, then the source that the tree was written as can be attached to any
entity under the type of the tree, its parts and those of any choice of part lists in it can be
asked for in any order, and writing them gives the same source. -/
theorem encodeParts_openAll {e : Entity} {parts : List Entity} {host : Host} {limits : Limits}
    {w : ByteSource} {paths : List (List Nat)} (hbody : e.body = .partList parts)
    (hm : e.mediaType.RoundTrips) (hsafe : BodySafe e.mediaType e.materialize.body)
    (hfits : BodyFits limits (e.materialize.settle host).1.mediaType
      (e.materialize.settle host).1.body)
    (hencode : (e.encodeParts host).answer = .ok ())
    (hw : (e.encodeParts host).entity.byteSource? = some w)
    (hpaths : ∀ path ∈ paths, Leads path parts) (d : Entity) (host₁ host₂ host₃ : Host) :
    let attached := d.setByteSource host₁ w (some (e.encodeParts host).entity.contentType)
    let opened := attached.entity.openAll limits ([] :: paths) host₂
    let written := opened.entity.encodeParts host₃
    attached.answer = .ok () ∧ opened.answer = .ok () ∧ written.answer = .ok () ∧
      written.entity.byteSource? = some w := by
  obtain ⟨head, sealed, hentity, hsealed, hleads⟩ :=
    exists_sealed hbody hm hsafe hfits hencode
  rw [hentity] at hw ⊢
  cases hw
  have hround := hsealed.2.1
  rw [contentType, mediaType, setByteSource_format hround]
  obtain ⟨hopened, hanswer, hwritten⟩ := encodeParts_of_sealed
    { d.head with mediaType := head.mediaType } hsealed (readAll_ofBytes _)
    (fun path hpath => hleads path (hpaths path hpath)) host₂ host₃
  refine ⟨rfl, hopened, hanswer, ?_⟩
  rw [hwritten]
  rfl

/-- A text that arrives in two pieces, and a form with a field that is streamed. -/
def arriving : Entity where
  head := { mediaType := ⟨"multipart", "mixed", "", ⟨[]⟩⟩ }
  body := .partList [
    { head := { mediaType := ⟨"text", "plain", "", ⟨[]⟩⟩ }
      body := .byteSource (.ofReader [.ok [104], .ok [105]]) },
    { head := { mediaType := ⟨"multipart", "form-data", "", ⟨[("boundary", "in")]⟩⟩ }
      body := .partList [
        { head :=
            { mediaType := ⟨"text", "plain", "", ⟨[]⟩⟩
              disposition := some (.formField "a") }
          body := .liveStream (.producer [.ok [104], .ok [105]]) }] }]

/-- The parts of the form are asked for, and the text stays as it is. -/
theorem encodeParts_openAll_arriving :
    ∃ w, (arriving.encodeParts zeroHost).entity.byteSource? = some w ∧
      let attached := new.setByteSource zeroHost w
        (some (arriving.encodeParts zeroHost).entity.contentType)
      let opened := attached.entity.openAll .standard ([] :: [[1]]) zeroHost
      let written := opened.entity.encodeParts zeroHost
      attached.answer = .ok () ∧ opened.answer = .ok () ∧ written.answer = .ok () ∧
        written.entity.byteSource? = some w := by
  have hplain : MediaType.RoundTrips ⟨"text", "plain", "", ⟨[]⟩⟩ := by decide
  have hform : MediaType.RoundTrips ⟨"multipart", "form-data", "", ⟨[("boundary", "in")]⟩⟩ := by
    decide
  have hfield : (Disposition.formField "a").WireSafe :=
    Disposition.wireSafe_formField (by simp [Disposition.IsBare])
  have hhead : Head.WireSafe
      { mediaType := ⟨"text", "plain", "", ⟨[]⟩⟩, disposition := some (.formField "a") } :=
    ⟨hplain, by simp, by simpa using hfield, by simp, by simp [Headers.empty]⟩
  have hboundary : ∀ b ∈ MediaType.boundary?
      ⟨"multipart", "form-data", "", ⟨[("boundary", "in")]⟩⟩,
      Boundary.isValid b.toList = true := by
    intro b hb
    cases hb
    decide
  have hnone : ∀ b ∈ arriving.mediaType.boundary?, Boundary.isValid b.toList = true := by
    intro b hb
    cases hb
  have hsafe : BodySafe arriving.mediaType arriving.materialize.body :=
    ⟨List.cons_ne_nil _ _, rfl, hnone, ⟨Head.wireSafe_of_mediaType hplain (by simp), trivial⟩,
      ⟨Head.wireSafe_of_mediaType hform (by simp), List.cons_ne_nil _ _, rfl, hboundary,
        ⟨hhead, trivial⟩, trivial⟩, trivial⟩
  have hfits : BodyFits .standard (arriving.materialize.settle zeroHost).1.mediaType
      (arriving.materialize.settle zeroHost).1.body := by
    refine ⟨⟨?_, ?_, ?_, trivial⟩, ⟨?_, ?_, ?_, ⟨?_, ?_, ?_, trivial⟩, trivial⟩, trivial⟩ <;>
      decide +kernel
  have hencode : (arriving.encodeParts zeroHost).answer = .ok () := by
    decide +kernel
  have hsome : ((arriving.encodeParts zeroHost).entity.byteSource?).isSome = true := by
    decide +kernel
  have hpaths : ∀ path ∈ [[1]], Leads path (arriving.partList?.getD []) := by
    intro path hpath
    rw [List.mem_singleton] at hpath
    subst hpath
    exact ⟨_, _, rfl, rfl, trivial⟩
  obtain ⟨w, hw⟩ := Option.isSome_iff_exists.mp hsome
  exact ⟨w, hw, encodeParts_openAll rfl (by decide) hsafe hfits hencode hw hpaths new zeroHost
    zeroHost zeroHost⟩

end Mime.Entity
