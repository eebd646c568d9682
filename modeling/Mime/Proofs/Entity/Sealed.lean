import Mime.Proofs.Entity.ReadList
import Mime.Proofs.Entity.Wire

/-! # Trees of parts that can be read back

A tree fits when no line of a part begins like the delimiter of its list and the header blocks are
within the limits.  A tree that is safe to write and fits is sealed once its part lists have
boundaries (`bodySealed_settleBody`), and the parts of a sealed list are read from its bytes
(`parts_of_sealed`). -/

namespace Mime.Entity

open Multipart

/-! ### Trees that can be told from their delimiters -/

mutual

/-- A body in which, at any depth, no line of a part begins like a delimiter of its list, and the
header blocks are within the limits. -/
def BodyFits (limits : Limits) (m : MediaType) (body : Body Entity) : Prop :=
  match body with
  | .partList parts => PartsFit limits (boundaryOf m) (m.is MediaType.formData) parts
  | .empty | .dataSource _ | .byteSource _ | .liveStream _ => True

/-- A part that can be told from the delimiters of its list, and fits as well inside. -/
def PartFits (limits : Limits) (boundary : String) (inForm : Bool) (part : Entity) : Prop :=
  match part with
  | ⟨head, body⟩ =>
    Separate boundary (bodyBytes head.mediaType body) ∧
      (Utf8.encode (headerBlock (head.partHeaders inForm))).length ≤ limits.maxHeaderSize ∧
      (head.partHeaders inForm).size ≤ limits.maxHeaders ∧ BodyFits limits head.mediaType body

/-- Parts that can be told from the delimiters of their list, and fit as well inside. -/
def PartsFit (limits : Limits) (boundary : String) (inForm : Bool) (parts : List Entity) : Prop :=
  match parts with
  | [] => True
  | part :: rest => PartFits limits boundary inForm part ∧ PartsFit limits boundary inForm rest

end

mutual

/-- A body that is safe to write and fits, in which all part lists have boundaries. -/
def BodySealed (limits : Limits) (m : MediaType) (body : Body Entity) : Prop :=
  match body with
  | .partList parts =>
    parts ≠ [] ∧ m.RoundTrips ∧ m.isMultipart = true ∧ m.boundary? = some (boundaryOf m) ∧
      Boundary.isValid (boundaryOf m).toList = true ∧
      PartsSealed limits (boundaryOf m) (m.is MediaType.formData) parts
  | .empty | .dataSource _ | .byteSource _ | .liveStream _ => True

/-- A part that is safe to write and fits, in which all part lists have boundaries. -/
def PartSealed (limits : Limits) (boundary : String) (inForm : Bool) (part : Entity) : Prop :=
  match part with
  | ⟨head, body⟩ =>
    head.WireSafe ∧ Writable boundary limits (wirePart inForm ⟨head, body⟩) ∧
      BodySealed limits head.mediaType body

/-- Parts that are safe to write and fit, in which all part lists have boundaries. -/
def PartsSealed (limits : Limits) (boundary : String) (inForm : Bool) (parts : List Entity) :
    Prop :=
  match parts with
  | [] => True
  | part :: rest => PartSealed limits boundary inForm part ∧ PartsSealed limits boundary inForm rest

end

theorem PartSealed.wireSafe {limits : Limits} {boundary : String} {inForm : Bool} :
    ∀ {part : Entity}, PartSealed limits boundary inForm part → part.head.WireSafe
  | ⟨_, _⟩, h => h.1

theorem PartSealed.writable {limits : Limits} {boundary : String} {inForm : Bool} :
    ∀ {part : Entity}, PartSealed limits boundary inForm part →
    Writable boundary limits (wirePart inForm part)
  | ⟨_, _⟩, h => h.2.1

theorem PartsSealed.of_mem {limits : Limits} {boundary : String} {inForm : Bool} :
    ∀ {parts : List Entity}, PartsSealed limits boundary inForm parts →
    ∀ p ∈ parts, PartSealed limits boundary inForm p
  | [], _, p, hp => absurd hp List.not_mem_nil
  | _ :: _, h, p, hp => by
      rcases List.mem_cons.mp hp with rfl | hp
      · exact h.1
      · exact PartsSealed.of_mem h.2 p hp

mutual

/-- With boundaries given out, a body that is safe and fits is sealed. -/
theorem bodySealed_settleBody {limits : Limits} {nested : Option String} {m : MediaType}
    (hm : m.RoundTrips) (host : Host) : ∀ {body : Body Entity}, Settled nested m body →
    BodyFits limits m (settleBody body host).1 → BodySealed limits m (settleBody body host).1
  | .partList parts, h, hfits => by
      obtain ⟨⟨hne, hmulti, -, hparts⟩, hboundary⟩ := h
      obtain ⟨hb, hvalid, -⟩ := hboundary rfl
      refine ⟨?_, hm, hmulti, hb, hvalid, partsSealed_settleParts host hparts hfits⟩
      cases parts with
      | nil => exact absurd rfl hne
      | cons part rest => exact List.cons_ne_nil _ _
  | .empty, _, _ => trivial
  | .dataSource data, _, _ => trivial
  | .byteSource source, h, _ => h.safe.elim
  | .liveStream stream, h, _ => h.safe.elim

theorem partSealed_settle {limits : Limits} {boundary : String} {inForm : Bool} (host : Host) :
    ∀ {part : Entity}, PartSafe part → PartFits limits boundary inForm (part.settle host).1 →
    PartSealed limits boundary inForm (part.settle host).1
  | ⟨head, body⟩, h, hfits => by
      obtain ⟨hseparate, hsize, hcount, hfits⟩ := hfits
      have hsettled := settled_settleHead h.1.mediaType.wellFormed h.2 host
      have hsafe := wireSafe_settleHead h.1 body host
      exact ⟨hsafe, ⟨Head.isPlain_of_mem_partHeaders hsafe inForm, hseparate, hsize, hcount⟩,
        bodySealed_settleBody hsafe.mediaType _ hsettled hfits⟩

theorem partsSealed_settleParts {limits : Limits} {boundary : String} {inForm : Bool}
    (host : Host) : ∀ {parts : List Entity}, PartsSafe parts →
    PartsFit limits boundary inForm (settleParts parts host).1 →
    PartsSealed limits boundary inForm (settleParts parts host).1
  | [], _, _ => trivial
  | _ :: _, h, hfits =>
      ⟨partSealed_settle host h.1 hfits.1, partsSealed_settleParts _ h.2 hfits.2⟩

end

/-! ### Reading the parts of one list -/

/-- What is read of a part that was written. -/
def readingOf (inForm : Bool) (part : Entity) : Head × Option (Except IoError Bytes) :=
  (part.head.asRead inForm, some (.ok (wirePart inForm part).2))

/-- The parts of an entity that holds the bytes of a sealed part list are read, and it holds them
then. -/
theorem parts_of_sealed {head : Head} {source : ByteSource} {limits : Limits}
    {parts : List Entity} (h : BodySealed limits head.mediaType (.partList parts))
    (hread : source.readAll = .ok (bodyBytes head.mediaType (.partList parts))) (host : Host) :
    ∃ ds, (Entity.parts ⟨head, .byteSource source⟩ host limits).answer = .ok ds ∧
      (Entity.parts ⟨head, .byteSource source⟩ host limits).entity = ⟨head, .partList ds⟩ ∧
      ds.map reading = parts.map (readingOf (head.mediaType.is MediaType.formData)) := by
  obtain ⟨hne, hm, hmulti, hb, hvalid, hparts⟩ := h
  rw [bodyBytes, wireParts_eq_map] at hread
  have hsaid : ∀ p ∈ parts,
      Head.ofHeaders (recovered (wirePart (head.mediaType.is MediaType.formData) p)).1 =
        .ok (p.head.asRead (head.mediaType.is MediaType.formData)) := by
    intro p hp
    have hsealed := hparts.of_mem p hp
    rw [hsealed.writable.recovered_eq]
    cases p
    exact Head.ofHeaders_partHeaders hsealed.wireSafe _
  exact parts_of_recoverable hmulti hm hb hvalid hread hne
    (fun p hp => (hparts.of_mem p hp).writable.recoverable hvalid) hsaid host

end Mime.Entity
