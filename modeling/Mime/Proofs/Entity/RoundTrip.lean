import Mime.Proofs.Entity.Sealed

/-! # A tree of parts that is written is read back

`Entity.encodeParts` writes a tree of parts as one source of bytes, and `Entity.parts` reads the
parts of one list of it at a time.  An entity `Restores` a part when it says the same and holds the
bytes of the same body, and when, for a part list, the parts that are read from it restore those in
the list, at any depth.  What is written of a tree that is safe and fits restores it
(`restores_encodeParts`). -/

namespace Mime.Entity

open Multipart

/-! ### Restoring a part -/

mutual

/-- The parts that are read from an entity restore those of a part list; it holds them then. -/
def RestoresBody (limits : Limits) (d : Entity) (m : MediaType) (body : Body Entity) : Prop :=
  match body with
  | .partList parts => ∀ host : Host, ∃ ds, (d.parts host limits).answer = .ok ds ∧
      (d.parts host limits).entity = d.withBody (.partList ds) ∧
      RestoresParts limits (m.is MediaType.formData) ds parts
  | .empty | .dataSource _ | .byteSource _ | .liveStream _ => True

/-- An entity says what a part does and holds the bytes of its body, and the parts that are read
from it restore those of the part. -/
def Restores (limits : Limits) (inForm : Bool) (d part : Entity) : Prop :=
  match part with
  | ⟨head, body⟩ =>
    d.reading = (head.asRead inForm, some (.ok (bodyBytes head.mediaType body))) ∧
      RestoresBody limits d head.mediaType body

/-- As many entities as parts, each of which restores its part. -/
def RestoresParts (limits : Limits) (inForm : Bool) (ds parts : List Entity) : Prop :=
  match parts with
  | [] => ds = []
  | part :: rest =>
    ∃ d ds', ds = d :: ds' ∧ Restores limits inForm d part ∧ RestoresParts limits inForm ds' rest

end

mutual

theorem restoresBody_of_reading {limits : Limits} {m : MediaType} {d : Entity} :
    ∀ {body : Body Entity}, BodySealed limits m body →
    ∀ {head : Head}, d.reading = (head, some (.ok (bodyBytes m body))) → head.mediaType = m →
    RestoresBody limits d m body
  | .partList parts, h, head, hd, hhead => by
      subst hhead
      obtain ⟨source, rfl, hread⟩ := exists_source_of_reading hd
      intro host
      obtain ⟨ds, hanswer, hentity, hreading⟩ := parts_of_sealed h hread host
      obtain ⟨-, -, -, -, -, hparts⟩ := h
      exact ⟨ds, hanswer, hentity, restoresParts_of_reading hparts hreading⟩
  | .empty, _, _, _, _ => trivial
  | .dataSource data, _, _, _, _ => trivial
  | .byteSource source, _, _, _, _ => trivial
  | .liveStream stream, _, _, _, _ => trivial

theorem restores_of_reading {limits : Limits} {boundary : String} {inForm : Bool} {d : Entity} :
    ∀ {part : Entity}, PartSealed limits boundary inForm part →
    d.reading = readingOf inForm part → Restores limits inForm d part
  | ⟨_, _⟩, h, hd => ⟨hd, restoresBody_of_reading h.2.2 hd rfl⟩

theorem restoresParts_of_reading {limits : Limits} {boundary : String} {inForm : Bool}
    {ds : List Entity} : ∀ {parts : List Entity}, PartsSealed limits boundary inForm parts →
    ds.map reading = parts.map (readingOf inForm) → RestoresParts limits inForm ds parts
  | [], _, hd => List.map_eq_nil_iff.mp hd
  | part :: rest, h, hd => by
      obtain ⟨d, ds', rfl, hone, hrest⟩ := List.map_eq_cons_iff.mp hd
      exact ⟨d, ds', rfl, restores_of_reading h.1 hone, restoresParts_of_reading h.2 hrest⟩

end

/-- **A tree of parts that is written is read back.**  For every entity with a tree of parts, of any
depth, in which part lists are not empty and belong to multipart types with valid boundaries or
none, leaves are empty or values, and heads are safe to write: if no line of a part begins like a
delimiter of its list and the header blocks are within the limits, writing succeeds, and the parts
that are read from the bytes, list by list, restore the tree. -/
theorem restores_encodeParts {e : Entity} {host : Host} {limits : Limits}
    (hkind : e.kind = .partList) (hm : e.mediaType.RoundTrips)
    (hsafe : BodySafe e.mediaType e.body)
    (hfits : BodyFits limits (e.settle host).1.mediaType (e.settle host).1.body) :
    (e.encodeParts host).answer = .ok () ∧
      (e.encodeParts host).entity.reading = ((e.settle host).1.head,
        some (.ok (bodyBytes (e.settle host).1.mediaType (e.settle host).1.body))) ∧
      RestoresBody limits (e.encodeParts host).entity (e.settle host).1.mediaType
        (e.settle host).1.body := by
  obtain ⟨head, body⟩ := e
  cases body with
  | partList parts =>
      obtain ⟨hanswer, hentity⟩ := encodeParts_eq hm.wellFormed hsafe host
      have hsettled := settled_settleHead hm.wellFormed hsafe host
      have hm' := roundTrips_settleHead hm (.partList parts) host
      have hreading : (encodeParts ⟨head, .partList parts⟩ host).entity.reading =
          ((settle ⟨head, .partList parts⟩ host).1.head,
            some (.ok (bodyBytes (settle ⟨head, .partList parts⟩ host).1.mediaType
              (settle ⟨head, .partList parts⟩ host).1.body))) := by
        rw [hentity]
        exact congrArg (Prod.mk _) (congrArg some (readAll_ofBytes _))
      exact ⟨hanswer, hreading, restoresBody_of_reading
        (bodySealed_settleBody hm' _ hsettled hfits) hreading rfl⟩
  | empty => cases hkind
  | dataSource data => cases hkind
  | byteSource source => cases hkind
  | liveStream stream => cases hkind

/-- A text with fields and a declared length, and a list of one empty part. -/
def twoLevels : Entity where
  head := { mediaType := ⟨"multipart", "mixed", "", ⟨[]⟩⟩ }
  body := .partList [
    { head :=
        { mediaType := ⟨"text", "plain", "", ⟨[]⟩⟩
          disposition := some (.formField "a")
          contentId := some "x"
          headers := ⟨[("Content-Length", "2")]⟩ }
      body := .dataSource ⟨.text "hi", false⟩ },
    { head := { mediaType := ⟨"multipart", "mixed", "", ⟨[("boundary", "in")]⟩⟩ }
      body := .partList [{ head := { mediaType := ⟨"text", "plain", "", ⟨[]⟩⟩ } }] }]

/-- The boundary of the outer list is random, and that of the inner one is declared. -/
theorem restores_encodeParts_twoLevels :
    (twoLevels.encodeParts zeroHost).answer = .ok () ∧
      (twoLevels.encodeParts zeroHost).entity.reading = ((twoLevels.settle zeroHost).1.head,
        some (.ok (bodyBytes (twoLevels.settle zeroHost).1.mediaType
          (twoLevels.settle zeroHost).1.body))) ∧
      RestoresBody .standard (twoLevels.encodeParts zeroHost).entity
        (twoLevels.settle zeroHost).1.mediaType (twoLevels.settle zeroHost).1.body := by
  have hplain : MediaType.RoundTrips ⟨"text", "plain", "", ⟨[]⟩⟩ := by decide
  have hmixed : MediaType.RoundTrips ⟨"multipart", "mixed", "", ⟨[("boundary", "in")]⟩⟩ := by
    decide
  have hfield : (Disposition.formField "a").WireSafe :=
    Disposition.wireSafe_formField (by simp [Disposition.IsBare])
  have hid : Head.IsBareId "x" := ⟨by decide, by decide, by decide, by simp⟩
  have hother : Head.IsOther ("Content-Length", "2") := ⟨by decide, by decide, fun _ => ⟨2, rfl⟩⟩
  have htext : Head.WireSafe
      { mediaType := ⟨"text", "plain", "", ⟨[]⟩⟩
        disposition := some (.formField "a")
        contentId := some "x"
        headers := ⟨[("Content-Length", "2")]⟩ } :=
    ⟨hplain, by simp, by simpa using hfield, by simpa using hid, by simpa using hother⟩
  have hboundary : ∀ b ∈ MediaType.boundary? ⟨"multipart", "mixed", "", ⟨[("boundary", "in")]⟩⟩,
      Boundary.isValid b.toList = true := by
    intro b hb
    cases hb
    decide
  have hnone : ∀ b ∈ twoLevels.mediaType.boundary?, Boundary.isValid b.toList = true := by
    intro b hb
    cases hb
  have hsafe : BodySafe twoLevels.mediaType twoLevels.body :=
    ⟨List.cons_ne_nil _ _, rfl, hnone, ⟨htext, trivial⟩,
      ⟨Head.wireSafe_of_mediaType hmixed (by simp), List.cons_ne_nil _ _, rfl, hboundary,
        ⟨Head.wireSafe_of_mediaType hplain (by simp), trivial⟩, trivial⟩, trivial⟩
  have hfits : BodyFits .standard (twoLevels.settle zeroHost).1.mediaType
      (twoLevels.settle zeroHost).1.body := by
    refine ⟨⟨?_, ?_, ?_, trivial⟩, ⟨?_, ?_, ?_, ⟨?_, ?_, ?_, trivial⟩, trivial⟩, trivial⟩ <;>
      decide +kernel
  exact restores_encodeParts rfl (by decide) hsafe hfits

end Mime.Entity
