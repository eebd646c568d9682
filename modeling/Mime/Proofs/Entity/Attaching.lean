import Mime.Proofs.Entity.Files
import Mime.Proofs.Success

/-! # A body is attached or refused

Eight operations give an entity a body and a media type.  They are one operation with parameters:
the body, the media type that it has where none is asked for, and what is asked of its content
(`Attachment.set_eq`).  Either all of it happens or nothing does: the entity has the new media type
and the new body, and the old one is closed, or it is as it was and the new body is closed
(`Attachment.set_ok_or_unchanged`). -/

namespace Mime

open Entity

/-- What one of the operations gives to an entity. -/
inductive Attachment where
  | byteSource (source : ByteSource)
  | dataSource (data : DataSource)
  | text (text : String)
  | json (v : Json.Value)
  | xml (xml : String)
  | byteArray (bytes : Bytes)
  | parts (parts : List Entity)
  | liveStream (stream : LiveStream)

namespace Attachment

/-- The operation that gives it. -/
def set [Disk] (a : Attachment) (e : Entity) (host : Host) (contentType : Option String) :
    Outcome Unit :=
  match a with
  | .byteSource source => e.setByteSource host source contentType
  | .dataSource data => e.setDataSource host data contentType
  | .text s => e.setText host s contentType
  | .json v => e.setJson host v contentType
  | .xml s => e.setXml host s contentType
  | .byteArray bytes => e.setByteArray host bytes contentType
  | .parts ps => e.setParts host ps contentType
  | .liveStream stream => e.setLiveStream host stream contentType

/-- The body that it is. -/
def body : Attachment → Body Entity
  | .byteSource source => .byteSource source
  | .dataSource data => .dataSource data
  | .text s => .dataSource ⟨.text s, false⟩
  | .json v => .dataSource ⟨.json v, true⟩
  | .xml s => .dataSource ⟨.xml s, false⟩
  | .byteArray bytes => .dataSource ⟨.binary bytes, false⟩
  | .parts ps => .partList ps
  | .liveStream stream => .liveStream stream

/-- The usual media type of such a body. -/
def usualType (a : Attachment) : String :=
  match a.body with
  | .dataSource data => Entity.usualType data.value
  | .partList _ => MediaType.formData
  | .empty | .byteSource _ | .liveStream _ => MediaType.octetStream

/-- What is asked of the content: XML has to be a single document. -/
def check : Attachment → Except Error Unit
  | .xml s => (Xml.check s.toList).mapError .xml
  | _ => .ok ()

/-- The media type that it is given under: the one asked for, or else the usual one. -/
def mediaType (a : Attachment) (contentType : Option String) : Except Error MediaType :=
  MediaType.parse (contentType.getD a.usualType)

/-! ### One operation -/

/-- The eight operations are one: first the content is looked at and then the media type, and only
then the entity is changed. -/
theorem set_eq [Disk] (a : Attachment) (e : Entity) (host : Host) (contentType : Option String) :
    a.set e host contentType = match a.check >>= fun _ => a.mediaType contentType with
      | .error err => ⟨.error err, e, host.releaseBody a.body⟩
      | .ok m => ⟨.ok (), (e.withMediaType m).withBody a.body, host.releaseBody e.body⟩ := by
  cases a with
  | xml s =>
      rw [set, setXml, check]
      cases Xml.check s.toList with
      | error err =>
          rw [Host.releaseBody, body, releaseBody]
          rfl
      | ok u => rfl
  | _ => rfl

/-- The usual media types of all bodies. -/
def usualTypes : List String :=
  ["text/plain", "application/json", "application/xml", MediaType.octetStream, MediaType.formData]

theorem usualType_mem_usualTypes (a : Attachment) : a.usualType ∈ usualTypes := by
  cases a with
  | dataSource data =>
      obtain ⟨value, asJson⟩ := data
      cases value <;> simp [usualType, body, Entity.usualType, usualTypes]
  | _ => simp [usualType, body, Entity.usualType, usualTypes]

/-- Without a media type the usual one is taken, and it can be read. -/
theorem exists_mediaType_none (a : Attachment) : ∃ m, a.mediaType none = .ok m := by
  have hparse : ∀ type ∈ usualTypes, (MediaType.parse type).isOk = true := by decide +kernel
  have hok := hparse _ a.usualType_mem_usualTypes
  rw [mediaType, Option.getD_none]
  cases h : MediaType.parse a.usualType with
  | ok m => exact ⟨m, rfl⟩
  | error err =>
      rw [h] at hok
      cases hok

/-- The content is refused only where it is XML and no document. -/
theorem check_eq_ok_iff (a : Attachment) :
    a.check = .ok () ↔ ∀ s, a = .xml s → Xml.check s.toList = .ok () := by
  cases a with
  | xml s =>
      rw [check, mapError_eq_ok_iff]
      exact ⟨fun h s' hs => by cases hs; exact h, fun h => h s rfl⟩
  | _ => exact iff_of_true rfl nofun

theorem set_cases [Disk] (a : Attachment) (e : Entity) (host : Host) (contentType : Option String) :
    (∃ m, a.check = .ok () ∧ a.mediaType contentType = .ok m ∧ a.set e host contentType =
      ⟨.ok (), ⟨{ e.head with mediaType := m }, a.body⟩, host.releaseBody e.body⟩) ∨
    ∃ err, ¬ (a.check = .ok () ∧ ∃ m, a.mediaType contentType = .ok m) ∧
      a.set e host contentType = ⟨.error err, e, host.releaseBody a.body⟩ := by
  rw [set_eq]
  cases hcheck : a.check with
  | error err => exact .inr ⟨err, nofun, rfl⟩
  | ok u =>
      cases hmedia : a.mediaType contentType with
      | error err =>
          refine .inr ⟨err, ?_, rfl⟩
          rintro ⟨-, m, hm⟩
          cases hm
      | ok m => exact .inl ⟨m, rfl, rfl, rfl⟩

/-- **A body is attached or refused**, and nothing in between.  It is attached just where the media
type that is asked for can be read, or the usual one where none is, which can always be read, and
where XML is a single document.  Then the media type and the body are the ones that were given, the
sources of the old body are closed at any depth, and nothing else in the head changes.  Otherwise
the entity is as it was, with all of its parts and sources, and the body that was given is
closed. -/
theorem set_ok_or_unchanged [Disk] (a : Attachment) (e : Entity) (host : Host)
    (contentType : Option String) :
    let o := a.set e host contentType
    (o.answer = .ok () ↔ (∃ m, a.mediaType contentType = .ok m) ∧
      ∀ s, a = .xml s → Xml.check s.toList = .ok ()) ∧
    (∃ m, a.mediaType none = .ok m) ∧
    (o.answer ≠ .ok () → o.entity = e ∧
      Moves host.spills o.host.spills (e.files + bodyFiles a.body) e.files) ∧
    (o.answer = .ok () → ∃ m, a.mediaType contentType = .ok m ∧
      o.entity = ⟨{ e.head with mediaType := m }, a.body⟩ ∧ o.entity.files = bodyFiles a.body ∧
      Moves host.spills o.host.spills e.files 0) ∧
    o.host.entropy = host.entropy := by
  intro o
  have hclosed := moves_releaseBody host.spills
  rw [← check_eq_ok_iff]
  rcases a.set_cases e host contentType with ⟨m, hcheck, hmedia, hset⟩ | ⟨err, hrefused, hset⟩
  · have ho : o = ⟨.ok (), ⟨{ e.head with mediaType := m }, a.body⟩, host.releaseBody e.body⟩ :=
      hset
    rw [ho]
    refine ⟨iff_of_true rfl ⟨⟨m, hmedia⟩, hcheck⟩, a.exists_mediaType_none,
      fun h => absurd rfl h, fun _ => ⟨m, hmedia, rfl, files_eq _, ?_⟩, rfl⟩
    rw [files_eq]
    exact hclosed e.body
  · have ho : o = ⟨.error err, e, host.releaseBody a.body⟩ := hset
    rw [ho]
    refine ⟨iff_of_false nofun fun h => hrefused ⟨h.2, h.1⟩, a.exists_mediaType_none,
      fun _ => ⟨rfl, ?_⟩, nofun, rfl⟩
    have hmoves := (hclosed a.body).frame_left e.files
    rwa [add_zero] at hmoves

end Attachment
end Mime
