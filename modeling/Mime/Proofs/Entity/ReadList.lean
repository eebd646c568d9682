import Mathlib.Data.List.Forall2
import Mime.Entity.Parts
import Mime.Proofs.MediaType
import Mime.Proofs.Multipart.RoundTrip

/-! # Reading the parts of one list

The parts of an entity that holds bytes are what its raw parts make up one by one, by the header
lines and the content of each (`populate_eq_ok_iff`).  So reading them succeeds where all raw parts
are read and their header lines can be read (`parts_of_decode`), as those of a message that was
written are (`parts_of_recoverable`), and where it succeeds and there are any, it has done so in
this way (`decode_of_parts`). -/

namespace Mime.Entity

open Multipart

/-! ### Bytes of a source -/

theorem flatten_of_mapM {arrivals : List Arrival} {pieces : List Bytes}
    (h : arrivals.mapM id = .ok pieces) : flatten arrivals = pieces.flatten.map .ok := by
  induction arrivals generalizing pieces with
  | nil =>
      cases h
      rfl
  | cons arrival rest ih =>
      rw [List.mapM_cons] at h
      obtain ⟨bytes, hbytes, hpieces⟩ := bind_eq_ok_iff.mp h
      obtain ⟨pieces', hrest, hcons⟩ := bind_eq_ok_iff.mp hpieces
      cases hcons
      obtain rfl : arrival = .ok bytes := hbytes
      rw [List.flatten_cons, List.map_append, ← ih hrest]
      rfl

theorem flatten_of_readAll {source : ByteSource} {bytes : Bytes}
    (h : source.readAll = .ok bytes) : flatten source.arrivals = bytes.map .ok := by
  obtain ⟨pieces, hpieces, rfl⟩ := map_eq_ok_iff.mp h
  exact flatten_of_mapM hpieces

theorem readAll_ofBytes (bytes : Bytes) : (ByteSource.ofBytes bytes).readAll = .ok bytes := by
  show Except.ok (List.flatten [bytes]) = _
  rw [List.flatten_singleton]

/-- What an entity says, and what is read of the bytes it holds. -/
def reading (e : Entity) : Head × Option (Except IoError Bytes) :=
  (e.head, e.byteSource?.map ByteSource.readAll)

theorem exists_source_of_reading {d : Entity} {head : Head} {bytes : Bytes}
    (h : d.reading = (head, some (.ok bytes))) :
    ∃ source, d = ⟨head, .byteSource source⟩ ∧ source.readAll = .ok bytes := by
  obtain ⟨head', body⟩ := d
  obtain ⟨rfl, hbytes⟩ := Prod.mk.inj h
  cases body with
  | byteSource source => exact ⟨source, rfl, Option.some.inj hbytes⟩
  | empty => cases hbytes
  | dataSource data => cases hbytes
  | partList parts => cases hbytes
  | liveStream stream => cases hbytes

/-! ### Parts that raw parts make up -/

/-- An entity says what the header lines of a raw part say, and holds its content. -/
def IsPopulated (raw : RawPart) (d : Entity) : Prop :=
  ∃ head, Head.ofHeaders raw.headers = .ok head ∧ d = ⟨head, .byteSource raw.body⟩

theorem populate_eq_ok_iff [Disk] {raws : List RawPart} {done ds : List Entity}
    {spills spills' : Spills} : populate done raws spills = (.ok ds, spills') ↔
      spills' = spills ∧ ∃ es, ds = done.reverse ++ es ∧ List.Forall₂ IsPopulated raws es := by
  induction raws generalizing done with
  | nil =>
      constructor
      · intro h
        cases h
        exact ⟨rfl, [], (List.append_nil _).symm, .nil⟩
      · rintro ⟨rfl, es, rfl, hes⟩
        cases hes
        rw [populate, List.append_nil]
  | cons raw raws ih =>
      rw [populate]
      cases hhead : Head.ofHeaders raw.headers with
      | error e =>
          constructor
          · nofun
          · rintro ⟨-, es, -, hes⟩
            cases hes with
            | cons hd _ =>
              obtain ⟨head, he, -⟩ := hd
              rw [hhead] at he
              cases he
      | ok head =>
          dsimp only
          rw [ih]
          constructor
          · rintro ⟨rfl, es, rfl, hes⟩
            refine ⟨rfl, ⟨head, .byteSource raw.body⟩ :: es, ?_, .cons ⟨head, hhead, rfl⟩ hes⟩
            rw [List.reverse_cons, List.append_assoc, List.singleton_append]
          · rintro ⟨rfl, es, rfl, hes⟩
            cases hes with
            | @cons _ d _ es hd hes =>
              obtain ⟨head', he, rfl⟩ := hd
              cases hhead.symm.trans he
              refine ⟨rfl, es, ?_, hes⟩
              rw [List.reverse_cons, List.append_assoc, List.singleton_append]

theorem exists_raw_of_mem {raws : List RawPart} {ds : List Entity} {d : Entity}
    (h : List.Forall₂ IsPopulated raws ds) (hd : d ∈ ds) : ∃ raw ∈ raws, IsPopulated raw d := by
  induction h with
  | nil => cases hd
  | cons hone _ ih =>
      rcases List.mem_cons.mp hd with rfl | hd
      · exact ⟨_, List.mem_cons_self, hone⟩
      · obtain ⟨raw, hraw, hone⟩ := ih hd
        exact ⟨raw, List.mem_cons_of_mem _ hraw, hone⟩

/-- Raw parts that are read as items were written make up entities that say what the header lines of
the items do. -/
theorem exists_populated {α : Type} {written : α → Headers × Bytes} {head : α → Head}
    {items : List α} {raws : List RawPart}
    (hraws : raws.map RawPart.read = (items.map written).map readable)
    (hhead : ∀ a ∈ items, Head.ofHeaders (written a).1 = .ok (head a)) :
    ∃ ds, List.Forall₂ IsPopulated raws ds ∧
      ds.map reading = items.map fun a => (head a, some (.ok (written a).2)) := by
  induction items generalizing raws with
  | nil =>
      obtain rfl := List.map_eq_nil_iff.mp hraws
      exact ⟨[], .nil, rfl⟩
  | cons a items ih =>
      obtain ⟨raw, raws, rfl, hraw, hrest⟩ := List.map_eq_cons_iff.mp hraws
      obtain ⟨ds, hds, hreading⟩ := ih hrest fun b hb => hhead b (List.mem_cons_of_mem _ hb)
      have hheaders : raw.headers = (written a).1 := congrArg Prod.fst hraw
      have hbytes : raw.body.readAll = .ok (written a).2 := congrArg Prod.snd hraw
      have hone : reading ⟨head a, .byteSource raw.body⟩ = (head a, some (.ok (written a).2)) := by
        rw [← hbytes]
        rfl
      refine ⟨⟨head a, .byteSource raw.body⟩ :: ds, .cons ⟨head a, ?_, rfl⟩ hds, ?_⟩
      · rw [hheaders]
        exact hhead a List.mem_cons_self
      · rw [List.map_cons, List.map_cons, hreading, hone]

/-! ### The parts of an entity -/

theorem namesMultipart_format {m : MediaType} (hmulti : m.isMultipart = true) :
    namesMultipart m.format = true := by
  have hprimary : m.primary = "multipart" := beq_iff_eq.mp hmulti
  have hne : m.isEmpty = false := by
    rw [MediaType.isEmpty, hprimary]
    rfl
  have htake : m.format.toList.take 10 = "multipart/".toList := by
    rw [MediaType.toList_format hne, MediaType.types, hprimary]
    rfl
  rw [namesMultipart, htake]
  decide

section parts

variable {head : Head} {source : ByteSource} {limits : Limits} {boundary : String}

theorem parts_eq (hmulti : head.mediaType.isMultipart = true) (host : Host) :
    parts ⟨head, .byteSource source⟩ host limits =
      let o := parseBody ⟨head, .empty⟩ host head.mediaType.format limits source
      ⟨o.answer.map fun _ => o.entity.partList?.getD [], o.entity, o.host.release source⟩ := by
  have hcomposite : head.mediaType.isComposite = true := by
    rw [MediaType.isComposite, hmulti]
    rfl
  rw [parts, mediaType, hcomposite]
  rfl

theorem parts_partList (hmulti : head.mediaType.isMultipart = true) (ds : List Entity)
    (host : Host) : parts ⟨head, .partList ds⟩ host limits =
      ⟨.ok ds, ⟨head, .partList ds⟩, host⟩ := by
  rw [parts, mediaType, MediaType.isComposite, hmulti]
  rfl

theorem rawParts_eq {value : String} {m : MediaType} (hparse : MediaType.parse value = .ok m)
    (hb : m.boundary? = some boundary) (spills : Spills) :
    rawParts value limits source spills = decode boundary limits source spills := by
  rw [rawParts, hparse]
  dsimp only
  rw [hb]

theorem decode_of_rawParts {value : String} {raws : List RawPart} {spills spills' : Spills}
    (h : rawParts value limits source spills = (.ok raws, spills')) :
    ∃ m boundary, MediaType.parse value = .ok m ∧ m.boundary? = some boundary ∧
      decode boundary limits source spills = (.ok raws, spills') := by
  unfold rawParts at h
  split at h
  · cases h
  · rename_i m hparse
    split at h
    · cases h
    · rename_i boundary hb
      exact ⟨m, boundary, hparse, hb, h⟩

/-- **Parts that are read** are those that the raw parts make up; the entity holds them then. -/
theorem parts_of_decode {m : MediaType} {raws : List RawPart} {ds : List Entity} {host : Host}
    {spills : Spills} (hmulti : head.mediaType.isMultipart = true)
    (hparse : MediaType.parse head.mediaType.format = .ok m) (hb : m.boundary? = some boundary)
    (hdecode : decode boundary limits source host.spills = (.ok raws, spills))
    (hds : List.Forall₂ IsPopulated raws ds) (hne : ds ≠ []) :
    (parts ⟨head, .byteSource source⟩ host limits).answer = .ok ds ∧
      (parts ⟨head, .byteSource source⟩ host limits).entity = ⟨head, .partList ds⟩ := by
  have hraws : rawParts head.mediaType.format limits source host.spills =
      decode boundary limits source host.spills := rawParts_eq hparse hb host.spills
  have hpopulate : populate [] raws spills = (.ok ds, spills) :=
    populate_eq_ok_iff.mpr ⟨rfl, ds, rfl, hds⟩
  have hbody : (parseBody ⟨head, .empty⟩ host head.mediaType.format limits source).answer = .ok () ∧
      (parseBody ⟨head, .empty⟩ host head.mediaType.format limits source).entity =
        ⟨head, .partList ds⟩ := by
    cases raws with
    | nil =>
        cases hds
        exact absurd rfl hne
    | cons raw rest =>
        rw [parseBody, if_neg (by simp [namesMultipart_format hmulti]), hraws, hdecode]
        dsimp only
        rw [hpopulate]
        exact ⟨rfl, rfl⟩
  rw [parts_eq hmulti]
  dsimp only
  rw [hbody.1, hbody.2]
  exact ⟨rfl, rfl⟩

/-- **The parts of a message that was written are read**, and say what the header lines that they
were written with do. -/
theorem parts_of_recoverable {α : Type} {items : List α} {written : α → Headers × Bytes}
    {said : α → Head} {m : MediaType} (hmulti : head.mediaType.isMultipart = true)
    (hparse : MediaType.parse head.mediaType.format = .ok m) (hb : m.boundary? = some boundary)
    (hvalid : Boundary.isValid boundary.toList = true)
    (hread : source.readAll = .ok (messageBytes boundary (items.map written))) (hne : items ≠ [])
    (hitems : ∀ a ∈ items, Recoverable boundary limits (written a))
    (hsaid : ∀ a ∈ items, Head.ofHeaders (recovered (written a)).1 = .ok (said a)) (host : Host) :
    ∃ ds, (parts ⟨head, .byteSource source⟩ host limits).answer = .ok ds ∧
      (parts ⟨head, .byteSource source⟩ host limits).entity = ⟨head, .partList ds⟩ ∧
      ds.map reading = items.map fun a => (said a, some (.ok (written a).2)) := by
  obtain ⟨raws, spills, hdecode, hraws⟩ := decode_of_recoverable hvalid (by simpa using hne)
    (flatten_of_readAll hread) (List.forall_mem_map.mpr hitems) host.spills
  have hwritten : (items.map written).map recovered = items.map fun a => recovered (written a) :=
    List.map_map
  rw [hwritten] at hraws
  obtain ⟨ds, hds, hreading⟩ := exists_populated hraws hsaid
  have hds_ne : ds ≠ [] := by
    rintro rfl
    exact hne (List.map_eq_nil_iff.mp hreading.symm)
  obtain ⟨hanswer, hentity⟩ := parts_of_decode hmulti hparse hb hdecode hds hds_ne
  exact ⟨ds, hanswer, hentity, hreading⟩

theorem decode_of_parts {ds : List Entity} {host : Host}
    (hmulti : head.mediaType.isMultipart = true)
    (h : (parts ⟨head, .byteSource source⟩ host limits).answer = .ok ds) (hne : ds ≠ []) :
    ∃ m boundary raws spills, MediaType.parse head.mediaType.format = .ok m ∧
      m.boundary? = some boundary ∧
      decode boundary limits source host.spills = (.ok raws, spills) ∧
      List.Forall₂ IsPopulated raws ds ∧
      (parts ⟨head, .byteSource source⟩ host limits).entity = ⟨head, .partList ds⟩ := by
  rw [parts_eq hmulti] at h ⊢
  rw [parseBody, if_neg (by simp [namesMultipart_format hmulti])] at h ⊢
  cases hraws : rawParts head.mediaType.format limits source host.spills with
  | mk answer spills =>
    rw [hraws] at h
    cases answer with
    | error e => cases h
    | ok raws =>
        obtain ⟨m, boundary, hparse, hb, hdecode⟩ := decode_of_rawParts hraws
        cases raws with
        | nil =>
            cases h
            exact absurd rfl hne
        | cons raw rest =>
            dsimp only at h ⊢
            cases hpopulate : populate [] (raw :: rest) spills with
            | mk answer spills' =>
              rw [hpopulate] at h
              cases answer with
              | error e => cases h
              | ok ds' =>
                  cases h
                  obtain ⟨-, es, rfl, hes⟩ := populate_eq_ok_iff.mp hpopulate
                  exact ⟨m, boundary, _, spills, hparse, hb, hdecode, hes, rfl⟩

end parts

end Mime.Entity
