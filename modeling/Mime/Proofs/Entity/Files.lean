import Mime.Entity.Output
import Mime.Entity.Parts
import Mime.Proofs.Entity.Writing
import Mime.Proofs.Multipart.Files

/-! # Spill files that an entity holds

The sources of an entity are its byte source, the one that its stream holds, and those of its parts
at any depth.  Every operation on an entity moves the files of its sources to those of the entity it
leaves, whether it succeeds or not: a body that is replaced is closed (`moves_attach`), parts that
cannot be populated are closed (`moves_populate`), and a source that is read or written to its end
is closed (`moves_writeBody`). -/

namespace Mime

open Multipart

/-! ### Sources of a tree -/

mutual

/-- The byte sources in an entity, at any depth. -/
def Entity.sources (e : Entity) : List ByteSource :=
  match e with
  | ⟨_, body⟩ => bodySources body

/-- The byte sources in a body, at any depth. -/
def bodySources (b : Body Entity) : List ByteSource :=
  match b with
  | .empty | .dataSource _ => []
  | .byteSource source => [source]
  | .partList parts => partsSources parts
  | .liveStream stream => stream.sources

/-- The byte sources in parts, at any depth. -/
def partsSources (parts : List Entity) : List ByteSource :=
  match parts with
  | [] => []
  | p :: rest => p.sources ++ partsSources rest

end

/-- The spill files of an entity. -/
def Entity.files (e : Entity) : Multiset Nat :=
  filesOf e.sources

/-- The spill files of a body. -/
def bodyFiles (b : Body Entity) : Multiset Nat :=
  filesOf (bodySources b)

/-- The spill files of parts. -/
def partsFiles (parts : List Entity) : Multiset Nat :=
  filesOf (partsSources parts)

theorem Entity.files_eq (e : Entity) : e.files = bodyFiles e.body := by
  obtain ⟨head, body⟩ := e
  rw [files, sources, bodyFiles]

@[simp] theorem bodyFiles_empty : bodyFiles .empty = 0 := by
  rw [bodyFiles, bodySources, filesOf_nil]

@[simp] theorem bodyFiles_dataSource (data : DataSource) : bodyFiles (.dataSource data) = 0 := by
  rw [bodyFiles, bodySources, filesOf_nil]

@[simp] theorem bodyFiles_byteSource (source : ByteSource) :
    bodyFiles (.byteSource source) = filesOf [source] := by
  rw [bodyFiles, bodySources]

@[simp] theorem bodyFiles_liveStream (stream : LiveStream) :
    bodyFiles (.liveStream stream) = filesOf stream.sources := by
  rw [bodyFiles, bodySources]

@[simp] theorem bodyFiles_partList (parts : List Entity) :
    bodyFiles (.partList parts) = partsFiles parts := by
  rw [bodyFiles, bodySources, partsFiles]

@[simp] theorem Entity.files_new : Entity.new.files = 0 := by
  rw [files_eq, Entity.new, bodyFiles_empty]

@[simp] theorem partsFiles_nil : partsFiles [] = 0 := by
  rw [partsFiles, partsSources, filesOf_nil]

@[simp] theorem partsFiles_cons (p : Entity) (rest : List Entity) :
    partsFiles (p :: rest) = p.files + partsFiles rest := by
  rw [partsFiles, partsSources, filesOf_append, Entity.files, partsFiles]

theorem partsFiles_append (ps qs : List Entity) :
    partsFiles (ps ++ qs) = partsFiles ps + partsFiles qs := by
  induction ps with
  | nil => rw [List.nil_append, partsFiles_nil, zero_add]
  | cons p ps ih => rw [List.cons_append, partsFiles_cons, partsFiles_cons, ih, add_assoc]

theorem partsFiles_reverse (parts : List Entity) :
    partsFiles parts.reverse = partsFiles parts := by
  induction parts with
  | nil => rfl
  | cons p rest ih =>
      rw [List.reverse_cons, partsFiles_append, ih, partsFiles_cons, partsFiles_cons,
        partsFiles_nil, add_zero, add_comm]

variable [Disk]

/-! ### Closing -/

mutual

theorem moves_releaseEntity (s : Spills) : ∀ e : Entity, Moves s (e.release s) e.files 0
  | ⟨head, body⟩ => by
      rw [Entity.files_eq, Entity.release]
      exact moves_releaseBody s body

/-- **A body that is closed** takes the files of all its sources with it, at any depth. -/
theorem moves_releaseBody (s : Spills) :
    ∀ b : Body Entity, Moves s (releaseBody b s) (bodyFiles b) 0
  | .empty => by
      rw [bodyFiles_empty, releaseBody]
      exact .refl s 0
  | .dataSource data => by
      rw [bodyFiles_dataSource, releaseBody]
      exact .refl s 0
  | .byteSource source => by
      rw [bodyFiles_byteSource, releaseBody]
      exact moves_release s source
  | .partList parts => by
      rw [bodyFiles_partList, releaseBody]
      exact moves_releaseParts s parts
  | .liveStream stream => by
      rw [bodyFiles_liveStream, releaseBody]
      exact moves_releaseStream s stream

theorem moves_releaseParts (s : Spills) :
    ∀ parts : List Entity, Moves s (releaseParts parts s) (partsFiles parts) 0
  | [] => by
      rw [partsFiles_nil, releaseParts]
      exact .refl s 0
  | p :: rest => by
      rw [partsFiles_cons, releaseParts]
      exact (moves_releaseEntity s p).away (moves_releaseParts _ rest)

end

namespace Entity

variable (e : Entity) (host : Host)

omit [Disk] in
@[simp] theorem files_withBody (b : Body Entity) : (e.withBody b).files = bodyFiles b :=
  files_eq _

/-! ### Attaching -/

theorem attach_of_ok {contentType : Option String} {usual : String} {body : Body Entity}
    (h : (e.attach host contentType usual body).answer = .ok ()) :
    (e.attach host contentType usual body).entity.sources = bodySources body ∧
      Moves host.spills (e.attach host contentType usual body).host.spills e.files 0 := by
  unfold attach at h ⊢
  split at h
  · cases h
  · rw [files_eq]
    exact ⟨by rw [withBody, sources], moves_releaseBody host.spills e.body⟩

/-- A body that is attached takes the place of the old one, which is closed; one that is refused is
closed itself. -/
theorem moves_attach (contentType : Option String) (usual : String) (body : Body Entity) :
    Moves host.spills (e.attach host contentType usual body).host.spills
      (e.files + bodyFiles body) (e.attach host contentType usual body).entity.files := by
  unfold attach
  split
  · have h := (moves_releaseBody host.spills body).frame_left e.files
    rwa [add_zero] at h
  · rw [files_withBody, files_eq]
    exact (moves_releaseBody host.spills e.body).away (.refl _ _)

theorem moves_replaceBody (body : Body Entity) :
    Moves host.spills (e.replaceBody host body).2.spills (e.files + bodyFiles body)
      (e.replaceBody host body).1.files := by
  unfold replaceBody
  rw [files_withBody, files_eq]
  exact (moves_releaseBody host.spills e.body).away (.refl _ _)

theorem moves_attach_of_bodyFiles_eq_zero {contentType : Option String} {usual : String}
    {body : Body Entity} (h : bodyFiles body = 0) :
    Moves host.spills (e.attach host contentType usual body).host.spills e.files
      (e.attach host contentType usual body).entity.files := by
  have hattach := e.moves_attach host contentType usual body
  rwa [h, add_zero] at hattach

theorem moves_setDataSource (data : DataSource) (contentType : Option String) :
    Moves host.spills (e.setDataSource host data contentType).host.spills e.files
      (e.setDataSource host data contentType).entity.files :=
  e.moves_attach_of_bodyFiles_eq_zero host (bodyFiles_dataSource data)

theorem moves_setXml (xml : String) (contentType : Option String) :
    Moves host.spills (e.setXml host xml contentType).host.spills e.files
      (e.setXml host xml contentType).entity.files := by
  unfold setXml
  split
  · exact .refl _ _
  · exact e.moves_setDataSource host _ contentType

/-! ### Reading -/

theorem moves_readAllBytes (missing : MissingContent) :
    Moves host.spills (e.readAllBytes host missing).host.spills e.files
      (e.readAllBytes host missing).entity.files := by
  obtain ⟨head, body⟩ := e
  cases body with
  | byteSource source =>
      rw [files_eq, readAllBytes]
      dsimp only
      rw [files_withBody, bodyFiles_byteSource, bodyFiles_empty]
      exact moves_release host.spills source
  | _ => exact .refl _ _

omit [Disk] in
theorem moves_readSome (n : Nat) : (e.readSome n).2.files = e.files := by
  obtain ⟨head, body⟩ := e
  cases body with
  | byteSource source =>
      rw [readSome]
      dsimp only
      rw [files_withBody, bodyFiles_byteSource, files_eq, bodyFiles_byteSource]
      exact filesOf_congr (source.file?_read n)
  | _ => rfl

theorem moves_closeByteSource :
    Moves host.spills (e.closeByteSource host).host.spills e.files
      (e.closeByteSource host).entity.files := by
  obtain ⟨head, body⟩ := e
  cases body with
  | byteSource source =>
      rw [closeByteSource]
      dsimp only
      rw [files_withBody, bodyFiles_empty, files_eq, bodyFiles_byteSource]
      exact moves_release host.spills source
  | _ => exact .refl _ _

theorem moves_nextChunk (n : Nat) :
    Moves host.spills (e.nextChunk host n).host.spills e.files
      (e.nextChunk host n).entity.files := by
  obtain ⟨head, body⟩ := e
  cases body with
  | byteSource source =>
      have hfile := source.file?_read (max n 1)
      rw [files_eq, bodyFiles_byteSource]
      unfold nextChunk
      dsimp only
      generalize source.read (max n 1) = taken at hfile ⊢
      obtain ⟨answer, left⟩ := taken
      rw [← filesOf_congr hfile]
      match answer with
      | .error _ =>
          dsimp only
          rw [files_withBody, bodyFiles_byteSource]
          exact .refl _ _
      | .ok [] =>
          have hclose := moves_closeByteSource ⟨head, .byteSource left⟩ host
          rwa [files_eq, bodyFiles_byteSource] at hclose
      | .ok (_ :: _) =>
          dsimp only
          rw [files_withBody, bodyFiles_byteSource]
          exact .refl _ _
  | _ => exact .refl _ _

omit [Disk] in
theorem files_byteStream {e' : Entity} {size : Nat} (h : e.byteStream size = .ok e') :
    e'.files = e.files := by
  obtain ⟨head, body⟩ := e
  cases body with
  | byteSource source =>
      cases h
      rw [files_withBody, bodyFiles_liveStream, files_eq, bodyFiles_byteSource]
      rfl
  | liveStream stream =>
      cases h
      rfl
  | _ => cases h

theorem moves_pullItem :
    Moves host.spills (e.pull host).2.2.spills e.files (e.pull host).2.1.files := by
  obtain ⟨head, body⟩ := e
  cases body with
  | liveStream stream =>
      rw [pull]
      dsimp only
      rw [files_withBody, bodyFiles_liveStream, files_eq, bodyFiles_liveStream]
      exact moves_pull stream host.spills
  | _ => exact .refl _ _

/-! ### Parts from bytes -/

/-- Parts that are populated hold the files of what was read.  If one cannot be, all are closed. -/
theorem moves_populate (done : List Entity) (parts : List RawPart) (s : Spills) :
    Moves s (populate done parts s).2 (partsFiles done + filesOfParts parts)
      (filesOfAnswer partsFiles (populate done parts s).1) := by
  induction parts generalizing done with
  | nil =>
      rw [populate, filesOfAnswer_ok, partsFiles_reverse, filesOfParts_nil, add_zero]
      exact .refl _ _
  | cons p rest ih =>
      rw [populate, filesOfParts_cons]
      cases Head.ofHeaders p.headers with
      | ok head =>
          have h := ih ({ head, body := .byteSource p.body } :: done)
          rw [partsFiles_cons, files_eq, bodyFiles_byteSource] at h
          rwa [add_left_comm, ← add_assoc]
      | error e =>
          dsimp only
          rw [filesOfAnswer_error, add_comm, add_assoc, ← partsFiles_reverse]
          exact (moves_release s p.body).away
            ((moves_closeParts rest _).away (moves_releaseParts _ done.reverse))

theorem moves_rawParts (contentType : String) (limits : Limits) (source : ByteSource)
    (s : Spills) :
    Moves s (rawParts contentType limits source s).2 0
      (filesOfAnswer filesOfParts (rawParts contentType limits source s).1) := by
  unfold rawParts
  split
  · exact .refl s 0
  split
  · exact .refl s 0
  · exact moves_decode _ limits source s

theorem moves_parseBody (contentType : String) (limits : Limits) (source : ByteSource) :
    Moves host.spills (e.parseBody host contentType limits source).host.spills e.files
      (e.parseBody host contentType limits source).entity.files := by
  have hraw := (moves_rawParts contentType limits source host.spills).frame e.files
  rw [zero_add] at hraw
  unfold parseBody
  split
  · exact .refl _ _
  split
  · rename_i hanswer
    rwa [hanswer, filesOfAnswer_error, zero_add] at hraw
  · rename_i hanswer
    rwa [hanswer, filesOfAnswer_ok, filesOfParts_nil, zero_add] at hraw
  · rename_i raw spills _ hanswer
    rw [hanswer, filesOfAnswer_ok] at hraw
    have hparts := moves_populate [] raw spills
    rw [partsFiles_nil, zero_add] at hparts
    have hboth := hraw.trans (hparts.frame e.files)
    split
    · rename_i hanswer
      rwa [hanswer, filesOfAnswer_error, zero_add] at hboth
    · rename_i parts spills' hanswer
      rw [hanswer, filesOfAnswer_ok, add_comm, ← bodyFiles_partList] at hboth
      exact hboth.trans (e.moves_replaceBody ⟨spills', host.entropy⟩ (.partList parts))

theorem parseBody_of_error {contentType : String} {limits : Limits} {source : ByteSource}
    {err : Error} (h : (e.parseBody host contentType limits source).answer = .error err) :
    (e.parseBody host contentType limits source).entity = e ∧
      Moves host.spills (e.parseBody host contentType limits source).host.spills 0 0 := by
  have hraw := moves_rawParts contentType limits source host.spills
  unfold parseBody at h ⊢
  split at h
  · cases h
  rename_i hmultipart
  rw [if_neg hmultipart]
  split at h
  · rename_i hanswer
    rw [hanswer] at hraw
    exact ⟨rfl, hraw⟩
  · cases h
  · rename_i raw spills _ hanswer
    rw [hanswer, filesOfAnswer_ok] at hraw
    have hparts := moves_populate [] raw spills
    rw [partsFiles_nil, zero_add] at hparts
    split at h
    · rename_i hanswer
      rw [hanswer] at hparts
      exact ⟨rfl, hraw.trans hparts⟩
    · cases h

/-- Parts that are asked for hold all files that were made for them, and the byte source that they
are read from is closed. -/
theorem moves_parts (limits : Limits) :
    Moves host.spills (e.parts host limits).host.spills e.files
      (e.parts host limits).entity.files := by
  unfold parts
  split
  · exact .refl _ _
  split
  · rename_i source hbody
    have hparse := (e.withBody .empty).moves_parseBody host e.contentType limits source
    rw [files_withBody, bodyFiles_empty] at hparse
    rw [files_eq, hbody, bodyFiles_byteSource]
    dsimp only
    generalize (e.withBody .empty).parseBody host e.contentType limits source = o at hparse ⊢
    have hread := hparse.frame (filesOf [source])
    rw [zero_add, add_comm] at hread
    exact hread.trans ((moves_release o.host.spills source).away (.refl _ _))
  · split
    · exact .refl _ _
    · exact .refl _ _

/-- Where the parts cannot be read from a byte source, the entity holds nothing then, and no file is
left but those of others. -/
theorem parts_of_error {limits : Limits} {source : ByteSource} {err : Error}
    (hbody : e.body = .byteSource source) (hcomposite : e.mediaType.isComposite = true)
    (h : (e.parts host limits).answer = .error err) :
    (e.parts host limits).entity.sources = [] ∧
      Moves host.spills (e.parts host limits).host.spills (filesOf [source]) 0 := by
  have hparts : e.parts host limits =
      let o := (e.withBody .empty).parseBody host e.contentType limits source
      ⟨o.answer.map fun _ => o.entity.partList?.getD [], o.entity, o.host.release source⟩ := by
    rw [parts, hcomposite, hbody]
    rfl
  rw [hparts] at h ⊢
  dsimp only at h ⊢
  cases hanswer : ((e.withBody .empty).parseBody host e.contentType limits source).answer with
  | ok u =>
      rw [hanswer] at h
      cases h
  | error err' =>
      obtain ⟨hentity, hmoves⟩ := parseBody_of_error _ _ hanswer
      refine ⟨?_, ?_⟩
      · rw [hentity, withBody, sources, bodySources]
      · have hframed := hmoves.frame (filesOf [source])
        rw [zero_add] at hframed
        exact hframed.trans (moves_release _ source)

/-! ### Writing -/

section written

variable {α β : Type}

/-- A step of writing that moves files to those of what it leaves. -/
def WrittenMoves (s : Spills) (held : Multiset Nat) (files : α → Multiset Nat)
    (written : Written α) : Prop :=
  Moves s written.2.2.host.spills held (files written.2.1)

theorem WrittenMoves.andThen {s : Spills} {held : Multiset Nat} (files : α → Multiset Nat)
    {files' : β → Multiset Nat} {step : Written α} {stopped : α → β}
    {next : α → Output → Written β} (h : WrittenMoves s held files step)
    (hstopped : ∀ a, files' (stopped a) = files a)
    (hnext : ∀ a o, WrittenMoves o.host.spills (files a) files' (next a o)) :
    WrittenMoves s held files' (andThen step stopped next) := by
  obtain ⟨answer, a, o⟩ := step
  cases answer with
  | error err =>
      unfold WrittenMoves
      rw [andThen_error]
      dsimp only
      rw [hstopped]
      exact h
  | ok u => exact Moves.trans h (hnext a o)

end written

omit [Disk] in
theorem partsFiles_mk (head : Head) (body : Body Entity) (rest : List Entity) :
    partsFiles (⟨head, body⟩ :: rest) = bodyFiles body + partsFiles rest := by
  rw [partsFiles_cons, files_eq]

omit [Disk] in
theorem spills_settleHead (head : Head) (body : Body Entity) :
    (settleHead head body host).2.2.spills = host.spills := by
  unfold settleHead Head.withBoundary
  split
  · cases head.mediaType.boundary? with
    | some boundary => rfl
    | none => rfl
  · rfl

mutual

/-- **The body of a part that is written** keeps its files, but for a source, which is closed. -/
theorem moves_writePartBody (nested : Option String) (inForm : Bool) (o : Output) :
    ∀ body : Body Entity,
      WrittenMoves o.host.spills (bodyFiles body) bodyFiles (writePartBody nested inForm body o)
  | .empty => by
      rw [writePartBody]
      exact .refl _ _
  | .dataSource data => by
      rw [writePartBody]
      exact .refl _ _
  | .byteSource source => by
      rw [writePartBody, bodyFiles_byteSource]
      unfold WrittenMoves
      dsimp only
      rw [bodyFiles_empty]
      exact moves_release o.host.spills source
  | .liveStream stream => by
      rw [writePartBody, bodyFiles_liveStream]
      unfold WrittenMoves
      dsimp only
      rw [bodyFiles_empty]
      exact moves_releaseStream o.host.spills stream
  | .partList parts => by
      rw [bodyFiles_partList]
      unfold WrittenMoves
      cases nested with
      | some boundary =>
          rw [writePartBody]
          dsimp only
          rw [bodyFiles_partList]
          exact moves_writeParts boundary inForm true o parts
      | none =>
          rw [writePartBody]
          dsimp only
          rw [bodyFiles_partList]
          exact moves_writeParts o.host.generateBoundary.1 inForm true
            { o with host := o.host.generateBoundary.2 } parts
termination_by body => sizeOf body

/-- **Parts that are written** keep their files, but for sources, which are closed.  Where writing
stops, the parts that were not reached are as they were. -/
theorem moves_writeParts (boundary : String) (inForm first : Bool) (o : Output) :
    ∀ parts : List Entity,
      WrittenMoves o.host.spills (partsFiles parts) partsFiles
        (writeParts boundary inForm first parts o)
  | [] => by
      rw [writeParts]
      cases first with
      | true => exact .refl _ _
      | false => exact .refl _ _
  | ⟨head, body⟩ :: rest => by
      by_cases hb : first = true → Boundary.isValid boundary.toList = true
      · have hsettle := spills_settleHead o.host head body
        rw [writeParts_cons_eq hb, partsFiles_mk]
        dsimp only
        refine WrittenMoves.andThen (fun _ => bodyFiles body + partsFiles rest) ?_
          (fun _ => partsFiles_mk _ _ _) fun _ o' => ?_
        · show Moves _ (settleHead head body o.host).2.2.spills _ _
          rw [hsettle]
          exact .refl _ _
        refine WrittenMoves.andThen (fun body' => bodyFiles body' + partsFiles rest)
          ((moves_writePartBody _ _ o' body).frame _) (fun _ => partsFiles_mk _ _ _)
          fun body' o' => ?_
        unfold WrittenMoves leaving
        dsimp only
        rw [partsFiles_mk]
        exact (moves_writeParts boundary inForm false o' rest).frame_left _
      · obtain ⟨rfl, hinvalid⟩ := Classical.not_imp.mp hb
        rw [writeParts_of_not_isValid (Bool.eq_false_iff.mpr hinvalid)]
        exact .refl _ _
termination_by parts => sizeOf parts

end

theorem moves_serialize (boundary : String) (o : Output) :
    Moves o.host.spills (e.serialize boundary o).2.2.host.spills e.files
      (e.serialize boundary o).2.1.files := by
  unfold serialize
  split
  · rename_i parts hbody
    rw [files_eq, hbody, bodyFiles_partList]
    dsimp only
    rw [files_withBody, bodyFiles_partList]
    exact moves_writeParts boundary _ true o parts
  · exact .refl _ _
  · exact .refl _ _

omit [Disk] in
theorem files_ensureBoundary : (e.ensureBoundary host).2.1.files = e.files := by
  rw [files_eq, files_eq]
  rfl

omit [Disk] in
theorem spills_ensureBoundary : (e.ensureBoundary host).2.2.spills = host.spills := by
  unfold ensureBoundary Head.withBoundary
  dsimp only
  cases e.head.mediaType.boundary? with
  | some boundary => rfl
  | none => rfl

theorem moves_encodeParts :
    Moves host.spills (e.encodeParts host).host.spills e.files
      (e.encodeParts host).entity.files := by
  unfold encodeParts
  split
  · exact .refl _ _
  · have hserialize := (e.ensureBoundary host).2.1.moves_serialize (e.ensureBoundary host).1
      ⟨.unlimited, (e.ensureBoundary host).2.2⟩
    rw [files_ensureBoundary, spills_ensureBoundary] at hserialize
    dsimp only
    generalize (e.ensureBoundary host).2.1.serialize (e.ensureBoundary host).1
      ⟨.unlimited, (e.ensureBoundary host).2.2⟩ = written at hserialize ⊢
    obtain ⟨answer, e', o⟩ := written
    cases answer with
    | error err => exact hserialize
    | ok u =>
        have hreplace := e'.moves_replaceBody o.host (.byteSource (.ofBytes o.sink.data))
        have hbytes : filesOf [ByteSource.ofBytes o.sink.data] = 0 :=
          filesOf_of_file?_eq_none (ByteSource.file?_ofBytes _)
        rw [bodyFiles_byteSource, hbytes, add_zero] at hreplace
        exact hserialize.trans hreplace

theorem host_drain (stream : LiveStream) (o : Output) :
    (drain stream o).2.host = o.host.releaseStream stream := by
  unfold drain
  dsimp only
  generalize o.sink.copy stream.arrivals = copied
  obtain ⟨answer, sink⟩ := copied
  rcases answer with (_ | _) | _ <;> rfl

theorem moves_writeBody (o : Output) :
    Moves o.host.spills (e.writeBody o).2.2.host.spills e.files (e.writeBody o).2.1.files := by
  unfold writeBody
  split
  · exact .refl _ _
  · exact .refl _ _
  · have hserialize := (e.ensureBoundary o.host).2.1.moves_serialize (e.ensureBoundary o.host).1
      { o with host := (e.ensureBoundary o.host).2.2 }
    rwa [files_ensureBoundary, spills_ensureBoundary] at hserialize
  · rename_i source hbody
    dsimp only
    rw [files_withBody, bodyFiles_empty, files_eq, hbody, bodyFiles_byteSource]
    exact moves_release o.host.spills source
  · rename_i stream hbody
    dsimp only
    rw [host_drain, files_withBody, bodyFiles_empty, files_eq, hbody, bodyFiles_liveStream]
    exact moves_releaseStream o.host.spills stream

end Entity

end Mime
