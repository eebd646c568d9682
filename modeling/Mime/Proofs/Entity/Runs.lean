import Mime.Proofs.Charset
import Mime.Proofs.Entity.Files

/-! # Runs of operations

A session works on entities, one of which is at hand, and on descendants of that one; others can
become its parts.  `Session.run` makes one step after the other, whether they succeed or not, on a
disk that may fail at any time.  What one step does with spill files (`Session.moves_step`) carries
over to a whole run (`Session.moves_run`): the files that are there after it are those of the
sources that are held, and those that the disk did not remove (`Session.exists_stuck_run`).  So on
a disk that removes all files there are as many as there are sources in one
(`Session.count_spills_run`). -/

namespace Mime

open Multipart

variable [Disk] [Charset.Codecs]

/-! ### Operations -/

/-- A byte source that a caller makes: it is in memory or a reader. -/
abbrev OwnSource := { source : ByteSource // source.file? = none }

/-- A stream that a caller makes: what a producer brings, or chunks of a source of the caller. -/
abbrev OwnStream := { stream : LiveStream // ∀ source ∈ stream.source?, source.file? = none }

/-- An operation on an entity, with its arguments. -/
inductive Operation where
  | editHead (edit : Head → Head)
  | setContentType (contentType : String)
  | setByteSource (source : OwnSource) (contentType : Option String)
  | setDataSource (data : DataSource) (contentType : Option String)
  | setText (text : String) (contentType : Option String)
  | setJson (v : Json.Value) (contentType : Option String)
  | setXml (xml : String) (contentType : Option String)
  | setByteArray (bytes : Bytes) (contentType : Option String)
  | setLiveStream (stream : OwnStream) (contentType : Option String)
  | setParts (n : Nat) (contentType : Option String)
  | parts (limits : Limits)
  | parseBody (contentType : String) (limits : Limits) (source : OwnSource)
  | encodeParts
  | readBytes
  | readText
  | readJson
  | readXml
  | readSome (n : Nat)
  | nextChunk (n : Nat)
  | byteStream (size : Nat)
  | pull
  | closeByteSource
  | serialize (boundary : String) (sink : Sink)
  | writeBody (sink : Sink)

/-- The entity at hand, the other entities, and the host. -/
structure Session where
  current : Entity
  others : List Entity
  host : Host

/-! ### Parts that an entity has -/

omit [Disk] [Charset.Codecs] in
theorem Entity.body_of_partList? {e : Entity} {parts : List Entity}
    (h : e.partList?.getD [] = parts) (hne : parts ≠ []) : e.body = .partList parts := by
  obtain ⟨head, body⟩ := e
  cases body with
  | partList ps =>
      cases h
      rfl
  | _ => exact absurd h.symm hne

omit [Charset.Codecs] in
theorem Entity.body_of_parts {e : Entity} {host : Host} {limits : Limits} {parts : List Entity}
    (h : (e.parts host limits).answer = .ok parts) (hne : parts ≠ []) :
    (e.parts host limits).entity.body = .partList parts := by
  unfold Entity.parts at h ⊢
  split at h
  · cases h
  rename_i hcomposite
  rw [if_neg hcomposite]
  split at h
  · rename_i source _
    dsimp only at h ⊢
    generalize (e.withBody .empty).parseBody host e.contentType limits source = o at h ⊢
    obtain ⟨_, -, hparts⟩ := map_eq_ok_iff.mp h
    exact body_of_partList? hparts hne
  · split at h
    · cases h
      assumption
    · cases h
      exact absurd rfl hne

omit [Disk] [Charset.Codecs] in
theorem partsFiles_set {parts : List Entity} {i : Nat} {part : Entity} (h : parts[i]? = some part)
    (part' : Entity) : ∃ rest, partsFiles parts = part.files + rest ∧
      partsFiles (parts.set i part') = part'.files + rest := by
  induction parts generalizing i with
  | nil => cases h
  | cons p rest ih =>
      cases i with
      | zero =>
          cases h
          exact ⟨partsFiles rest, partsFiles_cons _ _, partsFiles_cons _ _⟩
      | succ i =>
          obtain ⟨others, hbefore, hafter⟩ := ih h
          refine ⟨p.files + others, ?_, ?_⟩
          · rw [partsFiles_cons, hbefore, add_left_comm]
          · rw [List.set_cons_succ, partsFiles_cons, hafter, add_left_comm]

omit [Disk] [Charset.Codecs] in
theorem partsFiles_eraseIdx {parts : List Entity} {i : Nat} {part : Entity}
    (h : parts[i]? = some part) :
    partsFiles parts = part.files + partsFiles (parts.eraseIdx i) := by
  induction parts generalizing i with
  | nil => cases h
  | cons p rest ih =>
      cases i with
      | zero =>
          cases h
          exact partsFiles_cons _ _
      | succ i =>
          rw [partsFiles_cons, ih h, List.eraseIdx_cons_succ, partsFiles_cons, add_left_comm]

namespace Session

/-- A new entity, and no spill files. -/
def start (entropy : Entropy) : Session :=
  ⟨.new, [], ⟨.empty, entropy⟩⟩

/-- The session with what an operation leaves. -/
def keep {α : Type} (s : Session) (o : Outcome α) : Session :=
  ⟨o.entity, s.others, o.host⟩

/-- Performs an operation on the entity at hand.  Parts that are attached are the first of the other
entities. -/
def perform (s : Session) : Operation → Session
  | .editHead edit => { s with current := { s.current with head := edit s.current.head } }
  | .setContentType contentType =>
    match s.current.setContentType contentType with
    | .ok e => { s with current := e }
    | .error _ => s
  | .setByteSource source contentType =>
    s.keep (s.current.setByteSource s.host source contentType)
  | .setDataSource data contentType => s.keep (s.current.setDataSource s.host data contentType)
  | .setText text contentType => s.keep (s.current.setText s.host text contentType)
  | .setJson v contentType => s.keep (s.current.setJson s.host v contentType)
  | .setXml xml contentType => s.keep (s.current.setXml s.host xml contentType)
  | .setByteArray bytes contentType => s.keep (s.current.setByteArray s.host bytes contentType)
  | .setLiveStream stream contentType =>
    s.keep (s.current.setLiveStream s.host stream contentType)
  | .setParts n contentType =>
    { s with others := s.others.drop n }.keep
      (s.current.setParts s.host (s.others.take n) contentType)
  | .parts limits => s.keep (s.current.parts s.host limits)
  | .parseBody contentType limits source =>
    s.keep (s.current.parseBody s.host contentType limits source)
  | .encodeParts => s.keep (s.current.encodeParts s.host)
  | .readBytes => s.keep (s.current.readBytes s.host)
  | .readText => s.keep (s.current.readText s.host)
  | .readJson => s.keep (s.current.readJson s.host)
  | .readXml => s.keep (s.current.readXml s.host)
  | .readSome n => { s with current := (s.current.readSome n).2 }
  | .nextChunk n => s.keep (s.current.nextChunk s.host n)
  | .byteStream size =>
    match s.current.byteStream size with
    | .ok e => { s with current := e }
    | .error _ => s
  | .pull =>
    let (_, e, host) := s.current.pull s.host
    { s with current := e, host }
  | .closeByteSource => s.keep (s.current.closeByteSource s.host)
  | .serialize boundary sink =>
    let (_, e, o) := s.current.serialize boundary ⟨sink, s.host⟩
    { s with current := e, host := o.host }
  | .writeBody sink =>
    let (_, e, o) := s.current.writeBody ⟨sink, s.host⟩
    { s with current := e, host := o.host }

/-- Performs an operation on a descendant of the entity at hand.  On the way to it the parts of each
entity are asked for, which may fail. -/
def performAt (s : Session) (op : Operation) : List (Nat × Limits) → Session
  | [] => s.perform op
  | (i, limits) :: path =>
    let o := s.current.parts s.host limits
    match o.answer with
    | .error _ => s.keep o
    | .ok parts =>
      match parts[i]? with
      | none => s.keep o
      | some part =>
        let below := performAt ⟨part, s.others, o.host⟩ op path
        { below with current := o.entity.withBody (.partList (parts.set i below.current)) }

end Session

/-- A step of a session. -/
inductive Step where
  | perform (path : List (Nat × Limits)) (op : Operation)
  | begin
  | turnTo (i : Nat)
  | discard

namespace Session

/-- Performs an operation, begins an entity, turns to another one, or gives up the one at hand. -/
def step (s : Session) : Step → Session
  | .perform path op => s.performAt op path
  | .begin => ⟨.new, s.current :: s.others, s.host⟩
  | .turnTo i =>
    match s.others[i]? with
    | some e => ⟨e, s.current :: s.others.eraseIdx i, s.host⟩
    | none => s
  | .discard => ⟨s.others.headD .new, s.others.tail, s.host.releaseBody s.current.body⟩

/-- All steps, one after the other. -/
def run (s : Session) (steps : List Step) : Session :=
  steps.foldl step s

/-- The byte sources of all entities. -/
def sources (s : Session) : List ByteSource :=
  s.current.sources ++ partsSources s.others

/-- The spill files of all entities. -/
def files (s : Session) : Multiset Nat :=
  s.current.files + partsFiles s.others

/-! ### What a step does with spill files -/

omit [Charset.Codecs] in
theorem moves_keep {α : Type} (s : Session) {o : Outcome α}
    (h : Moves s.host.spills o.host.spills s.current.files o.entity.files) :
    Moves s.host.spills (s.keep o).host.spills s.files (s.keep o).files :=
  h.frame _

omit [Disk] [Charset.Codecs] in
theorem bodyFiles_of_ownStream (stream : OwnStream) :
    bodyFiles (.liveStream stream.1) = 0 := by
  obtain ⟨stream, hown⟩ := stream
  rw [bodyFiles_liveStream, LiveStream.sources]
  cases hsource : stream.source? with
  | none => rfl
  | some source => exact filesOf_of_file?_eq_none (hown source hsource)

omit [Charset.Codecs] in
theorem moves_of_files_eq (s : Session) {e : Entity} (h : e.files = s.current.files) :
    Moves s.host.spills s.host.spills s.files { s with current := e }.files := by
  have hfiles : { s with current := e }.files = s.files := by
    rw [files, files, h]
  rw [hfiles]
  exact .refl _ _

/-- **An operation** moves the files of all entities to those that are left. -/
theorem moves_perform (s : Session) (op : Operation) :
    Moves s.host.spills (s.perform op).host.spills s.files (s.perform op).files := by
  cases op with
  | editHead edit =>
      refine s.moves_of_files_eq ?_
      rw [Entity.files_eq, Entity.files_eq]
  | setContentType contentType =>
      unfold perform
      dsimp only
      split
      · rename_i e he
        obtain ⟨m, -, rfl⟩ := map_eq_ok_iff.mp he
        refine s.moves_of_files_eq ?_
        rw [Entity.files_eq, Entity.files_eq]
        rfl
      · exact .refl _ _
  | setByteSource source contentType =>
      have hown : bodyFiles (.byteSource source.1) = 0 := by
        rw [bodyFiles_byteSource, filesOf_of_file?_eq_none source.2]
      exact s.moves_keep (s.current.moves_attach_of_bodyFiles_eq_zero s.host hown)
  | setDataSource data contentType =>
      exact s.moves_keep (s.current.moves_setDataSource s.host data contentType)
  | setText text contentType =>
      exact s.moves_keep (s.current.moves_setDataSource s.host _ contentType)
  | setJson v contentType =>
      exact s.moves_keep (s.current.moves_setDataSource s.host _ contentType)
  | setXml xml contentType => exact s.moves_keep (s.current.moves_setXml s.host xml contentType)
  | setByteArray bytes contentType =>
      exact s.moves_keep (s.current.moves_setDataSource s.host _ contentType)
  | setLiveStream stream contentType =>
      exact s.moves_keep (s.current.moves_attach_of_bodyFiles_eq_zero s.host
        (bodyFiles_of_ownStream stream))
  | setParts n contentType =>
      have hattach := s.current.moves_attach s.host contentType MediaType.formData
        (.partList (s.others.take n))
      have hothers : s.files = s.current.files + bodyFiles (.partList (s.others.take n)) +
          partsFiles (s.others.drop n) := by
        rw [bodyFiles_partList, add_assoc, ← partsFiles_append, List.take_append_drop, files]
      rw [hothers]
      exact hattach.frame _
  | parts limits => exact s.moves_keep (s.current.moves_parts s.host limits)
  | parseBody contentType limits source =>
      exact s.moves_keep (s.current.moves_parseBody s.host contentType limits source)
  | encodeParts => exact s.moves_keep (s.current.moves_encodeParts s.host)
  | readBytes => exact s.moves_keep (s.current.moves_readAllBytes s.host _)
  | readText => exact s.moves_keep (s.current.moves_readAllBytes s.host _)
  | readJson => exact s.moves_keep (s.current.moves_readAllBytes s.host _)
  | readXml => exact s.moves_keep (s.current.moves_readAllBytes s.host _)
  | readSome n => exact s.moves_of_files_eq (s.current.moves_readSome n)
  | nextChunk n => exact s.moves_keep (s.current.moves_nextChunk s.host n)
  | byteStream size =>
      unfold perform
      dsimp only
      split
      · rename_i e he
        exact s.moves_of_files_eq (s.current.files_byteStream he)
      · exact .refl _ _
  | pull => exact (s.current.moves_pullItem s.host).frame _
  | closeByteSource => exact s.moves_keep (s.current.moves_closeByteSource s.host)
  | serialize boundary sink => exact (s.current.moves_serialize boundary ⟨sink, s.host⟩).frame _
  | writeBody sink => exact (s.current.moves_writeBody ⟨sink, s.host⟩).frame _

/-- An operation on a descendant changes no files but those of the entity, as one on itself. -/
theorem moves_performAt (s : Session) (op : Operation) (path : List (Nat × Limits)) :
    Moves s.host.spills (s.performAt op path).host.spills s.files (s.performAt op path).files := by
  induction path generalizing s with
  | nil => exact s.moves_perform op
  | cons level path ih =>
      obtain ⟨i, limits⟩ := level
      have hparts := s.moves_keep (s.current.moves_parts s.host limits)
      unfold performAt
      dsimp only
      split
      · exact hparts
      · rename_i parts hanswer
        split
        · exact hparts
        · rename_i part hpart
          have hne : parts ≠ [] := by
            rintro rfl
            cases hpart
          have hbody := Entity.body_of_parts hanswer hne
          generalize s.current.parts s.host limits = o at hparts hbody ⊢
          have hbelow := ih ⟨part, s.others, o.host⟩
          generalize performAt ⟨part, s.others, o.host⟩ op path = below at hbelow ⊢
          obtain ⟨rest, hbefore, hafter⟩ := partsFiles_set hpart below.current
          have hheld : (s.keep o).files =
              (⟨part, s.others, o.host⟩ : Session).files + rest := by
            rw [files, files, keep, Entity.files_eq, hbody, bodyFiles_partList, hbefore,
              add_right_comm]
          rw [hheld] at hparts
          have hleft : (Session.mk (o.entity.withBody (.partList (parts.set i below.current)))
              below.others below.host).files = below.files + rest := by
            rw [files, files, Entity.files_withBody, bodyFiles_partList, hafter, add_right_comm]
          rw [hleft]
          exact hparts.trans (hbelow.frame rest)

theorem moves_step (s : Session) (step : Step) :
    Moves s.host.spills (s.step step).host.spills s.files (s.step step).files := by
  cases step with
  | perform path op => exact s.moves_performAt op path
  | begin =>
      have hfiles : (s.step .begin).files = s.files := by
        show Entity.new.files + partsFiles (s.current :: s.others) = _
        rw [partsFiles_cons, Entity.files_new, zero_add, files]
      rw [hfiles]
      exact .refl _ _
  | turnTo i =>
      unfold Session.step
      dsimp only
      split
      · rename_i e he
        have hfiles :
            (⟨e, s.current :: s.others.eraseIdx i, s.host⟩ : Session).files = s.files := by
          rw [files, files, partsFiles_cons, partsFiles_eraseIdx he, add_left_comm]
        rw [hfiles]
        exact .refl _ _
      · exact .refl _ _
  | discard =>
      have hfiles : (s.step .discard).files = partsFiles s.others := by
        show (s.others.headD .new).files + partsFiles s.others.tail = _
        cases s.others with
        | nil => rw [List.headD_nil, List.tail_nil, partsFiles_nil, Entity.files_new, zero_add]
        | cons e rest => rw [List.headD_cons, List.tail_cons, partsFiles_cons]
      rw [hfiles, files, Entity.files_eq]
      exact (moves_releaseBody s.host.spills s.current.body).away (.refl _ _)

theorem moves_run (s : Session) (steps : List Step) :
    Moves s.host.spills (s.run steps).host.spills s.files (s.run steps).files := by
  induction steps generalizing s with
  | nil => exact .refl _ _
  | cons step steps ih => exact (s.moves_step step).trans (ih _)

omit [Disk] [Charset.Codecs] in
theorem card_files (s : Session) : s.files.card = s.sources.countP ByteSource.isSpilled := by
  rw [files, Entity.files, partsFiles, ← filesOf_append, card_filesOf, sources]

/-! ### No file is leaked or lost -/

/-- **After every run** the spill files are those of the sources that are held, and files that the
disk does not remove. -/
theorem exists_stuck_run (entropy : Entropy) (steps : List Step) :
    ∃ stuck, Stuck stuck ∧ (((start entropy).run steps).host.spills.files : Multiset Nat) =
      ((start entropy).run steps).files + stuck := by
  have hempty : (start entropy).files = 0 := by
    rw [files, start, Entity.files_new, partsFiles_nil, add_zero]
  have hmoves := (start entropy).moves_run steps
  rw [hempty] at hmoves
  exact hmoves.exists_stuck rfl

/-- On a disk that removes all files, there are as many as there are sources in one. -/
theorem count_run (hremove : ∀ file, Disk.remove file = .ok ()) (entropy : Entropy)
    (steps : List Step) : ((start entropy).run steps).host.spills.count =
      ((start entropy).run steps).sources.countP ByteSource.isSpilled := by
  obtain ⟨stuck, hstuck, hfiles⟩ := exists_stuck_run entropy steps
  rw [hstuck.eq_zero hremove, add_zero] at hfiles
  rw [← card_files, ← hfiles]
  rfl

omit [Charset.Codecs] in
theorem moves_of_decode_error {boundary : String} {limits : Limits} {source : ByteSource}
    {spills left : Spills} {err : Error}
    (h : decode boundary limits source spills = (.error err, left)) : Moves spills left 0 0 := by
  have hmoves := moves_decode boundary limits source spills
  rwa [h, filesOfAnswer_error] at hmoves

/-- **No spill file is leaked or lost.**  Whatever fails on the disk, after every run the spill
files are those of the sources that are held, and files that the disk does not remove; if it removes
all files, there are as many as there are sources in one.  Where a message or the parts of an entity
cannot be read, no file is left that was made for them, and a body that is replaced takes its files
with it, those of nested parts included. -/
theorem count_spills_run (entropy : Entropy) (steps : List Step) :
    (∃ stuck, Stuck stuck ∧ (((start entropy).run steps).host.spills.files : Multiset Nat) =
        ((start entropy).run steps).files + stuck) ∧
      ((∀ file, Disk.remove file = .ok ()) → ((start entropy).run steps).host.spills.count =
        ((start entropy).run steps).sources.countP ByteSource.isSpilled) ∧
      (∀ boundary limits source spills err left,
        decode boundary limits source spills = (.error err, left) → Moves spills left 0 0) ∧
      (∀ (e : Entity) host contentType limits source err,
        (e.parseBody host contentType limits source).answer = .error err →
        (e.parseBody host contentType limits source).entity = e ∧
          Moves host.spills (e.parseBody host contentType limits source).host.spills 0 0) ∧
      (∀ (e : Entity) host limits source err, e.body = .byteSource source →
        e.mediaType.isComposite = true → (e.parts host limits).answer = .error err →
        (e.parts host limits).entity.sources = [] ∧
          Moves host.spills (e.parts host limits).host.spills (filesOf [source]) 0) ∧
      ∀ (e : Entity) host contentType usual body,
        (e.attach host contentType usual body).answer = .ok () →
        (e.attach host contentType usual body).entity.sources = bodySources body ∧
          Moves host.spills (e.attach host contentType usual body).host.spills
            (filesOf e.sources) 0 :=
  ⟨exists_stuck_run entropy steps, fun hremove => count_run hremove entropy steps,
    fun _ _ _ _ _ _ => moves_of_decode_error, fun e host _ _ _ _ => e.parseBody_of_error host,
    fun e host _ _ _ => e.parts_of_error host, fun e host _ _ _ => e.attach_of_ok host⟩

end Session

/-- A disk that removes all files and fails otherwise now and then: file 1 is full after one byte,
file 2 cannot be read from its start, file 3 cannot be made, and file 4 brings one byte only. -/
@[reducible] def faultyDisk : Disk where
  path file := "spill-" ++ toString file
  create file := if file = 3 then .error ⟨.permissionDenied, "read only"⟩ else .ok ()
  write file held := if file = 1 ∧ held = 1 then .error ⟨.other, "full"⟩ else .ok ()
  flush _ := .ok ()
  rewind file := if file = 2 then .error ⟨.other, "stuck"⟩ else .ok ()
  read file bytes :=
    if file = 4 then [.ok (bytes.take 1), .error ⟨.unexpectedEof, "gone"⟩] else [.ok bytes]
  remove _ := .ok ()

namespace Session

/-- Two parts of two lines each. -/
def twoTexts : ByteSource :=
  .ofBytes (Utf8.ofString "--b\r\n\r\na\r\nb\r\n--b\r\n\r\nc\r\nd\r\n--b--")

/-- The message is read again and again.  On `faultyDisk` this fails three times, in its second part
and twice in the first one.  Then the bytes of the first part are asked for, and a stream is made of
the second one. -/
def faultySteps : List Step :=
  let limits : Limits := ⟨0, 8, 1⟩
  let attempt : List Step :=
    [.perform [] (.setByteSource ⟨twoTexts, rfl⟩ (some "multipart/mixed; boundary=b")),
      .perform [] (.parts limits)]
  attempt ++ attempt ++ attempt ++ attempt ++
    [.perform [(0, limits)] .readBytes, .perform [(1, limits)] (.byteStream 2)]

omit [Disk] [Charset.Codecs] in
/-- The stream holds the only file that is left of six. -/
theorem count_spills_run_faultySteps :
    let s := @run faultyDisk .halfWidth (start Entity.zeroHost.entropy) faultySteps
    s.host.spills = ⟨[5], 6⟩ ∧ s.sources.countP ByteSource.isSpilled = 1 ∧
      ∃ err left, @decode faultyDisk "b" ⟨0, 8, 1⟩ twoTexts ⟨[7], 0⟩ = (.error err, left) ∧
        @Moves faultyDisk ⟨[7], 0⟩ left 0 0 := by
  intro s
  obtain ⟨-, hcount, hdecode, -⟩ :=
    @count_spills_run faultyDisk .halfWidth Entity.zeroHost.entropy faultySteps
  have hspills : s.host.spills = ⟨[5], 6⟩ := by decide +kernel
  have herror : (@decode faultyDisk "b" ⟨0, 8, 1⟩ twoTexts ⟨[7], 0⟩).1.toOption.isNone = true := by
    decide +kernel
  refine ⟨hspills, ?_, ?_⟩
  · rw [← hcount fun _ => rfl, hspills]
    rfl
  · rcases h : @decode faultyDisk "b" ⟨0, 8, 1⟩ twoTexts ⟨[7], 0⟩ with ⟨answer, left⟩
    cases answer with
    | ok parts =>
        rw [h] at herror
        cases herror
    | error err => exact ⟨err, left, rfl, hdecode _ _ _ _ _ _ h⟩

end Session

end Mime
