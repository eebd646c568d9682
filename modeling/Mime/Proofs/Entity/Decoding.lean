import Mime.Proofs.Entity.Files
import Mime.Proofs.Entity.ReadList

/-! # What asking for parts leaves

`decodedParts` is what a source says about parts, as one computation that fails where its first
step fails.  Asking an entity for its parts has one of five outcomes (`PartsOutcome`): the entity is
not composite, or there is no byte source to read, or the source gives parts, or no parts, or a
failure.  Every outcome is one of these, whatever the entity, the limits, the source and the disk
are, and asking once more after parts were given changes nothing (`partsOutcome_parts`). -/

namespace Mime

open Multipart

/-! ### The parts that a source holds -/

/-- The boundary that the Content-Type value of a media type declares. -/
def MediaType.declaredBoundary (m : MediaType) : Except Error String := do
  let declared ← parse m.format
  match declared.boundary? with
  | some boundary => return boundary
  | none => throw (.structural .noBoundaryParameter)

/-- The entity that a raw part makes up. -/
def Multipart.RawPart.populated (raw : RawPart) : Except Error Entity := do
  let head ← Head.ofHeaders raw.headers
  return ⟨head, .byteSource raw.body⟩

/-- The parts of a source under a media type.  Only a multipart message has any. -/
def decodedParts [Disk] (m : MediaType) (limits : Limits) (source : ByteSource)
    (spills : Spills) : Except Error (List Entity) :=
  if m.isMultipart then do
    let boundary ← m.declaredBoundary.mapError .whileDecoding
    let raws ← (decode boundary limits source spills).1.mapError .whileDecoding
    (raws.mapM RawPart.populated).mapError .whilePopulating
  else return []

namespace Entity

theorem not_namesMultipart_format {m : MediaType} (hmessage : m.primary = "message") :
    namesMultipart m.format = false := by
  have hne : m.isEmpty = false := by
    rw [MediaType.isEmpty, hmessage]
    rfl
  obtain ⟨rest, hrest⟩ : ∃ rest, m.format.toList.take 10 = 'm' :: 'e' :: rest := by
    rw [MediaType.toList_format hne, MediaType.types, hmessage]
    exact ⟨_, rfl⟩
  have hmulti : "multipart/".toList = 'm' :: 'u' :: "ltipart/".toList := rfl
  rw [namesMultipart, hrest, Bool.eq_false_iff]
  intro hsame
  rw [Text.sameName_iff] at hsame
  have hletters := congrArg String.toList hsame
  rw [Text.toList_lower, Text.toList_lower, String.toList_ofList, hmulti] at hletters
  simp only [List.map_cons, List.cons.injEq] at hletters
  exact absurd hletters.2.1 (by decide)

/-! ### Reading a source -/

section reading

variable [Disk] {m : MediaType} {limits : Limits} {source : ByteSource} {spills : Spills}

theorem answer_rawParts :
    (rawParts m.format limits source spills).1 =
      m.declaredBoundary.bind fun boundary => (decode boundary limits source spills).1 := by
  unfold rawParts MediaType.declaredBoundary
  cases MediaType.parse m.format with
  | error e => rfl
  | ok declared =>
    simp only [bind, Except.bind]
    cases declared.boundary? <;> rfl

theorem answer_populate (done : List Entity) (raws : List RawPart) (spills : Spills) :
    (populate done raws spills).1 = (raws.mapM RawPart.populated).map (done.reverse ++ ·) := by
  induction raws generalizing done with
  | nil =>
    rw [populate, List.mapM_nil]
    simp [pure, Except.pure, Except.map]
  | cons raw raws ih =>
    rw [populate, List.mapM_cons, RawPart.populated]
    cases Head.ofHeaders raw.headers with
    | error e => rfl
    | ok head =>
      dsimp only
      rw [ih]
      simp only [bind, Except.bind, pure, Except.pure]
      cases raws.mapM RawPart.populated with
      | error e => rfl
      | ok ds => simp [Except.map]

theorem decodedParts_eq (hmulti : m.isMultipart = true) (spills' : Spills) :
    decodedParts m limits source spills =
      ((rawParts m.format limits source spills).1.mapError .whileDecoding).bind fun raws =>
        (populate [] raws spills').1.mapError .whilePopulating := by
  have hpopulate : ∀ raws, (populate [] raws spills').1 = raws.mapM RawPart.populated := by
    intro raws
    rw [answer_populate]
    cases raws.mapM RawPart.populated <;> rfl
  rw [decodedParts, if_pos hmulti, answer_rawParts]
  simp only [hpopulate]
  cases m.declaredBoundary <;> rfl

theorem category_of_decodedParts {err : Error}
    (h : decodedParts m limits source spills = .error err) : err.category = .parser := by
  by_cases hmulti : m.isMultipart = true
  · rw [decodedParts_eq hmulti .empty] at h
    cases hraws : (rawParts m.format limits source spills).1 with
    | error e =>
      rw [hraws] at h
      cases h
      rfl
    | ok raws =>
      rw [hraws] at h
      simp only [Except.mapError, Except.bind] at h
      cases hds : (populate [] raws .empty).1 with
      | error e =>
        rw [hds] at h
        cases h
        rfl
      | ok ds =>
        rw [hds] at h
        cases h
  · rw [decodedParts, if_neg hmulti] at h
    cases h

end reading

/-- What an entity holds after its parts were read: the parts, if there are any. -/
def bodyAfter : Except Error (List Entity) → Body Entity
  | .ok (d :: ds) => .partList (d :: ds)
  | _ => .empty

section asking

variable [Disk]

/-- Reading parts for an entity without a body gives what the source says, or fails as that does. -/
theorem parseBody_eq (head : Head) (host : Host) (limits : Limits) (source : ByteSource)
    (hcomposite : head.mediaType.isComposite = true) :
    ∃ host', parseBody ⟨head, .empty⟩ host head.mediaType.format limits source =
      ⟨(decodedParts head.mediaType limits source host.spills).map fun _ => (),
        ⟨head, bodyAfter (decodedParts head.mediaType limits source host.spills)⟩, host'⟩ := by
  by_cases hmulti : head.mediaType.isMultipart = true
  · rw [parseBody, namesMultipart_format hmulti, if_neg (by decide)]
    cases hraws : rawParts head.mediaType.format limits source host.spills with
    | mk answer spills =>
      rw [decodedParts_eq hmulti spills, hraws]
      cases answer with
      | error err => exact ⟨_, rfl⟩
      | ok raws =>
        cases raws with
        | nil => exact ⟨_, rfl⟩
        | cons raw raws =>
          simp only [Except.mapError, Except.bind]
          cases hpopulate : populate [] (raw :: raws) spills with
          | mk answer spills' =>
            cases answer with
            | error err => exact ⟨_, rfl⟩
            | ok ds =>
              obtain ⟨-, es, rfl, hes⟩ := populate_eq_ok_iff.mp hpopulate
              cases hes
              exact ⟨_, rfl⟩
  · have hmessage : head.mediaType.primary = "message" := by
      rw [MediaType.isComposite, Bool.eq_false_iff.mpr hmulti, Bool.false_or] at hcomposite
      exact beq_iff_eq.mp hcomposite
    rw [parseBody, not_namesMultipart_format hmessage, decodedParts, if_neg hmulti]
    exact ⟨host, rfl⟩

/-! ### The outcomes -/

/-- What asking an entity for its parts leaves.  An entity that is not composite fails and stays as
it is, and one that holds no byte source gives the parts it holds.  Otherwise the source is read,
and it is closed whatever becomes of it: the entity holds the parts then, or nothing where there are
none or where a failure was met. -/
inductive PartsOutcome (e : Entity) (host : Host) (limits : Limits) :
    Outcome (List Entity) → Prop
  | notComposite (err : Error) : e.mediaType.isComposite = false → err.category = .parser →
      PartsOutcome e host limits ⟨.error err, e, host⟩
  | held : e.mediaType.isComposite = true → e.byteSource? = none →
      PartsOutcome e host limits ⟨.ok (e.partList?.getD []), e, host⟩
  | parts {source : ByteSource} {ds : List Entity} {host' : Host} :
      e.mediaType.isComposite = true → e.body = .byteSource source →
      decodedParts e.mediaType limits source host.spills = .ok ds → ds ≠ [] →
      Moves host.spills host'.spills (filesOf [source]) (partsFiles ds) →
      PartsOutcome e host limits ⟨.ok ds, e.withBody (.partList ds), host'⟩
  | noParts {source : ByteSource} {host' : Host} :
      e.mediaType.isComposite = true → e.body = .byteSource source →
      decodedParts e.mediaType limits source host.spills = .ok [] →
      Moves host.spills host'.spills (filesOf [source]) 0 →
      PartsOutcome e host limits ⟨.ok [], e.withBody .empty, host'⟩
  | failure {source : ByteSource} {err : Error} {host' : Host} :
      e.mediaType.isComposite = true → e.body = .byteSource source →
      decodedParts e.mediaType limits source host.spills = .error err → err.category = .parser →
      Moves host.spills host'.spills (filesOf [source]) 0 →
      PartsOutcome e host limits ⟨.error err, e.withBody .empty, host'⟩

omit [Disk] in
theorem body_of_byteSource? {e : Entity} {source : ByteSource} (h : e.byteSource? = some source) :
    e.body = .byteSource source := by
  unfold byteSource? at h
  split at h
  · rename_i hbody
    rw [hbody, Option.some.inj h]
  · cases h

theorem parts_of_byteSource?_eq_none {e : Entity} (hcomposite : e.mediaType.isComposite = true)
    (h : e.byteSource? = none) (host : Host) (limits : Limits) :
    e.parts host limits = ⟨.ok (e.partList?.getD []), e, host⟩ := by
  obtain ⟨head, body⟩ := e
  rw [Entity.parts, hcomposite, Bool.not_true, if_neg (by decide)]
  cases body with
  | byteSource source => cases h
  | empty => rfl
  | dataSource data => rfl
  | partList parts => rfl
  | liveStream stream => rfl

theorem parts_of_byteSource {e : Entity} {source : ByteSource}
    (hcomposite : e.mediaType.isComposite = true) (hbody : e.body = .byteSource source)
    (host : Host) (limits : Limits) :
    ∃ host', e.parts host limits =
      ⟨decodedParts e.mediaType limits source host.spills,
        e.withBody (bodyAfter (decodedParts e.mediaType limits source host.spills)), host'⟩ := by
  obtain ⟨head, body⟩ := e
  subst hbody
  obtain ⟨host', hparse⟩ := parseBody_eq head host limits source hcomposite
  refine ⟨host'.release source, ?_⟩
  rw [Entity.parts, hcomposite, Bool.not_true, if_neg (by decide)]
  dsimp only [withBody, contentType, mediaType]
  rw [hparse]
  dsimp only
  cases decodedParts head.mediaType limits source host.spills with
  | error err => rfl
  | ok ds => cases ds <;> rfl

theorem partsOutcome (e : Entity) (host : Host) (limits : Limits) :
    PartsOutcome e host limits (e.parts host limits) := by
  cases hcomposite : e.mediaType.isComposite with
  | false =>
    rw [Entity.parts, hcomposite]
    exact .notComposite _ hcomposite rfl
  | true =>
    cases hsource : e.byteSource? with
    | none =>
      rw [parts_of_byteSource?_eq_none hcomposite hsource]
      exact .held hcomposite hsource
    | some source =>
      have hbody := body_of_byteSource? hsource
      obtain ⟨host', hparts⟩ := parts_of_byteSource hcomposite hbody host limits
      have hmoves := e.moves_parts host limits
      rw [hparts, files_eq, hbody, bodyFiles_byteSource] at hmoves
      dsimp only at hmoves
      rw [files_withBody] at hmoves
      rw [hparts]
      cases hdecoded : decodedParts e.mediaType limits source host.spills with
      | error err =>
        rw [hdecoded] at hmoves
        exact .failure hcomposite hbody hdecoded (category_of_decodedParts hdecoded)
          (by simpa [bodyAfter] using hmoves)
      | ok ds =>
        rw [hdecoded] at hmoves
        cases ds with
        | nil => exact .noParts hcomposite hbody hdecoded (by simpa [bodyAfter] using hmoves)
        | cons d ds =>
          exact .parts hcomposite hbody hdecoded (List.cons_ne_nil d ds)
            (by simpa [bodyAfter] using hmoves)

theorem PartsOutcome.parts_again {e : Entity} {host : Host} {limits : Limits}
    {o : Outcome (List Entity)} (h : PartsOutcome e host limits o) {ds : List Entity}
    (hds : o.answer = .ok ds) (host' : Host) (limits' : Limits) :
    o.entity.parts host' limits' = ⟨.ok ds, o.entity, host'⟩ := by
  cases h with
  | notComposite err => cases hds
  | held hcomposite hsource =>
    cases hds
    exact parts_of_byteSource?_eq_none hcomposite hsource host' limits'
  | parts hcomposite =>
    cases hds
    exact parts_of_byteSource?_eq_none (e := e.withBody (.partList ds)) hcomposite rfl host' limits'
  | noParts hcomposite =>
    cases hds
    exact parts_of_byteSource?_eq_none (e := e.withBody .empty) hcomposite rfl host' limits'
  | failure => cases hds

theorem PartsOutcome.head_eq {e : Entity} {host : Host} {limits : Limits}
    {o : Outcome (List Entity)} (h : PartsOutcome e host limits o) : o.entity.head = e.head := by
  cases h <;> rfl

/-- **What asking for parts leaves.**  Its outcome is one of five, the head stays as it is, and
parts that were given are given again under any limits, and nothing changes then. -/
theorem partsOutcome_parts (e : Entity) (host : Host) (limits : Limits) :
    PartsOutcome e host limits (e.parts host limits) ∧
      (e.parts host limits).entity.head = e.head ∧
      ∀ ds, (e.parts host limits).answer = .ok ds → ∀ host' limits',
        (e.parts host limits).entity.parts host' limits' =
          ⟨.ok ds, (e.parts host limits).entity, host'⟩ := by
  have h := partsOutcome e host limits
  exact ⟨h, h.head_eq, fun ds hds => h.parts_again hds⟩

end asking

/-- A message of two parts, which are read, and one in which the second part has a bad length. -/
theorem partsOutcome_parts_twoParts :
    let message (length : String) : Entity := {
      head := { mediaType := ⟨"multipart", "mixed", "", ⟨[("boundary", "b")]⟩⟩ }
      body := .byteSource (.ofBytes (Utf8.ofString
        ("--b\n\nx\n--b\nContent-Length: " ++ length ++ "\n\ny\n--b--"))) }
    let good := (message "1").parts zeroHost .standard
    let bad := (message "many").parts zeroHost .standard
    (good.entity.kind = .partList ∧ PartsOutcome (message "1") zeroHost .standard good ∧
      ∀ ds, good.answer = .ok ds → ∀ host' limits',
        good.entity.parts host' limits' = ⟨.ok ds, good.entity, host'⟩) ∧
    bad.entity.kind = .empty ∧ PartsOutcome (message "many") zeroHost .standard bad := by
  intro message good bad
  obtain ⟨houtcome, -, hagain⟩ := partsOutcome_parts (message "1") zeroHost .standard
  exact ⟨⟨by decide +kernel, houtcome, hagain⟩, by decide +kernel,
    (partsOutcome_parts (message "many") zeroHost .standard).1⟩

end Entity
end Mime
