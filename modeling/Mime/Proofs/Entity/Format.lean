import Mime.Proofs.Entity.WriteList
import Mime.Proofs.Entity.Writing

/-! # The format of a message

`partsFormat` says what the parts of a list look like on the wire, whatever writes them: header
lines, an empty line and a body, and `message?` puts delimiters between them.  A part list that is
the body of a part is a message again, under the boundary that its Content-Type line names; a list
in a part of another type has a random boundary, which is named nowhere.  Where a source fails, or
where a list has parts but no valid boundary, there is no format.

Serializing an entity succeeds just where its list has a format, and then has written it
(`serialize_eq_ok_iff_format`). -/

namespace Mime.Entity

open Multipart

/-! ### Header lines -/

/-- The line of a field, unless the field is absent or empty. -/
def fieldLine? (name : String) (value : Option String) : Option (String × String) :=
  (value.filter (!·.isEmpty)).map fun value => (name, value)

/-- The disposition of a part.  In a form, and for a part that is one, it is that of a form field
where it says nothing else. -/
def dispositionValue (head : Head) (inForm : Bool) : Option String :=
  head.disposition.map fun d =>
    if d.type = "" ∧ (inForm = true ∨ head.mediaType.is MediaType.formData = true) then
      { d with type := "form-data" }.format
    else d.format

/-- The content id of a part, between angle brackets. -/
def idValue (head : Head) : Option String :=
  (head.contentId.filter (!·.isEmpty)).map fun id =>
    "<" ++ String.ofList (Head.stripAngles id.toList) ++ ">"

/-- The header lines of a part: one for each field that says something, and then all lines of other
names, as they stand. -/
def headerLines (head : Head) (inForm : Bool) : List (String × String) :=
  (fieldLine? "Content-Disposition" (dispositionValue head inForm)).toList ++
    (fieldLine? "Content-Type" (some head.mediaType.format)).toList ++
    (fieldLine? "Content-Id" (idValue head)).toList ++
    head.headers.entries.filter fun line =>
      Text.lower line.1 ∉ ["content-disposition", "content-type", "content-id"]

theorem filter_fieldLine (name : String) (value : Option String) :
    [(name, value.getD "")].filter (fun line => !line.2.isEmpty) =
      (fieldLine? name value).toList := by
  unfold fieldLine?
  cases value with
  | none => rfl
  | some value =>
      rw [Option.getD_some, Option.filter_some, List.filter_singleton]
      cases value.isEmpty <;> rfl

theorem isField_iff {name : String} : Headers.isField name = true ↔
    Text.lower name ∈ ["content-disposition", "content-type", "content-id"] := by
  have htype : Text.lower Headers.contentType = "content-type" := by decide
  have hdisposition : Text.lower Headers.contentDisposition = "content-disposition" := by decide
  have hid : Text.lower Headers.contentId = "content-id" := by decide
  simp only [Headers.isField, List.any_cons, List.any_nil, Bool.or_false, Bool.or_eq_true,
    Text.sameName_iff, htype, hdisposition, hid, List.mem_cons, List.not_mem_nil, or_false,
    eq_comm (a := Text.lower name)]
  exact or_left_comm

theorem entries_partHeaders (head : Head) (inForm : Bool) :
    (head.partHeaders inForm).entries = headerLines head inForm := by
  have hdisposition : (head.disposition.map fun d =>
      if d.type.isEmpty && (inForm || head.mediaType.is MediaType.formData) then
        { d with type := "form-data" }.format
      else d.format) = dispositionValue head inForm := by
    simp [dispositionValue, String.isEmpty_iff]
  have hid : (head.contentId.map fun id => if id.isEmpty then "" else
      "<" ++ String.ofList (Head.stripAngles id.toList) ++ ">").getD "" =
        (idValue head).getD "" := by
    unfold idValue
    cases head.contentId with
    | none => rfl
    | some id =>
        rw [Option.map_some, Option.getD_some, Option.filter_some]
        cases id.isEmpty <;> rfl
  have hothers : (head.headers.entries.filter fun line => !Headers.isField line.1) =
      head.headers.entries.filter fun line =>
        Text.lower line.1 ∉ ["content-disposition", "content-type", "content-id"] := by
    apply List.filter_congr
    intro line _
    rw [Bool.eq_iff_iff, Bool.not_eq_true', ← Bool.not_eq_true, isField_iff, decide_eq_true_iff]
  unfold Head.partHeaders Head.fieldLines headerLines
  dsimp only
  rw [hdisposition, hid, hothers, ← filter_fieldLine, ← filter_fieldLine, ← filter_fieldLine,
    ← List.filter_append, ← List.filter_append]
  rfl

/-! ### Messages -/

/-- The bytes of a header line. -/
def lineBytes (line : String × String) : Bytes :=
  Utf8.ofString (line.1 ++ ": " ++ line.2 ++ "\r\n")

/-- The bytes of a part: its header lines, an empty line, and its body. -/
def formatPart (lines : List (String × String)) (content : Bytes) : Bytes :=
  lines.flatMap lineBytes ++ Utf8.ofString "\r\n" ++ content

/-- The bytes of a message with the given parts.  There are none without parts, and there is no
message with parts and a boundary that is not valid. -/
def message? (boundary : String) (parts : List Bytes) : Option Bytes :=
  if parts = [] then some []
  else if Boundary.isValid boundary.toList then
    some (Utf8.ofString ("--" ++ boundary ++ "\r\n") ++
      (Utf8.ofString ("\r\n--" ++ boundary ++ "\r\n")).intercalate parts ++
      Utf8.ofString ("\r\n--" ++ boundary ++ "--"))
  else none

/-! ### Trees of parts -/

/-- Something that draws on random bytes, and may be missing. -/
abbrev Drawn := StateT Entropy Option

theorem Drawn.bind_apply {α β : Type} (x : Drawn α) (f : α → Drawn β) (entropy : Entropy) :
    (x >>= f) entropy = (x entropy).bind fun drawn => f drawn.1 drawn.2 := rfl

theorem Drawn.liftM_apply {α : Type} (x : Option α) (entropy : Entropy) :
    (liftM x : Drawn α) entropy = x.map fun a => (a, entropy) := by
  cases x <;> rfl

theorem Drawn.pure_apply {α : Type} (a : α) (entropy : Entropy) :
    (pure a : Drawn α) entropy = some (a, entropy) := rfl

/-- A random boundary. -/
def drawBoundary : Drawn String := fun entropy =>
  let (bytes, entropy) := entropy.take Boundary.randomBytes
  some (Boundary.ofBytes bytes, entropy)

/-- The boundary of a part list that is the body of a part, and the head of the part.  A multipart
type names its boundary, a random one if it did not name any; other types do not. -/
def listBoundary (head : Head) : Drawn (String × Head) :=
  if head.mediaType.isMultipart then
    match head.mediaType.boundary? with
    | some boundary => pure (boundary, head)
    | none => do
      let boundary ← drawBoundary
      let mediaType := head.mediaType.withParameter "boundary" boundary
      return (boundary, { head with mediaType })
  else do
    let boundary ← drawBoundary
    return (boundary, head)

/-- The bytes of a body that is no part list, unless its source fails. -/
def leafBytes? (body : Body Entity) : Option Bytes :=
  match body with
  | .empty | .partList _ => some []
  | .dataSource data => some data.toBytes
  | .byteSource source => (ByteSource.joinArrivals source.arrivals).toOption
  | .liveStream stream => (ByteSource.joinArrivals stream.arrivals).toOption

mutual

/-- The bytes of a part.  Of the lists in it each takes its random boundary before those in it. -/
def partFormat (inForm : Bool) (part : Entity) : Drawn Bytes :=
  match part with
  | ⟨head, .partList parts⟩ => do
    let (boundary, head) ← listBoundary head
    let inner ← partsFormat (head.mediaType.is MediaType.formData) parts
    let content ← message? boundary inner
    return formatPart (headerLines head inForm) content
  | ⟨head, body⟩ => do
    let content ← leafBytes? body
    return formatPart (headerLines head inForm) content

/-- The bytes of each part of a list. -/
def partsFormat (inForm : Bool) (parts : List Entity) : Drawn (List Bytes) :=
  match parts with
  | [] => pure []
  | part :: rest => do
    let bytes ← partFormat inForm part
    let others ← partsFormat inForm rest
    return bytes :: others

end

/-- The bytes of a part list as a message. -/
def listFormat (boundary : String) (inForm : Bool) (parts : List Entity) : Drawn Bytes := do
  message? boundary (← partsFormat inForm parts)

/-! ### Messages part by part -/

/-- The bytes of parts and of the delimiters in front of them and behind them. -/
def joined (boundary : String) (first : Bool) : List Bytes → Bytes
  | [] => if first then [] else Utf8.encode (closeDelimiter boundary)
  | part :: rest =>
    Utf8.encode (openDelimiter boundary first) ++ part ++ joined boundary false rest

theorem encode_openDelimiter_true (boundary : String) :
    Utf8.encode (openDelimiter boundary true) = Utf8.ofString ("--" ++ boundary ++ "\r\n") := by
  simp [openDelimiter, lineBreak, Utf8.ofString]

theorem encode_openDelimiter_false (boundary : String) :
    Utf8.encode (openDelimiter boundary false) =
      Utf8.ofString ("\r\n--" ++ boundary ++ "\r\n") := by
  simp [openDelimiter, lineBreak, Utf8.ofString]

theorem encode_closeDelimiter_eq (boundary : String) :
    Utf8.encode (closeDelimiter boundary) = Utf8.ofString ("\r\n--" ++ boundary ++ "--") := by
  simp [closeDelimiter, lineBreak, Utf8.ofString]

/-- Parts behind a first one, each with the delimiter in front of it. -/
theorem append_joined_false (boundary : String) (part : Bytes) (rest : List Bytes) :
    part ++ joined boundary false rest =
      (Utf8.ofString ("\r\n--" ++ boundary ++ "\r\n")).intercalate (part :: rest) ++
        Utf8.ofString ("\r\n--" ++ boundary ++ "--") := by
  induction rest generalizing part with
  | nil =>
      rw [List.intercalate_singleton, ← encode_closeDelimiter_eq]
      rfl
  | cons next rest ih =>
      rw [List.intercalate_cons_cons, joined, encode_openDelimiter_false, List.append_assoc,
        List.append_assoc, List.append_assoc, ← ih next]

theorem message?_eq {boundary : String} (hb : Boundary.isValid boundary.toList = true)
    (parts : List Bytes) : message? boundary parts = some (joined boundary true parts) := by
  cases parts with
  | nil => rfl
  | cons part rest =>
      rw [message?, if_neg (List.cons_ne_nil part rest), if_pos hb, joined,
        encode_openDelimiter_true, List.append_assoc, List.append_assoc, append_joined_false]

theorem encode_headerBlock_append (headers : Headers) (content : Bytes) :
    Utf8.encode (headerBlock headers) ++ content = formatPart headers.entries content := by
  have hlines : ∀ lines : List (String × String),
      Utf8.encode (lines.flatMap headerLine) = lines.flatMap lineBytes := by
    intro lines
    induction lines with
    | nil => rfl
    | cons line lines ih =>
        rw [List.flatMap_cons, List.flatMap_cons, Utf8.encode_append, ih]
        simp [headerLine, lineBreak, lineBytes, Utf8.ofString]
  rw [headerBlock, Utf8.encode_append, hlines]
  rfl

/-! ### Writing in the format -/

/-- A step of writing that succeeds just where there is a format, and writes it with the same random
bytes. -/
def Follows {α : Type} (sink : Sink) (written : Written α) (format : Option (Bytes × Entropy)) :
    Prop :=
  match format with
  | some (bytes, entropy) =>
    written.1 = .ok () ∧ written.2.2.sink = sink.push bytes ∧ written.2.2.host.entropy = entropy
  | none => written.1 ≠ .ok ()

section follows

variable {α β : Type} {sink : Sink} {host : Host}

theorem follows_writeBytes (hsink : sink.limit = none) (bytes : Bytes) :
    Follows sink (writeBytes ⟨sink, host⟩ bytes) (some (bytes, host.entropy)) := by
  rw [writeBytes, write_of_limit_eq_none hsink]
  exact ⟨rfl, rfl, rfl⟩

theorem Follows.leaving {written : Written α} {format : Option (Bytes × Entropy)}
    (h : Follows sink written format) (f : α → β) : Follows sink (leaving f written) format := by
  cases format with
  | none => exact h
  | some drawn => exact h

/-- What two steps write is the format of the first and then that of the second. -/
theorem Follows.andThen {step : Written α} {stopped : α → β} {next : α → Output → Written β}
    {format : Option (Bytes × Entropy)} (format' : Entropy → Option (Bytes × Entropy))
    (h : Follows sink step format)
    (hnext : ∀ a bytes host, Follows (sink.push bytes) (next a ⟨sink.push bytes, host⟩)
      (format' host.entropy)) :
    Follows sink (andThen step stopped next) (format.bind fun drawn =>
      (format' drawn.2).map fun drawn' => (drawn.1 ++ drawn'.1, drawn'.2)) := by
  obtain ⟨answer, a, ⟨sink', host'⟩⟩ := step
  cases format with
  | none =>
      cases answer with
      | error e => exact nofun
      | ok u => exact absurd rfl h
  | some drawn =>
      obtain ⟨bytes, entropy⟩ := drawn
      obtain ⟨hanswer, hsink, hentropy⟩ := h
      obtain rfl : answer = .ok () := hanswer
      obtain rfl : sink' = sink.push bytes := hsink
      obtain rfl : host'.entropy = entropy := hentropy
      have hrest := hnext a bytes host'
      rw [Option.bind_some, andThen_ok]
      cases hformat : format' host'.entropy with
      | none =>
          rw [hformat] at hrest
          exact hrest
      | some drawn' =>
          rw [hformat] at hrest
          obtain ⟨hanswer, hsink, hentropy⟩ := hrest
          refine ⟨hanswer, ?_, hentropy⟩
          rw [hsink, Sink.push_push]

theorem follows_copy (hsink : sink.limit = none) (arrivals : List Arrival) (a : α) (host' : Host)
    (hentropy : host'.entropy = host.entropy) :
    Follows sink ((Output.copy ⟨sink, host⟩ arrivals).1, a,
      ⟨(Output.copy ⟨sink, host⟩ arrivals).2.sink, host'⟩)
      ((ByteSource.joinArrivals arrivals).toOption.map fun bytes => (bytes, host.entropy)) := by
  have hiff : ∀ o, (⟨sink, host⟩ : Output).copy arrivals = (.ok (), o) ↔
      ∃ bytes, ByteSource.joinArrivals arrivals = .ok bytes ∧ o = ⟨sink.push bytes, host⟩ :=
    fun _ => copy_eq_ok_iff hsink
  cases hjoin : ByteSource.joinArrivals arrivals with
  | ok bytes =>
      rw [(hiff _).mpr ⟨bytes, hjoin, rfl⟩]
      exact ⟨rfl, rfl, hentropy⟩
  | error e =>
      intro hok
      obtain ⟨bytes, hbytes, -⟩ := (hiff _).mp (Prod.ext hok rfl)
      rw [hjoin] at hbytes
      cases hbytes

theorem follows_leaf (hsink : sink.limit = none) {body : Body Entity}
    (hbody : body.kind ≠ .partList) (nested : Option String) (inForm : Bool) (host : Host) :
    Follows sink (writePartBody nested inForm body ⟨sink, host⟩)
      ((leafBytes? body).map fun bytes => (bytes, host.entropy)) := by
  cases body with
  | empty =>
      rw [writePartBody]
      exact ⟨rfl, rfl, rfl⟩
  | dataSource data =>
      rw [writePartBody]
      exact (follows_writeBytes hsink data.toBytes).leaving fun _ => Body.dataSource data
  | byteSource source =>
      rw [writePartBody_byteSource]
      exact follows_copy hsink source.arrivals Body.empty (host.release source) rfl
  | liveStream stream =>
      rw [writePartBody]
      exact follows_copy hsink stream.arrivals Body.empty (host.releaseStream stream) rfl
  | partList parts => exact absurd rfl hbody

/-! ### Writing parts in the format -/

variable {boundary : String} {inForm first : Bool} {head : Head} {body : Body Entity}
  {rest : List Entity}

/-- The bytes of parts as they are written, with the delimiters. -/
def joinedFormat (boundary : String) (inForm first : Bool) (parts : List Entity)
    (entropy : Entropy) : Option (Bytes × Entropy) :=
  (partsFormat inForm parts entropy).map fun drawn => (joined boundary first drawn.1, drawn.2)

theorem listFormat_apply (boundary : String) (inForm : Bool) (parts : List Entity)
    (entropy : Entropy) :
    listFormat boundary inForm parts entropy = (partsFormat inForm parts entropy).bind fun drawn =>
      (message? boundary drawn.1).map fun bytes => (bytes, drawn.2) := by
  simp only [listFormat, Drawn.bind_apply, Drawn.liftM_apply]

theorem partsFormat_cons (inForm : Bool) (part : Entity) (rest : List Entity) (entropy : Entropy) :
    partsFormat inForm (part :: rest) entropy =
      (partFormat inForm part entropy).bind fun drawn =>
        (partsFormat inForm rest drawn.2).map fun drawn' => (drawn.1 :: drawn'.1, drawn'.2) := by
  simp only [partsFormat, Drawn.bind_apply, Drawn.pure_apply, Option.map_eq_bind,
    Function.comp_def]

theorem frontBytes_append (boundary : String) (inForm first : Bool) (head : Head) (content : Bytes)
    (rest : List Bytes) :
    frontBytes boundary inForm first head ++ (content ++ joined boundary false rest) =
      joined boundary first (formatPart (headerLines head inForm) content :: rest) := by
  rw [frontBytes, Utf8.encode_append, List.append_assoc, ← List.append_assoc _ content,
    encode_headerBlock_append, entries_partHeaders, joined, List.append_assoc]

/-- A list is written in the format of a message if its parts are. -/
theorem follows_listFormat {parts : List Entity}
    (h : Boundary.isValid boundary.toList = true →
      Follows sink (writeParts boundary inForm true parts ⟨sink, host⟩)
        (joinedFormat boundary inForm true parts host.entropy)) :
    Follows sink (writeParts boundary inForm true parts ⟨sink, host⟩)
      (listFormat boundary inForm parts host.entropy) := by
  rw [listFormat_apply]
  by_cases hb : Boundary.isValid boundary.toList = true
  · have hmessage : (fun drawn : List Bytes × Entropy =>
        (message? boundary drawn.1).map fun bytes => (bytes, drawn.2)) =
          fun drawn => some (joined boundary true drawn.1, drawn.2) := by
      funext drawn
      rw [message?_eq hb, Option.map_some]
    rw [hmessage]
    have hfollows := h hb
    rwa [joinedFormat, Option.map_eq_bind] at hfollows
  · cases parts with
    | nil =>
        rw [writeParts]
        exact ⟨rfl, rfl, rfl⟩
    | cons part rest =>
        obtain ⟨head, body⟩ := part
        rw [writeParts_of_not_isValid (Bool.eq_false_iff.mpr hb), partsFormat_cons]
        cases partFormat inForm ⟨head, body⟩ host.entropy with
        | none => exact nofun
        | some drawn =>
            cases hrest : partsFormat inForm rest drawn.2 with
            | none => simp [Follows, hrest]
            | some drawn' => simp [Follows, hrest, message?, hb]

theorem follows_cons (hsink : sink.limit = none)
    (hb : first = true → Boundary.isValid boundary.toList = true)
    (content : Entropy → Option (Bytes × Entropy))
    (hpart : partFormat inForm ⟨head, body⟩ host.entropy =
      (content (settleHead head body host).2.2.entropy).map fun drawn =>
        (formatPart (headerLines (settleHead head body host).2.1 inForm) drawn.1, drawn.2))
    (hbody : ∀ bytes host', Follows (sink.push bytes)
      (writePartBody (settleHead head body host).1
        ((settleHead head body host).2.1.mediaType.is MediaType.formData) body
        ⟨sink.push bytes, host'⟩) (content host'.entropy))
    (hrest : ∀ bytes host', Follows (sink.push bytes)
      (writeParts boundary inForm false rest ⟨sink.push bytes, host'⟩)
      (joinedFormat boundary inForm false rest host'.entropy)) :
    Follows sink (writeParts boundary inForm first (⟨head, body⟩ :: rest) ⟨sink, host⟩)
      (joinedFormat boundary inForm first (⟨head, body⟩ :: rest) host.entropy) := by
  have hformat : joinedFormat boundary inForm first (⟨head, body⟩ :: rest) host.entropy =
      (some (frontBytes boundary inForm first (settleHead head body host).2.1,
        (settleHead head body host).2.2.entropy)).bind fun drawn =>
        ((content drawn.2).bind fun drawn' =>
          (joinedFormat boundary inForm false rest drawn'.2).map fun drawn'' =>
            (drawn'.1 ++ drawn''.1, drawn''.2)).map fun drawn' =>
              (drawn.1 ++ drawn'.1, drawn'.2) := by
    simp only [joinedFormat, partsFormat_cons, hpart, Option.bind_some, Option.map_bind,
      Option.bind_map, Option.map_map, Function.comp_def, frontBytes_append]
  rw [writeParts_cons_eq hb, hformat]
  refine (follows_writeBytes hsink _).andThen
    (fun entropy => (content entropy).bind fun drawn' =>
      (joinedFormat boundary inForm false rest drawn'.2).map fun drawn'' =>
        (drawn'.1 ++ drawn''.1, drawn''.2)) fun _ bytes host' => ?_
  refine (hbody bytes host').andThen (joinedFormat boundary inForm false rest)
    fun body' bytes' host' => ?_
  rw [Sink.push_push]
  exact (hrest (bytes ++ bytes') host').leaving _

theorem partFormat_leaf (hbody : body.kind ≠ .partList) (head : Head) (inForm : Bool)
    (entropy : Entropy) :
    partFormat inForm ⟨head, body⟩ entropy =
      (leafBytes? body).map fun bytes => (formatPart (headerLines head inForm) bytes, entropy) := by
  cases body with
  | partList parts => exact absurd rfl hbody
  | _ =>
      simp only [partFormat, Drawn.bind_apply, Drawn.liftM_apply, Drawn.pure_apply, leafBytes?,
        Option.map_eq_bind, Option.bind_assoc, Option.bind_some, Function.comp_def]

theorem partFormat_list (head : Head) (parts : List Entity) (inForm : Bool) (entropy : Entropy) :
    partFormat inForm ⟨head, .partList parts⟩ entropy =
      (listBoundary head entropy).bind fun drawn =>
        (listFormat drawn.1.1 (drawn.1.2.mediaType.is MediaType.formData) parts drawn.2).map
          fun drawn' => (formatPart (headerLines drawn.1.2 inForm) drawn'.1, drawn'.2) := by
  simp only [partFormat, listFormat, Drawn.bind_apply, Drawn.liftM_apply, Drawn.pure_apply,
    Option.map_eq_bind, Option.bind_assoc, Option.bind_some, Function.comp_def]

theorem listBoundary_of_isMultipart (h : head.mediaType.isMultipart = true) (host : Host) :
    listBoundary head host.entropy = some (((head.withBoundary host).1,
      (head.withBoundary host).2.1), (head.withBoundary host).2.2.entropy) := by
  unfold listBoundary Head.withBoundary
  rw [if_pos h]
  cases head.mediaType.boundary? <;> rfl

theorem listBoundary_of_not_isMultipart (h : ¬head.mediaType.isMultipart = true)
    (entropy : Entropy) :
    listBoundary head entropy =
      (drawBoundary entropy).map fun drawn => ((drawn.1, head), drawn.2) := by
  rw [listBoundary, if_neg h]
  rfl

theorem follows_cons_leaf (hsink : sink.limit = none)
    (hb : first = true → Boundary.isValid boundary.toList = true) (hbody : body.kind ≠ .partList)
    (hrest : ∀ bytes host', Follows (sink.push bytes)
      (writeParts boundary inForm false rest ⟨sink.push bytes, host'⟩)
      (joinedFormat boundary inForm false rest host'.entropy)) :
    Follows sink (writeParts boundary inForm first (⟨head, body⟩ :: rest) ⟨sink, host⟩)
      (joinedFormat boundary inForm first (⟨head, body⟩ :: rest) host.entropy) := by
  refine follows_cons hsink hb (fun entropy => (leafBytes? body).map fun bytes => (bytes, entropy))
    ?_ (fun bytes => ?_) hrest
  · rw [partFormat_leaf hbody, settleHead_leaf hbody]
    simp only [Option.map_map, Function.comp_def]
  · exact follows_leaf (Sink.limit_push hsink bytes) hbody _ _

/-- **Writing parts** writes their formats, with the delimiters. -/
theorem follows_writeParts {sink : Sink} (hsink : sink.limit = none) (host : Host)
    {boundary : String} (inForm : Bool) {first : Bool}
    (hb : first = true → Boundary.isValid boundary.toList = true) (parts : List Entity) :
    Follows sink (writeParts boundary inForm first parts ⟨sink, host⟩)
      (joinedFormat boundary inForm first parts host.entropy) := by
  cases parts with
  | nil =>
      rw [writeParts]
      cases first with
      | true => exact ⟨rfl, rfl, rfl⟩
      | false => exact (follows_writeBytes hsink _).leaving fun _ => []
  | cons part rest =>
      obtain ⟨head, body⟩ := part
      have hrest : ∀ bytes host', Follows (sink.push bytes)
          (writeParts boundary inForm false rest ⟨sink.push bytes, host'⟩)
          (joinedFormat boundary inForm false rest host'.entropy) := fun bytes host' =>
        follows_writeParts (Sink.limit_push hsink bytes) host' inForm Bool.false_ne_true.elim rest
      cases body with
      | partList parts =>
          have hlist : ∀ bytes host' boundary inForm, Follows (sink.push bytes)
              (writeParts boundary inForm true parts ⟨sink.push bytes, host'⟩)
              (listFormat boundary inForm parts host'.entropy) :=
            fun bytes host' boundary inForm => follows_listFormat fun hvalid =>
              follows_writeParts (Sink.limit_push hsink bytes) host' inForm (fun _ => hvalid) parts
          by_cases hmulti : head.mediaType.isMultipart = true
          · have hsettle := settleHead_list (rfl : (Body.partList parts).kind = _) hmulti host
            refine follows_cons hsink hb (listFormat (head.withBoundary host).1
              ((head.withBoundary host).2.1.mediaType.is MediaType.formData) parts) ?_
                (fun bytes host' => ?_) hrest
            · rw [partFormat_list, listBoundary_of_isMultipart hmulti, hsettle]
              rfl
            · rw [hsettle, writePartBody]
              exact (hlist bytes host' _ _).leaving Body.partList
          · have hsettle : settleHead head (.partList parts) host = (none, head, host) :=
              if_neg fun h => hmulti h.2
            refine follows_cons hsink hb (fun entropy => (drawBoundary entropy).bind fun drawn =>
              listFormat drawn.1 (head.mediaType.is MediaType.formData) parts drawn.2) ?_
                (fun bytes host' => ?_) hrest
            · rw [partFormat_list, listBoundary_of_not_isMultipart hmulti, hsettle]
              rfl
            · rw [hsettle, writePartBody]
              exact (hlist bytes host'.generateBoundary.2 _ _).leaving Body.partList
      | _ => exact follows_cons_leaf hsink hb (by simp [Body.kind]) hrest
termination_by sizeOf parts

end follows

/-! ### The boundary on the Content-Type line -/

/-- The text of a media type names a boundary among its parameters. -/
def Names (m : MediaType) (boundary : String) : Prop :=
  ∃ name before after, Text.sameName name "boundary" = true ∧
    m.parameters.entries = before ++ (name, boundary) :: after ∧
    m.format.toList = m.types ++ Parameters.format ⟨before⟩ ++ ("; " ++ name ++ "=").toList ++
      Field.quoteIfNeeded boundary.toList ++ Parameters.format ⟨after⟩

theorem isEmpty_of_isMultipart {m : MediaType} (h : m.isMultipart = true) : m.isEmpty = false := by
  rw [MediaType.isEmpty, eq_of_beq h]
  rfl

theorem names_of_entries {m : MediaType} (h : m.isMultipart = true) {name boundary : String}
    (hname : Text.sameName name "boundary" = true) {before after : List (String × String)}
    (hentries : m.parameters.entries = before ++ (name, boundary) :: after) :
    Names m boundary := by
  refine ⟨name, before, after, hname, hentries, ?_⟩
  rw [MediaType.toList_format (isEmpty_of_isMultipart h), Parameters.format, hentries]
  simp [Parameters.format]

theorem exists_assign (name value : String) (l : List (String × String)) :
    ∃ before after, Parameters.assign name value l = before ++ (name, value) :: after := by
  induction l with
  | nil => exact ⟨[], [], rfl⟩
  | cons entry rest ih =>
      obtain ⟨before, after, hrest⟩ := ih
      by_cases hname : entry.1 = name
      · exact ⟨[], rest, if_pos hname⟩
      · exact ⟨entry :: before, after, by rw [Parameters.assign, if_neg hname, hrest]; rfl⟩

theorem names_withParameter {m : MediaType} (h : m.isMultipart = true) (boundary : String) :
    Names (m.withParameter "boundary" boundary) boundary := by
  have hmulti : (m.withParameter "boundary" boundary).isMultipart = true := h
  have hname : Text.sameName (Text.lower "boundary") "boundary" = true := by decide
  obtain ⟨before, after, hentries⟩ :=
    exists_assign (Text.lower "boundary") boundary m.parameters.entries
  exact names_of_entries hmulti hname hentries

/-- A multipart type names the boundary of a list, declared or random. -/
theorem names_of_listBoundary {head head' : Head} {boundary : String} {entropy entropy' : Entropy}
    (hmulti : head.mediaType.isMultipart = true)
    (h : listBoundary head entropy = some ((boundary, head'), entropy')) :
    head'.mediaType.isMultipart = true ∧ Names head'.mediaType boundary := by
  rw [listBoundary, if_pos hmulti] at h
  cases hb : head.mediaType.boundary? with
  | some declared =>
      rw [hb] at h
      cases h
      obtain ⟨hget, -⟩ := Option.filter_eq_some_iff.mp hb
      obtain ⟨⟨name, value⟩, hfind, rfl⟩ := Option.map_eq_some_iff.mp hget
      obtain ⟨hname, before, after, hentries, -⟩ := List.find?_eq_some_iff_append.mp hfind
      exact ⟨hmulti, names_of_entries hmulti hname hentries⟩
  | none =>
      rw [hb] at h
      cases h
      exact ⟨hmulti, names_withParameter hmulti _⟩

theorem contentType_mem_headerLines {head : Head} (h : head.mediaType.isMultipart = true)
    (inForm : Bool) : ("Content-Type", head.mediaType.format) ∈ headerLines head inForm := by
  have hne : head.mediaType.format.isEmpty = false := by
    rw [Bool.eq_false_iff, ne_eq, String.isEmpty_iff, ← String.toList_eq_nil_iff,
      MediaType.toList_format (isEmpty_of_isMultipart h), List.append_eq_nil_iff]
    exact fun hnil => MediaType.types_ne_nil _ hnil.1
  have hline : fieldLine? "Content-Type" (some head.mediaType.format) =
      some ("Content-Type", head.mediaType.format) := by
    rw [fieldLine?, Option.filter_some, hne]
    rfl
  simp [headerLines, hline]

/-! ### Serializing -/

/-- **The format of what is serialized.**  Serializing a part list succeeds just where the list has
a format, and the bytes of the format are what it wrote.  The boundary of a list in a part of a
multipart type stands on the Content-Type line of the part. -/
theorem serialize_eq_ok_iff_format {sink : Sink} (hsink : sink.limit = none) {e : Entity}
    {parts : List Entity} (hbody : e.body = .partList parts) (boundary : String) (host : Host) :
    ((e.serialize boundary ⟨sink, host⟩).1 = .ok () ↔ ∃ bytes entropy,
      listFormat boundary (e.mediaType.is MediaType.formData) parts host.entropy =
        some (bytes, entropy) ∧
      (e.serialize boundary ⟨sink, host⟩).2.2.sink.data = sink.data ++ bytes) ∧
    ∀ (head : Head) entropy nested head' entropy' inForm, head.mediaType.isMultipart = true →
      listBoundary head entropy = some ((nested, head'), entropy') →
      Names head'.mediaType nested ∧
        ("Content-Type", head'.mediaType.format) ∈ headerLines head' inForm := by
  have hwritten : Follows sink (e.serialize boundary ⟨sink, host⟩)
      (listFormat boundary (e.mediaType.is MediaType.formData) parts host.entropy) := by
    rw [serialize, hbody]
    exact (follows_listFormat fun hvalid =>
      follows_writeParts hsink host _ (fun _ => hvalid) parts).leaving
        fun parts => e.withBody (.partList parts)
  refine ⟨⟨fun hok => ?_, ?_⟩, fun head entropy nested head' entropy' inForm hmulti h => ?_⟩
  · cases hformat : listFormat boundary (e.mediaType.is MediaType.formData) parts host.entropy with
    | none =>
        rw [hformat] at hwritten
        exact absurd hok hwritten
    | some drawn =>
        rw [hformat] at hwritten
        refine ⟨drawn.1, drawn.2, rfl, ?_⟩
        rw [hwritten.2.1, Sink.data_push]
  · rintro ⟨bytes, entropy, hformat, -⟩
    rw [hformat] at hwritten
    exact hwritten.1
  · obtain ⟨hmulti', hnames⟩ := names_of_listBoundary hmulti h
    exact ⟨hnames, contentType_mem_headerLines hmulti' inForm⟩

/-- A form with a list in it that has no boundary yet. -/
def albumForm : Entity where
  head := { mediaType := ⟨"multipart", "form-data", "", .empty⟩ }
  body := .partList [{
    head :=
      { mediaType := ⟨"multipart", "mixed", "", .empty⟩
        disposition := some { name := some "a" } }
    body := .partList [{ body := .dataSource ⟨.text "hi", false⟩ }] }]

/-- The list in the form is written under a random boundary, which its part names. -/
theorem serialize_eq_ok_iff_format_albumForm :
    let written := albumForm.serialize "out" ⟨.unlimited, zeroHost⟩
    written.1 = .ok () ∧ written.2.2.sink.data = Utf8.ofString
      ("--out\r\nContent-Disposition: form-data; name=\"a\"\r\n" ++
        "Content-Type: multipart/mixed; boundary=00000000000000000000000000000000\r\n\r\n" ++
        "--00000000000000000000000000000000\r\n\r\nhi\r\n" ++
        "--00000000000000000000000000000000--\r\n--out--") := by
  intro written
  have hok : written.1 = .ok () := by decide +kernel
  have hsink : Sink.unlimited.limit = none := rfl
  obtain ⟨bytes, entropy, hformat, hdata⟩ :=
    (serialize_eq_ok_iff_format hsink (e := albumForm) rfl "out" zeroHost).1.mp hok
  refine ⟨hok, hdata.trans ?_⟩
  have hbytes := congrArg (Option.map Prod.fst) hformat
  rw [Option.map_some] at hbytes
  exact Option.some.inj (hbytes.symm.trans (by decide +kernel))

end Mime.Entity
