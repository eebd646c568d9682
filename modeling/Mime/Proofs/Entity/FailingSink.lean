import Mime.Entity.Output
import Mime.Proofs.Entity.Writing

/-! # Writing to a sink that fails

A body is written to a sink without a limit, and to the same sink with room for some bytes.  Each
step of writing is cut (`Sink.Cuts`), and so is a step that follows another (`cuts_andThen`); so,
by recursion on the tree of parts, whatever is written is cut (`cuts_writeParts`).  The limited
sink holds the first bytes of what the other one holds, as many as it had room for; if they were
all, the two runs leave the same, and otherwise the limited one fails as its sink does
(`writeBody_limitedTo`). -/

namespace Mime.Entity

open Multipart Sink

/-! ### Steps -/

/-- What a step of writing leaves, with the sink apart. -/
def split {α : Type} (step : Written α) : (Except Error Unit × α × Host) × Sink :=
  ((step.1, step.2.1, step.2.2.host), step.2.2.sink)

/-- A step that failed in the way of a sink. -/
def FailsAs {α : Type} (failure : IoError) (left : Except Error Unit × α × Host) : Prop :=
  ∃ e, left.1 = .error (.io e) ∧ e.kind = failure.kind

section steps

variable {α β : Type} {sink : Sink} {room : Nat} {failure : IoError} {host : Host}

/-- A step on a sink without a limit, and on the same sink with some room. -/
def StepCut (sink : Sink) (room : Nat) (failure : IoError) (full cut : Written α) : Prop :=
  Cuts sink room failure (FailsAs failure) (split full) (split cut)

theorem StepCut.unused (answer : Except Error Unit) (a : α) :
    StepCut sink room failure (answer, a, ⟨sink, host⟩)
      (answer, a, ⟨sink.limitedTo room failure, host⟩) :=
  Cuts.refl (answer, a, host)

theorem stepCut_of_cuts {ε : Type} {stopped : ε} {full cut : Except ε Unit × Sink}
    (h : Cuts sink room failure (· = .error stopped) full cut) (wrap : ε → Error)
    (hwrap : ∃ e, wrap stopped = .io e ∧ e.kind = failure.kind) (a : α) (host : Host) :
    StepCut sink room failure (full.1.mapError wrap, a, ⟨full.2, host⟩)
      (cut.1.mapError wrap, a, ⟨cut.2, host⟩) := by
  refine h.map (fun answer => (answer.mapError wrap, a, host)) fun answer hanswer => ?_
  obtain ⟨e, hstopped, hkind⟩ := hwrap
  subst hanswer
  exact ⟨e, congrArg Except.error hstopped, hkind⟩

theorem stepCut_writeBytes (hsink : sink.limit = none) (bytes : Bytes) :
    StepCut sink room failure (writeBytes ⟨sink, host⟩ bytes)
      (writeBytes ⟨sink.limitedTo room failure, host⟩ bytes) :=
  stepCut_of_cuts (cuts_write hsink room failure bytes) .io ⟨failure, rfl, rfl⟩ () host

theorem StepCut.leaving (f : α → β) {full cut : Written α}
    (h : StepCut sink room failure full cut) :
    StepCut sink room failure (leaving f full) (leaving f cut) := by
  have hfails : ∀ left : Except Error Unit × α × Host, FailsAs failure left →
      FailsAs failure (left.1, f left.2.1, left.2.2) := fun _ hfails => hfails
  exact Cuts.map _ hfails h

/-- A step and the next one.  Once the limited sink has failed the next step is not begun, while
the other sink takes what it writes. -/
theorem StepCut.andThen {full cut : Written α} {stopped : α → β} {next : α → Output → Written β}
    (h : StepCut sink room failure full cut)
    (hnext : ∀ a host bytes room', StepCut (sink.push bytes) room' failure
      (next a ⟨sink.push bytes, host⟩) (next a ⟨(sink.push bytes).limitedTo room' failure, host⟩)) :
    StepCut sink room failure (andThen full stopped next) (andThen cut stopped next) := by
  obtain ⟨answer, a, ⟨sink', host⟩⟩ := full
  cases h with
  | within bytes fits hfull hcut =>
      obtain ⟨answer', a', ⟨sink'', host'⟩⟩ := cut
      cases hfull
      cases hcut
      cases answer with
      | error e => exact .within bytes fits rfl rfl
      | ok u => exact Cuts.after fits (hnext a host bytes (room - bytes.length))
  | beyond bytes exceeds hfull hcut failed =>
      obtain ⟨answer', a', ⟨sink'', host'⟩⟩ := cut
      obtain ⟨e, he, hkind⟩ := failed
      cases hfull
      cases hcut
      cases he
      have failed : FailsAs failure (.error (.io e), stopped a', host') := ⟨e, rfl, hkind⟩
      cases answer with
      | error e' => exact .beyond bytes exceeds rfl rfl failed
      | ok u => exact Cuts.of_failed exceeds rfl failed (hnext a host bytes 0)

end steps

/-! ### Trees of parts -/

mutual

/-- **Writing the body of a part** is cut where the sink has no more room. -/
theorem stepCut_writePartBody {sink : Sink} (hsink : sink.limit = none) (room : Nat)
    (failure : IoError) (host : Host) (nested : Option String) (inForm : Bool) :
    ∀ body : Body Entity, StepCut sink room failure
      (writePartBody nested inForm body ⟨sink, host⟩)
      (writePartBody nested inForm body ⟨sink.limitedTo room failure, host⟩)
  | .empty => by
      rw [writePartBody, writePartBody]
      exact .unused _ _
  | .dataSource data => by
      rw [writePartBody, writePartBody]
      exact (stepCut_writeBytes hsink data.toBytes).leaving fun _ => Body.dataSource data
  | .byteSource source => by
      rw [writePartBody_byteSource, writePartBody_byteSource]
      exact stepCut_of_cuts (cuts_copy hsink room failure source.arrivals)
        (fun e => .io e.cause) ⟨failure, rfl, rfl⟩ Body.empty (host.release source)
  | .liveStream stream => by
      rw [writePartBody, writePartBody]
      exact stepCut_of_cuts (cuts_copy hsink room failure stream.arrivals)
        (fun e => .io e.cause) ⟨failure, rfl, rfl⟩ Body.empty (host.releaseStream stream)
  | .partList parts => by
      cases nested with
      | some boundary =>
          rw [writePartBody, writePartBody]
          exact (stepCut_writeParts hsink room failure host boundary inForm true parts).leaving
            Body.partList
      | none =>
          rw [writePartBody, writePartBody]
          exact (stepCut_writeParts hsink room failure host.generateBoundary.2
            host.generateBoundary.1 inForm true parts).leaving Body.partList
termination_by body => sizeOf body

/-- **Writing parts** is cut where the sink has no more room. -/
theorem stepCut_writeParts {sink : Sink} (hsink : sink.limit = none) (room : Nat)
    (failure : IoError) (host : Host) (boundary : String) (inForm first : Bool) :
    ∀ parts : List Entity, StepCut sink room failure
      (writeParts boundary inForm first parts ⟨sink, host⟩)
      (writeParts boundary inForm first parts ⟨sink.limitedTo room failure, host⟩)
  | [] => by
      rw [writeParts, writeParts]
      cases first with
      | true => exact .unused _ _
      | false => exact (stepCut_writeBytes hsink _).leaving fun _ => []
  | ⟨head, body⟩ :: rest => by
      by_cases hb : first = true → Boundary.isValid boundary.toList = true
      · rw [writeParts_cons_eq hb, writeParts_cons_eq hb]
        refine (stepCut_writeBytes hsink _).andThen fun _ host' bytes room' => ?_
        have hpush := limit_push hsink bytes
        refine (stepCut_writePartBody hpush room' failure host' _ _ body).andThen
          fun body' host' more room' => ?_
        have hpush' := limit_push hpush more
        exact (stepCut_writeParts hpush' room' failure host' boundary inForm false rest).leaving _
      · obtain ⟨rfl, hinvalid⟩ := Classical.not_imp.mp hb
        rw [writeParts_of_not_isValid (Bool.eq_false_iff.mpr hinvalid),
          writeParts_of_not_isValid (Bool.eq_false_iff.mpr hinvalid)]
        exact .unused _ _
termination_by parts => sizeOf parts

end

/-! ### Bodies -/

/-- What the body of an entity leaves on a sink without a limit, and on the sink with some room: the
same but for the room that is left, or else a failure of the sink's kind and as much as fits. -/
def CutShort (sink : Sink) (room : Nat) (failure : IoError) (full cut : Written Entity) : Prop :=
  ∃ bytes, full.2.2.sink.data = sink.data ++ bytes ∧
    cut.2.2.sink.data = sink.data ++ bytes.take room ∧
    (bytes.length ≤ room → cut = (full.1, full.2.1,
      ⟨full.2.2.sink.limitedTo (room - bytes.length) failure, full.2.2.host⟩)) ∧
    (room < bytes.length → ∃ e, cut.1 = .error (.io e) ∧ e.kind = failure.kind)

section bodies

variable {sink : Sink} {room : Nat} {failure : IoError} {full cut : Written Entity} {bytes : Bytes}

theorem cutShort_of_fits (fits : bytes.length ≤ room)
    (hdata : full.2.2.sink.data = sink.data ++ bytes)
    (hcut : cut = (full.1, full.2.1,
      ⟨full.2.2.sink.limitedTo (room - bytes.length) failure, full.2.2.host⟩)) :
    CutShort sink room failure full cut := by
  refine ⟨bytes, hdata, ?_, fun _ => hcut, fun exceeds => absurd fits (Nat.not_le.mpr exceeds)⟩
  rw [hcut, List.take_of_length_le fits, ← hdata]
  rfl

theorem cutShort_of_exceeds (exceeds : room < bytes.length)
    (hdata : full.2.2.sink.data = sink.data ++ bytes)
    (hcut : cut.2.2.sink.data = sink.data ++ bytes.take room)
    (hfails : ∃ e, cut.1 = .error (.io e) ∧ e.kind = failure.kind) :
    CutShort sink room failure full cut :=
  ⟨bytes, hdata, hcut, fun fits => absurd fits (Nat.not_le.mpr exceeds), fun _ => hfails⟩

theorem StepCut.cutShort (h : StepCut sink room failure full cut) :
    CutShort sink room failure full cut := by
  obtain ⟨answer, e, ⟨sink', host⟩⟩ := full
  obtain ⟨answer', e', ⟨sink'', host'⟩⟩ := cut
  cases h with
  | within bytes fits hfull hcut =>
      cases hfull
      cases hcut
      exact cutShort_of_fits fits (data_push sink bytes) rfl
  | beyond bytes exceeds hfull hcut failed =>
      cases hfull
      cases hcut
      exact cutShort_of_exceeds exceeds (data_push sink bytes) (data_push sink _) failed

/-- A stream is drained up to where the sink has no more room.  There the sink is not shut down. -/
theorem cutShort_drain (hsink : sink.limit = none) (stream : LiveStream) (host : Host)
    (e : Entity) :
    CutShort sink room failure
      ((drain stream ⟨sink, host⟩).1, e, (drain stream ⟨sink, host⟩).2)
      ((drain stream ⟨sink.limitedTo room failure, host⟩).1, e,
        (drain stream ⟨sink.limitedTo room failure, host⟩).2) := by
  have h := cuts_copy hsink room failure stream.arrivals
  unfold drain
  dsimp only
  generalize sink.copy stream.arrivals = full at h ⊢
  generalize (sink.limitedTo room failure).copy stream.arrivals = cut at h ⊢
  obtain ⟨answer, sink'⟩ := full
  obtain ⟨answer', sink''⟩ := cut
  cases h with
  | within bytes fits hfull hcut =>
      cases hfull
      cases hcut
      rcases answer with (_ | _) | u <;> exact cutShort_of_fits fits (data_push sink bytes) rfl
  | beyond bytes exceeds hfull hcut failed =>
      cases hfull
      cases hcut
      cases failed
      have hfails : ∃ err, Except.error (writingFailure failure) = (.error (.io err) :
          Except Error Unit) ∧ err.kind = failure.kind := ⟨_, rfl, rfl⟩
      rcases answer with (_ | _) | u <;>
        exact cutShort_of_exceeds exceeds (data_push sink bytes) (data_push sink _) hfails

theorem cutShort_serialize (hsink : sink.limit = none) (boundary : String) (host : Host)
    (e : Entity) :
    CutShort sink room failure (e.serialize boundary ⟨sink, host⟩)
      (e.serialize boundary ⟨sink.limitedTo room failure, host⟩) := by
  unfold serialize
  split
  · rename_i parts _
    exact ((stepCut_writeParts hsink room failure host boundary
      (e.mediaType.is MediaType.formData) true parts).leaving
        fun parts => e.withBody (.partList parts)).cutShort
  · exact (StepCut.unused _ _).cutShort
  · exact (StepCut.unused _ _).cutShort

/-- **A body written to a sink that fails** leaves the first bytes of what it writes to a sink that
does not, as many as there was room for.  If they are all, nothing else differs; if not, the failure
is of the sink's kind. -/
theorem writeBody_limitedTo (hsink : sink.limit = none) (room : Nat) (failure : IoError)
    (e : Entity) (host : Host) :
    CutShort sink room failure (e.writeBody ⟨sink, host⟩)
      (e.writeBody ⟨sink.limitedTo room failure, host⟩) := by
  cases hbody : e.body with
  | empty =>
      simp only [writeBody, hbody]
      exact (StepCut.unused _ _).cutShort
  | dataSource data =>
      simp only [writeBody, hbody]
      exact (stepCut_of_cuts (cuts_write hsink room failure data.toBytes) writingFailure
        ⟨_, rfl, rfl⟩ e host).cutShort
  | partList parts =>
      simp only [writeBody, hbody]
      exact cutShort_serialize hsink _ _ _
  | byteSource source =>
      rw [writeBody_of_byteSource e hbody, writeBody_of_byteSource e hbody]
      exact (stepCut_of_cuts (cuts_copy hsink room failure source.arrivals)
        (fun err => writingFailure err.cause) ⟨_, rfl, rfl⟩ (e.withBody .empty)
        (host.release source)).cutShort
  | liveStream stream =>
      simp only [writeBody, hbody]
      exact cutShort_drain hsink stream host _

/-- A message with a list of parts in it, one of which a reader brings. -/
def nestedMessage : Entity where
  head := { mediaType := ⟨"multipart", "mixed", "", ⟨[("boundary", "out")]⟩⟩ }
  body := .partList [{
    head := { mediaType := ⟨"multipart", "mixed", "", ⟨[("boundary", "in")]⟩⟩ }
    body := .partList [{ body := .byteSource (.ofReader [.ok [97, 98], .ok [99, 100]]) }] }]

/-- The sink fails within what the reader of the inner part brings. -/
theorem writeBody_limitedTo_nested :
    let cut := nestedMessage.writeBody
      ⟨Sink.unlimited.limitedTo 64 ⟨.brokenPipe, "gone"⟩, zeroHost⟩
    cut.2.2.sink.data = Utf8.ofString
        "--out\r\nContent-Type: multipart/mixed; boundary=in\r\n\r\n--in\r\n\r\nabc" ∧
      ∃ e, cut.1 = .error (.io e) ∧ e.kind = .brokenPipe := by
  have hfull : (nestedMessage.writeBody ⟨.unlimited, zeroHost⟩).2.2.sink.data = Utf8.ofString
      ("--out\r\nContent-Type: multipart/mixed; boundary=in\r\n\r\n--in\r\n\r\nabcd\r\n--in--" ++
        "\r\n--out--") := by decide +kernel
  have hsink : Sink.unlimited.limit = none := rfl
  obtain ⟨bytes, hbytes, hcut, -, hfails⟩ :=
    writeBody_limitedTo hsink 64 ⟨.brokenPipe, "gone"⟩ nestedMessage zeroHost
  rw [hfull, data_unlimited, List.nil_append] at hbytes
  subst hbytes
  exact ⟨hcut.trans (by decide +kernel), hfails (by decide +kernel)⟩

end bodies

end Mime.Entity
