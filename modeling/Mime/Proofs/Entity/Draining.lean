import Mime.Entity.Output
import Mime.Proofs.Sink

/-! # Draining a live stream

A live stream is drained chunk by chunk: what is pulled is written at once, up to the end of the
stream or to the first failure, on either side (`Drains`).  What comes of it depends on the chunks
in front of the first failure of the producer and on the room of the sink.  If they fit, all of them
are written and the sink is shut down; if not, as much of them is written as fits, and the sink is
left as it is (`writeBody_liveStream`). -/

namespace Mime

/-! ### What a stream brings -/

namespace LiveStream

/-- The chunks in front of the first failure. -/
def chunksOf : List Arrival → List Bytes
  | [] => []
  | .ok chunk :: rest => chunk :: chunksOf rest
  | .error _ :: _ => []

/-- The first failure. -/
def failureOf? : List Arrival → Option IoError
  | [] => none
  | .ok _ :: rest => failureOf? rest
  | .error e :: _ => some e

/-- The chunks that a stream brings before its producer fails, or all of them. -/
def chunks (stream : LiveStream) : List Bytes :=
  chunksOf stream.arrivals

/-- The first failure of the producer. -/
def failure? (stream : LiveStream) : Option IoError :=
  failureOf? stream.arrivals

theorem chunksOf_append : ∀ arrivals : List Arrival, ∃ behind,
    arrivals = (chunksOf arrivals).map .ok ++ behind ∧
      behind.head? = (failureOf? arrivals).map .error
  | [] => ⟨[], rfl, rfl⟩
  | .error e :: rest => ⟨.error e :: rest, rfl, rfl⟩
  | .ok chunk :: rest => by
      obtain ⟨behind, harrivals, hhead⟩ := chunksOf_append rest
      exact ⟨behind, congrArg (.ok chunk :: ·) harrivals, hhead⟩

end LiveStream

/-! ### Copying what a stream brings -/

namespace Sink

open LiveStream

/-- How a copy ends for which there is room. -/
def copyEnd : Option IoError → Except CopyFailure Unit
  | none => .ok ()
  | some e => .error (.source e)

/-- To copy what arrives is to write, all at once, what is in front of the first failure. -/
theorem copy_eq_write (s : Sink) (arrivals : List Arrival) :
    s.copy arrivals = match s.write (chunksOf arrivals).flatten with
      | (.error e, s) => (.error (.sink e), s)
      | (.ok (), s) => (copyEnd (failureOf? arrivals), s) := by
  induction arrivals generalizing s with
  | nil =>
      rw [chunksOf, List.flatten_nil, write_nil]
      rfl
  | cons item rest ih =>
      cases item with
      | error e =>
          rw [chunksOf, List.flatten_nil, write_nil]
          rfl
      | ok chunk =>
          rw [copy, chunksOf, List.flatten_cons, write_append]
          cases s.write chunk with
          | mk answer s' =>
              cases answer with
              | error e => rfl
              | ok u => exact ih s'

theorem copy_ok_nil (s : Sink) (rest : List Arrival) : s.copy (.ok [] :: rest) = s.copy rest := by
  rw [copy, write_nil]

theorem copy_ok_append (s : Sink) (a b : Bytes) (rest : List Arrival) :
    s.copy (.ok (a ++ b) :: rest) = s.copy (.ok a :: .ok b :: rest) := by
  rw [copy, write_append, copy]
  cases s.write a with
  | mk answer s' => cases answer <;> rfl

end Sink

/-! ### Pulling -/

/-- How many items are still to come, and bytes in them. -/
def ByteSource.weight : List Arrival → Nat
  | [] => 0
  | .ok bytes :: rest => bytes.length + 1 + weight rest
  | .error _ :: rest => 1 + weight rest

/-- A read takes from the front of what arrives, and nothing only at the end. -/
theorem ByteSource.copy_readArrivals {n : Nat} (hn : 0 < n) {arrivals left : List Arrival}
    {item : Arrival} (h : readArrivals n arrivals = (item, left)) :
    (∀ s : Sink, s.copy arrivals = s.copy (item :: left)) ∧ (item = .ok [] → left = []) ∧
      ∀ b bs, item = .ok (b :: bs) → weight left < weight arrivals := by
  fun_induction readArrivals n arrivals with
  | case1 =>
      cases h
      exact ⟨fun s => (s.copy_ok_nil []).symm, fun _ => rfl, nofun⟩
  | case2 e rest hzero => exact absurd hzero (Nat.ne_of_gt hn)
  | case3 e rest _ =>
      cases h
      exact ⟨fun s => rfl, nofun, nofun⟩
  | case4 rest ih =>
      obtain ⟨hcopy, hend, hweight⟩ := ih h
      refine ⟨fun s => (s.copy_ok_nil rest).trans (hcopy s), hend, fun b bs hitem => ?_⟩
      have hlt := hweight b bs hitem
      rw [weight]
      omega
  | case5 b bs rest =>
      cases h
      refine ⟨fun s => ?_, fun hnil => ?_, fun b' bs' hitem => ?_⟩
      · rw [← Sink.copy_ok_append, List.take_append_drop]
      · obtain ⟨k, rfl⟩ : ∃ k, n = k + 1 := ⟨n - 1, by omega⟩
        cases hnil
      · rw [weight, weight, List.length_drop, List.length_cons]
        omega

namespace LiveStream

/-- Whether a stream that cuts a source has a buffer for a byte at least. -/
def IsWide : LiveStream → Prop
  | .producer _ => True
  | .sliced size _ _ => 0 < size

theorem isWide_ofSource (size : Nat) (source : ByteSource) : (ofSource size source).IsWide :=
  Nat.lt_of_lt_of_le Nat.one_pos (Nat.le_max_right size 1)

variable {stream stream' : LiveStream} {spills spills' : Spills} {item : Option Arrival}

/-- What is pulled comes from the front of what arrives, and the source is closed in the end, be it
by the stream or with it. -/
theorem copy_pull (hwide : stream.IsWide) (h : stream.pull spills = (item, stream', spills')) :
    (∀ s : Sink, s.copy stream.arrivals = s.copy (item.toList ++ stream'.arrivals)) ∧
      (item = none → stream'.arrivals = []) ∧
      spills'.releaseStream stream' = spills.releaseStream stream ∧
      ∀ chunk, item = some (.ok chunk) →
        stream'.IsWide ∧
          ByteSource.weight stream'.arrivals < ByteSource.weight stream.arrivals := by
  match stream with
  | .producer [] =>
      cases h
      exact ⟨fun s => rfl, fun _ => rfl, rfl, nofun⟩
  | .producer (_ :: _) =>
      cases h
      refine ⟨fun s => rfl, nofun, rfl, fun chunk hchunk => ⟨trivial, ?_⟩⟩
      cases hchunk
      rw [arrivals, arrivals, ByteSource.weight]
      omega
  | .sliced _ _ none =>
      cases h
      exact ⟨fun s => rfl, fun _ => rfl, rfl, nofun⟩
  | .sliced size room (some source) =>
      obtain ⟨free, hfree, hpos⟩ : ∃ free, (if room = 0 then size else room) = free ∧ 0 < free := by
        by_cases h0 : room = 0
        · exact ⟨size, if_pos h0, hwide⟩
        · exact ⟨room, if_neg h0, Nat.pos_of_ne_zero h0⟩
      have hfile := ByteSource.file?_read source free
      cases hread : source.read free with
      | mk result source' =>
          rw [hread] at hfile
          have hrelease : spills.release source' = spills.release source :=
            Spills.release_congr spills hfile
          have harrivals : ByteSource.readArrivals free source.arrivals =
              (result, source'.arrivals) := by
            cases hread
            rfl
          obtain ⟨hcopy, hend, hweight⟩ := ByteSource.copy_readArrivals hpos harrivals
          rw [pull] at h
          simp only [hfree, hread] at h
          match result with
          | .error e =>
              cases h
              exact ⟨hcopy, nofun, hrelease, nofun⟩
          | .ok [] =>
              cases h
              rw [hend rfl] at hcopy
              exact ⟨fun s => (hcopy s).trans (s.copy_ok_nil []), fun _ => rfl, hrelease, nofun⟩
          | .ok (b :: bs) =>
              cases h
              exact ⟨hcopy, nofun, hrelease, fun chunk _ => ⟨hwide, hweight b bs rfl⟩⟩

end LiveStream

namespace Entity

/-! ### Draining -/

/-- How a stream is drained, chunk by chunk: to its end, to a failure of the producer, or to a
failure of the sink.  In any case it is dropped then. -/
inductive Drains : LiveStream → Output → Except Error Unit → Output → Prop
  | ended {stream stream' : LiveStream} {o : Output} {spills : Spills}
      (pull_eq : stream.pull o.host.spills = (none, stream', spills)) :
      Drains stream o (o.sink.shutdown.1.mapError writingFailure)
        ⟨o.sink.shutdown.2, { o.host with spills := spills.releaseStream stream' }⟩
  | failed {stream stream' : LiveStream} {o : Output} {spills : Spills} {e : IoError}
      (pull_eq : stream.pull o.host.spills = (some (.error e), stream', spills)) :
      Drains stream o (.error (streamingFailure e))
        ⟨o.sink.shutdown.2, { o.host with spills := spills.releaseStream stream' }⟩
  | refused {stream stream' : LiveStream} {o : Output} {spills : Spills} {chunk : Bytes}
      {e : IoError} {sink : Sink}
      (pull_eq : stream.pull o.host.spills = (some (.ok chunk), stream', spills))
      (write_eq : o.sink.write chunk = (.error e, sink)) :
      Drains stream o (.error (writingFailure e))
        ⟨sink, { o.host with spills := spills.releaseStream stream' }⟩
  | wrote {stream stream' : LiveStream} {o left : Output} {spills : Spills} {chunk : Bytes}
      {sink : Sink} {answer : Except Error Unit}
      (pull_eq : stream.pull o.host.spills = (some (.ok chunk), stream', spills))
      (write_eq : o.sink.write chunk = (.ok (), sink))
      (tail : Drains stream' ⟨sink, { o.host with spills }⟩ answer left) :
      Drains stream o answer left

/-- What draining does with the first item of a stream. -/
theorem drain_eq_pull {stream : LiveStream} (hwide : stream.IsWide) (o : Output) :
    drain stream o = match stream.pull o.host.spills with
      | (none, stream', spills) => (o.sink.shutdown.1.mapError writingFailure,
          ⟨o.sink.shutdown.2, { o.host with spills := spills.releaseStream stream' }⟩)
      | (some (.error e), stream', spills) => (.error (streamingFailure e),
          ⟨o.sink.shutdown.2, { o.host with spills := spills.releaseStream stream' }⟩)
      | (some (.ok chunk), stream', spills) =>
        match o.sink.write chunk with
        | (.error e, sink) => (.error (writingFailure e),
            ⟨sink, { o.host with spills := spills.releaseStream stream' }⟩)
        | (.ok (), sink) => drain stream' ⟨sink, { o.host with spills }⟩ := by
  cases hpull : stream.pull o.host.spills with
  | mk item rest =>
      obtain ⟨stream', spills⟩ := rest
      obtain ⟨hcopy, hend, hrelease, -⟩ := LiveStream.copy_pull hwide hpull
      have hhost : o.host.releaseStream stream =
          { o.host with spills := spills.releaseStream stream' } := by
        rw [Host.releaseStream, ← hrelease]
      rw [drain, hcopy, hhost]
      match item with
      | none =>
          rw [hend rfl]
          rfl
      | some (.error e) => rfl
      | some (.ok chunk) =>
          have hfirst : o.sink.copy ((some (.ok chunk)).toList ++ stream'.arrivals) =
              match o.sink.write chunk with
              | (.error e, sink) => (.error (.sink e), sink)
              | (.ok (), sink) => sink.copy stream'.arrivals := rfl
          rw [hfirst]
          dsimp only
          cases o.sink.write chunk with
          | mk result sink => cases result <;> rfl

/-- **Draining is pulling and writing**, one chunk after the other. -/
theorem drains_drain {stream : LiveStream} (hwide : stream.IsWide) (o : Output) :
    Drains stream o (drain stream o).1 (drain stream o).2 := by
  -- each chunk that is pulled leaves fewer items, or fewer bytes in them
  induction hn : ByteSource.weight stream.arrivals using Nat.strongRecOn generalizing stream o with
  | ind n ih =>
      have hdrain := drain_eq_pull hwide o
      cases hpull : stream.pull o.host.spills with
      | mk item rest =>
          obtain ⟨stream', spills⟩ := rest
          rw [hpull] at hdrain
          match item with
          | none =>
              rw [hdrain]
              exact .ended hpull
          | some (.error e) =>
              rw [hdrain]
              exact .failed hpull
          | some (.ok chunk) =>
              obtain ⟨-, -, -, hnext⟩ := LiveStream.copy_pull hwide hpull
              obtain ⟨hwide', hlt⟩ := hnext chunk rfl
              cases hwrite : o.sink.write chunk with
              | mk result sink =>
                  dsimp only at hdrain
                  rw [hwrite] at hdrain
                  rw [hdrain]
                  cases result with
                  | error e => exact .refused hpull hwrite
                  | ok u => exact .wrote hpull hwrite (ih _ (hn ▸ hlt) hwide' _ rfl)

theorem drain_of_hasRoom {stream : LiveStream} {o : Output}
    (h : o.sink.HasRoom stream.chunks.flatten.length) :
    drain stream o = (match stream.failure? with
        | some e => .error (streamingFailure e)
        | none => o.sink.shutdown.1.mapError writingFailure,
      ⟨(o.sink.accept stream.chunks.flatten).shutdown.2, o.host.releaseStream stream⟩) := by
  have hwrite : o.sink.write (LiveStream.chunksOf stream.arrivals).flatten =
      (.ok (), o.sink.accept stream.chunks.flatten) :=
    Sink.write_eq_accept h
  rw [drain, Sink.copy_eq_write, hwrite, LiveStream.failure?]
  cases LiveStream.failureOf? stream.arrivals with
  | none => rfl
  | some e => rfl

theorem drain_of_lt {stream : LiveStream} {o : Output} {limit : SinkLimit}
    (hlimit : o.sink.limit = some limit) (h : limit.room < stream.chunks.flatten.length) :
    drain stream o = (.error (writingFailure limit.failure),
      ⟨o.sink.accept (stream.chunks.flatten.take limit.room), o.host.releaseStream stream⟩) := by
  have hwrite : o.sink.write (LiveStream.chunksOf stream.arrivals).flatten =
      (.error limit.failure, o.sink.accept (stream.chunks.flatten.take limit.room)) :=
    Sink.write_eq_accept_take hlimit h
  rw [drain, Sink.copy_eq_write, hwrite]

/-- **Writing a live stream** takes it out of the entity and closes the source that it may hold.  If
the chunks that the stream brings before its producer fails, or all of them, are more than the sink
accepts, then as much of them is written as it accepts, it is not shut down, and the failure is the
sink's.  If they fit, just these are written, the sink is shut down once, and the failure is the
producer's, whatever the shutdown says, or else that of the shutdown, if it failed.  Each chunk is
written before the next one is pulled. -/
theorem writeBody_liveStream {e : Entity} {stream : LiveStream} (h : e.body = .liveStream stream)
    (o : Output) :
    let (answer, left, o') := e.writeBody o
    let bytes := stream.chunks.flatten
    (left = e.withBody .empty ∧ o'.host = o.host.releaseStream stream) ∧
      (∀ limit, o.sink.limit = some limit → limit.room < bytes.length →
        answer = .error (writingFailure limit.failure) ∧
          o'.sink.data = o.sink.data ++ bytes.take limit.room ∧
          o'.sink.shutdowns = o.sink.shutdowns) ∧
      (o.sink.HasRoom bytes.length →
        o'.sink.data = o.sink.data ++ bytes ∧ o'.sink.shutdowns = o.sink.shutdowns + 1 ∧
          answer = match stream.failure?, o.sink.shutdownFailure with
            | some failure, _ => .error (streamingFailure failure)
            | none, some failure => .error (writingFailure failure)
            | none, none => .ok ()) ∧
      (∃ behind, stream.arrivals = stream.chunks.map .ok ++ behind ∧
        behind.head? = stream.failure?.map .error) ∧
      (stream.IsWide → Drains stream o answer o') := by
  have hwrite : e.writeBody o = ((drain stream o).1, e.withBody .empty, (drain stream o).2) := by
    rw [writeBody, h]
  rw [hwrite]
  refine ⟨⟨rfl, ?_⟩, fun limit hlimit hlt => ?_, fun hroom => ?_,
    LiveStream.chunksOf_append stream.arrivals, fun hwide => drains_drain hwide o⟩
  · rcases o.sink.hasRoom_or_lt stream.chunks.flatten.length with hroom | ⟨limit, hlimit, hlt⟩
    · rw [drain_of_hasRoom hroom]
    · rw [drain_of_lt hlimit hlt]
  · rw [drain_of_lt hlimit hlt]
    exact ⟨rfl, Sink.data_accept _ _, rfl⟩
  · rw [drain_of_hasRoom hroom]
    refine ⟨Sink.data_accept _ _, rfl, ?_⟩
    cases stream.failure? with
    | some failure => rfl
    | none =>
        dsimp only [Sink.shutdown]
        cases o.sink.shutdownFailure with
        | none => rfl
        | some failure => rfl

/-- A source that fails behind three bytes, in chunks of two. -/
def cutReader : LiveStream :=
  .ofSource 2 (.ofReader [.ok [97, 98, 99], .error ⟨.connectionReset, "gone"⟩, .ok [100]])

/-- A sink that has room for so many bytes, and whose shutdown fails. -/
def narrowSink (room : Nat) : Sink where
  limit := some ⟨room, ⟨.brokenPipe, "full"⟩⟩
  shutdownFailure := some ⟨.timedOut, "late"⟩

/-- Where there is room for three bytes the failure is that of the source, and where there is room
for two it is that of the sink. -/
theorem writeBody_liveStream_cutReader :
    let e : Entity := { body := .liveStream cutReader }
    let wide : Output := ⟨narrowSink 3, { entropy := { byteAt := fun _ => 0 } }⟩
    let narrow : Output := ⟨narrowSink 2, { entropy := { byteAt := fun _ => 0 } }⟩
    ((e.writeBody wide).1 =
        .error (.io ⟨.connectionReset, "Error occurred while streaming content: gone"⟩) ∧
      (e.writeBody wide).2.2.sink.data = [97, 98, 99] ∧
      (e.writeBody wide).2.2.sink.shutdowns = 1 ∧
      Drains cutReader wide (e.writeBody wide).1 (e.writeBody wide).2.2) ∧
    (e.writeBody narrow).1 =
        .error (.io ⟨.brokenPipe, "Error occurred while writing the stream content: full"⟩) ∧
      (e.writeBody narrow).2.2.sink.data = [97, 98] ∧
      (e.writeBody narrow).2.2.sink.shutdowns = 0 := by
  intro e wide narrow
  have hlength : cutReader.chunks.flatten.length = 3 := rfl
  obtain ⟨-, -, hfits, -, hdrains⟩ := writeBody_liveStream (e := e) rfl wide
  obtain ⟨-, hexceeds, -⟩ := writeBody_liveStream (e := e) rfl narrow
  have hroom : wide.sink.HasRoom cutReader.chunks.flatten.length := by
    rintro _ ⟨rfl⟩
    exact Nat.le_refl 3
  obtain ⟨hdata, hshutdowns, hanswer⟩ := hfits hroom
  obtain ⟨hanswer', hdata', hshutdowns'⟩ := hexceeds _ rfl (by decide)
  exact ⟨⟨hanswer, hdata, hshutdowns, hdrains (LiveStream.isWide_ofSource _ _)⟩,
    hanswer', hdata', hshutdowns'⟩

end Entity
end Mime
