import Mime.Entity.Output
import Mime.Proofs.Entity.WriteList

/-! # Bytes are delivered once

The bytes of a byte source can be taken chunk by chunk, all at once, by writing them somewhere, or
through a stream, and one of these ways may follow on chunks taken before.  They share what is left
of the source (`Holds.nextChunk`, `Holds.nextChunks`), and each of them takes all of it (`Yields`).
So whatever chunks were taken, they and the bytes that come behind them are just the bytes of the
source (`yields_of_nextChunks`). -/

namespace Mime

/-! ### Reading from a source -/

namespace ByteSource

/-- A source can be read to its end just where nothing fails; then its bytes are those of its
pieces. -/
theorem joinArrivals_eq_ok_iff {arrivals : List Arrival} {c : Bytes} :
    joinArrivals arrivals = .ok c ↔
      ∃ pieces : List Bytes, arrivals = pieces.map .ok ∧ pieces.flatten = c := by
  induction arrivals generalizing c with
  | nil =>
    constructor
    · rintro ⟨rfl⟩
      exact ⟨[], rfl, rfl⟩
    · rintro ⟨pieces, h, rfl⟩
      rw [List.map_eq_nil_iff.mp h.symm]
      rfl
  | cons item rest ih =>
    cases item with
    | error e =>
      constructor
      · nofun
      · rintro ⟨_ | ⟨piece, pieces⟩, h, -⟩ <;> cases h
    | ok bytes =>
      rw [Entity.joinArrivals_ok, map_eq_ok_iff]
      constructor
      · rintro ⟨c', hrest, rfl⟩
        obtain ⟨pieces, rfl, rfl⟩ := ih.mp hrest
        exact ⟨bytes :: pieces, rfl, rfl⟩
      · rintro ⟨_ | ⟨piece, pieces⟩, h, rfl⟩
        · cases h
        · obtain ⟨hpiece, hrest⟩ := List.cons.inj h
          cases hpiece
          exact ⟨_, ih.mpr ⟨pieces, hrest, rfl⟩, rfl⟩

/-- A read takes the first bytes; there are none only at the end. -/
theorem readArrivals_of_joinArrivals {n : Nat} (hn : 0 < n) {arrivals : List Arrival} {c : Bytes}
    (h : joinArrivals arrivals = .ok c) :
    ∃ chunk left rest, readArrivals n arrivals = (.ok chunk, left) ∧
      joinArrivals left = .ok rest ∧ c = chunk ++ rest ∧ chunk.length ≤ n ∧
      (chunk = [] → c = []) := by
  induction arrivals generalizing c with
  | nil =>
    cases h
    exact ⟨[], [], [], rfl, rfl, rfl, Nat.zero_le n, fun _ => rfl⟩
  | cons item rest ih =>
    match item with
    | .error e => cases h
    | .ok [] =>
      rw [Entity.joinArrivals_ok, map_eq_ok_iff] at h
      obtain ⟨c', hrest, rfl⟩ := h
      exact ih hrest
    | .ok (b :: bs) =>
      rw [Entity.joinArrivals_ok, map_eq_ok_iff] at h
      obtain ⟨c', hrest, rfl⟩ := h
      refine ⟨(b :: bs).take n, .ok ((b :: bs).drop n) :: rest, (b :: bs).drop n ++ c', rfl, ?_, ?_,
        List.length_take_le n _, fun hnil => ?_⟩
      · rw [Entity.joinArrivals_ok, hrest]
        rfl
      · rw [← List.append_assoc, List.take_append_drop]
      · obtain ⟨k, rfl⟩ : ∃ k, n = k + 1 := ⟨n - 1, by omega⟩
        cases hnil

theorem read_of_readAll {n : Nat} (hn : 0 < n) {s : ByteSource} {c : Bytes}
    (h : s.readAll = .ok c) :
    ∃ chunk s' rest, s.read n = (.ok chunk, s') ∧ s'.readAll = .ok rest ∧ c = chunk ++ rest ∧
      chunk.length ≤ n ∧ (chunk = [] → c = []) := by
  obtain ⟨chunk, left, rest, hread, hleft, hc, hlen, hnil⟩ := readArrivals_of_joinArrivals hn h
  refine ⟨chunk, { s with arrivals := left }, rest, ?_, hleft, hc, hlen, hnil⟩
  rw [read, hread]

end ByteSource

namespace Sink

theorem copy_of_hasRoom {s : Sink} {arrivals : List Arrival} {c : Bytes}
    (h : ByteSource.joinArrivals arrivals = .ok c) (hroom : s.HasRoom c.length) :
    ∃ s', s.copy arrivals = (.ok (), s') ∧ s'.data = s.data ++ c := by
  obtain ⟨pieces, rfl, rfl⟩ := ByteSource.joinArrivals_eq_ok_iff.mp h
  clear h
  induction pieces generalizing s with
  | nil => exact ⟨s, rfl, (List.append_nil _).symm⟩
  | cons piece pieces ih =>
    rw [List.flatten_cons, List.length_append] at hroom
    obtain ⟨s', hwrite, hdata, hroom'⟩ := write_of_hasRoom hroom
    obtain ⟨s'', hcopy, hdata'⟩ := ih hroom'
    refine ⟨s'', ?_, by rw [hdata', hdata, List.flatten_cons, List.append_assoc]⟩
    rw [List.map_cons, copy, hwrite]
    exact hcopy

end Sink

namespace Entity

variable {e : Entity} {c : Bytes}

/-! ### Chunk by chunk -/

/-- The next chunk is there as long as there are bytes; behind them the body is gone. -/
theorem Holds.nextChunk (h : e.Holds c) (host : Host) (n : Nat) :
    (c = [] ∧ (e.nextChunk host n).answer = .ok none ∧
      (e.nextChunk host n).entity.body = .empty) ∨
    ∃ chunk rest, c = chunk ++ rest ∧ 1 ≤ chunk.length ∧ chunk.length ≤ max n 1 ∧
      (e.nextChunk host n).answer = .ok (some chunk) ∧
      (e.nextChunk host n).entity.Holds rest := by
  obtain ⟨source, hbody, hread⟩ := h
  obtain ⟨chunk, source', rest, hchunk, hrest, rfl, hlen, hnil⟩ :=
    ByteSource.read_of_readAll (Nat.lt_of_lt_of_le Nat.one_pos (Nat.le_max_right n 1)) hread
  cases chunk with
  | nil =>
    refine .inl ⟨hnil rfl, ?_⟩
    have hclose := (e.withBody (.byteSource source')).closeByteSource_of_byteSource host rfl
    simp only [Entity.nextChunk, hbody, hchunk, hclose]
    exact ⟨rfl, rfl⟩
  | cons b bs =>
    refine .inr ⟨b :: bs, rest, rfl, Nat.succ_pos _, hlen, ?_⟩
    simp only [Entity.nextChunk, hbody, hchunk, true_and]
    exact ⟨source', rfl, hrest⟩

/-- Chunks of up to so many bytes each, one after the other: the answers, and what they leave. -/
def nextChunks (e : Entity) (host : Host) :
    List Nat → List (Except Error (Option Bytes)) × Entity × Host
  | [] => ([], e, host)
  | n :: maxima =>
    let o := e.nextChunk host n
    let (answers, e, host) := o.entity.nextChunks o.host maxima
    (o.answer :: answers, e, host)

/-- As long as the end was not met, the answers are chunks, and what is behind them is left. -/
theorem Holds.nextChunks {host : Host} {maxima : List Nat} (h : e.Holds c)
    (hopen : .ok none ∉ (e.nextChunks host maxima).1) :
    ∃ chunks rest, (e.nextChunks host maxima).1 = chunks.map (fun chunk => .ok (some chunk)) ∧
      List.Forall₂ (fun chunk n => 1 ≤ chunk.length ∧ chunk.length ≤ max n 1) chunks maxima ∧
      c = chunks.flatten ++ rest ∧ (e.nextChunks host maxima).2.1.Holds rest := by
  induction maxima generalizing e c host with
  | nil => exact ⟨[], c, rfl, .nil, rfl, h⟩
  | cons n maxima ih =>
    rw [Entity.nextChunks] at hopen ⊢
    dsimp only at hopen ⊢
    rw [List.mem_cons, not_or] at hopen
    obtain ⟨-, hnone, -⟩ | ⟨chunk, rest, rfl, hpos, hmax, hsome, hrest⟩ := h.nextChunk host n
    · exact absurd hnone.symm hopen.1
    · obtain ⟨chunks, rest', hanswers, hsizes, rfl, hholds⟩ := ih hrest hopen.2
      refine ⟨chunk :: chunks, rest', ?_, .cons ⟨hpos, hmax⟩ hsizes, ?_, hholds⟩
      · rw [hsome, hanswers, List.map_cons]
      · rw [List.flatten_cons, List.append_assoc]

/-! ### Without a byte source -/

/-- Whether there are no bytes to be read, and reading leaves everything as it is. -/
def Spent (e : Entity) : Prop :=
  ∀ [Charset.Codecs] (host : Host), e.readBytes host = ⟨.error (.noContent .bytes), e, host⟩ ∧
    e.readText host = ⟨.error (.noContent .text), e, host⟩ ∧
    e.readJson host = ⟨.error (.noContent .json), e, host⟩ ∧
    e.readXml host = ⟨.error (.noContent .xml), e, host⟩

theorem spent_of_byteSource?_eq_none (h : e.byteSource? = none) : e.Spent := by
  have hread : ∀ host missing, e.readAllBytes host missing =
      ⟨.error (.noContent missing), e, host⟩ := by
    intro host missing
    unfold readAllBytes
    unfold byteSource? at h
    split at h
    · cases h
    · rfl
  intro _ host
  refine ⟨hread host _, ?_, ?_, ?_⟩
  · rw [readText, readWith, hread]
    rfl
  · rw [readJson, readWith, hread]
    rfl
  · rw [readXml, readWith, hread]
    rfl

/-! ### Through a stream -/

/-- Chunks of a stream, one after the other: so many of its items, and what they leave. -/
def pulls (e : Entity) (host : Host) : Nat → List (Option Arrival) × Entity × Host
  | 0 => ([], e, host)
  | k + 1 =>
    let (item, e, host) := e.pull host
    let (items, e, host) := e.pulls host k
    (item :: items, e, host)

end Entity

/-- A stream that cuts a source gives the next bytes of it, and ends where they end. -/
theorem LiveStream.pull_of_readAll {size room : Nat} {source : ByteSource} {c : Bytes}
    (hsize : 0 < size) (hroom : room ≤ size) (h : source.readAll = .ok c) (spills : Spills) :
    (c = [] ∧ ∃ stream spills',
      (LiveStream.sliced size room (some source)).pull spills = (none, stream, spills')) ∨
    ∃ chunk rest room' source', c = chunk ++ rest ∧ 1 ≤ chunk.length ∧ chunk.length ≤ size ∧
      (LiveStream.sliced size room (some source)).pull spills =
        (some (.ok chunk), .sliced size room' (some source'), spills) ∧
      room' ≤ size ∧ source'.readAll = .ok rest := by
  obtain ⟨free, hfree, hpos, hle⟩ :
      ∃ free, (if room = 0 then size else room) = free ∧ 0 < free ∧ free ≤ size := by
    by_cases h0 : room = 0
    · exact ⟨size, if_pos h0, hsize, Nat.le_refl size⟩
    · exact ⟨room, if_neg h0, Nat.pos_of_ne_zero h0, hroom⟩
  obtain ⟨chunk, source', rest, hchunk, hrest, rfl, hlen, hnil⟩ :=
    ByteSource.read_of_readAll hpos h
  cases chunk with
  | nil =>
    refine .inl ⟨hnil rfl, .sliced size free none, spills.release source', ?_⟩
    simp only [pull, hfree, hchunk]
  | cons b bs =>
    refine .inr ⟨b :: bs, rest, free - (b :: bs).length, source', rfl, Nat.succ_pos _,
      Nat.le_trans hlen hle, ?_, Nat.le_trans (Nat.sub_le _ _) hle, hrest⟩
    simp only [pull, hfree, hchunk]

namespace Entity

variable {e : Entity} {c : Bytes}

theorem pulls_of_readAll {size room : Nat} {source : ByteSource} (hsize : 0 < size)
    (hroom : room ≤ size) (hread : source.readAll = .ok c)
    (hbody : e.body = .liveStream (.sliced size room (some source))) (host : Host) :
    ∃ chunks : List Bytes, c = chunks.flatten ∧
      (∀ chunk ∈ chunks, 1 ≤ chunk.length ∧ chunk.length ≤ size) ∧
      (e.pulls host (chunks.length + 1)).1 = chunks.map (fun chunk => some (.ok chunk)) ++ [none] ∧
      (e.pulls host (chunks.length + 1)).2.1.Spent := by
  -- every chunk takes at least one of the bytes that are left
  induction hn : c.length using Nat.strongRecOn generalizing c e room source with
  | ind n ih =>
    rcases LiveStream.pull_of_readAll hsize hroom hread host.spills with
      ⟨rfl, stream, spills, hpull⟩ |
      ⟨chunk, rest, room', source', rfl, hpos, hle, hpull, hroom', hrest⟩
    · have he : e.pull host = (none, e.withBody (.liveStream stream), { host with spills }) := by
        simp only [pull, hbody, hpull]
      refine ⟨[], rfl, nofun, ?_, ?_⟩ <;> simp only [pulls, he, List.length_nil]
      · rfl
      · exact spent_of_byteSource?_eq_none rfl
    · have he : e.pull host = (some (.ok chunk),
          e.withBody (.liveStream (.sliced size room' (some source'))), host) := by
        simp only [pull, hbody, hpull]
      rw [List.length_append] at hn
      obtain ⟨chunks, rfl, hsizes, hitems, hspent⟩ := ih rest.length (by omega) hroom' hrest
        (rfl : (e.withBody (.liveStream (.sliced size room' (some source')))).body = _) rfl
      refine ⟨chunk :: chunks, rfl, List.forall_mem_cons.mpr ⟨⟨hpos, hle⟩, hsizes⟩, ?_, ?_⟩ <;>
        rw [List.length_cons, pulls, he]
      · dsimp only
        rw [hitems]
        rfl
      · exact hspent

/-! ### All that is left -/

/-- Every way of taking what is left of an entity gives the same bytes, and takes them all: the
next chunk is there unless there are none, all of them can be read, written where there is room for
them, and pulled through a stream.  Behind them nothing can be read. -/
structure Yields (e : Entity) (rest : Bytes) : Prop where
  nextChunk_eq_none_iff : ∀ host n, (e.nextChunk host n).answer = .ok none ↔ rest = []
  empty_of_none : ∀ host n, (e.nextChunk host n).answer = .ok none →
    (e.nextChunk host n).entity.body = .empty
  readBytes : ∀ host, (e.readBytes host).answer = .ok rest ∧ (e.readBytes host).entity.Spent
  writeBody : ∀ o : Output, o.sink.HasRoom rest.length →
    (e.writeBody o).1 = .ok () ∧ (e.writeBody o).2.2.sink.data = o.sink.data ++ rest ∧
      (e.writeBody o).2.1.Spent
  byteStream : ∀ host n, ∃ (e' : Entity) (chunks : List Bytes), e.byteStream n = .ok e' ∧
    rest = chunks.flatten ∧ (∀ chunk ∈ chunks, 1 ≤ chunk.length ∧ chunk.length ≤ max n 1) ∧
    (e'.pulls host (chunks.length + 1)).1 = chunks.map (fun chunk => some (.ok chunk)) ++ [none] ∧
    (e'.pulls host (chunks.length + 1)).2.1.Spent

theorem Holds.yields (h : e.Holds c) : e.Yields c := by
  obtain ⟨source, hbody, hread⟩ := id h
  refine ⟨fun host n => ?_, fun host n hnone => ?_, fun host => ?_, fun o hroom => ?_,
    fun host n => ?_⟩
  · obtain ⟨hnil, hnone, -⟩ | ⟨chunk, rest, rfl, hpos, -, hsome, -⟩ := h.nextChunk host n
    · exact iff_of_true hnone hnil
    · refine iff_of_false (by rw [hsome]; nofun) fun hnil => ?_
      rw [(List.append_eq_nil_iff.mp hnil).1] at hpos
      cases hpos
  · obtain ⟨-, -, hempty⟩ | ⟨_, _, -, -, -, hsome, -⟩ := h.nextChunk host n
    · exact hempty
    · cases hsome.symm.trans hnone
  · have he : e.readBytes host = ⟨.ok c, e.withBody .empty, host.release source⟩ := by
      rw [readBytes, readAllBytes_of_byteSource e host hbody, hread]
      rfl
    rw [he]
    exact ⟨rfl, spent_of_byteSource?_eq_none rfl⟩
  · obtain ⟨sink, hcopy, hdata⟩ := Sink.copy_of_hasRoom hread hroom
    have he : e.writeBody o = (.ok (), e.withBody .empty, ⟨sink, o.host.release source⟩) := by
      rw [writeBody_of_byteSource e hbody, hcopy]
      rfl
    rw [he]
    exact ⟨rfl, hdata, spent_of_byteSource?_eq_none rfl⟩
  · have he : e.byteStream n = .ok (e.withBody (.liveStream (.ofSource n source))) := by
      simp only [Entity.byteStream, hbody]
    obtain ⟨chunks, hc, hsizes, hitems, hspent⟩ := pulls_of_readAll
      (Nat.lt_of_lt_of_le Nat.one_pos (Nat.le_max_right n 1)) (Nat.zero_le _) hread
      (rfl : (e.withBody (.liveStream (.ofSource n source))).body = _) host
    exact ⟨_, chunks, he, hc, hsizes, hitems, hspent⟩

/-- **No byte is lost or delivered twice.**  An entity holds a source that brings some pieces.  Any
calls for chunks are answered by chunks that are not empty and not greater than asked for, until
one finds the end; and whatever way is taken then, it gives just the bytes behind those chunks. -/
theorem yields_of_nextChunks {source : ByteSource} (pieces : List Bytes) {host : Host}
    {maxima : List Nat} (hbody : e.body = .byteSource source)
    (hsource : source.arrivals = pieces.map .ok)
    (hopen : .ok none ∉ (e.nextChunks host maxima).1) :
    ∃ chunks rest, (e.nextChunks host maxima).1 = chunks.map (fun chunk => .ok (some chunk)) ∧
      List.Forall₂ (fun chunk n => 1 ≤ chunk.length ∧ chunk.length ≤ max n 1) chunks maxima ∧
      pieces.flatten = chunks.flatten ++ rest ∧ (e.nextChunks host maxima).2.1.Yields rest := by
  have hholds : e.Holds pieces.flatten :=
    ⟨source, hbody, ByteSource.joinArrivals_eq_ok_iff.mpr ⟨pieces, hsource, rfl⟩⟩
  obtain ⟨chunks, rest, hanswers, hsizes, hc, hrest⟩ := hholds.nextChunks hopen
  exact ⟨chunks, rest, hanswers, hsizes, hc, hrest.yields⟩

/-- A reader that brings an empty piece between two others, and two chunks taken from it. -/
theorem yields_of_nextChunks_reader :
    let e : Entity := { body := .byteSource (.ofReader [.ok [1, 2], .ok [], .ok [3, 4]]) }
    let o := e.nextChunks zeroHost [1, 5]
    .ok none ∉ o.1 ∧ ∃ chunks rest, o.1 = chunks.map (fun chunk => .ok (some chunk)) ∧
      List.Forall₂ (fun chunk n => 1 ≤ chunk.length ∧ chunk.length ≤ max n 1) chunks [1, 5] ∧
      [1, 2, 3, 4] = chunks.flatten ++ rest ∧ o.2.1.Yields rest := by
  intro e o
  have hanswers : o.1 = [.ok (some [1]), .ok (some [2])] := by rfl
  have hopen : .ok none ∉ o.1 := by simp [hanswers]
  exact ⟨hopen, yields_of_nextChunks [[1, 2], [], [3, 4]] rfl rfl hopen⟩

end Entity
end Mime
