import Mime.Sink

/-! # Sinks with room and sinks that fail

What a sink is after a write is the sink with some bytes accepted (`accept`): all of them if it has
room for them (`write_of_hasRoom`), or as many as it has room for.  So bytes may be written in
pieces (`write_append`).

A sink with little room is compared with the same sink without a limit.  `Cuts` says what the two
runs of a program leave: as long as what is written fits, both leave the same, and otherwise the
limited sink holds as much of it as it had room for and the run has failed.  Single writes and
copies are cut so (`cuts_write`, `cuts_copy`). -/

namespace Mime.Sink

/-! ### Room -/

/-- Whether a sink accepts so many bytes. -/
def HasRoom (s : Sink) (n : Nat) : Prop :=
  ∀ limit ∈ s.limit, n ≤ limit.room

section room

variable {s : Sink}

theorem HasRoom.mono {m n : Nat} (h : s.HasRoom n) (hmn : m ≤ n) : s.HasRoom m :=
  fun limit hlimit => Nat.le_trans hmn (h limit hlimit)

theorem hasRoom_of_le {limit : SinkLimit} (hs : s.limit = some limit) {n : Nat}
    (h : n ≤ limit.room) : s.HasRoom n := by
  intro limit' hlimit'
  cases hs.symm.trans hlimit'
  exact h

theorem hasRoom_or_lt (s : Sink) (n : Nat) :
    s.HasRoom n ∨ ∃ limit, s.limit = some limit ∧ limit.room < n := by
  cases h : s.limit with
  | none => exact .inl fun limit hlimit => by cases h.symm.trans hlimit
  | some limit =>
      rcases Nat.lt_or_ge limit.room n with hlt | hle
      · exact .inr ⟨limit, rfl, hlt⟩
      · exact .inl (hasRoom_of_le h hle)

end room

/-! ### What a sink accepts -/

section accept

variable {s : Sink}

/-- The sink after it accepted bytes. -/
def accept (s : Sink) (bytes : Bytes) : Sink :=
  { s.push bytes with
    limit := s.limit.map fun limit => { limit with room := limit.room - bytes.length } }

@[simp] theorem data_accept (s : Sink) (bytes : Bytes) :
    (s.accept bytes).data = s.data ++ bytes :=
  data_push s bytes

@[simp] theorem accept_nil (s : Sink) : s.accept [] = s := by
  obtain ⟨written, limit, shutdownFailure, shutdowns⟩ := s
  cases limit <;> rfl

theorem accept_accept (s : Sink) (a b : Bytes) : (s.accept a).accept b = s.accept (a ++ b) := by
  obtain ⟨written, limit, shutdownFailure, shutdowns⟩ := s
  cases limit with
  | none => simp [accept, push]
  | some limit => simp [accept, push, Nat.sub_sub]

theorem hasRoom_accept {a : Bytes} {n : Nat} (h : s.HasRoom (a.length + n)) :
    (s.accept a).HasRoom n := by
  intro limit' hlimit'
  obtain ⟨limit, hlimit, rfl⟩ := Option.map_eq_some_iff.mp hlimit'
  have hle := h limit hlimit
  dsimp only
  omega

theorem write_eq_accept {bytes : Bytes} (h : s.HasRoom bytes.length) :
    s.write bytes = (.ok (), s.accept bytes) := by
  obtain ⟨written, limit, shutdownFailure, shutdowns⟩ := s
  cases limit with
  | none => rfl
  | some limit =>
      have hle : bytes.length ≤ limit.room := h limit rfl
      dsimp only [write]
      rw [List.take_of_length_le hle, if_pos rfl]
      rfl

theorem write_eq_accept_take {limit : SinkLimit} (hs : s.limit = some limit) {bytes : Bytes}
    (h : limit.room < bytes.length) :
    s.write bytes = (.error limit.failure, s.accept (bytes.take limit.room)) := by
  have hlen : (bytes.take limit.room).length = limit.room :=
    List.length_take_of_le (Nat.le_of_lt h)
  simp only [write, accept, hs]
  rw [hlen, if_neg (Nat.ne_of_lt h)]
  rfl

theorem write_of_hasRoom {s : Sink} {bytes : Bytes} {k : Nat}
    (h : s.HasRoom (bytes.length + k)) :
    ∃ s', s.write bytes = (.ok (), s') ∧ s'.data = s.data ++ bytes ∧ s'.HasRoom k :=
  ⟨s.accept bytes, write_eq_accept (h.mono (Nat.le_add_right _ _)), data_accept s bytes,
    hasRoom_accept h⟩

@[simp] theorem write_nil (s : Sink) : s.write [] = (.ok (), s) := by
  have hroom : s.HasRoom ([] : Bytes).length := fun limit _ => Nat.zero_le limit.room
  rw [write_eq_accept hroom, accept_nil]

theorem write_append (s : Sink) (a b : Bytes) :
    s.write (a ++ b) = match s.write a with
      | (.error e, s) => (.error e, s)
      | (.ok (), s) => s.write b := by
  rcases s.hasRoom_or_lt (a ++ b).length with hroom | ⟨limit, hlimit, hlt⟩
  · have hsum : s.HasRoom (a.length + b.length) := by rwa [← List.length_append]
    rw [write_eq_accept hroom, write_eq_accept (hsum.mono (Nat.le_add_right _ _))]
    dsimp only
    rw [write_eq_accept (hasRoom_accept hsum), accept_accept]
  · rw [write_eq_accept_take hlimit hlt]
    rcases Nat.lt_or_ge limit.room a.length with ha | ha
    · rw [write_eq_accept_take hlimit ha, List.take_append_of_le_length (Nat.le_of_lt ha)]
    · have hrest : (s.accept a).limit = some ⟨limit.room - a.length, limit.failure⟩ := by
        rw [accept, hlimit, Option.map_some]
      have hb : limit.room - a.length < b.length := by
        rw [List.length_append] at hlt
        omega
      rw [write_eq_accept (hasRoom_of_le hlimit ha)]
      dsimp only
      rw [write_eq_accept_take hrest hb, accept_accept, List.take_append,
        List.take_of_length_le ha]

theorem data_of_write_eq_ok {s s' : Sink} {bytes : Bytes} (h : s.write bytes = (.ok (), s')) :
    s'.data = s.data ++ bytes := by
  rcases s.hasRoom_or_lt bytes.length with hroom | ⟨limit, hlimit, hlt⟩
  · cases (write_eq_accept hroom).symm.trans h
    exact data_accept s bytes
  · cases (write_eq_accept_take hlimit hlt).symm.trans h

end accept

/-! ### Little room -/

/-- The sink with room for a number of bytes. -/
def limitedTo (s : Sink) (room : Nat) (failure : IoError) : Sink :=
  { s with limit := some ⟨room, failure⟩ }

theorem push_push (s : Sink) (a b : Bytes) : (s.push a).push b = s.push (a ++ b) := by
  simp [push]

theorem limit_push {s : Sink} (h : s.limit = none) (bytes : Bytes) : (s.push bytes).limit = none :=
  h

/-- What a run leaves on a sink without a limit, and on the sink with some room: the same if what is
written fits, and otherwise a failure and as much as fits. -/
inductive Cuts {ρ : Type} (sink : Sink) (room : Nat) (failure : IoError) (Failed : ρ → Prop)
    (full cut : ρ × Sink) : Prop
  | within (bytes : Bytes) (fits : bytes.length ≤ room) (full_eq : full.2 = sink.push bytes)
      (cut_eq : cut = (full.1, (sink.push bytes).limitedTo (room - bytes.length) failure))
  | beyond (bytes : Bytes) (exceeds : room < bytes.length) (full_eq : full.2 = sink.push bytes)
      (cut_eq : cut.2 = (sink.push (bytes.take room)).limitedTo 0 failure) (failed : Failed cut.1)

section cuts

variable {sink : Sink} {room : Nat} {failure : IoError} {ρ σ : Type}

namespace Cuts

variable {Failed : ρ → Prop} {full cut : ρ × Sink}

theorem refl (r : ρ) :
    Cuts sink room failure Failed (r, sink) (r, sink.limitedTo room failure) :=
  .within [] (Nat.zero_le room) rfl rfl

theorem map {Failed' : σ → Prop} (f : ρ → σ) (hf : ∀ r, Failed r → Failed' (f r))
    (h : Cuts sink room failure Failed full cut) :
    Cuts sink room failure Failed' (f full.1, full.2) (f cut.1, cut.2) := by
  cases h with
  | within bytes fits hfull hcut =>
      subst hcut
      exact .within bytes fits hfull rfl
  | beyond bytes exceeds hfull hcut failed => exact .beyond bytes exceeds hfull hcut (hf _ failed)

/-- A run that goes on after some bytes that fit. -/
theorem after {bytes : Bytes} (fits : bytes.length ≤ room)
    (h : Cuts (sink.push bytes) (room - bytes.length) failure Failed full cut) :
    Cuts sink room failure Failed full cut := by
  cases h with
  | within more hmore hfull hcut =>
      rw [push_push] at hfull hcut
      apply Cuts.within (bytes ++ more) _ hfull
      · rw [hcut, List.length_append, Nat.sub_sub]
      · rw [List.length_append]
        omega
  | beyond more hmore hfull hcut failed =>
      rw [push_push] at hfull hcut
      apply Cuts.beyond (bytes ++ more) _ hfull _ failed
      · rw [List.length_append]
        omega
      · rw [hcut, List.take_append, List.take_of_length_le fits]

/-- A run that goes on after bytes that do not fit, while the limited one has failed. -/
theorem of_failed {bytes : Bytes} (exceeds : room < bytes.length)
    (hcut : cut.2 = (sink.push (bytes.take room)).limitedTo 0 failure) (failed : Failed cut.1)
    {cut' : ρ × Sink} (h : Cuts (sink.push bytes) 0 failure Failed full cut') :
    Cuts sink room failure Failed full cut := by
  have hfull : ∃ more, full.2 = sink.push (bytes ++ more) := by
    cases h with
    | within more _ hfull _ => exact ⟨more, by rw [hfull, push_push]⟩
    | beyond more _ hfull _ _ => exact ⟨more, by rw [hfull, push_push]⟩
  obtain ⟨more, hfull⟩ := hfull
  apply Cuts.beyond (bytes ++ more) _ hfull _ failed
  · rw [List.length_append]
    omega
  · rw [hcut, List.take_append_of_le_length (Nat.le_of_lt exceeds)]

end Cuts

theorem write_limitedTo_of_le {bytes : Bytes} (h : bytes.length ≤ room) :
    (sink.limitedTo room failure).write bytes =
      (.ok (), (sink.push bytes).limitedTo (room - bytes.length) failure) :=
  write_eq_accept (hasRoom_of_le rfl h)

theorem write_limitedTo_of_lt {bytes : Bytes} (h : room < bytes.length) :
    (sink.limitedTo room failure).write bytes =
      (.error failure, (sink.push (bytes.take room)).limitedTo 0 failure) := by
  have hlen : (bytes.take room).length = room := List.length_take_of_le (Nat.le_of_lt h)
  have haccept : (sink.limitedTo room failure).accept (bytes.take room) =
      (sink.push (bytes.take room)).limitedTo (room - (bytes.take room).length) failure := rfl
  rw [hlen, Nat.sub_self] at haccept
  rw [← haccept]
  exact @write_eq_accept_take (sink.limitedTo room failure) ⟨room, failure⟩ rfl bytes h

theorem cuts_write (hsink : sink.limit = none) (room : Nat) (failure : IoError) (bytes : Bytes) :
    Cuts sink room failure (· = .error failure) (sink.write bytes)
      ((sink.limitedTo room failure).write bytes) := by
  rw [write_of_limit_eq_none hsink]
  rcases Nat.lt_or_ge room bytes.length with hlt | hle
  · rw [write_limitedTo_of_lt hlt]
    exact .beyond bytes hlt rfl rfl rfl
  · rw [write_limitedTo_of_le hle]
    exact .within bytes hle rfl rfl

theorem cuts_copy (hsink : sink.limit = none) (room : Nat) (failure : IoError)
    (arrivals : List Arrival) :
    Cuts sink room failure (· = .error (.sink failure)) (sink.copy arrivals)
      ((sink.limitedTo room failure).copy arrivals) := by
  induction arrivals generalizing sink room with
  | nil => exact .refl _
  | cons arrival rest ih =>
      cases arrival with
      | error e => exact .refl _
      | ok bytes =>
          have hpush := limit_push hsink bytes
          rw [copy, copy, write_of_limit_eq_none hsink]
          dsimp only
          rcases Nat.lt_or_ge room bytes.length with hlt | hle
          · rw [write_limitedTo_of_lt hlt]
            exact (ih hpush 0).of_failed hlt rfl rfl
          · rw [write_limitedTo_of_le hle]
            exact (ih hpush (room - bytes.length)).after hle

end cuts

end Mime.Sink
