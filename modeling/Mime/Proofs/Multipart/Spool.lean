import Mime.Multipart.Content

/-! # A spool on a disk that works

Where the disk does not fail, writing to a spool always succeeds, and what it leaves is
`Spool.keep`.  Content may be written in any number of pieces (`Spool.keep_append`), and what is
kept of it can be read from the source that comes of it (`Spool.readAll_toSource_keep`). -/

namespace Mime

@[simp] theorem Spills.create_eq (s : Spills) :
    s.create = (.ok s.next, ⟨s.next :: s.files, s.next + 1⟩) := rfl

namespace Multipart

@[simp] theorem SpillFile.write_eq (f : SpillFile) (bytes : Bytes) :
    f.write bytes = (.ok (), { f with written := f.written ++ bytes.toArray }) := by
  cases bytes <;> rfl

namespace Spool

variable (s : Spool)

@[simp] theorem spill_eq :
    s.spill = (.ok (), { s with
      memory := #[], file := some ⟨s.spills.next, s.memory⟩, spills := s.spills.create.2 }) := by
  simp [spill]

/-- What was collected, in its order. -/
def collected : Bytes :=
  match s.file with
  | none => s.memory.toList
  | some f => f.written.toList

/-- A spool to which bytes were written. -/
def keep (bytes : Bytes) : Spool :=
  (s.write bytes).2

theorem write_eq (bytes : Bytes) : s.write bytes = (.ok (), s.keep bytes) := by
  have happend : ∀ t : Spool, t.append bytes = (.ok (), (t.append bytes).2) := by
    intro t
    unfold append
    split <;> simp
  refine Prod.ext ?_ rfl
  unfold write
  split
  · rfl
  · dsimp only
    split
    · rw [spill_eq]
      dsimp only
      rw [happend]
    · rw [happend]

@[simp] theorem keep_nil : s.keep [] = s := rfl

theorem keep_of_file {f : SpillFile} (hf : s.file = some f) (bytes : Bytes) :
    s.keep bytes = { s with
      size := s.size + bytes.length
      file := some { f with written := f.written ++ bytes.toArray } } := by
  obtain ⟨threshold, memory, size, file, spills⟩ := s
  subst hf
  cases bytes <;> simp [keep, write, append]

theorem keep_of_le (hf : s.file = none) {bytes : Bytes}
    (h : s.memory.size + bytes.length ≤ s.threshold) :
    s.keep bytes = { s with
      size := s.size + bytes.length, memory := s.memory ++ bytes.toArray } := by
  cases bytes with
  | nil => rfl
  | cons b bytes =>
      rw [keep, write, if_neg (by simp), if_neg (by simpa using fun _ => h)]
      simp only [append, hf]

/-- Otherwise all bytes move to a new file. -/
theorem keep_of_lt (hf : s.file = none) {bytes : Bytes} (hne : bytes ≠ [])
    (h : s.threshold < s.memory.size + bytes.length) :
    s.keep bytes = { s with
      size := s.size + bytes.length
      memory := #[]
      file := some ⟨s.spills.next, s.memory ++ bytes.toArray⟩
      spills := s.spills.create.2 } := by
  simp [keep, write, append, hf, h, hne]

/-- Content may be written in any number of pieces. -/
theorem keep_append (a b : Bytes) : s.keep (a ++ b) = (s.keep a).keep b := by
  by_cases ha : a = []
  · rw [ha, List.nil_append, keep_nil]
  by_cases hb : b = []
  · rw [hb, List.append_nil, keep_nil]
  have hne : a ++ b ≠ [] := by simp [ha]
  obtain ⟨threshold, memory, size, file, spills⟩ := s
  cases file with
  | some f =>
      rw [keep_of_file _ rfl, keep_of_file ⟨threshold, memory, size, some f, spills⟩ rfl,
        keep_of_file _ rfl]
      simp [Nat.add_assoc]
  | none =>
      have hlen : (memory ++ a.toArray).size + b.length = memory.size + (a ++ b).length := by
        simp only [Array.size_append, List.size_toArray, List.length_append, Nat.add_assoc]
      rcases Nat.lt_or_ge threshold (memory.size + a.length) with hlt | hle
      · -- The first piece moves to a file, and the second one follows it.
        have hlt' : threshold < memory.size + (a ++ b).length := by
          rw [List.length_append]
          omega
        rw [keep_of_lt _ rfl hne hlt', keep_of_lt _ rfl ha hlt, keep_of_file _ rfl]
        simp [Nat.add_assoc]
      · rw [keep_of_le ⟨threshold, memory, size, none, spills⟩ rfl hle]
        rcases Nat.lt_or_ge threshold (memory.size + (a ++ b).length) with hlt' | hle'
        · rw [keep_of_lt _ rfl hne hlt', keep_of_lt _ rfl hb (hlen ▸ hlt')]
          simp [Nat.add_assoc]
        · rw [keep_of_le _ rfl hle', keep_of_le _ rfl (hlen ▸ hle')]
          simp [Nat.add_assoc]

theorem writeAll_eq (pieces : List Bytes) :
    s.writeAll pieces = (.ok (), s.keep pieces.flatten) := by
  induction pieces generalizing s with
  | nil => rfl
  | cons bytes rest ih =>
      rw [writeAll, write_eq]
      dsimp only
      rw [ih, List.flatten_cons, keep_append]

@[simp] theorem finish_eq : s.finish = (.ok s.toSource, s.spills) := by
  unfold finish rewind
  cases s.file <;> rfl

theorem collected_keep (bytes : Bytes) : (s.keep bytes).collected = s.collected ++ bytes := by
  by_cases hne : bytes = []
  · rw [hne, keep_nil, List.append_nil]
  cases hf : s.file with
  | some f =>
      rw [keep_of_file s hf]
      simp [collected, hf]
  | none =>
      rcases Nat.lt_or_ge s.threshold (s.memory.size + bytes.length) with h | h
      · rw [keep_of_lt s hf hne h]
        simp [collected, hf]
      · rw [keep_of_le s hf h]
        simp [collected, hf]

theorem readAll_toSource : s.toSource.readAll = .ok s.collected := by
  have hone : ∀ bytes : Bytes, ByteSource.joinArrivals [.ok bytes] = .ok bytes := by
    intro bytes
    show Except.ok [bytes].flatten = _
    rw [List.flatten_singleton]
  unfold toSource collected
  cases s.file with
  | none => exact hone _
  | some f => exact hone _

theorem readAll_toSource_keep (bytes : Bytes) :
    (s.keep bytes).toSource.readAll = .ok (s.collected ++ bytes) := by
  rw [readAll_toSource, collected_keep]

end Spool
end Multipart
end Mime
