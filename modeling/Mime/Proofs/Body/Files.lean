import Mathlib.Algebra.Order.Group.Multiset
import Mime.Body.LiveStream

/-! # Spill files and the sources that hold them

`Moves` is what an operation does with spill files: those of the sources it was given are, after it,
those of the sources it leaves, and all others are as they were.  It says so of any other files
there may be, so that an operation that moves files may be part of another one (`Moves.frame`).
Closing a source moves its file away (`moves_release`), and a new file comes from nowhere
(`moves_create`).

All of it is said for a disk that may fail.  A file that the disk does not remove is left behind
when it is given up, and no other file is. -/

namespace Mime

/-! ### Files of sources -/

/-- The spill files of some sources. -/
def filesOf (sources : List ByteSource) : Multiset Nat :=
  ↑(sources.filterMap ByteSource.file?)

@[simp] theorem filesOf_nil : filesOf [] = 0 := rfl

@[simp] theorem filesOf_append (a b : List ByteSource) :
    filesOf (a ++ b) = filesOf a + filesOf b := by
  simp [filesOf]

theorem filesOf_cons (source : ByteSource) (rest : List ByteSource) :
    filesOf (source :: rest) = filesOf [source] + filesOf rest :=
  filesOf_append [source] rest

theorem filesOf_of_file?_eq_none {source : ByteSource} (h : source.file? = none) :
    filesOf [source] = 0 := by
  simp [filesOf, h]

theorem filesOf_of_file?_eq_some {source : ByteSource} {file : Nat} (h : source.file? = some file) :
    filesOf [source] = {file} := by
  simp [filesOf, h]

theorem filesOf_congr {source source' : ByteSource} (h : source.file? = source'.file?) :
    filesOf [source] = filesOf [source'] := by
  simp only [filesOf, List.filterMap_cons, List.filterMap_nil, h]

theorem filesOf_reverse (sources : List ByteSource) :
    filesOf sources.reverse = filesOf sources := by
  simp [filesOf]

theorem card_filesOf (sources : List ByteSource) :
    (filesOf sources).card = sources.countP ByteSource.isSpilled := by
  rw [filesOf, Multiset.coe_card, List.length_filterMap_eq_countP]
  rfl

/-! ### Moving files -/

/-- Files that the disk does not remove. -/
def Stuck [Disk] (files : Multiset Nat) : Prop :=
  ∀ file ∈ files, ∃ e, Disk.remove file = .error e

theorem stuck_zero [Disk] : Stuck 0 := by
  simp [Stuck]

theorem Stuck.add [Disk] {a b : Multiset Nat} (ha : Stuck a) (hb : Stuck b) : Stuck (a + b) := by
  intro file hfile
  exact (Multiset.mem_add.mp hfile).elim (ha file) (hb file)

theorem Stuck.eq_zero [Disk] {a : Multiset Nat} (ha : Stuck a)
    (hremove : ∀ file, Disk.remove file = .ok ()) : a = 0 := by
  apply Multiset.eq_zero_of_forall_notMem
  intro file hfile
  obtain ⟨e, he⟩ := ha file hfile
  rw [hremove] at he
  cases he

/-- The files of `held` become those of `held'`, and no others change.  Of the files that are given
up, those stay that the disk does not remove. -/
def Moves [Disk] (spills spills' : Spills) (held held' : Multiset Nat) : Prop :=
  ∀ others : Multiset Nat, ↑spills.files = held + others →
    ∃ stuck, Stuck stuck ∧ ↑spills'.files = held' + (others + stuck)

section moves

variable [Disk] {s s' s'' : Spills} {a b c : Multiset Nat}

namespace Moves

theorem of_files_eq (h : (s'.files : Multiset Nat) = s.files) (a : Multiset Nat) :
    Moves s s' a a :=
  fun others hothers => ⟨0, stuck_zero, by rw [h, hothers, add_zero]⟩

theorem refl (s : Spills) (a : Multiset Nat) : Moves s s a a :=
  of_files_eq rfl a

theorem trans (h : Moves s s' a b) (h' : Moves s' s'' b c) : Moves s s'' a c := by
  intro others hothers
  obtain ⟨stuck, hstuck, hfiles⟩ := h others hothers
  obtain ⟨stuck', hstuck', hfiles'⟩ := h' (others + stuck) hfiles
  exact ⟨stuck + stuck', hstuck.add hstuck', by rw [hfiles', add_assoc others]⟩

theorem frame (h : Moves s s' a b) (c : Multiset Nat) : Moves s s' (a + c) (b + c) := by
  intro others hothers
  rw [add_assoc] at hothers
  obtain ⟨stuck, hstuck, hfiles⟩ := h (c + others) hothers
  exact ⟨stuck, hstuck, by rw [hfiles, add_assoc, add_assoc]⟩

theorem frame_left (h : Moves s s' a b) (c : Multiset Nat) : Moves s s' (c + a) (c + b) := by
  rw [add_comm c a, add_comm c b]
  exact h.frame c

theorem away (h : Moves s s' a 0) (h' : Moves s' s'' b c) : Moves s s'' (a + b) c := by
  have hfirst := h.frame b
  rw [zero_add] at hfirst
  exact hfirst.trans h'

/-- What was held is all there was: what is held now is all there is, but for files that are
stuck. -/
theorem exists_stuck (h : Moves s s' a b) (ha : ↑s.files = a) :
    ∃ stuck, Stuck stuck ∧ ↑s'.files = b + stuck := by
  obtain ⟨stuck, hstuck, hfiles⟩ := h 0 (by rw [ha, add_zero])
  exact ⟨stuck, hstuck, by rw [hfiles, zero_add]⟩

end Moves

/-- A file that is made comes from nowhere, and where none is made nothing changes. -/
theorem moves_create (s : Spills) :
    Moves s s.create.2 0 (s.create.1.toOption.elim 0 fun file => {file}) := by
  unfold Spills.create
  cases Disk.create s.next with
  | error e => exact .of_files_eq rfl 0
  | ok u =>
      intro others hothers
      rw [zero_add] at hothers
      refine ⟨0, stuck_zero, ?_⟩
      show ((s.next :: s.files : List Nat) : Multiset Nat) = {s.next} + (others + 0)
      rw [← Multiset.cons_coe, hothers, Multiset.singleton_add, add_zero]

theorem moves_remove (s : Spills) (file : Nat) : Moves s (s.remove file).2 {file} 0 := by
  intro others hothers
  unfold Spills.remove
  cases hremove : Disk.remove file with
  | ok u =>
      refine ⟨0, stuck_zero, ?_⟩
      show ((s.files.erase file : List Nat) : Multiset Nat) = _
      rw [← Multiset.coe_erase, hothers, Multiset.singleton_add, Multiset.erase_cons_head,
        zero_add, add_zero]
  | error e =>
      refine ⟨{file}, ?_, ?_⟩
      · intro file' hfile
        rw [Multiset.mem_singleton.mp hfile]
        exact ⟨e, hremove⟩
      · rw [hothers, zero_add, add_comm]

theorem moves_release (s : Spills) (source : ByteSource) :
    Moves s (s.release source) (filesOf [source]) 0 := by
  unfold Spills.release Spills.close
  cases h : source.file? with
  | none =>
      rw [filesOf_of_file?_eq_none h]
      exact .refl s 0
  | some file =>
      rw [filesOf_of_file?_eq_some h]
      exact moves_remove s file

end moves

/-! ### Streams -/

/-- The source that a stream holds, if any. -/
def LiveStream.sources (stream : LiveStream) : List ByteSource :=
  stream.source?.toList

theorem moves_releaseStream [Disk] (s : Spills) (stream : LiveStream) :
    Moves s (s.releaseStream stream) (filesOf stream.sources) 0 := by
  unfold Spills.releaseStream LiveStream.sources
  cases stream.source? with
  | none => exact .refl s 0
  | some source => exact moves_release s source

/-- A stream closes its source when that has ended or failed, and holds it until then. -/
theorem moves_pull [Disk] (stream : LiveStream) (s : Spills) :
    Moves s (stream.pull s).2.2 (filesOf stream.sources) (filesOf (stream.pull s).2.1.sources) := by
  match stream with
  | .producer [] => exact .refl s 0
  | .producer (_ :: _) => exact .refl s 0
  | .sliced _ _ none => exact .refl s 0
  | .sliced size room (some source) =>
      have hfile := ByteSource.file?_read source (if room = 0 then size else room)
      show Moves s _ (filesOf [source]) _
      unfold LiveStream.pull
      dsimp only
      generalize source.read (if room = 0 then size else room) = taken at hfile ⊢
      obtain ⟨answer, left⟩ := taken
      rw [← filesOf_congr hfile]
      match answer with
      | .error _ => exact moves_release s left
      | .ok [] => exact moves_release s left
      | .ok (_ :: _) => exact .refl s _

end Mime
