import Mime.Multipart.Reader
import Mime.Proofs.Body.Files

/-! # Spill files of a message that is read

A content has a spill file from the time when it outgrows the threshold, whether or not it can be
written to that file (`moves_write`).  It is given up where reading ends early or where the disk
fails, and otherwise the part holds it (`moves_readPart`).  So the parts of a message hold all files
that were made for it, and where the message cannot be read none is left but files that the disk
does not remove (`moves_decode`). -/

namespace Mime.Multipart

/-- The spill files of what is given back; a failure holds none. -/
def filesOfAnswer {ε α : Type} (files : α → Multiset Nat) (answer : Except ε α) : Multiset Nat :=
  answer.toOption.elim 0 files

@[simp] theorem filesOfAnswer_ok {ε α : Type} (files : α → Multiset Nat) (a : α) :
    filesOfAnswer files (.ok a : Except ε α) = files a := rfl

@[simp] theorem filesOfAnswer_error {ε α : Type} (files : α → Multiset Nat) (e : ε) :
    filesOfAnswer files (.error e : Except ε α) = 0 := rfl

/-- The spill files of parts. -/
def filesOfParts (parts : List RawPart) : Multiset Nat :=
  filesOf (parts.map RawPart.body)

theorem filesOfParts_nil : filesOfParts [] = 0 := rfl

theorem filesOfParts_cons (part : RawPart) (rest : List RawPart) :
    filesOfParts (part :: rest) = filesOf [part.body] + filesOfParts rest :=
  filesOf_cons _ _

theorem filesOfParts_reverse (parts : List RawPart) :
    filesOfParts parts.reverse = filesOfParts parts := by
  rw [filesOfParts, List.map_reverse, filesOf_reverse, filesOfParts]

variable [Disk]

/-! ### Content -/

namespace Spool

variable (s : Spool)

/-- The spill file that a content is in. -/
def files : Multiset Nat :=
  s.file.elim 0 fun f => {f.number}

theorem filesOf_toSource : filesOf [s.toSource] = s.files := by
  unfold toSource files
  cases s.file with
  | none => exact filesOf_of_file?_eq_none rfl
  | some f => exact filesOf_of_file?_eq_some rfl

end Spool

theorem SpillFile.number_write (f : SpillFile) (bytes : Bytes) :
    (f.write bytes).2.number = f.number := by
  unfold write
  split
  · rfl
  split <;> rfl

section content

variable (s : Spool)

theorem moves_append (bytes : Bytes) :
    Moves s.spills (s.append bytes).2.spills s.files (s.append bytes).2.files := by
  have hfiles : (s.append bytes).2.files = s.files := by
    unfold Spool.append
    split
    · rfl
    · rename_i f hf
      simp only [Spool.files, hf, Option.elim_some, f.number_write]
  have hspills : (s.append bytes).2.spills = s.spills := by
    unfold Spool.append
    split <;> rfl
  rw [hfiles, hspills]
  exact .refl _ _

theorem moves_spill (hf : s.file = none) :
    Moves s.spills s.spill.2.spills s.files s.spill.2.files := by
  have hcreate := moves_create s.spills
  have hnone : s.files = 0 := by
    rw [Spool.files, hf, Option.elim_none]
  rw [hnone]
  unfold Spool.spill
  split
  · rename_i spills heq
    rw [heq] at hcreate
    show Moves s.spills spills 0 s.files
    rw [hnone]
    exact hcreate
  · -- The file is there, whether or not the content in memory can be written to it.
    rename_i number spills heq
    have hwritten : ∀ f : SpillFile, f.number = number → Moves s.spills spills 0 {f.number} := by
      rintro f rfl
      rwa [heq] at hcreate
    have hnumber := SpillFile.number_write { number } s.memory.toList
    split <;> rename_i f hwrite <;> rw [hwrite] at hnumber <;> exact hwritten f hnumber

/-- A content that is written keeps its file, or it has a new one.  That is so also where the disk
fails. -/
theorem moves_write (bytes : Bytes) :
    Moves s.spills (s.write bytes).2.spills s.files (s.write bytes).2.files := by
  unfold Spool.write
  split
  · exact .refl _ _
  dsimp only
  split
  · rename_i hgrown
    have hf : s.file = none := by
      simp only [Bool.and_eq_true, Option.isNone_iff_eq_none] at hgrown
      exact hgrown.1
    have hspill := moves_spill { s with size := s.size + bytes.length } hf
    split <;> rename_i heq <;> rw [heq] at hspill
    · exact hspill
    · exact hspill.trans (moves_append _ bytes)
  · exact moves_append { s with size := s.size + bytes.length } bytes

theorem moves_writeAll (pieces : List Bytes) :
    Moves s.spills (s.writeAll pieces).2.spills s.files (s.writeAll pieces).2.files := by
  induction pieces generalizing s with
  | nil => exact .refl _ _
  | cons bytes rest ih =>
      have hwrite := moves_write s bytes
      rw [Spool.writeAll]
      split <;> rename_i heq <;> rw [heq] at hwrite
      · exact hwrite
      · exact hwrite.trans (ih _)

theorem moves_add (c : Content) (segment : Segment) :
    Moves c.spool.spills (c.add segment).2.spool.spills c.spool.files
      (c.add segment).2.spool.files := by
  unfold Content.add
  split
  · exact moves_writeAll c.spool _
  · split
    · exact .refl _ _
    · exact moves_writeAll c.spool _

theorem moves_readContent (dashBoundary : Bytes) (part : Nat) (c : Content) (input : Incoming) :
    Moves c.spool.spills (readContent dashBoundary part c input).2.1.spills c.spool.files
      (readContent dashBoundary part c input).2.1.files := by
  induction input generalizing c with
  | nil => exact .refl _ _
  | cons item rest ih =>
    cases item with
    | error e => exact .refl _ _
    | ok segment =>
      have hadd := moves_add c segment
      rw [readContent]
      split
      · exact .refl _ _
      split
      · exact .refl _ _
      split <;> rename_i heq <;> rw [heq] at hadd
      · exact hadd
      · exact hadd.trans (ih _)

theorem moves_discard : Moves s.spills s.discard s.files 0 := by
  unfold Spool.discard Spool.files
  cases s.file with
  | none => exact .refl _ _
  | some f => exact moves_remove s.spills f.number

theorem moves_finish :
    Moves s.spills s.finish.2 s.files (filesOfAnswer (fun body => filesOf [body]) s.finish.1) := by
  unfold Spool.finish
  split
  · exact moves_discard s
  · rw [filesOfAnswer_ok, s.filesOf_toSource]
    exact .refl _ _

end content

/-! ### Parts -/

/-- A part holds the file that was made for it, and a part that is not read whole leaves none. -/
theorem moves_readPart (r : Reader) (spills : Spills) :
    Moves spills (r.readPart spills).2.2 0
      (filesOfAnswer (fun part => filesOf [part.body]) (r.readPart spills).1) := by
  unfold Reader.readPart
  split
  · exact .refl spills 0
  · rename_i headers input _
    have hread := moves_readContent (dashBoundary r.boundary) (r.partsRead + 1)
      { spool := { threshold := r.limits.memoryThreshold, spills } } input
    dsimp only
    split <;> rename_i spool left heq <;> rw [heq] at hread
    · exact hread.trans (moves_discard spool)
    · have hfinish := hread.trans (moves_finish spool)
      split <;> rename_i heq <;> rw [heq] at hfinish <;> exact hfinish

theorem moves_nextPart (r : Reader) (spills : Spills) :
    Moves spills (r.nextPart spills).2.2 0
      (filesOfAnswer (fun part => filesOfParts part.toList) (r.nextPart spills).1) := by
  have hread : ∀ r' : Reader, Moves spills (r'.readPart spills).2.2 0
      (filesOfAnswer (fun part => filesOfParts part.toList)
        ((r'.readPart spills).1.map some)) := by
    intro r'
    have h := moves_readPart r' spills
    cases hpart : (r'.readPart spills).1 with
    | error e =>
        rw [hpart] at h
        exact h
    | ok part =>
        rw [hpart] at h
        exact h
  unfold Reader.nextPart
  split
  · exact .refl spills 0
  split
  · exact .refl spills 0
  split
  · exact hread r
  split
  · exact .refl spills 0
  · exact .refl spills 0
  · exact hread _

/-! ### Messages -/

theorem moves_closeParts (parts : List RawPart) (s : Spills) :
    Moves s (closeParts parts s) (filesOfParts parts) 0 := by
  induction parts generalizing s with
  | nil => exact .refl s 0
  | cons part rest ih =>
      rw [filesOfParts_cons]
      exact (moves_release s part.body).away (ih _)

theorem moves_of_nextPart {r r' : Reader} {spills spills' : Spills}
    {answer : Except Error (Option RawPart)} (hnext : r.nextPart spills = (answer, r', spills'))
    (done : List RawPart) :
    Moves spills spills' (filesOfParts done)
      (filesOfAnswer (fun part => filesOfParts part.toList) answer + filesOfParts done) := by
  have h := (moves_nextPart r spills).frame (filesOfParts done)
  rwa [hnext, zero_add] at h

/-- The parts of a message hold all files that were made for it.  If it cannot be read, no file is
left. -/
theorem moves_decodeFrom (done : List RawPart) (r : Reader) (spills : Spills) :
    Moves spills (decodeFrom done r spills).2 (filesOfParts done)
      (filesOfAnswer filesOfParts (decodeFrom done r spills).1) := by
  fun_induction decodeFrom done r spills with
  | case1 done r spills e r' spills' hnext =>
      have h := moves_of_nextPart hnext done
      rw [filesOfAnswer_error, zero_add, ← filesOfParts_reverse done] at h
      rw [← filesOfParts_reverse done]
      exact h.trans (moves_closeParts _ _)
  | case2 done r spills r' spills' hnext =>
      have h := moves_of_nextPart hnext done
      rw [filesOfAnswer_ok, filesOfParts_reverse]
      rwa [filesOfAnswer_ok, Option.toList_none, filesOfParts_nil, zero_add] at h
  | case3 done r spills part r' spills' hnext ih =>
      rw [filesOfParts_cons] at ih
      exact (moves_of_nextPart hnext done).trans ih

theorem moves_decode (boundary : String) (limits : Limits) (source : ByteSource)
    (spills : Spills) :
    Moves spills (decode boundary limits source spills).2 0
      (filesOfAnswer filesOfParts (decode boundary limits source spills).1) :=
  moves_decodeFrom [] _ spills

end Mime.Multipart
