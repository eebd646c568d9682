import Mime.Proofs.Entity.Wire

/-! # Writing step by step

Writing the first of several parts is writing its lines, then its body, then the parts behind it
(`writeParts_cons_eq`).  Each step goes to the output that the one before it left, and where a step
fails the others are not begun (`andThen`). -/

namespace Mime.Entity

open Multipart

/-- What a step of writing leaves: its answer, what is left of what was to be written, and the
output. -/
abbrev Written (α : Type) : Type :=
  Except Error Unit × α × Output

variable {α β : Type}

/-- A step and, where it succeeds, the next one.  Where it fails, `stopped` is what is left. -/
def andThen (step : Written α) (stopped : α → β) (next : α → Output → Written β) : Written β :=
  match step with
  | (.error e, a, o) => (.error e, stopped a, o)
  | (.ok (), a, o) => next a o

/-- A step of which something else is left. -/
def leaving (f : α → β) (step : Written α) : Written β :=
  (step.1, f step.2.1, step.2.2)

/-- Writing bytes, of which nothing is left. -/
def writeBytes (o : Output) (bytes : Bytes) : Written Unit :=
  ((o.write bytes).1, (), (o.write bytes).2)

@[simp] theorem andThen_ok (a : α) (o : Output) (stopped : α → β) (next : α → Output → Written β) :
    andThen (.ok (), a, o) stopped next = next a o := rfl

@[simp] theorem andThen_error (e : Error) (a : α) (o : Output) (stopped : α → β)
    (next : α → Output → Written β) :
    andThen (.error e, a, o) stopped next = (.error e, stopped a, o) := rfl

/-- The lines in front of a part's body: the delimiter and the header lines. -/
def frontBytes (boundary : String) (inForm first : Bool) (head : Head) : Bytes :=
  Utf8.encode (openDelimiter boundary first ++ headerBlock (head.partHeaders inForm))

section writeParts

variable [Disk] {boundary : String} {inForm first : Bool} {head : Head} {body : Body Entity}
  {rest : List Entity}

theorem writeParts_cons_eq (hb : first = true → Boundary.isValid boundary.toList = true)
    (o : Output) : writeParts boundary inForm first (⟨head, body⟩ :: rest) o =
      let head' := (settleHead head body o.host).2.1
      andThen
        (writeBytes ⟨o.sink, (settleHead head body o.host).2.2⟩
          (frontBytes boundary inForm first head'))
        (fun _ => ⟨head', body⟩ :: rest) fun _ o' =>
      andThen
        (writePartBody (settleHead head body o.host).1 (head'.mediaType.is MediaType.formData)
          body o')
        (fun body' => ⟨head', body'⟩ :: rest) fun body' o' =>
      leaving (⟨head', body'⟩ :: ·) (writeParts boundary inForm false rest o') := by
  have hhead : (if body.kind = .partList ∧ head.mediaType.isMultipart = true then
      (some (head.withBoundary o.host).1, (head.withBoundary o.host).2.1,
        (head.withBoundary o.host).2.2)
      else (none, head, o.host)) = settleHead head body o.host := rfl
  rw [writeParts, checkBoundary_eq_ok_iff.mpr hb]
  dsimp only
  rw [hhead]
  unfold writeBytes frontBytes
  generalize (Output.write _ _) = written
  obtain ⟨answer, o'⟩ := written
  cases answer with
  | error e => rfl
  | ok u =>
      rw [andThen_ok]
      dsimp only
      generalize writePartBody _ _ _ _ = written
      obtain ⟨answer, body', o''⟩ := written
      cases answer with
      | error e => rfl
      | ok u => rfl

theorem writeParts_of_not_isValid (hb : Boundary.isValid boundary.toList = false) (o : Output) :
    writeParts boundary inForm true (⟨head, body⟩ :: rest) o =
      (.error (.structural (.badBoundary boundary)), ⟨head, body⟩ :: rest, o) := by
  rw [writeParts, if_pos rfl, checkBoundary, if_neg (by simp [hb])]

end writeParts

end Mime.Entity
