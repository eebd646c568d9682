import Mime.Proofs.Entity.Writing

/-! # What writing leaves of a tree

The sources and streams of a tree are its open leaves, in the order in which they are written.
`detachParts` empties the first of them.  However writing ends, the first open leaves are empty then
and the others are as they were, and all are empty if it succeeded (`detaches_writeParts`).  Nothing
else changes (`PartsKept`): only lists that had no boundary may have one. -/

namespace Mime.Entity

open Multipart

/-! ### Open leaves -/

mutual

/-- The sources and streams in a body, in the order in which they are written. -/
def openLeaves (body : Body Entity) : List (Body Entity) :=
  match body with
  | .empty | .dataSource _ => []
  | .byteSource source => [.byteSource source]
  | .liveStream stream => [.liveStream stream]
  | .partList parts => openPartsLeaves parts

/-- The sources and streams in parts, in the order in which they are written. -/
def openPartsLeaves (parts : List Entity) : List (Body Entity) :=
  match parts with
  | [] => []
  | ⟨_, body⟩ :: rest => openLeaves body ++ openPartsLeaves rest

end

mutual

/-- A body of which the first `k` open leaves are detached. -/
def detach (k : Nat) (body : Body Entity) : Body Entity :=
  match body with
  | .empty => .empty
  | .dataSource data => .dataSource data
  | .byteSource source => if k = 0 then .byteSource source else .empty
  | .liveStream stream => if k = 0 then .liveStream stream else .empty
  | .partList parts => .partList (detachParts k parts)

/-- Parts of which the first `k` open leaves are detached. -/
def detachParts (k : Nat) (parts : List Entity) : List Entity :=
  match parts with
  | [] => []
  | ⟨head, body⟩ :: rest =>
    let n := (openLeaves body).length
    ⟨head, detach (min k n) body⟩ :: detachParts (k - n) rest

end

mutual

@[simp] theorem detach_zero : ∀ body : Body Entity, detach 0 body = body
  | .empty => by rw [detach]
  | .dataSource _ => by rw [detach]
  | .byteSource _ => by rw [detach, if_pos rfl]
  | .liveStream _ => by rw [detach, if_pos rfl]
  | .partList parts => by rw [detach, detachParts_zero parts]

@[simp] theorem detachParts_zero (parts : List Entity) : detachParts 0 parts = parts := by
  cases parts with
  | nil => rw [detachParts]
  | cons part rest =>
      cases part with
      | mk head body =>
          rw [detachParts, Nat.zero_min, Nat.zero_sub, detach_zero body, detachParts_zero rest]

end

mutual

theorem openLeaves_detach : ∀ {k : Nat} (body : Body Entity), k ≤ (openLeaves body).length →
    openLeaves (detach k body) = (openLeaves body).drop k
  | k, .empty, _ => by simp [detach, openLeaves]
  | k, .dataSource _, _ => by simp [detach, openLeaves]
  | 0, .byteSource source, _ => by simp
  | 0, .liveStream stream, _ => by simp
  | k + 1, .byteSource source, _ => by simp [detach, openLeaves]
  | k + 1, .liveStream stream, _ => by simp [detach, openLeaves]
  | k, .partList parts, h => by
      rw [openLeaves] at h ⊢
      rw [detach, openLeaves, openPartsLeaves_detachParts parts h]

theorem openPartsLeaves_detachParts : ∀ {k : Nat} (parts : List Entity),
    k ≤ (openPartsLeaves parts).length →
    openPartsLeaves (detachParts k parts) = (openPartsLeaves parts).drop k
  | k, [], _ => by simp [detachParts, openPartsLeaves]
  | k, ⟨head, body⟩ :: rest, h => by
      rw [openPartsLeaves, List.length_append] at h
      rw [detachParts, openPartsLeaves, openPartsLeaves,
        openLeaves_detach body (Nat.min_le_right _ _),
        openPartsLeaves_detachParts rest (by omega), List.drop_append]
      rcases Nat.le_total k (openLeaves body).length with hle | hle
      · rw [Nat.min_eq_left hle]
      · rw [Nat.min_eq_right hle, List.drop_of_length_le (Nat.le_refl _),
          List.drop_of_length_le hle]

end

/-- A list of parts stays one, and nothing else becomes one. -/
theorem kind_detach (k : Nat) (body : Body Entity) :
    (detach k body).kind = .partList ↔ body.kind = .partList := by
  cases body with
  | empty => rw [detach]
  | dataSource data => rw [detach]
  | partList parts => rw [detach]; exact Iff.rfl
  | byteSource source =>
      rw [detach]
      split
      · exact Iff.rfl
      · exact iff_of_false nofun nofun
  | liveStream stream =>
      rw [detach]
      split
      · exact Iff.rfl
      · exact iff_of_false nofun nofun

/-! ### What is kept -/

/-- The head of a part as it is left: as it was, or with a boundary if it is that of a list without
one. -/
inductive HeadKept (head : Head) (body : Body Entity) : Head → Prop
  | same : HeadKept head body head
  | boundary (boundary : String) : body.kind = .partList → head.mediaType.isMultipart = true →
      head.mediaType.boundary? = none → Boundary.isValid boundary.toList = true →
      HeadKept head body
        { head with mediaType := head.mediaType.withParameter "boundary" boundary }

mutual

/-- A body as it is left: as it was, or a list of parts that are kept. -/
inductive BodyKept : Body Entity → Body Entity → Prop
  | same (body : Body Entity) : BodyKept body body
  | partList {parts parts' : List Entity} : PartsKept parts parts' →
      BodyKept (.partList parts) (.partList parts')

/-- Parts as they are left: just as many, with heads and bodies that are kept. -/
inductive PartsKept : List Entity → List Entity → Prop
  | nil : PartsKept [] []
  | cons {head head' : Head} {body body' : Body Entity} {rest rest' : List Entity} :
      HeadKept head body head' → BodyKept body body' → PartsKept rest rest' →
      PartsKept (⟨head, body⟩ :: rest) (⟨head', body'⟩ :: rest')

end

theorem PartsKept.same (parts : List Entity) : PartsKept parts parts := by
  induction parts with
  | nil => exact .nil
  | cons part rest ih =>
      cases part with
      | mk head body => exact .cons .same (.same body) ih

mutual

theorem BodyKept.openLeaves_eq : ∀ {body body' : Body Entity}, BodyKept body body' →
    openLeaves body' = openLeaves body
  | _, _, .same _ => rfl
  | _, _, .partList h => by rw [openLeaves, openLeaves, h.openPartsLeaves_eq]

theorem PartsKept.openPartsLeaves_eq : ∀ {parts parts' : List Entity}, PartsKept parts parts' →
    openPartsLeaves parts' = openPartsLeaves parts
  | _, _, .nil => rfl
  | _, _, .cons _ hbody hrest => by
      rw [openPartsLeaves, openPartsLeaves, hbody.openLeaves_eq, hrest.openPartsLeaves_eq]

end

theorem headKept_settleHead (head : Head) (body : Body Entity) (host : Host) :
    HeadKept head body (settleHead head body host).2.1 := by
  unfold settleHead
  split
  · rename_i hlist
    unfold Head.withBoundary
    cases hboundary : head.mediaType.boundary? with
    | some boundary => exact .same
    | none =>
        exact .boundary _ hlist.1 hlist.2 hboundary (Boundary.isValid_generateBoundary host)
  · exact .same

theorem HeadKept.detach {head head' : Head} {body : Body Entity} (h : HeadKept head body head')
    (k : Nat) : HeadKept head (detach k body) head' := by
  cases h with
  | same => exact .same
  | boundary boundary hkind hmulti hnone hvalid =>
      exact .boundary boundary ((kind_detach k body).mpr hkind) hmulti hnone hvalid

/-! ### Writing -/

section steps

variable {α β : Type}

/-- A step that detaches the first of `n` open leaves, and all of them where it succeeds; `left` is
what it leaves then. -/
def Detaches (n : Nat) (left : Nat → α → Prop) (written : Written α) : Prop :=
  ∃ k ≤ n, left k written.2.1 ∧ (written.1 = .ok () → k = n)

theorem detaches_zero {left : Nat → α → Prop} {written : Written α} (h : left 0 written.2.1) :
    Detaches 0 left written :=
  ⟨0, Nat.le_refl 0, h, fun _ => rfl⟩

/-- A step and the next one.  Where the first one fails, the leaves of the other are open. -/
theorem Detaches.andThen {n m : Nat} {left : Nat → α → Prop} {left' : Nat → β → Prop}
    {step : Written α} {stopped : α → β} {next : α → Output → Written β}
    (h : Detaches n left step) (hstopped : ∀ k ≤ n, ∀ a, left k a → left' k (stopped a))
    (hnext : ∀ a o, left n a → Detaches m (fun k => left' (n + k)) (next a o)) :
    Detaches (n + m) left' (andThen step stopped next) := by
  obtain ⟨answer, a, o⟩ := step
  obtain ⟨k, hk, hleft, hall⟩ := h
  cases answer with
  | error e => exact ⟨k, by omega, hstopped k hk a hleft, nofun⟩
  | ok u =>
      obtain rfl := hall rfl
      obtain ⟨k', hk', hleft', hall'⟩ := hnext a o hleft
      refine ⟨k + k', by omega, hleft', fun hok => ?_⟩
      rw [hall' hok]

theorem Detaches.leaving {n : Nat} {left : Nat → α → Prop} {left' : Nat → β → Prop}
    {step : Written α} {f : α → β} (h : Detaches n left step)
    (hf : ∀ k ≤ n, ∀ a, left k a → left' k (f a)) : Detaches n left' (leaving f step) := by
  obtain ⟨k, hk, hleft, hall⟩ := h
  exact ⟨k, hk, hf k hk _ hleft, hall⟩

end steps

mutual

/-- **The body of a part that is written** loses its first open leaves, and keeps all else. -/
theorem detaches_writePartBody (nested : Option String) (inForm : Bool) (o : Output) :
    ∀ body : Body Entity, Detaches (openLeaves body).length (fun k => BodyKept (detach k body))
      (writePartBody nested inForm body o)
  | .empty => by
      rw [writePartBody, openLeaves]
      refine detaches_zero ?_
      rw [detach_zero]
      exact .same _
  | .dataSource data => by
      rw [writePartBody, openLeaves]
      refine detaches_zero ?_
      rw [detach_zero]
      exact .same _
  | .byteSource source => by
      rw [writePartBody_byteSource, openLeaves]
      refine ⟨1, Nat.le_refl 1, ?_, fun _ => rfl⟩
      dsimp only
      rw [detach, if_neg Nat.one_ne_zero]
      exact .same _
  | .liveStream stream => by
      rw [writePartBody, openLeaves]
      refine ⟨1, Nat.le_refl 1, ?_, fun _ => rfl⟩
      dsimp only
      rw [detach, if_neg Nat.one_ne_zero]
      exact .same _
  | .partList parts => by
      rw [openLeaves]
      have hlist : ∀ boundary o, Detaches (openPartsLeaves parts).length
          (fun k => BodyKept (detach k (.partList parts)))
          (leaving Body.partList (writeParts boundary inForm true parts o)) := by
        intro boundary o
        refine (detaches_writeParts boundary inForm true o parts).leaving fun k _ parts' h => ?_
        rw [detach]
        exact .partList h
      cases nested with
      | some boundary =>
          rw [writePartBody]
          exact hlist boundary o
      | none =>
          rw [writePartBody]
          exact hlist o.host.generateBoundary.1 { o with host := o.host.generateBoundary.2 }
termination_by body => sizeOf body

/-- **Parts that are written** lose their first open leaves, and keep all else. -/
theorem detaches_writeParts (boundary : String) (inForm first : Bool) (o : Output) :
    ∀ parts : List Entity, Detaches (openPartsLeaves parts).length
      (fun k => PartsKept (detachParts k parts)) (writeParts boundary inForm first parts o)
  | [] => by
      rw [writeParts, openPartsLeaves]
      refine detaches_zero ?_
      rw [detachParts_zero]
      cases first with
      | true => exact .nil
      | false => exact .nil
  | ⟨head, body⟩ :: rest => by
      by_cases hb : first = true → Boundary.isValid boundary.toList = true
      · have hhead := headKept_settleHead head body o.host
        rw [writeParts_cons_eq hb, openPartsLeaves, List.length_append, ← Nat.zero_add (_ + _)]
        dsimp only
        -- in front of the body nothing is detached
        have hfront : Detaches 0 (fun _ _ => True)
            (writeBytes ⟨o.sink, (settleHead head body o.host).2.2⟩
              (frontBytes boundary inForm first (settleHead head body o.host).2.1)) :=
          detaches_zero trivial
        refine hfront.andThen ?_ fun _ o' _ => ?_
        · rintro k hk - -
          obtain rfl := Nat.le_zero.mp hk
          rw [detachParts_zero]
          exact .cons hhead (.same body) (.same rest)
        simp only [Nat.zero_add]
        refine (detaches_writePartBody _ _ o' body).andThen ?_ fun body' o' hbody => ?_
        · intro k hk body' hbody
          rw [detachParts, Nat.min_eq_left hk, Nat.sub_eq_zero_of_le hk, detachParts_zero]
          exact .cons (hhead.detach k) hbody (.same rest)
        · refine (detaches_writeParts boundary inForm false o' rest).leaving fun k _ rest' h => ?_
          rw [detachParts, Nat.min_eq_right (Nat.le_add_right _ k), Nat.add_sub_cancel_left]
          exact .cons (hhead.detach _) hbody h
      · obtain ⟨rfl, hinvalid⟩ := Classical.not_imp.mp hb
        rw [writeParts_of_not_isValid (Bool.eq_false_iff.mpr hinvalid)]
        refine ⟨0, Nat.zero_le _, ?_, nofun⟩
        dsimp only
        rw [detachParts_zero]
        exact .same _
termination_by parts => sizeOf parts

end

end Mime.Entity
