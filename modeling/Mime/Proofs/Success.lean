/-! # Computations that succeed

A computation of several steps that may fail succeeds just where each step does. -/

namespace Mime

variable {α β γ ε ε' : Type}

theorem bind_eq_ok_iff {x : Except ε α} {f : α → Except ε β} {b : β} :
    x >>= f = .ok b ↔ ∃ a, x = .ok a ∧ f a = .ok b := by
  cases x with
  | error e => simp [bind, Except.bind]
  | ok a => simp [bind, Except.bind]

@[simp] theorem map_eq_ok_iff {x : Except ε α} {f : α → β} {b : β} :
    x.map f = .ok b ↔ ∃ a, x = .ok a ∧ f a = b := by
  cases x with
  | error e => simp [Except.map]
  | ok a => simp [Except.map]

@[simp] theorem mapError_eq_ok_iff {x : Except ε α} {f : ε → ε'} {a : α} :
    x.mapError f = .ok a ↔ x = .ok a := by
  cases x with
  | error e => constructor <;> intro h <;> cases h
  | ok b =>
      constructor <;> intro h <;> cases h <;> rfl

theorem invariant_of_foldlM {f : α → β → Except ε α} {P : α → Prop} : ∀ {steps : List β} {a b : α},
    (∀ step ∈ steps, ∀ {a b : α}, P a → f a step = .ok b → P b) → P a →
    steps.foldlM f a = .ok b → P b
  | [], a, b, _, ha, h => by
      cases h
      exact ha
  | step :: steps, a, b, hstep, ha, h => by
      rw [List.foldlM_cons, bind_eq_ok_iff] at h
      obtain ⟨a', hone, hrest⟩ := h
      exact invariant_of_foldlM (fun s hs => hstep s (List.mem_cons_of_mem _ hs))
        (hstep step List.mem_cons_self ha hone) hrest

/-- Two results that are related stay so after all steps, if each step that succeeds keeps them
related. -/
theorem related_of_foldlM {f : α → β → Except ε α} {g : γ → β → γ} {R : α → γ → Prop}
    (hstep : ∀ {a a' : α} {c : γ} (step : β), R a c → f a step = .ok a' → R a' (g c step)) :
    ∀ {steps : List β} {a b : α} {c : γ}, R a c → steps.foldlM f a = .ok b →
      R b (steps.foldl g c)
  | [], a, b, c, ha, h => by
      cases h
      exact ha
  | step :: steps, a, b, c, ha, h => by
      rw [List.foldlM_cons, bind_eq_ok_iff] at h
      obtain ⟨a', hone, hrest⟩ := h
      rw [List.foldl_cons]
      exact related_of_foldlM hstep (hstep step ha hone) hrest

end Mime
