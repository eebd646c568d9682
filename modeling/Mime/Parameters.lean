import Mime.Field.Quoted
import Mime.Text.Ascii

/-! # Parameters

The parameters of a header value, in the order in which they were first given.  A name is stored in
small letters; giving it again replaces its value in place. -/

namespace Mime

/-- An ordered map from names, which ignore case, to values. -/
structure Parameters where
  entries : List (String × String) := []
deriving DecidableEq, Repr

namespace Parameters

/-- No parameters. -/
def empty : Parameters := ⟨[]⟩

/-- The value of a parameter. -/
def get? (p : Parameters) (name : String) : Option String :=
  (p.entries.find? fun e => Text.sameName e.1 name).map Prod.snd

/-- Replaces the value of the first entry with the name, or adds an entry at the end. -/
def assign (name value : String) : List (String × String) → List (String × String)
  | [] => [(name, value)]
  | e :: rest => if e.1 = name then (name, value) :: rest else e :: assign name value rest

/-- Sets a parameter; a new one comes last. -/
def insert (p : Parameters) (name value : String) : Parameters :=
  ⟨assign (Text.lower name) value p.entries⟩

/-- Takes a parameter out; `get?` tells the value it had. -/
def erase (p : Parameters) (name : String) : Parameters :=
  ⟨p.entries.eraseP fun e => Text.sameName e.1 name⟩

/-- Takes a parameter out and tells the value that it had, if it was there. -/
def remove (p : Parameters) (name : String) : Option String × Parameters :=
  match p.entries.findIdx? fun e => Text.sameName e.1 name with
  | none => (none, p)
  | some i => (p.entries[i]?.map Prod.snd, ⟨p.entries.eraseIdx i⟩)

/-- The parameters given one after the other. -/
def ofList (pairs : List (String × String)) : Parameters :=
  pairs.foldl (fun p e => p.insert e.1 e.2) empty

/-- The number of parameters. -/
def size (p : Parameters) : Nat :=
  p.entries.length

/-- Whether there are no parameters. -/
def isEmpty (p : Parameters) : Bool :=
  p.entries.isEmpty

/-- The parameters as they follow a type: `; name=value` for each. -/
def format (p : Parameters) : List Char :=
  p.entries.flatMap fun e =>
    [';', ' '] ++ e.1.toList ++ '=' :: Field.quoteIfNeeded e.2.toList

/-- What is taken out is what would be found. -/
theorem remove_eq (p : Parameters) (name : String) :
    p.remove name = (p.get? name, p.erase name) := by
  unfold remove get? erase
  rw [List.find?_eq_bind_findIdx?_getElem?, List.eraseP_eq_eraseIdx]
  cases p.entries.findIdx? fun e => Text.sameName e.1 name with
  | none => rfl
  | some i => rfl

/-- Assigning to a name that is not there adds an entry at the end. -/
theorem assign_of_not_mem {name : String} {l : List (String × String)}
    (h : name ∉ l.map Prod.fst) (value : String) : assign name value l = l ++ [(name, value)] := by
  induction l with
  | nil => rfl
  | cons e rest ih =>
    simp only [List.map_cons, List.mem_cons, not_or] at h
    simp [assign, Ne.symm h.1, ih h.2]

/-- The names after an assignment: a new one comes last, all others keep their places. -/
theorem map_fst_assign (name value : String) (l : List (String × String)) :
    (assign name value l).map Prod.fst =
      if name ∈ l.map Prod.fst then l.map Prod.fst else l.map Prod.fst ++ [name] := by
  induction l with
  | nil => simp [assign]
  | cons e rest ih =>
    by_cases h : e.1 = name
    · simp [assign, h]
    · rw [assign, if_neg h, List.map_cons, ih]
      by_cases hm : name ∈ rest.map Prod.fst
      · simp [hm]
      · simp [hm, Ne.symm h]

end Parameters
end Mime
