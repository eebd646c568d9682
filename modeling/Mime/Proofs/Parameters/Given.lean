import Mathlib.Data.List.Basic
import Mathlib.Data.List.Induction
import Mime.Proofs.Parameters

/-! # Parameters given one after the other

Of the parameters that are given one after the other, each name has the place in which it was first
given (`names_ofList`) and the value that it was given last (`get?_ofList`).  That determines them
(`entries_ofList`). -/

namespace Mime.Parameters

open Text

variable {p : Parameters}

/-- The names in the order in which they were first given, in small letters and each with the value
that it was given last. -/
def latest (pairs : List (String × String)) : List (String × String) :=
  (pairs.map fun e => lower e.1).eraseDups.filterMap fun name =>
    (pairs.reverse.find? fun e => lower e.1 == name).map fun e => (name, e.2)

theorem ofList_concat (pairs : List (String × String)) (e : String × String) :
    ofList (pairs ++ [e]) = (ofList pairs).insert e.1 e.2 := by
  rw [ofList, List.foldl_append]
  rfl

/-! ### The names -/

theorem eraseDups_concat (l : List String) (a : String) :
    (l ++ [a]).eraseDups = if a ∈ l then l.eraseDups else l.eraseDups ++ [a] := by
  rw [List.eraseDups_append]
  split
  · rename_i h
    simp [List.removeAll, h]
  · rename_i h
    have hkept : [a].removeAll l = [a] := by simp [List.removeAll, h]
    rw [hkept]
    rfl

theorem names_ofList (pairs : List (String × String)) :
    (ofList pairs).names = (pairs.map fun e => lower e.1).eraseDups := by
  induction pairs using List.reverseRecOn with
  | nil => rfl
  | append_singleton pairs e ih =>
      rw [ofList_concat, names_insert, ih, List.map_append, List.map_singleton, eraseDups_concat]
      simp only [List.mem_eraseDups]

theorem nodup_names_ofList (pairs : List (String × String)) : (ofList pairs).names.Nodup := by
  induction pairs using List.reverseRecOn with
  | nil => exact List.nodup_nil
  | append_singleton pairs e ih =>
      rw [ofList_concat]
      exact nodup_names_insert ih e.1 e.2

/-! ### The values -/

theorem get?_ofList (pairs : List (String × String)) (name : String) :
    (ofList pairs).get? name = (pairs.reverse.find? fun e => sameName e.1 name).map Prod.snd := by
  induction pairs using List.reverseRecOn with
  | nil => rfl
  | append_singleton pairs e ih =>
      rw [ofList_concat, get?_insert (isLower_ofList pairs), ih, List.reverse_append,
        List.reverse_singleton, List.singleton_append, List.find?_cons]
      cases sameName e.1 name <;> rfl

theorem find?_of_mem : ∀ {l : List (String × String)} {e : String × String},
    (∀ d ∈ l, lower d.1 = d.1) → (l.map Prod.fst).Nodup → e ∈ l →
    l.find? (fun d => sameName d.1 e.1) = some e
  | [], _, _, _, he => nomatch he
  | d :: l, e, hlower, hnodup, he => by
      rw [List.map_cons, List.nodup_cons] at hnodup
      rcases List.mem_cons.mp he with rfl | hmem
      · rw [List.find?_cons, sameName_refl]
      · have hne : ¬ sameName d.1 e.1 = true := by
          rw [sameName_iff, hlower d List.mem_cons_self, hlower e he]
          intro hd
          exact hnodup.1 (hd ▸ List.mem_map_of_mem hmem)
        rw [List.find?_cons, Bool.eq_false_iff.mpr hne]
        exact find?_of_mem (fun f hf => hlower f (List.mem_cons_of_mem _ hf)) hnodup.2 hmem

/-- The names and the value of each determine the parameters. -/
theorem entries_eq (hlower : p.IsLower) (hnodup : p.names.Nodup) :
    p.entries = p.names.filterMap fun name => (p.get? name).map fun value => (name, value) := by
  have hget : ∀ e ∈ p.entries, ((p.get? e.1).map fun value => (e.1, value)) = some e := by
    intro e he
    rw [get?, find?_of_mem hlower hnodup he]
    rfl
  rw [names, List.filterMap_map]
  refine (List.filterMap_some (l := p.entries)).symm.trans ?_
  exact List.filterMap_congr fun e he => (hget e he).symm

/-- Parameters given one after the other are the names, in the order in which they were first given,
with the values that they were given last. -/
theorem entries_ofList (pairs : List (String × String)) :
    (ofList pairs).entries = latest pairs := by
  have hname : ∀ name ∈ (ofList pairs).names, lower name = name := by
    intro name hmem
    obtain ⟨e, he, rfl⟩ := List.mem_map.mp hmem
    exact isLower_ofList pairs e he
  rw [entries_eq (isLower_ofList pairs) (nodup_names_ofList pairs), latest, ← names_ofList]
  refine List.filterMap_congr fun name hmem => ?_
  have hsame : (fun e : String × String => sameName e.1 name) = fun e => lower e.1 == name := by
    funext e
    rw [sameName, hname name hmem]
  rw [get?_ofList, hsame, Option.map_map]
  rfl

/-- The second name is given first. -/
example : latest [("B", "1"), ("a", "2"), ("b", "3"), ("A", "")] = [("b", "3"), ("a", "")] := by
  decide

end Mime.Parameters
