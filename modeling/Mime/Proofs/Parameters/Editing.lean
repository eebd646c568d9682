import Mime.Proofs.Parameters.Given

/-! # Parameters that are set and taken out

Parameters are edited by insertions and removals, one after the other (`edited`).  The list of all
edits, those that gave the first parameters among them, is the history.  It decides what is found: a
name has the value that the last edit of the name left (`lastValue?`).  It decides the order too:
each name stands where the insertion came that brought it in, when it was absent, and that no
removal undid (`Arrives`).  Names in other letter case are the same, since all names are kept in
small letters and are distinct, whatever the edits are (`edited_ofList`). -/

namespace Mime.Parameters

open Text

/-! ### Edits -/

/-- A change of one parameter. -/
inductive Edit where
  | insert (name value : String)
  | remove (name : String)
deriving DecidableEq, Repr

namespace Edit

/-- The parameter that is changed. -/
def name : Edit → String
  | insert name _ => name
  | remove name => name

/-- The value that the parameter has after the change, if it is still there. -/
def value? : Edit → Option String
  | insert _ value => some value
  | remove _ => none

/-- Makes the change. -/
def apply (p : Parameters) : Edit → Parameters
  | insert name value => p.insert name value
  | remove name => (p.remove name).2

/-- A parameter that is given. -/
def ofPair (e : String × String) : Edit :=
  insert e.1 e.2

end Edit

/-- The parameters after some edits. -/
def edited (p : Parameters) (edits : List Edit) : Parameters :=
  edits.foldl Edit.apply p

/-- The value that the last edit of a name left: that of an insertion, and none after a removal or
where the name was never edited. -/
def lastValue? (history : List Edit) (name : String) : Option String :=
  (history.reverse.find? fun edit => sameName edit.name name).bind Edit.value?

/-- The edit after the first `i` brought the name in: it is an insertion of it, the name was absent
before, and none of the later edits removes it. -/
def Arrives (history : List Edit) (name : String) (i : Nat) : Prop :=
  ∃ earlier given value later, history = earlier ++ .insert given value :: later ∧
    earlier.length = i ∧ sameName given name = true ∧ lastValue? earlier name = none ∧
    ∀ edit ∈ later, edit.value? = none → sameName edit.name name = false

/-- One name came in before the other. -/
def Precedes (history : List Edit) (a b : String) : Prop :=
  ∃ i j, Arrives history a i ∧ Arrives history b j ∧ i < j

theorem edited_concat (p : Parameters) (edits : List Edit) (edit : Edit) :
    p.edited (edits ++ [edit]) = edit.apply (p.edited edits) := by
  rw [edited, List.foldl_append]
  rfl

theorem edited_ofPairs (pairs : List (String × String)) :
    empty.edited (pairs.map Edit.ofPair) = ofList pairs := by
  rw [edited, List.foldl_map]
  rfl

theorem lastValue?_concat (history : List Edit) (edit : Edit) (name : String) :
    lastValue? (history ++ [edit]) name =
      if sameName edit.name name then edit.value? else lastValue? history name := by
  rw [lastValue?, List.reverse_append, List.reverse_singleton, List.singleton_append,
    List.find?_cons]
  cases sameName edit.name name <;> rfl

/-! ### What is taken out -/

variable {p : Parameters}

/-- Under distinct names in small letters, one entry at most has a name, so that nothing else is
taken out with it. -/
theorem eraseP_eq_filter (name : String) : ∀ {l : List (String × String)},
    (∀ e ∈ l, lower e.1 = e.1) → (l.map Prod.fst).Nodup →
    l.eraseP (fun e => sameName e.1 name) = l.filter fun e => !sameName e.1 name
  | [], _, _ => rfl
  | e :: l, hlower, hnodup => by
      have hlower' := fun d hd => hlower d (List.mem_cons_of_mem e hd)
      rw [List.map_cons, List.nodup_cons] at hnodup
      cases h : sameName e.1 name with
      | false =>
          rw [List.eraseP_cons, List.filter_cons, h, eraseP_eq_filter name hlower' hnodup.2]
          rfl
      | true =>
          have hothers : ∀ d ∈ l, (!sameName d.1 name) = true := by
            intro d hd
            rw [Bool.not_eq_true', Bool.eq_false_iff]
            intro hsame
            rw [sameName_iff] at h hsame
            rw [← hsame, hlower e List.mem_cons_self, hlower' d hd] at h
            exact hnodup.1 (h ▸ List.mem_map_of_mem hd)
          rw [List.eraseP_cons, List.filter_cons, h, List.filter_eq_self.mpr hothers]
          rfl

theorem entries_erase (hlower : p.IsLower) (hnodup : p.names.Nodup) (name : String) :
    (p.erase name).entries = p.entries.filter fun e => !sameName e.1 name :=
  eraseP_eq_filter name hlower hnodup

theorem get?_erase (hlower : p.IsLower) (hnodup : p.names.Nodup) (name other : String) :
    (p.erase name).get? other = if sameName name other then none else p.get? other := by
  rw [get?, entries_erase hlower hnodup, List.find?_filter]
  split
  · rename_i h
    have hsame : ∀ e : String × String, sameName e.1 name = sameName e.1 other :=
      fun e => sameName_congr h e.1
    simp [hsame]
  · rename_i h
    have hkept : ∀ e : String × String,
        sameName e.1 other = true → sameName e.1 name = false :=
      fun e ho => sameName_eq_false ho (Bool.eq_false_iff.mpr h)
    have hsame : (fun e : String × String =>
        decide ((!sameName e.1 name) = true ∧ sameName e.1 other = true)) =
          fun e => sameName e.1 other := by
      funext e
      rw [Bool.eq_iff_iff, decide_eq_true_iff, Bool.not_eq_true']
      exact ⟨And.right, fun ho => ⟨hkept e ho, ho⟩⟩
    rw [hsame]
    rfl

theorem names_erase (hlower : p.IsLower) (hnodup : p.names.Nodup) (name : String) :
    (p.erase name).names = p.names.filter fun n => !sameName n name := by
  rw [names, entries_erase hlower hnodup, names, List.filter_map]
  rfl

/-! ### The history -/

/-- What holds of the parameters after any history. -/
structure Follows (history : List Edit) (p : Parameters) : Prop where
  isLower : p.IsLower
  nodup : p.names.Nodup
  get?_eq : ∀ name, p.get? name = lastValue? history name
  arrives : ∀ name ∈ p.names, ∃ i, Arrives history name i
  ordered : p.names.Pairwise (Precedes history)

theorem follows_nil : Follows [] empty where
  isLower := by simp [IsLower, empty]
  nodup := canonical_empty.nodup
  get?_eq _ := rfl
  arrives := by simp [names, empty]
  ordered := by simp [names, empty]

variable {history : List Edit} {name : String} {i : Nat}

theorem Arrives.lt_length (h : Arrives history name i) : i < history.length := by
  obtain ⟨earlier, given, value, later, rfl, rfl, -⟩ := h
  simp

/-- Later edits do not change when a name came in, as long as they do not remove it. -/
theorem Arrives.concat (h : Arrives history name i) {edit : Edit}
    (hedit : edit.value? = none → sameName edit.name name = false) :
    Arrives (history ++ [edit]) name i := by
  obtain ⟨earlier, given, value, later, rfl, hi, hsame, habsent, hkept⟩ := h
  refine ⟨earlier, given, value, later ++ [edit], by simp, hi, hsame, habsent, ?_⟩
  rw [List.forall_mem_append, List.forall_mem_singleton]
  exact ⟨hkept, hedit⟩

theorem arrives_concat_insert (habsent : lastValue? history (lower name) = none) (value : String) :
    Arrives (history ++ [.insert name value]) (lower name) history.length :=
  ⟨history, name, value, [], rfl, rfl, by rw [sameName_iff, lower_lower], habsent, by simp⟩

theorem get?_of_not_mem (hlower : p.IsLower) (h : lower name ∉ p.names) : p.get? name = none := by
  rw [get?, Option.map_eq_none_iff, List.find?_eq_none]
  intro e he hsame
  rw [sameName_iff, hlower e he] at hsame
  exact h (hsame ▸ List.mem_map_of_mem he)

namespace Follows

theorem arrives_of_not_mem (h : Follows history p) (hnew : lower name ∉ p.names) (value : String) :
    Arrives (history ++ [.insert name value]) (lower name) history.length := by
  refine arrives_concat_insert ?_ value
  rw [← h.get?_eq]
  exact get?_of_not_mem h.isLower (by rwa [lower_lower])

/-- A name that is there already keeps its place, and a new one comes last. -/
theorem insert (h : Follows history p) (name value : String) :
    Follows (history ++ [.insert name value]) (p.insert name value) := by
  have harrives : ∀ a ∈ p.names, ∃ i, Arrives (history ++ [.insert name value]) a i := by
    intro a ha
    obtain ⟨i, hi⟩ := h.arrives a ha
    exact ⟨i, hi.concat nofun⟩
  have hordered : p.names.Pairwise (Precedes (history ++ [.insert name value])) := by
    refine h.ordered.imp fun hab => ?_
    obtain ⟨i, j, hi, hj, hij⟩ := hab
    exact ⟨i, j, hi.concat nofun, hj.concat nofun, hij⟩
  refine ⟨h.isLower.insert name value, nodup_names_insert h.nodup name value, fun other => ?_, ?_,
    ?_⟩
  · rw [get?_insert h.isLower, lastValue?_concat, h.get?_eq other]
    rfl
  · rw [names_insert]
    split
    · exact harrives
    · rename_i hnew
      rw [List.forall_mem_append, List.forall_mem_singleton]
      exact ⟨harrives, history.length, h.arrives_of_not_mem hnew value⟩
  · rw [names_insert]
    split
    · exact hordered
    · rename_i hnew
      refine List.pairwise_append.mpr ⟨hordered, List.pairwise_singleton _ _, fun a ha b hb => ?_⟩
      obtain ⟨i, hi⟩ := h.arrives a ha
      rw [List.mem_singleton.mp hb]
      exact ⟨i, history.length, hi.concat nofun, h.arrives_of_not_mem hnew value, hi.lt_length⟩

theorem remove (h : Follows history p) (name : String) :
    Follows (history ++ [.remove name]) (p.remove name).2 := by
  have hkept : ∀ {a : String} {i : Nat}, a ∈ p.names.filter (fun n => !sameName n name) →
      Arrives history a i → Arrives (history ++ [.remove name]) a i := by
    intro a i ha hat
    have hother := (List.mem_filter.mp ha).2
    rw [Bool.not_eq_true'] at hother
    exact hat.concat fun _ => by rw [sameName_comm]; exact hother
  have hnames := names_erase h.isLower h.nodup name
  rw [remove_eq]
  refine ⟨h.isLower.erase name, ?_, fun other => ?_, fun a ha => ?_, ?_⟩
  · rw [hnames]
    exact h.nodup.filter _
  · rw [get?_erase h.isLower h.nodup, lastValue?_concat, h.get?_eq other]
    rfl
  · rw [hnames] at ha
    obtain ⟨i, hi⟩ := h.arrives a (List.mem_filter.mp ha).1
    exact ⟨i, hkept ha hi⟩
  · rw [hnames]
    refine (h.ordered.filter _).imp_of_mem fun ha hb hab => ?_
    obtain ⟨i, j, hi, hj, hij⟩ := hab
    exact ⟨i, j, hkept ha hi, hkept hb hj, hij⟩

end Follows

theorem follows_edited (history : List Edit) : Follows history (empty.edited history) := by
  induction history using List.reverseRecOn with
  | nil => exact follows_nil
  | append_singleton history edit ih =>
      rw [edited_concat]
      cases edit with
      | insert name value => exact ih.insert name value
      | remove name => exact ih.remove name

/-- **Parameters are an ordered map that ignores letter case**, whatever was given first and however
it was edited.  The names are in small letters and distinct.  A name in any letter case has the
value that its last edit left.  Taking it out gives this value and leaves all other entries in their
order, and then it is absent.  The names stand in the order of the insertions that brought them in,
so that setting one that is there keeps its place, and a new one comes last. -/
theorem edited_ofList (pairs : List (String × String)) (edits : List Edit) :
    let history := pairs.map Edit.ofPair ++ edits
    let p := (ofList pairs).edited edits
    (p.names.map lower = p.names ∧ p.names.Nodup) ∧
    (∀ name, p.get? name = lastValue? history name) ∧
    (∀ name, (p.remove name).1 = p.get? name ∧ (p.remove name).2.get? name = none ∧
      (p.remove name).2.entries = p.entries.filter fun e => !sameName e.1 name) ∧
    p.names.Pairwise (Precedes history) ∧
    ∀ name value, (p.insert name value).names =
      if lower name ∈ p.names then p.names else p.names ++ [lower name] := by
  intro history p
  have hp : p = empty.edited history := by
    show (ofList pairs).edited edits = (pairs.map Edit.ofPair ++ edits).foldl Edit.apply empty
    rw [← edited_ofPairs, List.foldl_append]
    rfl
  have h : Follows history p := hp ▸ follows_edited history
  refine ⟨⟨?_, h.nodup⟩, h.get?_eq, fun name => ?_, h.ordered, p.names_insert⟩
  · rw [names, List.map_map]
    exact List.map_congr_left h.isLower
  · rw [remove_eq]
    refine ⟨rfl, ?_, entries_erase h.isLower h.nodup name⟩
    rw [get?_erase h.isLower h.nodup, if_pos (sameName_refl name)]

/-- The first name is taken out and comes back as the last one. -/
example : ((ofList [("A", "1"), ("b", "2"), ("a", "3")]).edited
    [.remove "a", .insert "B" "4", .insert "A" "5"]).entries = [("b", "4"), ("a", "5")] := by
  decide

end Mime.Parameters
