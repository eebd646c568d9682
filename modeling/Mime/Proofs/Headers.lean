import Mime.Headers

/-! # Headers that are looked up and set

The first value of a header is that of the first line of its name, in any letter case (`get?_cons`),
and lines of other names do not matter to it (`get?_filter`), nor to all its values
(`getAll_erase`).

Setting a header overwrites the first line of its name and then goes through the lines behind it, to
drop those of the name.  Each of these lines is looked at once, whether the one in front of it was
dropped or not (`dropFrom_cons`), so that the lines of other names are kept and no others
(`dropFrom_append`).  Hence the lines in front of the first one of the name stay, the new line has
the place of that one, or the end where there was none, and the later lines of other names stand
behind it (`entries_set`).  What is found after a header was set follows from this
(`set_replaces`). -/

namespace Mime.Headers

open Text

/-! ### The first value of a header -/

theorem get?_nil (name : String) : get? ⟨[]⟩ name = none := rfl

theorem get?_cons (e : String × String) (l : List (String × String)) (name : String) :
    get? ⟨e :: l⟩ name = if sameName e.1 name then some e.2 else get? ⟨l⟩ name := by
  rw [get?, List.find?_cons, get?]
  cases sameName e.1 name <;> rfl

theorem get?_append : ∀ (a b : List (String × String)) (name : String),
    get? ⟨a ++ b⟩ name = (get? ⟨a⟩ name).or (get? ⟨b⟩ name)
  | [], b, name => rfl
  | e :: a, b, name => by
      rw [List.cons_append, get?_cons, get?_cons, get?_append a b name]
      split <;> rfl

theorem get?_eq_none {l : List (String × String)} {name : String}
    (h : ∀ e ∈ l, sameName e.1 name = false) : get? ⟨l⟩ name = none := by
  induction l with
  | nil => rfl
  | cons e l ih =>
      rw [get?_cons, h e List.mem_cons_self, ih fun d hd => h d (List.mem_cons_of_mem _ hd)]
      rfl

theorem get?_filter {p : String × String → Bool} {name : String} : ∀ {l : List (String × String)},
    (∀ e ∈ l, sameName e.1 name = true → p e = true) →
    get? ⟨l.filter p⟩ name = get? ⟨l⟩ name
  | [], _ => rfl
  | e :: l, h => by
      have ih := get?_filter fun d hd => h d (List.mem_cons_of_mem _ hd)
      rw [get?_cons]
      cases hp : p e with
      | true => rw [List.filter_cons_of_pos hp, get?_cons, ih]
      | false =>
          have hname : sameName e.1 name = false := by
            rw [Bool.eq_false_iff]
            intro he
            rw [h e List.mem_cons_self he] at hp
            cases hp
          rw [List.filter_cons_of_neg (by simp [hp]), ih, hname]
          rfl

/-! ### Lines of other names -/

variable {name : String} {e : String × String}

/-- The lines of other names. -/
def others (name : String) (lines : List (String × String)) : List (String × String) :=
  lines.filter fun e => !sameName e.1 name

theorem entries_erase (h : Headers) (name : String) :
    (h.erase name).entries = others name h.entries := rfl

theorem others_append (name : String) (a b : List (String × String)) :
    others name (a ++ b) = others name a ++ others name b :=
  List.filter_append a b

theorem others_cons (name : String) (e : String × String) (lines : List (String × String)) :
    others name (e :: lines) =
      if sameName e.1 name then others name lines else e :: others name lines := by
  rw [others, List.filter_cons]
  cases sameName e.1 name <;> rfl

theorem others_eq_self {lines : List (String × String)}
    (h : ∀ e ∈ lines, sameName e.1 name = false) : others name lines = lines :=
  List.filter_eq_self.mpr fun e he => by simp [h e he]

theorem sameName_of_mem_others {lines : List (String × String)} (he : e ∈ others name lines) :
    sameName e.1 name = false := by
  simpa using (List.mem_filter.mp he).2

theorem others_others (name : String) (lines : List (String × String)) :
    others name (others name lines) = others name lines :=
  others_eq_self fun _ he => sameName_of_mem_others he

/-! ### All values of a header -/

theorem getAll_congr {other : String} (hother : sameName name other = true) (h : Headers) :
    h.getAll other = h.getAll name := by
  have hsame : (fun e : String × String => sameName e.1 other) = fun e => sameName e.1 name := by
    funext e
    rw [sameName_congr hother]
  rw [getAll, hsame, getAll]

theorem getAll_erase {other : String} (hother : sameName name other = false) (h : Headers) :
    (h.erase name).getAll other = h.getAll other := by
  have hkept : ∀ e ∈ h.entries,
      (sameName e.1 other && !sameName e.1 name) = sameName e.1 other := by
    intro e _
    cases hsame : sameName e.1 other with
    | false => rfl
    | true => rw [sameName_eq_false hsame hother]; rfl
  rw [getAll, erase, List.filter_filter, List.filter_congr hkept, getAll]

theorem getAll_of_entries {h : Headers} {before after : List (String × String)}
    (hentries : h.entries = before ++ e :: after)
    (hbefore : ∀ d ∈ before, sameName d.1 name = false) (he : sameName e.1 name = true)
    (hafter : ∀ d ∈ after, sameName d.1 name = false) : h.getAll name = [e.2] := by
  have hnone : ∀ {lines : List (String × String)}, (∀ d ∈ lines, sameName d.1 name = false) →
      lines.filter (fun d => sameName d.1 name) = [] :=
    fun hlines => List.filter_eq_nil_iff.mpr fun d hd => by simp [hlines d hd]
  have hline : (e :: after).filter (fun d => sameName d.1 name) =
      e :: after.filter fun d => sameName d.1 name := List.filter_cons_of_pos he
  rw [getAll, hentries, List.filter_append, hnone hbefore, hline, hnone hafter]
  rfl

/-! ### The later lines -/

theorem dropFrom_length (name : String) (lines : List (String × String)) :
    dropFrom name lines.length lines = lines := by
  rw [dropFrom, dif_neg (Nat.lt_irrefl _)]

/-- One line: it is dropped, and the line behind it comes to its place, or it is passed. -/
theorem dropFrom_cons (name : String) (e : String × String) (before rest : List (String × String)) :
    dropFrom name before.length (before ++ e :: rest) =
      if sameName e.1 name then dropFrom name before.length (before ++ rest)
      else dropFrom name (before ++ [e]).length (before ++ [e] ++ rest) := by
  have hlt : before.length < (before ++ e :: rest).length := by simp
  have hget : (before ++ e :: rest)[before.length] = e := by simp
  have hdrop : (before ++ e :: rest).eraseIdx before.length = before ++ rest := by
    rw [List.eraseIdx_append_of_length_le (Nat.le_refl _), Nat.sub_self, List.eraseIdx_cons_zero]
  rw [dropFrom, dif_pos hlt, hget, hdrop, List.length_append, List.length_singleton,
    List.append_assoc, List.singleton_append]

/-- **The lines of the name are dropped and no others**: those that were passed stay, and of the
rest those of other names. -/
theorem dropFrom_append (name : String) (before rest : List (String × String)) :
    dropFrom name before.length (before ++ rest) = before ++ others name rest := by
  -- on the lines that are still to be looked at: each is dropped or moves to the passed ones
  induction rest generalizing before with
  | nil =>
      rw [List.append_nil, dropFrom_length]
      exact (List.append_nil before).symm
  | cons e rest ih =>
      rw [dropFrom_cons, ih, ih, others_cons]
      split
      · rfl
      · rw [List.append_assoc, List.singleton_append]

/-! ### The new line -/

variable {h : Headers} {before rest : List (String × String)}

theorem set_of_absent (habsent : ∀ e ∈ h.entries, sameName e.1 name = false) (value : String) :
    h.set name value = h.append name value := by
  have hnone : (h.entries.findIdx? fun e => sameName e.1 name) = none :=
    List.findIdx?_eq_none_iff.mpr habsent
  rw [set, hnone]

/-- The line of a header that is there already takes the place of its first one. -/
theorem entries_set_of_first (hentries : h.entries = before ++ e :: rest)
    (hbefore : ∀ d ∈ before, sameName d.1 name = false) (he : sameName e.1 name = true)
    (value : String) :
    (h.set name value).entries = before ++ (name, value) :: others name rest := by
  have hplace : (h.entries.findIdx? fun d => sameName d.1 name) = some before.length := by
    have hnone : (before.findIdx? fun d => sameName d.1 name) = none :=
      List.findIdx?_eq_none_iff.mpr hbefore
    rw [hentries, List.findIdx?_append, hnone, List.findIdx?_cons, if_pos he]
    simp
  have hline : h.entries.set before.length (name, value) = before ++ [(name, value)] ++ rest := by
    rw [hentries, List.set_append_right _ _ (Nat.le_refl _), Nat.sub_self, List.set_cons_zero,
      List.append_assoc, List.singleton_append]
  have hnext : before.length + 1 = (before ++ [(name, value)]).length := by simp
  rw [set, hplace]
  show dropFrom name (before.length + 1) _ = _
  rw [hline, hnext, dropFrom_append, List.append_assoc, List.singleton_append]

/-- Lines are those in front of the first one of a name and the rest, which begins with that one or
is empty. -/
theorem exists_first (name : String) (lines : List (String × String)) :
    ∃ before rest, lines = before ++ rest ∧ (∀ e ∈ before, sameName e.1 name = false) ∧
      ∀ e ∈ rest.head?, sameName e.1 name = true := by
  refine ⟨lines.takeWhile fun e => !sameName e.1 name, lines.dropWhile fun e => !sameName e.1 name,
    List.takeWhile_append_dropWhile.symm, fun e he => ?_, fun e he => ?_⟩
  · simpa using List.all_eq_true.mp List.all_takeWhile e he
  · have hfirst := List.head?_dropWhile_not (fun e => !sameName e.1 name) lines
    rw [Option.mem_def.mp he] at hfirst
    simpa using hfirst

/-- The new line stands where the first one of the name stood, or at the end, and the later lines of
other names stand behind it. -/
theorem entries_set (hentries : h.entries = before ++ rest)
    (hbefore : ∀ e ∈ before, sameName e.1 name = false)
    (hfirst : ∀ e ∈ rest.head?, sameName e.1 name = true) (value : String) :
    (h.set name value).entries = before ++ (name, value) :: others name rest := by
  cases rest with
  | nil =>
      rw [List.append_nil] at hentries
      rw [set_of_absent (hentries ▸ hbefore), entries_append, hentries]
      rfl
  | cons e rest =>
      have he : sameName e.1 name = true := hfirst e rfl
      rw [entries_set_of_first hentries hbefore he, others_cons, if_pos he]

theorem others_set (h : Headers) (name value : String) :
    others name (h.set name value).entries = others name h.entries := by
  obtain ⟨before, rest, hentries, hbefore, hfirst⟩ := exists_first name h.entries
  have hnew : sameName (name, value).1 name = true := sameName_refl name
  rw [entries_set hentries hbefore hfirst, hentries, others_append, others_append, others_cons,
    if_pos hnew, others_others]

/-- A header that was set has the new value alone, and the other headers have their values. -/
theorem getAll_set (h : Headers) (name value other : String) :
    (h.set name value).getAll other = if sameName name other then [value] else h.getAll other := by
  split
  · rename_i hother
    obtain ⟨before, rest, hentries, hbefore, hfirst⟩ := exists_first name h.entries
    rw [getAll_congr hother]
    exact getAll_of_entries (entries_set hentries hbefore hfirst value) hbefore
      (sameName_refl name) fun _ hd => sameName_of_mem_others hd
  · rename_i hother
    rw [Bool.not_eq_true] at hother
    have herase : (h.set name value).erase name = h.erase name :=
      congrArg Headers.mk (others_set h name value)
    rw [← getAll_erase hother, herase, getAll_erase hother]

/-- **Setting a header replaces its lines by one and does not disturb the others.**  The header has
the new value alone, in any letter case, and all other headers have the values that they had.  The
lines of other names are the same, as often and in the same order.  The new line stands where the
first one of its name stood, or at the end where there was none.  Dropping the header and adding the
line gives the same lines, but for the place of the new one. -/
theorem set_replaces (h : Headers) (name value : String) :
    (∀ other, (h.set name value).getAll other =
      if sameName name other then [value] else h.getAll other) ∧
    others name (h.set name value).entries = others name h.entries ∧
    ∃ before rest, h.entries = before ++ rest ∧
      (∀ e ∈ before, sameName e.1 name = false) ∧ (∀ e ∈ rest.head?, sameName e.1 name = true) ∧
      (h.set name value).entries = before ++ (name, value) :: others name rest ∧
      ((h.erase name).append name value).entries =
        before ++ others name rest ++ [(name, value)] := by
  obtain ⟨before, rest, hentries, hbefore, hfirst⟩ := exists_first name h.entries
  refine ⟨getAll_set h name value, others_set h name value, before, rest, hentries, hbefore, hfirst,
    entries_set hentries hbefore hfirst value, ?_⟩
  rw [entries_append, entries_erase, hentries, others_append, others_eq_self hbefore]

/-- Two lines of the name side by side, and one further on. -/
example : ((ofList [("A", "1"), ("x-tag", "a"), ("X-TAG", "b"), ("B", "2"), ("X-Tag", "c")]).set
    "X-tag" "d").entries = [("A", "1"), ("X-tag", "d"), ("B", "2")] := by
  decide +kernel

end Mime.Headers
