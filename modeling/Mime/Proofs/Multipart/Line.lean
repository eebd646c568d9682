import Mime.Multipart.Reader

/-! # Messages as lines

A reference for what a message says, in terms of whole lines and without segments, limits or spill
files.  `lines` cuts bytes after each line feed; `lineDelimiter?` tells a delimiter by the whole
line, and `lineDelimiter?_eq_next_iff` and `lineDelimiter?_eq_close_iff` say which lines these are.
`Outline.ofLines` divides lines into the header blocks and contents of the parts, and `parseLines`
reads the headers and the content of each. -/

namespace Mime.Multipart

/-! ### Lines -/

/-- The lines of bytes behind the beginning of the first one. -/
def linesFrom (line : Bytes) : Bytes → List Bytes
  | [] => if line = [] then [] else [line]
  | b :: rest =>
    if b = lineFeed then (line ++ [b]) :: linesFrom [] rest else linesFrom (line ++ [b]) rest

/-- The lines of bytes, each with its line feed, which only the last one may lack. -/
def lines (bytes : Bytes) : List Bytes :=
  linesFrom [] bytes

/-- Whether a line has a line feed at its end. -/
def isTerminated (line : Bytes) : Bool :=
  line.getLast? == some lineFeed

/-- Lines as they come from bytes: a line feed ends each of them and stands nowhere else, and the
last one may lack it. -/
inductive Lined : List Bytes → Prop
  | nil : Lined []
  | last {w : Bytes} : lineFeed ∉ w → w ≠ [] → Lined [w]
  | cons {w : Bytes} {ls : List Bytes} :
      lineFeed ∉ w → Lined ls → Lined ((w ++ [lineFeed]) :: ls)

@[simp] theorem lines_nil : lines [] = [] := rfl

theorem isTerminated_append (w : Bytes) : isTerminated (w ++ [lineFeed]) = true := by
  simp [isTerminated]

theorem isTerminated_of_not_mem {w : Bytes} (h : lineFeed ∉ w) : isTerminated w = false := by
  simp only [isTerminated, beq_eq_false_iff_ne, ne_eq]
  exact fun hl => h (List.mem_of_getLast? hl)

theorem linesFrom_of_not_mem : ∀ {w : Bytes} (line : Bytes), lineFeed ∉ w →
    linesFrom line w = if line ++ w = [] then [] else [line ++ w]
  | [], line, _ => by simp [linesFrom]
  | b :: w, line, h => by
      have hb : b ≠ lineFeed := fun e => h (by simp [e])
      have hw : lineFeed ∉ w := fun e => h (by simp [e])
      rw [linesFrom, if_neg hb, linesFrom_of_not_mem (line ++ [b]) hw]
      simp

theorem linesFrom_line : ∀ {w : Bytes} (line : Bytes) (rest : Bytes), lineFeed ∉ w →
    linesFrom line (w ++ lineFeed :: rest) = (line ++ (w ++ [lineFeed])) :: lines rest
  | [], line, rest, _ => by simp [linesFrom, lines]
  | b :: w, line, rest, h => by
      have hb : b ≠ lineFeed := fun e => h (by simp [e])
      have hw : lineFeed ∉ w := fun e => h (by simp [e])
      rw [List.cons_append, linesFrom, if_neg hb, linesFrom_line (line ++ [b]) rest hw]
      simp

theorem lines_of_not_mem {w : Bytes} (h : lineFeed ∉ w) (hne : w ≠ []) : lines w = [w] := by
  rw [lines, linesFrom_of_not_mem [] h]
  simp [hne]

theorem lines_line {w : Bytes} (h : lineFeed ∉ w) (rest : Bytes) :
    lines (w ++ lineFeed :: rest) = (w ++ [lineFeed]) :: lines rest := by
  rw [lines, linesFrom_line [] rest h, List.nil_append]

/-- Bytes are empty, or a single line that lacks its line feed, or a line and what follows it. -/
theorem line_cases (bytes : Bytes) : bytes = [] ∨ (lineFeed ∉ bytes ∧ bytes ≠ []) ∨
    ∃ w rest, lineFeed ∉ w ∧ bytes = w ++ lineFeed :: rest := by
  by_cases h : lineFeed ∈ bytes
  · obtain ⟨w, rest, he, hw⟩ := List.eq_append_cons_of_mem h
    exact .inr (.inr ⟨w, rest, hw, he⟩)
  · by_cases hne : bytes = []
    · exact .inl hne
    · exact .inr (.inl ⟨h, hne⟩)

/-- Induction on the lines of bytes. -/
theorem line_induction {P : Bytes → Prop} (nil : P [])
    (last : ∀ w, lineFeed ∉ w → w ≠ [] → P w)
    (line : ∀ w rest, lineFeed ∉ w → P rest → P (w ++ lineFeed :: rest)) (bytes : Bytes) :
    P bytes := by
  induction hn : bytes.length using Nat.strongRecOn generalizing bytes with
  | ind n ih =>
    obtain rfl | ⟨h, hne⟩ | ⟨w, rest, hw, rfl⟩ := line_cases bytes
    · exact nil
    · exact last bytes h hne
    · refine line w rest hw (ih rest.length ?_ rest rfl)
      simp only [List.length_append, List.length_cons] at hn
      omega

theorem lined_lines (bytes : Bytes) : Lined (lines bytes) := by
  induction bytes using line_induction with
  | nil => exact .nil
  | last w h hne => rw [lines_of_not_mem h hne]; exact .last h hne
  | line w rest h ih => rw [lines_line h]; exact .cons h ih

theorem Lined.tail {line : Bytes} {ls : List Bytes} (h : Lined (line :: ls)) : Lined ls := by
  cases h with
  | last => exact .nil
  | cons _ h => exact h

theorem Lined.of_append : ∀ {xs ys : List Bytes}, Lined (xs ++ ys) → Lined ys
  | [], _, h => h
  | _ :: _, _, h => of_append h.tail

theorem Lined.left : ∀ {xs ys : List Bytes}, Lined (xs ++ ys) → Lined xs
  | [], _, _ => .nil
  | l :: xs, ys, h => by
      rw [List.cons_append] at h
      generalize hls : xs ++ ys = ls at h
      cases h with
      | last hw hne =>
          rw [(List.append_eq_nil_iff.mp hls).1]
          exact .last hw hne
      | cons hw h =>
          subst hls
          exact .cons hw h.left

theorem Lined.singleton {l : Bytes} {ls : List Bytes} (h : Lined ls) (hl : l ∈ ls) : Lined [l] := by
  induction h with
  | nil => cases hl
  | last hw hne =>
      rw [List.mem_singleton.mp hl]
      exact .last hw hne
  | cons hw _ ih =>
      rcases List.mem_cons.mp hl with rfl | hl
      · exact .cons hw .nil
      · exact ih hl

theorem Lined.of_forall {ls : List Bytes}
    (h : ∀ line ∈ ls, ∃ w, lineFeed ∉ w ∧ line = w ++ [lineFeed]) : Lined ls := by
  induction ls with
  | nil => exact .nil
  | cons line ls ih =>
      rw [List.forall_mem_cons] at h
      obtain ⟨⟨w, hw, rfl⟩, hls⟩ := h
      exact .cons hw (ih hls)

theorem Lined.head_terminated {line : Bytes} {ls : List Bytes} (h : Lined (line :: ls))
    (hne : ls ≠ []) : ∃ w, lineFeed ∉ w ∧ line = w ++ [lineFeed] := by
  cases h with
  | last => exact absurd rfl hne
  | @cons w _ hw => exact ⟨w, hw, rfl⟩

theorem Lined.getLast?_flatten : ∀ {xs ys : List Bytes}, Lined (xs ++ ys) → ys ≠ [] →
    ∀ b ∈ xs.flatten.getLast?, b = lineFeed
  | [], _, _, _ => by simp
  | line :: xs, ys, h, hys => by
      obtain ⟨w, -, rfl⟩ := head_terminated h (by simp [hys])
      have ih := getLast?_flatten h.tail hys
      intro b hb
      rw [List.flatten_cons, List.getLast?_append] at hb
      cases hx : xs.flatten.getLast? with
      | none =>
          rw [hx] at hb
          simpa using hb.symm
      | some c =>
          rw [hx] at hb
          exact ih b (hx.trans hb)

@[simp] theorem flatten_lines (bytes : Bytes) : (lines bytes).flatten = bytes := by
  induction bytes using line_induction with
  | nil => rfl
  | last w h hne => simp [lines_of_not_mem h hne]
  | line w rest h ih => simp [lines_line h, ih]

theorem Lined.lines_flatten {ls : List Bytes} (h : Lined ls) : lines ls.flatten = ls := by
  induction h with
  | nil => rfl
  | last hw hne => rw [List.flatten_singleton, lines_of_not_mem hw hne]
  | cons hw _ ih =>
      rw [List.flatten_cons, List.append_assoc, List.singleton_append, lines_line hw, ih]

/-- Bytes that end with a line feed can be cut apart from what follows them. -/
theorem lines_append {x : Bytes} (hx : ∀ b ∈ x.getLast?, b = lineFeed) (y : Bytes) :
    lines (x ++ y) = lines x ++ lines y := by
  induction x using line_induction with
  | nil => rfl
  | last w h hne =>
      have hl := hx _ (List.getLast?_eq_some_getLast hne)
      exact absurd (hl ▸ List.getLast_mem hne) h
  | line w rest h ih =>
      have hrest : ∀ b ∈ rest.getLast?, b = lineFeed := by
        intro b hb
        apply hx b
        rw [List.getLast?_append, List.getLast?_cons, Option.mem_def.mp hb]
        rfl
      rw [List.append_assoc, List.cons_append, lines_line h, lines_line h, ih hrest,
        List.cons_append]

/-! ### Delimiters -/

/-- The delimiter that a line is, if it is one. -/
def lineDelimiter? (dashBoundary line : Bytes) : Option Delimiter :=
  match dropStart? dashBoundary line with
  | none => none
  | some rest =>
    if isLineBreak (rest.dropWhile isBlankByte) then some .next
    else
      match dropStart? [dash, dash] rest with
      | none => none
      | some rest =>
        let rest := rest.dropWhile isBlankByte
        if rest.isEmpty || isLineBreak rest then some .close else none

theorem dropWhile_append_of_all {p : UInt8 → Bool} {x y : Bytes} (hx : ∀ b ∈ x, p b = true)
    (hy : ∀ b ∈ y.head?, p b = false) : (x ++ y).dropWhile p = y := by
  rw [List.dropWhile_append_of_pos hx]
  cases y with
  | nil => rfl
  | cons b y => simp [hy b rfl]

theorem not_blank_of_isLineBreak {bytes : Bytes} (h : isLineBreak bytes = true) :
    ∀ b ∈ bytes.head?, isBlankByte b = false := by
  simp only [isLineBreak, Bool.or_eq_true, beq_iff_eq] at h
  rcases h with rfl | rfl <;> (rintro b hb; cases hb; rfl)

/-- What is left behind spaces and tabs, in terms of the bytes as a whole. -/
theorem dropWhile_blank_iff {bytes : Bytes} {P : Bytes → Prop}
    (hP : ∀ y, P y → ∀ b ∈ y.head?, isBlankByte b = false) :
    P (bytes.dropWhile isBlankByte) ↔
      ∃ x y, (∀ b ∈ x, isBlankByte b = true) ∧ P y ∧ bytes = x ++ y := by
  constructor
  · intro h
    exact ⟨bytes.takeWhile isBlankByte, _, fun b hb => List.all_eq_true.mp
      List.all_takeWhile b hb, h, List.takeWhile_append_dropWhile.symm⟩
  · rintro ⟨x, y, hx, hy, rfl⟩
    rwa [dropWhile_append_of_all hx (hP y hy)]

/-- A line that announces another part: the dashes and the boundary, spaces and tabs, and a line
break. -/
theorem lineDelimiter?_eq_next_iff {dashBoundary line : Bytes} :
    lineDelimiter? dashBoundary line = some .next ↔
      ∃ blanks tail, (∀ b ∈ blanks, isBlankByte b = true) ∧ isLineBreak tail = true ∧
        line = dashBoundary ++ (blanks ++ tail) := by
  have hiff : ∀ rest : Bytes, isLineBreak (rest.dropWhile isBlankByte) = true ↔
      ∃ x y, (∀ b ∈ x, isBlankByte b = true) ∧ isLineBreak y = true ∧ rest = x ++ y :=
    fun _ => dropWhile_blank_iff fun _ => not_blank_of_isLineBreak
  constructor
  · intro h
    unfold lineDelimiter? at h
    split at h
    · cases h
    · rename_i rest hd
      rw [dropStart?_eq_some] at hd
      split at h
      · rename_i hb
        obtain ⟨x, y, hx, hy, rfl⟩ := (hiff rest).mp hb
        exact ⟨x, y, hx, hy, hd⟩
      · split at h
        · cases h
        · dsimp only at h
          split at h <;> cases h
  · rintro ⟨blanks, tail, hb, ht, rfl⟩
    simp only [lineDelimiter?, dropStart?_append]
    rw [if_pos ((hiff _).mpr ⟨blanks, tail, hb, ht, rfl⟩)]

theorem isTerminated_of_next {dashBoundary line : Bytes}
    (h : lineDelimiter? dashBoundary line = some .next) : isTerminated line = true := by
  obtain ⟨blanks, tail, -, ht, rfl⟩ := lineDelimiter?_eq_next_iff.mp h
  simp only [isLineBreak, Bool.or_eq_true, beq_iff_eq] at ht
  rcases ht with rfl | rfl <;> simp [isTerminated]

/-- The line that announces the end of the parts: the dashes and the boundary, two more dashes,
spaces and tabs, and a line break or the end of the input. -/
theorem lineDelimiter?_eq_close_iff {dashBoundary line : Bytes} :
    lineDelimiter? dashBoundary line = some .close ↔
      ∃ blanks tail, (∀ b ∈ blanks, isBlankByte b = true) ∧
        (tail = [] ∨ isLineBreak tail = true) ∧
        line = dashBoundary ++ ([dash, dash] ++ (blanks ++ tail)) := by
  have hiff : ∀ rest : Bytes, ((rest.dropWhile isBlankByte).isEmpty ||
        isLineBreak (rest.dropWhile isBlankByte)) = true ↔
      ∃ x y, (∀ b ∈ x, isBlankByte b = true) ∧ (y = [] ∨ isLineBreak y = true) ∧ rest = x ++ y := by
    intro rest
    rw [Bool.or_eq_true, List.isEmpty_iff]
    refine dropWhile_blank_iff (P := fun y => y = [] ∨ isLineBreak y = true) ?_
    rintro y (rfl | hy)
    · simp
    · exact not_blank_of_isLineBreak hy
  constructor
  · intro h
    unfold lineDelimiter? at h
    split at h
    · cases h
    · rename_i rest hd
      rw [dropStart?_eq_some] at hd
      split at h
      · cases h
      · split at h
        · cases h
        · rename_i rest' hd'
          rw [dropStart?_eq_some] at hd'
          dsimp only at h
          split at h
          · rename_i hb
            obtain ⟨x, y, hx, hy, rfl⟩ := (hiff rest').mp hb
            exact ⟨x, y, hx, hy, by rw [hd, hd']⟩
          · cases h
  · rintro ⟨blanks, tail, hb, ht, rfl⟩
    have hdash :
        isLineBreak (([dash, dash] ++ (blanks ++ tail)).dropWhile isBlankByte) = false := by
      simp [isBlankByte, isLineBreak, dash, lineFeed, carriageReturn]
    simp only [lineDelimiter?, dropStart?_append, hdash, Bool.false_eq_true, if_false]
    rw [if_pos ((hiff _).mpr ⟨blanks, tail, hb, ht, rfl⟩)]

/-! ### The parts of a message -/

/-- The lines of a header block with the empty line that ends it, and the lines behind it; there
are none if no empty line ends the block. -/
def takeBlock : List Bytes → List Bytes × Option (List Bytes)
  | [] => ([], none)
  | line :: rest =>
    if !isTerminated line then ([line], none)
    else if isEmptyLine line then ([line], some rest)
    else
      let r := takeBlock rest
      (line :: r.1, r.2)

/-- The lines in front of the first delimiter, and the delimiter with the lines behind it. -/
def takeContent (dashBoundary : Bytes) : List Bytes → List Bytes × Option (Delimiter × List Bytes)
  | [] => ([], none)
  | line :: rest =>
    match lineDelimiter? dashBoundary line with
    | some d => ([], some (d, rest))
    | none =>
      let r := takeContent dashBoundary rest
      (line :: r.1, r.2)

/-- The parts of a message as lines: header blocks and contents, up to the closing delimiter or to
the block or the content in which the lines end. -/
inductive Outline where
  | cutBlock (block : List Bytes)
  | cutContent (block : List Bytes)
  | last (block content : List Bytes)
  | part (block content : List Bytes) (rest : Outline)
deriving Repr

theorem append_of_takeBlock : ∀ {ls block rest : List Bytes},
    takeBlock ls = (block, some rest) → ls = block ++ rest
  | [], _, _, h => by simp [takeBlock] at h
  | line :: ls, block, rest, h => by
      unfold takeBlock at h
      split at h
      · simp at h
      · split at h
        · cases h
          rfl
        · cases h' : takeBlock ls with
          | mk b r =>
              rw [h'] at h
              simp only [Prod.mk.injEq] at h
              obtain ⟨rfl, rfl⟩ := h
              rw [append_of_takeBlock h', List.cons_append]

theorem isTerminated_of_takeBlock : ∀ {ls block rest : List Bytes},
    takeBlock ls = (block, some rest) → ∀ line ∈ block, isTerminated line = true
  | [], _, _, h => by simp [takeBlock] at h
  | line :: ls, block, rest, h => by
      unfold takeBlock at h
      cases ht : isTerminated line with
      | false => simp [ht] at h
      | true =>
          cases he : isEmptyLine line with
          | true =>
              rw [ht, he] at h
              cases h
              simpa using ht
          | false =>
              cases hr : takeBlock ls with
              | mk block' found =>
                  rw [ht, he, hr] at h
                  cases h
                  exact List.forall_mem_cons.mpr ⟨ht, isTerminated_of_takeBlock hr⟩

theorem append_of_takeContent {dashBoundary : Bytes} : ∀ {ls content rest : List Bytes}
    {d : Delimiter}, takeContent dashBoundary ls = (content, some (d, rest)) →
    ∃ line, ls = content ++ line :: rest ∧ lineDelimiter? dashBoundary line = some d ∧
      ∀ l ∈ content, lineDelimiter? dashBoundary l = none
  | [], _, _, _, h => by simp [takeContent] at h
  | line :: ls, content, rest, d, h => by
      unfold takeContent at h
      split at h
      · rename_i d' hd
        cases h
        exact ⟨line, rfl, hd, by simp⟩
      · rename_i hd
        cases h' : takeContent dashBoundary ls with
        | mk c r =>
            rw [h'] at h
            simp only [Prod.mk.injEq] at h
            obtain ⟨rfl, rfl⟩ := h
            obtain ⟨l, rfl, hl, hc⟩ := append_of_takeContent h'
            exact ⟨l, rfl, hl, List.forall_mem_cons.mpr ⟨hd, hc⟩⟩

theorem forall_of_takeContent_none {dashBoundary : Bytes} : ∀ {ls : List Bytes},
    (takeContent dashBoundary ls).2 = none → ∀ l ∈ ls, lineDelimiter? dashBoundary l = none
  | [], _ => by simp
  | line :: ls, h => by
      unfold takeContent at h
      cases hd : lineDelimiter? dashBoundary line with
      | some d => simp [hd] at h
      | none =>
          rw [hd] at h
          exact List.forall_mem_cons.mpr ⟨hd, forall_of_takeContent_none h⟩

theorem ne_nil_of_takeBlock {ls block rest : List Bytes} (h : takeBlock ls = (block, some rest)) :
    block ≠ [] := by
  cases ls with
  | nil => simp [takeBlock] at h
  | cons line ls =>
      unfold takeBlock at h
      split at h
      · simp at h
      · split at h
        · cases h
          simp
        · rw [← (Prod.mk.inj h).1]
          simp

theorem length_takeBlock_lt {ls block rest : List Bytes} (h : takeBlock ls = (block, some rest)) :
    rest.length < ls.length := by
  have := List.length_pos_iff.mpr (ne_nil_of_takeBlock h)
  rw [append_of_takeBlock h, List.length_append]
  omega

theorem length_takeContent_lt {dashBoundary : Bytes} {ls content rest : List Bytes} {d : Delimiter}
    (h : takeContent dashBoundary ls = (content, some (d, rest))) : rest.length < ls.length := by
  obtain ⟨line, rfl, -⟩ := append_of_takeContent h
  rw [List.length_append, List.length_cons]
  omega

/-- The parts in the lines behind a delimiter. -/
def Outline.ofLines (dashBoundary : Bytes) (ls : List Bytes) : Outline :=
  match _hb : takeBlock ls with
  | (block, none) => .cutBlock block
  | (block, some ls') =>
    match _hc : takeContent dashBoundary ls' with
    | (_, none) => .cutContent block
    | (content, some (.close, _)) => .last block content
    | (content, some (.next, rest)) => .part block content (ofLines dashBoundary rest)
termination_by ls.length
decreasing_by exact Nat.lt_trans (length_takeContent_lt _hc) (length_takeBlock_lt _hb)

/-- The header blocks of all parts, each with the line that ends it. -/
def Outline.blocks : Outline → List (List Bytes)
  | .cutBlock block | .cutContent block | .last block _ => [block]
  | .part block _ rest => block :: rest.blocks

/-- The headers and the content that the lines of a part say: of the content, the line break in
front of the delimiter is left out. -/
def readLines (block content : List Bytes) : Headers × Bytes :=
  (unfold block.dropLast, (splitBreak content.flatten).1)

/-- What the parts say, of which the first has a number. -/
def Outline.read (part : Nat) : Outline → Except Error (List (Headers × Bytes))
  | .cutBlock _ => .error (.structural .cutHeaders)
  | .cutContent _ => .error (.structural (.cutContent part))
  | .last block content => .ok [readLines block content]
  | .part block content rest => (rest.read (part + 1)).map (readLines block content :: ·)

/-- What a message says, line by line: the lines in front of the first delimiter and those behind
the closing one are left out. -/
def parseLines (dashBoundary bytes : Bytes) : Except Error (List (Headers × Bytes)) :=
  match (takeContent dashBoundary (lines bytes)).2 with
  | none => .error (.structural .noStartBoundary)
  | some (.close, _) => .ok []
  | some (.next, rest) => (Outline.ofLines dashBoundary rest).read 1

/-- The header blocks of a message. -/
def headerBlocks (dashBoundary bytes : Bytes) : List (List Bytes) :=
  match (takeContent dashBoundary (lines bytes)).2 with
  | some (.next, rest) => (Outline.ofLines dashBoundary rest).blocks
  | _ => []

/-- The number of lines that start a header: the complete ones that are neither empty nor
continue another. -/
def headerCount (block : List Bytes) : Nat :=
  block.countP fun line => isTerminated line && !isEmptyLine line && !isFolded line

/-- Whether a header block is within the limits. -/
def Limits.Admits (limits : Limits) (block : List Bytes) : Prop :=
  block.flatten.length ≤ limits.maxHeaderSize ∧ headerCount block ≤ limits.maxHeaders

instance (limits : Limits) (block : List Bytes) : Decidable (limits.Admits block) :=
  inferInstanceAs (Decidable (_ ∧ _))

end Mime.Multipart
