import Mime.Proofs.MediaType.Suffix
import Mime.Proofs.Parameters.Given

/-! # Media types as they may be written

A `Spelling` is one way to write a media type: a type and a subtype, both tokens in letters of any
case, and pieces behind semicolons, with spaces and tabs at both ends and around the semicolons and
the equals signs.  Every spelling is read (`parse_spelling`), and as what it says: type, subtype and
suffix in small letters, and the parameters with the values that are meant, each in the place where
its name was first given and with the value that it was given last. -/

namespace Mime.MediaType

open Text Mime.Field

/-- A media type as it may be written. -/
structure Spelling where
  before : Padding
  primary : Token
  sub : Token
  after : Padding
  pieces : List SpelledPiece

/-- A subtype in two parts: what is before its last plus sign and what is behind it.  Without a plus
sign, nothing is behind it. -/
def CutAtLastPlus (whole sub suffix : String) : Prop :=
  '+' ∉ whole.toList ∧ sub = whole ∧ suffix = "" ∨
    whole = sub ++ "+" ++ suffix ∧ '+' ∉ suffix.toList

theorem cutAtLastPlus_cutSuffix (whole : String) :
    CutAtLastPlus whole (String.ofList (cutSuffix whole.toList).1)
      (String.ofList (cutSuffix whole.toList).2) := by
  cases hcut : cutSuffix whole.toList with
  | mk a b =>
      rcases cutSuffix_eq_iff.mp hcut with ⟨hm, rfl, rfl⟩ | ⟨hwhole, hm⟩
      · exact .inl ⟨hm, String.ofList_toList, rfl⟩
      · refine .inr ⟨?_, by simpa using hm⟩
        rw [← String.toList_inj]
        simpa using hwhole

namespace Spelling

variable (s : Spelling)

/-- Type and subtype with a slash between them and the padding around them. -/
def types : List Char :=
  s.before.text ++ (s.primary.text ++ '/' :: s.sub.text) ++ s.after.text

/-- The text of the media type. -/
def text : String :=
  String.ofList (s.types ++ s.pieces.flatMap fun t => ';' :: t.text)

/-- The parameters that are given, one after the other. -/
def given : List (String × String) :=
  s.pieces.filterMap SpelledPiece.given

theorem whole_types : Whole s.types := by
  have hslash : Whole ['/'] := whole_of_forall (by simp)
  have htypes : Whole (s.primary.text ++ '/' :: s.sub.text) :=
    (whole_of_isToken s.primary.isToken).append (hslash.append (whole_of_isToken s.sub.isToken))
  exact (s.before.whole.append htypes).append s.after.whole

/-- The text is cut at its semicolons, and at no other ones. -/
theorem splitUnquoted_text :
    splitUnquoted s.text.toList = some (s.types :: s.pieces.map SpelledPiece.text) := by
  have hpieces : ∀ t ∈ s.pieces.map SpelledPiece.text, Whole t := by
    intro t ht
    obtain ⟨u, -, rfl⟩ := List.mem_map.mp ht
    exact u.whole_text
  have hsplit := splitUnquoted_pieces s.whole_types hpieces
  rwa [List.flatMap_map, ← String.toList_ofList (l := _ ++ _)] at hsplit

theorem trim_types : trim s.types = s.primary.text ++ '/' :: s.sub.text := by
  have hsub := isToken_iff.mp s.sub.isToken
  rw [types, Padding.trim_around]
  refine trim_append (isToken_iff.mp s.primary.isToken).1 (trim_of_isToken s.primary.isToken) ?_
  rw [List.getLast?_cons_of_ne_nil hsub.1]
  exact (trim_eq_self_iff.mp (trim_of_isToken s.sub.isToken)).2

theorem parseTypes_types (value : String) :
    parseTypes value s.types =
      .ok (ofTypes (String.ofList s.primary.text) (String.ofList s.sub.text)) := by
  refine parseTypes_of_trim_eq ?_ ?_ ?_ value
  · rw [String.toList_ofList]
    exact s.primary.isToken
  · rw [String.toList_ofList]
    exact s.sub.isToken
  · rw [String.toList_ofList, String.toList_ofList, s.trim_types]

end Spelling

theorem foldlM_addPiece_text : ∀ (pieces : List SpelledPiece) (p : Parameters),
    (pieces.map SpelledPiece.text).foldlM addPiece p =
      .ok ((pieces.filterMap SpelledPiece.given).foldl (fun q e => q.insert e.1 e.2) p)
  | [], _ => rfl
  | t :: pieces, p => by
      rw [List.map_cons, List.foldlM_cons, addPiece_text]
      refine (foldlM_addPiece_text pieces _).trans ?_
      rw [List.filterMap_cons]
      cases t.given <;> rfl

/-- **Every way to write a media type is read.**  Of any spelling, the type is read in small
letters, the subtype in small letters and cut at its last plus sign, and each parameter in small
letters, in the place where it was first given and with the value that it was given last. -/
theorem parse_spelling (s : Spelling) :
    ∃ sub suffix, CutAtLastPlus (lower (String.ofList s.sub.text)) sub suffix ∧
      parse s.text =
        .ok { primary := lower (String.ofList s.primary.text), sub, suffix
              parameters := ⟨Parameters.latest s.given⟩ } := by
  refine ⟨_, _, cutAtLastPlus_cutSuffix _, parse_eq_ok_iff.mpr ?_⟩
  rw [parseField, s.splitUnquoted_text]
  dsimp only
  rw [List.headD_cons, List.tail_cons, s.parseTypes_types, foldlM_addPiece_text,
    ← Parameters.entries_ofList]
  rfl

/-- Letters of both cases, tabs, a blank piece, a name given twice, and a value with everything that
means something outside of the quotes. -/
example :
    let quoted : List QuotedChar :=
      [.plain ';' (by decide), .escaped '"', .plain '=' (by decide), .escaped '\\', .escaped 'x']
    let nothing : Padding := { text := [] }
    let s : Spelling :=
      { before := { text := [' '] }
        primary := { text := "Text".toList }
        sub := { text := "A+B+Json".toList }
        after := { text := ['\t'] }
        pieces :=
          [⟨nothing, some ⟨{ text := ['Q'] }, { text := [' '] }, { text := ['\t'] },
              .token { text := ['A'] }⟩, { text := [' '] }⟩,
            ⟨{ text := [' '] }, none, nothing⟩,
            ⟨nothing, some ⟨{ text := ['q'] }, nothing, nothing, .quoted quoted⟩, nothing⟩] }
    s.text = " Text/A+B+Json\t;Q =\tA ; ;q=\";\\\"=\\\\\\x\"" ∧
      Parameters.latest s.given = [("q", ";\"=\\x")] := by
  decide

end Mime.MediaType
