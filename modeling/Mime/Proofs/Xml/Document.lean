import Mime.Entity.Attach
import Mime.Entity.Consume
import Mime.Proofs.Success

/-! # Texts that are accepted as XML

The tokens of a text are a document if they are those of one element (`IsElement`) with tokens
around it that may stand outside of the root (`IsDocument`); inside an element each start tag is
closed by the end tag with its name (`Balanced`).  The check keeps a stack of open elements, and
apart from it the depth and the number of roots; the depth is always that of the stack
(`depth_eq_length_of_run`).  A run of it that starts inside an element and ends outside of all
splits at the end tag of this element (`exists_close_of_run`), and a run outside of all elements
counts the roots (`isDocument_of_run`).  So the check accepts just the documents whose text outside
of the root is white space (`check_eq_ok_iff_isDocument`), and what an entity accepts as XML,
attached or read, are these (`accepts_xml_iff`).

CDATA sections outside of the root are not looked into, so that a document may have text there
(`not_isBlank_of_accepted`). -/

namespace Mime.Xml

/-! ### Documents -/

/-- A token that opens no element and closes none. -/
def Token.IsLeaf : Token → Prop
  | .startTag _ | .endTag _ => False
  | .emptyTag | .text _ | .cdata _ | .comment | .doctype | .instruction => True

/-- What stands inside an element: each start tag is closed by the end tag with its name. -/
inductive Balanced : List Token → Prop where
  | nil : Balanced []
  | leaf {t : Token} {rest : List Token} : t.IsLeaf → Balanced rest → Balanced (t :: rest)
  | element (name : List Char) {inner rest : List Token} : Balanced inner → Balanced rest →
      Balanced (.startTag name :: (inner ++ .endTag name :: rest))

/-- The tokens of one element. -/
inductive IsElement : List Token → Prop where
  | empty : IsElement [.emptyTag]
  | tags (name : List Char) {inner : List Token} : Balanced inner →
      IsElement (.startTag name :: (inner ++ [.endTag name]))

/-- Character data that stands for white space. -/
def IsBlankText (content : List Char) : Prop :=
  ∃ s, unescape content = some s ∧ Text.isBlank s = true

/-- A token that the check lets stand outside of the root: no tag, and no text but white space.  A
CDATA section may hold anything. -/
def Token.Surrounds : Token → Prop
  | .startTag _ | .endTag _ | .emptyTag => False
  | .text content => IsBlankText content
  | .cdata _ | .comment | .doctype | .instruction => True

/-- A token that is no tag and holds no character data but white space, be it text or a CDATA
section. -/
def Token.IsBlank : Token → Prop
  | .startTag _ | .endTag _ | .emptyTag => False
  | .text content => IsBlankText content
  | .cdata content => Text.isBlank content = true
  | .comment | .doctype | .instruction => True

/-- The tokens of one element, and `around` holds of those around it. -/
def IsDocument (around : Token → Prop) (ts : List Token) : Prop :=
  ∃ before root after, ts = before ++ root ++ after ∧ IsElement root ∧
    ∀ t ∈ before ++ after, around t

/-- A text that can be cut into tokens to its end, and they are a document. -/
def IsDocumentText (around : Token → Prop) (s : List Char) : Prop :=
  (tokens s).2 = true ∧ IsDocument around (tokens s).1

/-! ### One token -/

/-- What was seen where these elements are open, and there were so many roots. -/
def Progress.within (opened : List (List Char)) (roots : Nat) : Progress :=
  ⟨opened, ⟨opened.length, roots⟩⟩

variable {name : List Char} {opened : List (List Char)} {roots : Nat} {p q : Progress}

theorem step_eq_ok_iff {t : Token} : p.step t = .ok q ↔
    namesBehind p.opened t = .ok q.opened ∧ p.counts.step t = .ok q.counts := by
  rw [Progress.step, bind_eq_ok_iff]
  constructor
  · rintro ⟨opened, hnames, h⟩
    obtain ⟨counts, hcounts, rfl⟩ := map_eq_ok_iff.mp h
    exact ⟨hnames, hcounts⟩
  · rintro ⟨hnames, hcounts⟩
    exact ⟨q.opened, hnames, map_eq_ok_iff.mpr ⟨q.counts, hcounts, rfl⟩⟩

theorem step_text_eq_ok_iff {c c' : Counts} {content : List Char} :
    c.step (.text content) = .ok c' ↔ c' = c ∧ (c.depth = 0 → IsBlankText content) := by
  rw [@eq_comm _ c']
  by_cases hdepth : c.depth = 0
  · cases hs : unescape content with
    | none => simp [Counts.step, IsBlankText, hdepth, hs]
    | some s =>
        cases hblank : Text.isBlank s <;> simp [Counts.step, IsBlankText, hdepth, hs, hblank]
  · simp [Counts.step, hdepth]

theorem step_of_isLeaf {t : Token} (ht : t.IsLeaf) :
    (Progress.within (name :: opened) roots).step t = .ok (.within (name :: opened) roots) := by
  cases t with
  | startTag n => exact ht.elim
  | endTag n => exact ht.elim
  | _ => rfl

theorem step_endTag_eq_ok_iff {n : List Char} :
    (Progress.within (name :: opened) roots).step (.endTag n) = .ok q ↔
      n = name ∧ q = .within opened roots := by
  rw [step_eq_ok_iff]
  constructor
  · rintro ⟨hnames, hcounts⟩
    obtain ⟨names, counts⟩ := q
    cases hcounts
    simp only [Progress.within, namesBehind] at hnames
    split at hnames
    · rename_i hn
      cases hnames
      exact ⟨hn.symm, rfl⟩
    · cases hnames
  · rintro ⟨rfl, rfl⟩
    exact ⟨if_pos rfl, rfl⟩

theorem step_of_surrounds {t : Token} (ht : t.Surrounds) :
    (Progress.within [] roots).step t = .ok (.within [] roots) := by
  cases t with
  | startTag n => exact ht.elim
  | endTag n => exact ht.elim
  | emptyTag => exact ht.elim
  | text content => exact step_eq_ok_iff.mpr ⟨rfl, step_text_eq_ok_iff.mpr ⟨rfl, fun _ => ht⟩⟩
  | _ => rfl

/-- Outside of all elements, a token opens a root, is one, or may stand around one. -/
theorem step_outside_cases {t : Token} (h : (Progress.within [] roots).step t = .ok q) :
    (∃ name, t = .startTag name ∧ q = .within [name] (roots + 1)) ∨
    (t = .emptyTag ∧ q = .within [] (roots + 1)) ∨ (t.Surrounds ∧ q = .within [] roots) := by
  cases t with
  | startTag name =>
      cases h
      exact .inl ⟨name, rfl, rfl⟩
  | endTag name => cases h
  | emptyTag =>
      cases h
      exact .inr (.inl ⟨rfl, rfl⟩)
  | text content =>
      obtain ⟨hnames, hcounts⟩ := step_eq_ok_iff.mp h
      obtain ⟨names, counts⟩ := q
      obtain ⟨rfl, hblank⟩ := step_text_eq_ok_iff.mp hcounts
      cases hnames
      exact .inr (.inr ⟨hblank rfl, rfl⟩)
  | cdata _ | comment | doctype | instruction =>
      cases h
      exact .inr (.inr ⟨trivial, rfl⟩)

/-- A token that opens or closes an element does so on the stack and in the depth; no token takes a
root back. -/
theorem step_counts {t : Token} (h : p.step t = .ok q)
    (hdepth : p.counts.depth = p.opened.length) :
    q.counts.depth = q.opened.length ∧ p.counts.roots ≤ q.counts.roots := by
  obtain ⟨hnames, hcounts⟩ := step_eq_ok_iff.mp h
  obtain ⟨opened, depth, roots⟩ := p
  obtain ⟨names, counts⟩ := q
  dsimp only at hdepth hnames hcounts ⊢
  subst hdepth
  have hroot : roots ≤ Counts.countRoot ⟨opened.length, roots⟩ := by
    unfold Counts.countRoot
    split
    · exact Nat.le_succ roots
    · exact Nat.le_refl roots
  cases t with
  | startTag name | emptyTag =>
      cases hnames
      cases hcounts
      exact ⟨rfl, hroot⟩
  | endTag name =>
      cases hcounts
      cases opened with
      | nil => cases hnames
      | cons n opened =>
          simp only [namesBehind] at hnames
          split at hnames
          · cases hnames
            exact ⟨rfl, Nat.le_refl roots⟩
          · cases hnames
  | text content =>
      obtain ⟨rfl, -⟩ := step_text_eq_ok_iff.mp hcounts
      cases hnames
      exact ⟨rfl, Nat.le_refl roots⟩
  | cdata _ | comment | doctype | instruction =>
      cases hnames
      cases hcounts
      exact ⟨rfl, Nat.le_refl roots⟩

/-! ### A run -/

/-- What was seen after some more tokens. -/
def Progress.run (p : Progress) (ts : List Token) : Except XmlError Progress :=
  ts.foldlM Progress.step p

theorem run_cons_eq_ok_iff {t : Token} {ts : List Token} :
    p.run (t :: ts) = .ok q ↔ ∃ p', p.step t = .ok p' ∧ p'.run ts = .ok q := by
  rw [Progress.run, List.foldlM_cons, bind_eq_ok_iff]
  rfl

theorem run_append_eq_ok_iff {ts us : List Token} :
    p.run (ts ++ us) = .ok q ↔ ∃ p', p.run ts = .ok p' ∧ p'.run us = .ok q := by
  rw [Progress.run, List.foldlM_append, bind_eq_ok_iff]
  rfl

theorem run_counts {ts : List Token} (h : p.run ts = .ok q)
    (hdepth : p.counts.depth = p.opened.length) :
    q.counts.depth = q.opened.length ∧ p.counts.roots ≤ q.counts.roots :=
  invariant_of_foldlM
    (P := fun a => a.counts.depth = a.opened.length ∧ p.counts.roots ≤ a.counts.roots)
    (fun _ _ _ _ ha hstep =>
      have hb := step_counts hstep ha.1
      ⟨hb.1, Nat.le_trans ha.2 hb.2⟩)
    ⟨hdepth, Nat.le_refl _⟩ h

/-- **The depth is the number of open elements**, at any time. -/
theorem depth_eq_length_of_run {ts : List Token} (h : Progress.run {} ts = .ok q) :
    q.counts.depth = q.opened.length :=
  (run_counts h rfl).1

/-- A run that leaves an element splits at the end tag that closes it. -/
theorem exists_close_of_run : ∀ {ts : List Token} {name : List Char} {opened : List (List Char)},
    (Progress.within (name :: opened) roots).run ts = .ok q → q.opened = [] →
    ∃ inner rest, ts = inner ++ .endTag name :: rest ∧ Balanced inner ∧
      (Progress.within opened roots).run rest = .ok q
  | [], name, opened, h, hq => by
      cases h
      cases hq
  | t :: ts, name, opened, h, hq => by
      obtain ⟨p, hstep, hrun⟩ := run_cons_eq_ok_iff.mp h
      by_cases ht : t.IsLeaf
      · rw [step_of_isLeaf ht] at hstep
        cases hstep
        obtain ⟨inner, rest, rfl, hinner, hrest⟩ := exists_close_of_run hrun hq
        exact ⟨t :: inner, rest, rfl, .leaf ht hinner, hrest⟩
      -- an end tag closes the element, a start tag opens one that has to be left before
      · cases t with
        | endTag n =>
            obtain ⟨rfl, rfl⟩ := step_endTag_eq_ok_iff.mp hstep
            exact ⟨[], ts, rfl, .nil, hrun⟩
        | startTag n =>
            cases hstep
            obtain ⟨within, behind, rfl, hwithin, hbehind⟩ := exists_close_of_run hrun hq
            obtain ⟨inner, rest, rfl, hinner, hrest⟩ := exists_close_of_run hbehind hq
            exact ⟨.startTag n :: (within ++ .endTag n :: inner), rest, by simp,
              .element n hwithin hinner, hrest⟩
        | _ => exact absurd trivial ht
termination_by ts => ts.length

theorem surrounds_of_run : ∀ {ts : List Token}, (Progress.within [] roots).run ts = .ok q →
    q.counts.roots = roots → ∀ t ∈ ts, t.Surrounds
  | [], _, _ => by simp
  | t :: ts, h, hroots => by
      obtain ⟨p, hstep, hrun⟩ := run_cons_eq_ok_iff.mp h
      rcases step_outside_cases hstep with ⟨name, -, rfl⟩ | ⟨-, rfl⟩ | ⟨ht, rfl⟩
      · have hle : roots + 1 ≤ q.counts.roots := (run_counts hrun rfl).2
        omega
      · have hle : roots + 1 ≤ q.counts.roots := (run_counts hrun rfl).2
        omega
      · rw [List.forall_mem_cons]
        exact ⟨ht, surrounds_of_run hrun hroots⟩

/-- A run outside of all elements that meets one root. -/
theorem isDocument_of_run : ∀ {ts : List Token}, (Progress.within [] roots).run ts = .ok q →
    q.opened = [] → q.counts.roots = roots + 1 → IsDocument Token.Surrounds ts
  | [], h, _, hroots => by
      cases h
      exact absurd hroots (Nat.ne_of_lt (Nat.lt_succ_self roots))
  | t :: ts, h, hopened, hroots => by
      obtain ⟨p, hstep, hrun⟩ := run_cons_eq_ok_iff.mp h
      rcases step_outside_cases hstep with ⟨name, rfl, rfl⟩ | ⟨rfl, rfl⟩ | ⟨ht, rfl⟩
      · obtain ⟨inner, rest, rfl, hinner, hrest⟩ := exists_close_of_run hrun hopened
        exact ⟨[], .startTag name :: (inner ++ [.endTag name]), rest, by simp, .tags name hinner,
          surrounds_of_run hrest hroots⟩
      · exact ⟨[], [.emptyTag], ts, rfl, .empty, surrounds_of_run hrun hroots⟩
      · obtain ⟨before, root, after, rfl, hroot, haround⟩ := isDocument_of_run hrun hopened hroots
        refine ⟨t :: before, root, after, rfl, hroot, ?_⟩
        rw [List.cons_append, List.forall_mem_cons]
        exact ⟨ht, haround⟩

theorem run_of_balanced {ts : List Token} (h : Balanced ts) :
    ∀ (name : List Char) (opened : List (List Char)),
      (Progress.within (name :: opened) roots).run ts = .ok (.within (name :: opened) roots) := by
  induction h with
  | nil => exact fun _ _ => rfl
  | leaf ht _ ih =>
      intro name opened
      exact run_cons_eq_ok_iff.mpr ⟨_, step_of_isLeaf ht, ih name opened⟩
  | element n _ _ ihinner ihrest =>
      intro name opened
      have hclose : (Progress.within (n :: name :: opened) roots).step (.endTag n) =
          .ok (.within (name :: opened) roots) := step_endTag_eq_ok_iff.mpr ⟨rfl, rfl⟩
      have hbehind := run_cons_eq_ok_iff.mpr ⟨_, hclose, ihrest name opened⟩
      exact run_cons_eq_ok_iff.mpr ⟨_, rfl,
        run_append_eq_ok_iff.mpr ⟨_, ihinner n (name :: opened), hbehind⟩⟩

theorem run_of_isElement {ts : List Token} (h : IsElement ts) :
    (Progress.within [] roots).run ts = .ok (.within [] (roots + 1)) := by
  cases h with
  | empty => rfl
  | tags name hinner =>
      have hclose : (Progress.within [name] (roots + 1)).step (.endTag name) =
          .ok (.within [] (roots + 1)) := step_endTag_eq_ok_iff.mpr ⟨rfl, rfl⟩
      have hbehind : (Progress.within [name] (roots + 1)).run [.endTag name] =
          .ok (.within [] (roots + 1)) :=
        run_cons_eq_ok_iff.mpr ⟨_, hclose, rfl⟩
      exact run_cons_eq_ok_iff.mpr ⟨_, rfl,
        run_append_eq_ok_iff.mpr ⟨_, run_of_balanced hinner name [], hbehind⟩⟩

theorem run_of_surrounds : ∀ {ts : List Token}, (∀ t ∈ ts, t.Surrounds) →
    (Progress.within [] roots).run ts = .ok (.within [] roots)
  | [], _ => rfl
  | t :: ts, h => by
      rw [List.forall_mem_cons] at h
      exact run_cons_eq_ok_iff.mpr ⟨_, step_of_surrounds h.1, run_of_surrounds h.2⟩

theorem run_of_isDocument {ts : List Token} (h : IsDocument Token.Surrounds ts) :
    Progress.run {} ts = .ok (.within [] 1) := by
  obtain ⟨before, root, after, rfl, hroot, haround⟩ := h
  rw [List.forall_mem_append] at haround
  have hfront := run_append_eq_ok_iff.mpr
    ⟨.within [] 0, run_of_surrounds haround.1, run_of_isElement hroot⟩
  exact run_append_eq_ok_iff.mpr ⟨_, hfront, run_of_surrounds haround.2⟩

/-! ### The check -/

theorem finish_eq_ok_iff {c : Counts} : c.finish = .ok () ↔ c.depth = 0 ∧ c.roots = 1 := by
  unfold Counts.finish
  by_cases hdepth : c.depth = 0 <;> by_cases hroots : c.roots = 0 <;>
    simp [hdepth, hroots, Nat.pos_of_ne_zero]

/-- The check accepts just the texts that are documents. -/
theorem check_eq_ok_iff_isDocument {s : List Char} :
    check s = .ok () ↔ IsDocumentText Token.Surrounds s := by
  have hcheck : check s = Progress.run {} (tokens s).1 >>= fun p =>
      if (tokens s).2 = true then p.counts.finish else .error .malformed := rfl
  rw [hcheck, bind_eq_ok_iff]
  constructor
  · rintro ⟨p, hrun, hend⟩
    split at hend
    · rename_i hcomplete
      obtain ⟨hdepth, hroots⟩ := finish_eq_ok_iff.mp hend
      have hopened : p.opened = [] := by
        rw [← List.length_eq_zero_iff, ← depth_eq_length_of_run hrun, hdepth]
      exact ⟨hcomplete, isDocument_of_run hrun hopened hroots⟩
    · cases hend
  · rintro ⟨hcomplete, hdocument⟩
    refine ⟨.within [] 1, run_of_isDocument hdocument, ?_⟩
    rw [if_pos hcomplete]
    exact finish_eq_ok_iff.mpr ⟨rfl, rfl⟩

end Mime.Xml

namespace Mime.Entity

open Xml

section reading

variable [Disk] {e : Entity} {host : Host}

/-- Something is made of the bytes just where they can be read; what is said of missing bytes does
not matter. -/
theorem readWith_eq_ok_iff {α : Type} {missing : MissingContent} {make : Bytes → Except Error α}
    {a : α} : (e.readWith host missing make).answer = .ok a ↔
      ∃ bytes, (e.readBytes host).answer = .ok bytes ∧ make bytes = .ok a := by
  unfold readWith readBytes readAllBytes
  cases e.body with
  | byteSource source => exact bind_eq_ok_iff
  | empty | dataSource _ | partList _ | liveStream _ =>
      constructor
      · intro h
        cases h
      · rintro ⟨bytes, h, -⟩
        cases h

omit [Disk] in
theorem contentText_eq_ok_iff [Charset.Codecs] {missing : MissingContent}
    {charset : Option String} {bytes : Bytes} {text : String} :
    contentText missing charset bytes = .ok text ↔
      Charset.decodeText bytes charset = .ok text ∧ Text.isBlank text.toList = false := by
  unfold contentText
  rw [bind_eq_ok_iff]
  constructor
  · rintro ⟨s, hs, h⟩
    cases hblank : Text.isBlank s.toList with
    | true =>
        rw [hblank] at h
        cases h
    | false =>
        rw [hblank] at h
        cases h
        exact ⟨hs, hblank⟩
  · rintro ⟨hs, hblank⟩
    refine ⟨text, hs, ?_⟩
    rw [hblank]
    rfl

theorem setXml_eq_ok_iff {xml : String} {contentType : Option String} :
    (e.setXml host xml contentType).answer = .ok () ↔
      (∃ m, MediaType.parse (contentType.getD "application/xml") = .ok m) ∧
        IsDocumentText Token.Surrounds xml.toList := by
  rw [← check_eq_ok_iff_isDocument, setXml]
  cases Xml.check xml.toList with
  | error err => simp
  | ok u =>
      rw [setDataSource, attach, usualType]
      cases MediaType.parse (contentType.getD "application/xml") with
      | error err => simp
      | ok m => simp

theorem readXml_eq_ok_iff [Charset.Codecs] {text : String} :
    (e.readXml host).answer = .ok text ↔
      (e.readText host).answer = .ok text ∧ Text.isBlank text.toList = false ∧
        IsDocumentText Token.Surrounds text.toList := by
  rw [← check_eq_ok_iff_isDocument, readXml, readText, readWith_eq_ok_iff, readWith_eq_ok_iff]
  constructor
  · rintro ⟨bytes, hbytes, hmake⟩
    obtain ⟨s, hs, hchecked⟩ := bind_eq_ok_iff.mp hmake
    obtain ⟨hdecoded, hblank⟩ := contentText_eq_ok_iff.mp hs
    cases hcheck : Xml.check s.toList with
    | error err =>
        rw [hcheck] at hchecked
        cases hchecked
    | ok u =>
        rw [hcheck] at hchecked
        cases hchecked
        exact ⟨⟨bytes, hbytes, hdecoded⟩, hblank, hcheck⟩
  · rintro ⟨⟨bytes, hbytes, hdecoded⟩, hblank, hcheck⟩
    have htext : contentText .xml e.mediaType.charset? bytes = .ok text :=
      contentText_eq_ok_iff.mpr ⟨hdecoded, hblank⟩
    refine ⟨bytes, hbytes, bind_eq_ok_iff.mpr ⟨text, htext, ?_⟩⟩
    rw [hcheck]
    rfl

/-- **What is accepted as XML is a single document.**  A text can be attached as XML just where the
media type can be read and the text is a document: it has one root element, each start tag in it is
closed by the end tag with its name, and outside of the root there are no tags and no text but white
space.  The bytes of an entity can be read as XML just where they can be read as text, which is not
blank, and the text is such a document. -/
theorem accepts_xml_iff [Charset.Codecs] (e : Entity) (host : Host) :
    (∀ (xml : String) (contentType : Option String),
      (e.setXml host xml contentType).answer = .ok () ↔
        (∃ m, MediaType.parse (contentType.getD "application/xml") = .ok m) ∧
          IsDocumentText Token.Surrounds xml.toList) ∧
    (∀ text : String, (e.readXml host).answer = .ok text ↔
      (e.readText host).answer = .ok text ∧ Text.isBlank text.toList = false ∧
        IsDocumentText Token.Surrounds text.toList) :=
  ⟨fun _ _ => setXml_eq_ok_iff, fun _ => readXml_eq_ok_iff⟩

end reading

/-- The text of a CDATA section behind the root is accepted. -/
theorem not_isBlank_of_accepted :
    ¬ ∀ (e : Entity) (host : Host) (xml : String) (contentType : Option String),
      (e.setXml host xml contentType).answer = .ok () →
        IsDocumentText Token.IsBlank xml.toList := by
  intro h
  have htokens : tokens "<a/><![CDATA[x]]>".toList = ([.emptyTag, .cdata ['x']], true) := by
    decide +kernel
  have haccepted :
      (new.setXml ⟨.empty, ⟨fun _ => 0, 0⟩⟩ "<a/><![CDATA[x]]>" none).answer = .ok () := by
    refine setXml_eq_ok_iff.mpr ⟨⟨_, rfl⟩, ?_⟩
    rw [IsDocumentText, htokens]
    exact ⟨rfl, [], [.emptyTag], [.cdata ['x']], rfl, .empty, by simp [Token.Surrounds]⟩
  obtain ⟨-, before, root, after, hall, hroot, hblank⟩ := h _ _ _ _ haccepted
  have hmem : ∀ t, t ∈ [Token.emptyTag, .cdata ['x']] ↔ t ∈ before ++ root ++ after := by
    rw [← hall, htokens]
    simp
  cases hroot with
  | empty =>
      have hcdata : .cdata ['x'] ∈ before ++ after := by
        simpa using (hmem (.cdata ['x'])).mp (by simp)
      have hx : Text.isBlank ['x'] = true := hblank _ hcdata
      revert hx
      decide
  | tags name hinner =>
      have hstart := (hmem (.startTag name)).mpr (by simp)
      simp at hstart

end Mime.Entity
