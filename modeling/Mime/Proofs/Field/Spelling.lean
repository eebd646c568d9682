import Mathlib.Data.List.Basic
import Mime.Proofs.Field.Quoted

/-! # Parameters as they may be written

One list of parameters may be written in many ways: with spaces and tabs around the semicolons and
the equals signs, with nothing between two semicolons, in letters of any case, and with each value
as a token or between quotes.  A `SpelledPiece` is one way to write what stands behind a semicolon.
It is one piece (`SpelledPiece.whole_text`).  Trimmed, it is nothing or a parameter
(`SpelledPiece.trim_text`), which is cut into the name and the value at the equals sign
(`SpelledParameter.cutFirst_text`). -/

namespace Mime.Field

open Text

/-! ### Spaces and tabs -/

/-- Spaces and tabs. -/
structure Padding where
  text : List Char
  blank : ∀ c ∈ text, c = ' ' ∨ c = '\t' := by simp

namespace Padding

theorem isSpace (p : Padding) : ∀ c ∈ p.text, Text.isSpace c = true := by
  intro c hc
  rcases p.blank c hc with rfl | rfl <;> decide

theorem not_mem (p : Padding) {c : Char} (hc : Text.isSpace c = false) : c ∉ p.text := by
  intro hm
  rw [p.isSpace c hm] at hc
  cases hc

theorem whole (p : Padding) : Whole p.text := by
  apply whole_of_forall
  intro c hc
  rcases p.blank c hc with rfl | rfl <;> decide

theorem trim_around (before after : Padding) (s : List Char) :
    trim (before.text ++ s ++ after.text) = trim s := by
  rw [trim_append_of_blank after.isSpace, trim_of_blank_append before.isSpace]

end Padding

/-! ### Parameters -/

/-- A parameter as it may be written, with padding around the equals sign. -/
structure SpelledParameter where
  name : Token
  before : Padding
  after : Padding
  value : SpelledValue

namespace SpelledParameter

variable (e : SpelledParameter)

/-- The text of the parameter. -/
def text : List Char :=
  e.name.text ++ e.before.text ++ '=' :: (e.after.text ++ e.value.text)

/-- The name as it is written, and the value that is meant. -/
def given : String × String :=
  (String.ofList e.name.text, String.ofList e.value.value)

theorem whole_text : Whole e.text := by
  have hequals : Whole ['='] := whole_of_forall (by simp)
  have hleft := (whole_of_isToken e.name.isToken).append e.before.whole
  have hright := hequals.append (e.after.whole.append e.value.whole_text)
  exact hleft.append hright

theorem trim_text : trim e.text = e.text := by
  have hlast : (e.before.text ++ '=' :: (e.after.text ++ e.value.text)).getLast? =
      e.value.text.getLast? := by
    rw [List.append_cons, ← List.append_assoc,
      List.getLast?_append_of_ne_nil _ e.value.text_ne_nil]
  rw [text, List.append_assoc]
  refine trim_append (isToken_iff.mp e.name.isToken).1 (trim_of_isToken e.name.isToken) ?_
  rw [hlast]
  exact (trim_eq_self_iff.mp e.value.trim_text).2

theorem cutFirst_text :
    cutFirst '=' e.text = some (e.name.text ++ e.before.text, e.after.text ++ e.value.text) := by
  have hname : '=' ∉ e.name.text := not_mem_of_isToken e.name.isToken (by decide)
  have hbefore : '=' ∉ e.before.text := e.before.not_mem (by decide)
  exact cutFirst_append (List.not_mem_append hname hbefore) _

theorem trim_name : trim (e.name.text ++ e.before.text) = e.name.text := by
  rw [trim_append_of_blank e.before.isSpace, trim_of_isToken e.name.isToken]

theorem trim_value : trim (e.after.text ++ e.value.text) = e.value.text := by
  rw [trim_of_blank_append e.after.isSpace, e.value.trim_text]

end SpelledParameter

/-! ### Pieces -/

/-- What may stand behind a semicolon: a parameter or none, with padding around it. -/
structure SpelledPiece where
  before : Padding
  parameter : Option SpelledParameter
  after : Padding

namespace SpelledPiece

/-- The text of what stands there without the padding. -/
def body : Option SpelledParameter → List Char
  | none => []
  | some e => e.text

/-- The text behind the semicolon. -/
def text (t : SpelledPiece) : List Char :=
  t.before.text ++ body t.parameter ++ t.after.text

theorem whole_body : ∀ parameter : Option SpelledParameter, Whole (body parameter)
  | none => whole_nil
  | some e => e.whole_text

theorem whole_text (t : SpelledPiece) : Whole t.text :=
  (t.before.whole.append (whole_body t.parameter)).append t.after.whole

theorem trim_text (t : SpelledPiece) : trim t.text = body t.parameter := by
  rw [text, Padding.trim_around]
  cases t.parameter with
  | none => rfl
  | some e => exact e.trim_text

/-- The parameter that is meant, if there is one. -/
def given (t : SpelledPiece) : Option (String × String) :=
  t.parameter.map SpelledParameter.given

/-- The spelling that is chosen for a parameter. -/
def ofPair (e : String × String) (h : isToken e.1.toList = true) : SpelledPiece where
  before := { text := [' '] }
  parameter := some ⟨⟨e.1.toList, h⟩, { text := [] }, { text := [] }, .ofText e.2.toList⟩
  after := { text := [] }

theorem text_ofPair (e : String × String) (h : isToken e.1.toList = true) :
    (ofPair e h).text = parameterPiece e := by
  simp [text, ofPair, body, SpelledParameter.text, SpelledValue.text_ofText, parameterPiece,
    namedPiece]

theorem given_ofPair (e : String × String) (h : isToken e.1.toList = true) :
    (ofPair e h).given = some e := by
  simp [given, ofPair, SpelledParameter.given]

end SpelledPiece

end Mime.Field
