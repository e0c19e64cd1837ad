import Creole.Inline.Url
import Creole.Node.Basic

/-!
# Marks

Inline markup begins with a `Mark` of one to three characters.  What most marks
enclose ends at the first closing mark behind them, whatever stands between.
The emphasis marks are different: they close at the first mark of their own that
is not part of such an enclosure, of an escape, of a code span or of a URL.  This
look-ahead (`closing?`) decides by marks alone; whether the text that a mark
encloses is a valid link, image or macro use is no matter to it.

The main statement is `one_le_atomicLength`: a construct that the look-ahead steps
over is not empty, so that the search ends.
-/

namespace Creole.Inline

/-- What inline markup begins with. -/
inductive Mark where
  | escape
  | verbatim
  | image
  | link
  | call
  | lineBreak
  | style (style : Style)
  deriving DecidableEq, Repr

namespace Mark

/-- The characters of a mark. -/
def text : Mark → Text
  | escape => ['~']
  | verbatim => ['{', '{', '{']
  | image => ['{', '{']
  | link => ['[', '[']
  | call => ['<', '<']
  | lineBreak => ['\\', '\\']
  | style .bold => ['*', '*']
  | style .italic => ['/', '/']
  | style .strikethrough => ['-', '-']

/-- What ends the text that a mark encloses. -/
def closing : Mark → Text
  | verbatim => ['}', '}', '}']
  | image => ['}', '}']
  | link => [']', ']']
  | call => ['>', '>']
  | style s => (style s).text
  | escape | lineBreak => []

/-- All marks, one that begins with another before the other. -/
def all : List Mark :=
  [escape, verbatim, image, link, call, lineBreak, style .bold, style .italic, style .strikethrough]

/-- The mark that a text begins with. -/
def of? (s : Text) : Option Mark := all.find? (Text.opens ·.text s)

/-- The text enclosed by a mark that `rest` follows, unless it is never closed.  An
escape encloses the next character, if that is not white space.  Braces that end
a verbatim text belong to it as far as three are left to close it.  Line breaks
and emphasis enclose nothing in this sense. -/
def body? : Mark → (rest : Text) → Option Text
  | escape, c :: _ => if isBlank c then none else some [c]
  | verbatim, rest =>
    (Text.cut? verbatim.closing rest).map fun (body, more) => body ++ more.takeWhile (· = '}')
  | image, rest => (Text.cut? image.closing rest).map (·.1)
  | link, rest => (Text.cut? link.closing rest).map (·.1)
  | call, rest => (Text.cut? call.closing rest).map (·.1)
  | _, _ => none

/-- The length of a mark with the text that it encloses. -/
def reach (mark : Mark) (body : Text) : Nat :=
  mark.text.length + body.length + mark.closing.length

theorem one_le_length_text (mark : Mark) : 1 ≤ mark.text.length := by
  cases mark with
  | style s => cases s <;> decide
  | _ => decide

end Mark

/-! ## Code spans -/

/-- Whether a character may stand in the name of a language. -/
def isLanguageChar (c : Char) : Bool := c.isAlphanum || "_+#.-".toList.contains c

/-- The tag that begins code in a language. -/
def codeStart (language : Text) : Text := "[<".toList ++ language ++ ">]".toList

/-- The tag that ends code in a language. -/
def codeEnd (language : Text) : Text := "[</".toList ++ language ++ ">]".toList

/-- The language and the code of a span that a text begins with: a tag with the
name of the language, the code, and the end tag. -/
def codeSpan? (s : Text) : Option (Text × Text) := do
  let rest ← Text.after? "[<".toList s
  let language := rest.takeWhile isLanguageChar
  if language.isEmpty then none
  else
    let rest ← Text.after? ">]".toList (rest.dropWhile isLanguageChar)
    let (code, _) ← Text.cut? (codeEnd language) rest
    some (language, code)

/-- The length of a code span. -/
def codeLength (language code : Text) : Nat :=
  language.length + 4 + code.length + (codeEnd language).length

/-! ## Looking ahead -/

/-- The length of the construct at the start of a text inside which no emphasis
ends. -/
def atomicLength (previous : Option Char) (s : Text) : Option Nat :=
  match rawUrl? previous s with
  | some url => some url.length
  | none =>
    match codeSpan? s with
    | some (language, code) => some (codeLength language code)
    | none =>
      match Mark.of? s with
      | some mark => (mark.body? (s.drop mark.text.length)).map mark.reach
      | none => none

theorem one_le_atomicLength {previous : Option Char} {s : Text} {n : Nat}
    (h : atomicLength previous s = some n) : 1 ≤ n := by
  unfold atomicLength at h
  split at h
  · next url hurl =>
    simp only [Option.some.injEq] at h
    exact h ▸ List.length_pos_iff.2 (ne_nil_of_rawUrl? hurl)
  · split at h
    · simp only [Option.some.injEq] at h
      unfold codeLength at h
      omega
    · split at h
      · next mark _ =>
        obtain ⟨body, _, rfl⟩ := Option.map_eq_some_iff.1 h
        have hmark := mark.one_le_length_text
        unfold Mark.reach
        omega
      · simp at h

/-- How far the look-ahead steps from a position: over an atomic construct, or over
one character. -/
def stride (previous : Option Char) (s : Text) : Nat := (atomicLength previous s).getD 1

theorem one_le_stride (previous : Option Char) (s : Text) : 1 ≤ stride previous s := by
  unfold stride
  cases h : atomicLength previous s with
  | none => simp
  | some n => exact one_le_atomicLength h

/-- The distance to the first `mark` that is not inside an atomic construct. -/
def closing? (mark : Text) (previous : Option Char) (s : Text) : Option Nat :=
  match s with
  | [] => none
  | c :: cs =>
    if Text.opens mark (c :: cs) then some 0
    else
      let n := stride previous (c :: cs)
      (closing? mark (c :: cs)[n - 1]? ((c :: cs).drop n)).map (n + ·)
termination_by s.length
decreasing_by
  have hstride := one_le_stride previous (c :: cs)
  simp only [List.length_drop, List.length_cons]
  omega

end Creole.Inline
