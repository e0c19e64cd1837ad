import Creole.Inline.Token
import Creole.Proofs.Text.Cut

/-!
# What begins with a mark

A text that begins with a mark is neither a URL nor a code span, so that the mark
alone decides what is scanned there (`scan_of_mark`) and how far the look-ahead
steps (`atomicLength_of_mark`).  Both take the text that the mark encloses from
`Mark.body?`.  Where a text begins with none of the `openers`, the look-ahead steps
over one character (`atomicLength_of_inert`).
-/

namespace Creole.Inline

/-! ## Marks at the start of a text -/

/-- A mark is found where it is written, unless a brace behind an image mark makes a
verbatim mark of it. -/
theorem of?_append (mark : Mark) {rest : Text} (h : mark = .image → rest.head? ≠ some '{') :
    Mark.of? (mark.text ++ rest) = some mark := by
  cases mark with
  | image =>
      -- of all marks, only this one begins another
      cases rest with
      | nil => rfl
      | cons c rest =>
          have hc : ¬ '{' = c := by simpa [eq_comm] using h rfl
          simp [Mark.of?, Mark.all, Mark.text, Text.opens, Text.after?, hc]
  | style s => cases s <;> rfl
  | _ => rfl

theorem text_ne_nil (mark : Mark) : mark.text ≠ [] :=
  List.length_pos_iff.mp mark.one_le_length_text

theorem opens_eq_false_of_notMem {mark : Mark} {c : Char} (hc : c ∉ mark.text) (s : Text) :
    Text.opens mark.text (c :: s) = false := by
  refine Bool.eq_false_iff.mpr fun hopens => hc ?_
  obtain ⟨d, rest, hmark⟩ := List.exists_cons_of_ne_nil (text_ne_nil mark)
  obtain ⟨tail, heq⟩ := Text.opens_iff.mp hopens
  rw [hmark] at heq ⊢
  injection heq with heq
  exact heq ▸ List.mem_cons_self

theorem eq_of_of? {mark : Mark} {s : Text} (h : Mark.of? s = some mark) :
    ∃ rest, s = mark.text ++ rest := by
  have hopens := List.find?_some h
  exact Text.opens_iff.mp hopens

/-- Where a style is marked, no other mark is found. -/
theorem opens_style_eq_false {mark : Mark} {style : Style} {s : Text}
    (h : Mark.of? s = some mark) (hne : mark ≠ .style style) :
    Text.opens (Mark.style style).text s = false := by
  refine Bool.eq_false_iff.mpr fun hopens => hne ?_
  obtain ⟨rest, rfl⟩ := Text.opens_iff.mp hopens
  rw [of?_append _ (by simp), Option.some.injEq] at h
  exact h.symm

/-- Closing braces on one side of the mark that ends verbatim text may as well stand on
the other. -/
theorem append_closing_verbatim {run : Text} (h : ∀ c ∈ run, c = '}') :
    run ++ Mark.verbatim.closing = Mark.verbatim.closing ++ run := by
  have hclosing : Mark.verbatim.closing = List.replicate 3 '}' := rfl
  rw [List.eq_replicate_of_mem h, hclosing, List.replicate_append_replicate,
    List.replicate_append_replicate, Nat.add_comm]

/-! ## URLs and code spans -/

/-- The characters that a URL scheme begins with. -/
def schemeHeads : Text := ['h', 'f', 'm']

theorem rawUrl?_eq_none {c : Char} (hc : c ∉ schemeHeads) (previous : Option Char) (s : Text) :
    rawUrl? previous (c :: s) = none := by
  have hheads : ∀ scheme ∈ urlSchemes, ∃ d ∈ schemeHeads, scheme.head? = some d := by
    simp [urlSchemes, schemeHeads]
  have hfind : urlSchemes.find? (Text.opens · (c :: s)) = none := by
    refine List.find?_eq_none.mpr fun scheme hscheme hopens => ?_
    obtain ⟨d, hd, hhead⟩ := hheads scheme hscheme
    obtain ⟨rest, heq⟩ := Text.opens_iff.mp hopens
    obtain ⟨tail, rfl⟩ := List.head?_eq_some_iff.mp hhead
    injection heq with hcd
    exact hc (hcd ▸ hd)
  rw [rawUrl?, hfind]

/-- The name of a language goes as far as the tag that it stands in. -/
theorem takeWhile_language {language : Text} (hchars : language.all isLanguageChar = true)
    (s : Text) : (language ++ (">]".toList ++ s)).takeWhile isLanguageChar = language :=
  Text.takeWhile_append_of_head (List.all_eq_true.mp hchars) (by simp [isLanguageChar])

theorem dropWhile_language {language : Text} (hchars : language.all isLanguageChar = true)
    (s : Text) : (language ++ (">]".toList ++ s)).dropWhile isLanguageChar = ">]".toList ++ s :=
  Text.dropWhile_append_of_head (List.all_eq_true.mp hchars) (by simp [isLanguageChar])

theorem codeSpan?_eq_none {s : Text} (h : Text.opens "[<".toList s = false) :
    codeSpan? s = none := by
  rw [codeSpan?, Text.after?_eq_none_iff.mpr h]
  rfl

theorem codeSpan?_cons_eq_none {c : Char} (hc : c ≠ '[') (s : Text) :
    codeSpan? (c :: s) = none := by
  refine codeSpan?_eq_none ?_
  simp [Text.opens, Text.after?, Ne.symm hc]

theorem rawUrl?_eq_none_of_mark {mark : Mark} {s : Text} (h : Mark.of? s = some mark)
    (previous : Option Char) : rawUrl? previous s = none := by
  obtain ⟨rest, rfl⟩ := eq_of_of? h
  cases mark with
  | style s => cases s <;> exact rawUrl?_eq_none (by decide) previous _
  | _ => exact rawUrl?_eq_none (by decide) previous _

theorem codeSpan?_eq_none_of_mark {mark : Mark} {s : Text} (h : Mark.of? s = some mark) :
    codeSpan? s = none := by
  obtain ⟨rest, rfl⟩ := eq_of_of? h
  cases mark with
  | style s => cases s <;> exact codeSpan?_eq_none rfl
  | _ => exact codeSpan?_eq_none rfl

/-! ## Scanning and stepping -/

theorem scan_of_mark {mark : Mark} {c : Char} {cs : Text} (h : Mark.of? (c :: cs) = some mark)
    (page : PageRef) (previous : Option Char) :
    scan page previous c cs =
      (mark.scan? page ((c :: cs).drop mark.text.length)).getD
        (.literal mark.text, mark.text.length) := by
  rw [scan, rawUrl?_eq_none_of_mark h, codeSpan?_eq_none_of_mark h, h]

theorem atomicLength_of_mark {mark : Mark} {s : Text} (h : Mark.of? s = some mark)
    (previous : Option Char) :
    atomicLength previous s = (mark.body? (s.drop mark.text.length)).map mark.reach := by
  rw [atomicLength, rawUrl?_eq_none_of_mark h, codeSpan?_eq_none_of_mark h, h]

/-- The characters that begin what the look-ahead steps over as a whole. -/
def openers : Text := ['~', '{', '[', '<'] ++ schemeHeads

/-- Other characters begin only marks that enclose nothing. -/
theorem mark_of_inert {c : Char} (hc : c ∉ openers) {s : Text} {mark : Mark}
    (h : Mark.of? (c :: s) = some mark) : mark = .lineBreak ∨ ∃ style, mark = .style style := by
  simp only [openers, List.mem_append, List.mem_cons, List.not_mem_nil, or_false, not_or] at hc
  obtain ⟨⟨htilde, hbrace, hbracket, hangle⟩, -⟩ := hc
  obtain ⟨rest, heq⟩ := eq_of_of? h
  cases mark with
  | lineBreak => exact Or.inl rfl
  | style style => exact Or.inr ⟨style, rfl⟩
  | _ =>
      injection heq with hc
      exact absurd hc (by assumption)

/-- The look-ahead steps over a single character that opens nothing. -/
theorem atomicLength_of_inert {c : Char} (hc : c ∉ openers) (previous : Option Char)
    (s : Text) : atomicLength previous (c :: s) = none := by
  have hscheme : c ∉ schemeHeads := fun hmem => hc (List.mem_append_right _ hmem)
  have hbracket : c ≠ '[' := by
    rintro rfl
    exact hc (by decide)
  cases hmark : Mark.of? (c :: s) with
  | none => rw [atomicLength, rawUrl?_eq_none hscheme, codeSpan?_cons_eq_none hbracket, hmark]
  | some mark =>
      rw [atomicLength_of_mark hmark]
      rcases mark_of_inert hc hmark with rfl | ⟨style, rfl⟩ <;> rfl

/-! ## White space -/

theorem notMem_of_isBlank {c : Char} {s : Text} (h : isBlank c = true)
    (hs : s.any isBlank = false) : c ∉ s :=
  fun hmem => List.any_eq_false.mp hs c hmem h

theorem notMem_openers_of_isBlank {c : Char} (h : isBlank c = true) : c ∉ openers :=
  notMem_of_isBlank h (by decide)

theorem notMem_text_of_isBlank {c : Char} (h : isBlank c = true) (mark : Mark) :
    c ∉ mark.text := by
  refine notMem_of_isBlank h ?_
  cases mark with
  | style s => cases s <;> decide
  | _ => decide

/-- White space is kept as it is. -/
theorem scan_of_isBlank {c : Char} (h : isBlank c = true) (page : PageRef)
    (previous : Option Char) (cs : Text) : scan page previous c cs = (.literal [c], 1) := by
  have hopener := notMem_openers_of_isBlank h
  have hscheme : c ∉ schemeHeads := fun hmem => hopener (List.mem_append_right _ hmem)
  have hbracket : c ≠ '[' := by
    rintro rfl
    exact hopener (by decide)
  have hmark : Mark.of? (c :: cs) = none := by
    refine List.find?_eq_none.mpr fun mark _ => ?_
    rw [opens_eq_false_of_notMem (notMem_text_of_isBlank h mark)]
    exact Bool.false_ne_true
  rw [scan, rawUrl?_eq_none hscheme, codeSpan?_cons_eq_none hbracket, hmark]

end Creole.Inline
