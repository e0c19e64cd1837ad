import Creole.Proofs.Inline.Kept
import Creole.Proofs.Text.Occurrences
import Mathlib.Tactic.MkIffOfInductiveProp

/-!
# Text without complete markup

A text is quiet if no markup in it is complete: nothing that would end a link, an image, a
macro use, a verbatim text or code, no mark of emphasis twice, no URL, escape or line
break.  What opens markup may stand anywhere in it.  A quiet text is read as the text that
it is (`parse_of_quiet`).

Each token of a quiet text is literal and covers its own characters
(`exists_scan_eq_literal`): a mark finds nothing that closes it, so that it is kept.  What
follows a token is quiet as well.
-/

namespace Creole.Inline

open List Text

/-- A text in which no inline markup is complete. -/
@[mk_iff]
structure Quiet (s : Text) : Prop where
  noEscape : '~' ∉ s
  noLineBreak : ¬ ['\\', '\\'] <:+: s
  unclosed : ∀ closing ∈ [['}', '}'], [']', ']'], ['>', '>'], ['[', '<', '/']], ¬ closing <:+: s
  noUrl : ∀ scheme ∈ ["http://".toList, "https://".toList, "ftp://".toList, "mailto:".toList],
    ¬ scheme <:+: s
  once : ∀ mark ∈ [['*', '*'], ['/', '/'], ['-', '-']], occurrences mark s ≤ 1

instance : DecidablePred Quiet := fun s => decidable_of_iff _ (quiet_iff s).symm

theorem Quiet.of_isInfix {s t : Text} (h : Quiet t) (hpart : s <:+: t) : Quiet s where
  noEscape hmem := h.noEscape (hpart.subset hmem)
  noLineBreak hbreak := h.noLineBreak (hbreak.trans hpart)
  unclosed closing hclosing hin := h.unclosed closing hclosing (hin.trans hpart)
  noUrl scheme hscheme hin := h.noUrl scheme hscheme (hin.trans hpart)
  once mark hmark := (occurrences_le_of_isInfix hpart mark).trans (h.once mark hmark)

variable {s : Text}

/-! ### Nothing is complete -/

theorem Quiet.rawUrl? (h : Quiet s) (previous : Option Char) : rawUrl? previous s = none := by
  have hfind : urlSchemes.find? (opens · s) = none := by
    refine find?_eq_none.mpr fun scheme hscheme hopens => ?_
    exact h.noUrl scheme hscheme (isPrefix_of_opens hopens).isInfix
  rw [Inline.rawUrl?, hfind]

theorem Quiet.codeSpan? (h : Quiet s) : codeSpan? s = none := by
  cases hcode : Inline.codeSpan? s with
  | none => rfl
  | some span =>
      obtain ⟨language, code⟩ := span
      obtain ⟨behind, rfl⟩ := eq_of_codeSpan? hcode
      refine absurd ?_ (h.unclosed ['[', '<', '/'] (by simp))
      exact ⟨"[<".toList ++ language ++ ">]".toList ++ code, language ++ ">]".toList ++ behind,
        by simp [codeEnd]⟩

theorem opens_of_closing? {mark rest : Text} {previous : Option Char} {n : Nat}
    (h : closing? mark previous rest = some n) : opens mark (rest.drop n) = true := by
  fun_induction closing? mark previous rest generalizing n with
  | case1 => cases h
  | case2 previous c cs hopens =>
      obtain rfl : 0 = n := by simpa using h
      exact hopens
  | case3 previous c cs hopens step =>
      rename_i ih
      obtain ⟨m, hm, rfl⟩ := Option.map_eq_some_iff.mp h
      rw [← drop_drop]
      exact ih hm

/-- A mark of emphasis that occurs once is not closed. -/
theorem Quiet.closing? {style : Style} {rest : Text} (h : Quiet ((Mark.style style).text ++ rest))
    (previous : Option Char) : closing? (Mark.style style).text previous rest = none := by
  cases hclosing : Inline.closing? (Mark.style style).text previous rest with
  | none => rfl
  | some n =>
      have hmark : (Mark.style style).text ∈ [['*', '*'], ['/', '/'], ['-', '-']] := by
        cases style <;> decide
      -- the mark that closes would be a second occurrence
      have honce := h.once _ hmark
      have hlt := occurrences_lt_append_self (text_ne_nil (.style style)) rest
      have hone := one_le_occurrences_of_opens (opens_of_closing? hclosing)
      have hle := occurrences_le_of_isInfix (drop_suffix n rest).isInfix (Mark.style style).text
      omega

theorem Quiet.body? {mark : Mark} {rest : Text} (h : Quiet (mark.text ++ rest))
    (hmark : mark ∈ [.verbatim, .image, .link, .call]) : mark.body? rest = none := by
  cases hbody : mark.body? rest with
  | none => rfl
  | some body =>
      have hin : mark.closing <:+: mark.text ++ rest :=
        (suffix_append body _).isInfix.trans
          ((prefix_of_body? hbody).isInfix.trans (suffix_append mark.text rest).isInfix)
      have hparts : ∀ mark ∈ [.verbatim, .image, .link, .call],
          ∃ closing ∈ [['}', '}'], [']', ']'], ['>', '>'], ['[', '<', '/']],
            closing <:+: Mark.closing mark := by
        decide
      obtain ⟨closing, hclosing, hinside⟩ := hparts mark hmark
      exact absurd (hinside.trans hin) (h.unclosed closing hclosing)

/-- In a quiet text, the markup that a mark begins is incomplete. -/
theorem Quiet.scan? {mark : Mark} {rest : Text} (h : Quiet (mark.text ++ rest)) (page : PageRef) :
    mark.scan? page rest = none := by
  cases mark with
  | escape => exact absurd (by simp [Mark.text]) h.noEscape
  | lineBreak => exact absurd (prefix_append _ rest).isInfix h.noLineBreak
  | style style =>
      simp only [Mark.scan?, spanToken?, h.closing?]
  | _ => simp only [Mark.scan?, h.body? (by simp)]

/-! ### Reading -/

/-- A quiet text begins with a literal token, which covers what it says. -/
theorem exists_scan_eq_literal {c : Char} {cs : Text} (h : Quiet (c :: cs)) (page : PageRef)
    (previous : Option Char) :
    ∃ n, scan page previous c cs = (.literal ((c :: cs).take n), n) := by
  cases hmark : Mark.of? (c :: cs) with
  | none => exact ⟨1, by rw [scan, h.rawUrl?, h.codeSpan?, hmark]; rfl⟩
  | some mark =>
      obtain ⟨rest, heq⟩ := eq_of_of? hmark
      have hquiet : Quiet (mark.text ++ rest) := heq ▸ h
      refine ⟨mark.text.length, ?_⟩
      rw [scan_of_mark hmark, heq, drop_left, take_left, hquiet.scan?]
      rfl

theorem nodesFrom_of_quiet (page : PageRef) (previous : Option Char) (s : Text) (h : Quiet s)
    (hne : s ≠ []) : nodesFrom page previous s = [.text s] := by
  match s with
  | [] => exact absurd rfl hne
  | c :: cs =>
      obtain ⟨n, hscan⟩ := exists_scan_eq_literal h page previous
      have hn : 1 ≤ n := by simpa [hscan] using one_le_scan_length page previous c cs
      have htake : (c :: cs).take n ≠ [] := by simp; omega
      rw [nodesFrom_cons hscan, Token.nodes]
      by_cases hdrop : (c :: cs).drop n = []
      · have hwhole : (c :: cs).take n = c :: cs := by
          rw [take_of_length_le (drop_eq_nil_iff.mp hdrop)]
        rw [hdrop, hwhole, nodesFrom]
        rfl
      · have hrest : Quiet ((c :: cs).drop n) := h.of_isInfix (drop_suffix n _).isInfix
        rw [nodesFrom_of_quiet page _ _ hrest hdrop, Node.prepend_text_text htake, take_append_drop]
termination_by s.length
decreasing_by
  simp only [length_drop, length_cons]
  omega

/-- A text without complete markup is read as it is. -/
theorem parse_of_quiet (page : PageRef) (h : Quiet s) (hne : s ≠ []) : parse page s = [.text s] :=
  nodesFrom_of_quiet page none s h hne

end Creole.Inline
