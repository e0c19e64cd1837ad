import Creole.Proofs.Block.Literal
import Creole.Proofs.Block.Openers
import Creole.Proofs.Inline.RoundTrip
import Mathlib.Data.List.Induction

/-!
# Escaped pages

Every text can be shown as it is, whatever markup it holds: with an escape before each of
its visible characters (`Inline.escapeAll`), it is read as one paragraph of that text
(`Node.ofMarkup_escapeAll`).

Escapes stand before visible characters only, so that escaping goes along with trimming
(`trim_escapeAll`) and with taking a text apart into lines (`lines_escapeAll`).  An escaped
line begins with an escape, white space apart, and so opens no block
(`opener_escapeAll`).
-/

namespace Creole

open List Text

namespace Inline

/-- The text with an escape before every visible character. -/
def escapeAll (s : Text) : Text := s.flatMap printChar

theorem escapeAll_append (s t : Text) : escapeAll (s ++ t) = escapeAll s ++ escapeAll t :=
  flatMap_append

theorem escapeAll_cons_of_isBlank {c : Char} (h : isBlank c = true) (s : Text) :
    escapeAll (c :: s) = c :: escapeAll s := by
  rw [escapeAll, flatMap_cons, printChar, if_pos h, singleton_append, escapeAll]

theorem escapeAll_cons_of_visible {c : Char} (h : isBlank c = false) (s : Text) :
    escapeAll (c :: s) = '~' :: c :: escapeAll s := by
  rw [escapeAll, flatMap_cons, printChar, if_neg (by simp [h]), escapeAll]
  rfl

/-- Only escapes are added. -/
theorem mem_of_mem_escapeAll {c : Char} {s : Text} (h : c ∈ escapeAll s) (hc : c ≠ '~') :
    c ∈ s := by
  obtain ⟨d, hd, hmem⟩ := mem_flatMap.mp h
  unfold printChar at hmem
  split at hmem
  · obtain rfl := mem_singleton.mp hmem
    exact hd
  · obtain rfl : c = d := by simpa [hc] using hmem
    exact hd

/-! ### Trimming -/

theorem trimStart_escapeAll (s : Text) : trimStart (escapeAll s) = escapeAll (trimStart s) := by
  induction s with
  | nil => rfl
  | cons c s ih =>
      cases hblank : isBlank c with
      | true =>
          have hstart : ∀ t : Text, trimStart (c :: t) = trimStart t := fun t =>
            dropWhile_cons_of_pos hblank
          rw [escapeAll_cons_of_isBlank hblank, hstart, hstart, ih]
      | false =>
          have htilde : isBlank '~' = false := by decide
          have hstart : ∀ {d : Char}, isBlank d = false → ∀ t : Text,
              trimStart (d :: t) = d :: t := fun hd t => dropWhile_cons_of_neg (by simp [hd])
          rw [escapeAll_cons_of_visible hblank, hstart htilde, hstart hblank,
            escapeAll_cons_of_visible hblank]

theorem trimEnd_escapeAll (s : Text) : trimEnd (escapeAll s) = escapeAll (trimEnd s) := by
  induction s using reverseRecOn with
  | nil => rfl
  | append_singleton s c ih =>
      rw [escapeAll_append]
      cases hblank : isBlank c with
      | true =>
          have hend : ∀ t : Text, trimEnd (t ++ [c]) = trimEnd t := by
            intro t
            simp [trimEnd, dropTrailing, hblank]
          rw [escapeAll_cons_of_isBlank hblank]
          exact (hend _).trans (ih.trans (congrArg escapeAll (hend s).symm))
      | false =>
          have hend : ∀ t : Text, trimEnd (t ++ [c]) = t ++ [c] := by
            intro t
            simp [trimEnd, dropTrailing, hblank]
          have hlast : escapeAll [c] = ['~'] ++ [c] := escapeAll_cons_of_visible hblank []
          rw [hlast, ← append_assoc, hend, hend, escapeAll_append, hlast, append_assoc]

theorem trim_escapeAll (s : Text) : trim (escapeAll s) = escapeAll (trim s) := by
  rw [trim, trimStart_escapeAll, trimEnd_escapeAll, trim]

/-- An escaped text that is visible begins with an escape, white space apart. -/
theorem exists_trimStart_escapeAll_eq_cons {s : Text} (h : blank s = false) :
    ∃ rest, trimStart (escapeAll s) = '~' :: rest := by
  obtain ⟨c, cs, htrim, hc⟩ := exists_trim_eq_cons h
  obtain ⟨behind, hbehind⟩ := trim_prefix_trimStart s
  refine ⟨c :: escapeAll (cs ++ behind), ?_⟩
  rw [trimStart_escapeAll, ← hbehind, htrim, cons_append, escapeAll_cons_of_visible hc]

theorem blank_escapeAll {s : Text} (h : blank s = false) : blank (escapeAll s) = false := by
  obtain ⟨rest, hstart⟩ := exists_trimStart_escapeAll_eq_cons h
  exact Block.not_blank_of_trimStart hstart

/-! ### Lines -/

theorem splitOn_cons_of_ne {c : Char} (h : c ≠ '\n') (s : Text) :
    (c :: s).splitOn '\n' = (s.splitOn '\n').modifyHead (c :: ·) := by
  rw [splitOn_cons_eq_if_modifyHead, if_neg (by simpa using h)]

/-- A character written as `first` goes in front of the first of some pieces. -/
theorem modifyHead_map_escapeAll {c : Char} (first : Text)
    (h : ∀ s, escapeAll (c :: s) = first ++ escapeAll s) (ps : List Text) :
    (ps.map escapeAll).modifyHead (first ++ ·) = (ps.modifyHead (c :: ·)).map escapeAll := by
  cases ps with
  | nil => rfl
  | cons p ps => simp only [map_cons, modifyHead_cons, h]

/-- Line feeds are not escaped, and nothing else becomes one. -/
theorem splitOn_escapeAll (s : Text) :
    (escapeAll s).splitOn '\n' = (s.splitOn '\n').map escapeAll := by
  induction s with
  | nil => rfl
  | cons c s ih =>
      by_cases hfeed : c = '\n'
      · subst hfeed
        rw [escapeAll_cons_of_isBlank (by decide), splitOn_cons_eq_if_modifyHead,
          splitOn_cons_eq_if_modifyHead, if_pos (by decide), if_pos (by decide), ih, map_cons]
        rfl
      · rw [splitOn_cons_of_ne hfeed]
        cases hblank : isBlank c with
        | true =>
            have hcons := escapeAll_cons_of_isBlank hblank
            rw [hcons, splitOn_cons_of_ne hfeed, ih]
            exact modifyHead_map_escapeAll [c] hcons _
        | false =>
            have hcons := escapeAll_cons_of_visible hblank
            rw [hcons, splitOn_cons_of_ne (by decide), splitOn_cons_of_ne hfeed, ih,
              modifyHead_modifyHead]
            exact modifyHead_map_escapeAll ['~', c] hcons _

theorem isEmpty_escapeAll (s : Text) : (escapeAll s).isEmpty = s.isEmpty := by
  cases s with
  | nil => rfl
  | cons c s =>
      cases hblank : isBlank c with
      | true => rw [escapeAll_cons_of_isBlank hblank, isEmpty_cons, isEmpty_cons]
      | false => rw [escapeAll_cons_of_visible hblank, isEmpty_cons, isEmpty_cons]

/-- The lines of an escaped text are those of the text, escaped. -/
theorem lines_escapeAll {s : Text} (h : '\r' ∉ s) :
    lines (escapeAll s) = (lines s).map escapeAll := by
  rw [lines, splitOn_escapeAll, lines]
  refine ofPieces_map isEmpty_escapeAll (fun piece hpiece hmem => hpiece ?_)
    fun piece hpiece => notMem_of_mem_splitOn h hpiece
  exact mem_of_mem_escapeAll hmem (by decide)

/-! ### Reading -/

/-- An escaped text is read as the text. -/
theorem parse_escapeAll (page : PageRef) {s : Text} (h : s ≠ []) :
    parse page (escapeAll s) = [.text s] := by
  have hnothing : ∀ previous, nodesFrom page previous [] = [] := fun previous => by rw [nodesFrom]
  have hread := reads_text s (by simp [Unbraced]) hnothing none
  rw [append_nil] at hread
  have hprint : print (.text s) = escapeAll s := by
    rw [Node.text, Node.leaf, print_mk]
    rfl
  rw [parse, ← hprint, hread]
  obtain ⟨c, cs, rfl⟩ := exists_cons_of_ne_nil h
  rfl

end Inline

namespace Block

open Inline

/-! ### Blocks -/

variable {line s : Text}

/-- An escaped line opens nothing. -/
theorem opener_escapeAll (h : blank line = false) : Opener.of? (escapeAll line) = none := by
  obtain ⟨rest, hstart⟩ := exists_trimStart_escapeAll_eq_cons h
  exact opener_eq_none hstart (by decide)

theorem parse_escapeAll (page : PageRef) (hreturn : '\r' ∉ s) (hne : lines s ≠ [])
    (hvisible : ∀ line ∈ lines s, blank line = false) :
    parse page (escapeAll s) = [.mk .paragraph [.text (trim s)]] := by
  have hlines := lines_escapeAll hreturn
  have hnoReturn : '\r' ∉ escapeAll s := fun hmem =>
    hreturn (mem_of_mem_escapeAll hmem (by decide))
  have hgathered : ∀ line rest, line :: rest <:+ lines (escapeAll s) →
      blank line = false ∧
        blockAt? page (some (parseTo page (maxNesting - 1))) line rest = none := by
    intro line rest hsuffix
    rw [hlines] at hsuffix
    obtain ⟨written, hwritten, rfl⟩ := mem_map.mp (hsuffix.subset mem_cons_self)
    refine ⟨blank_escapeAll (hvisible written hwritten), ?_⟩
    rw [blockAt?, opener_escapeAll (hvisible written hwritten)]
  have htext : blank (trim s) = false := not_blank_trim hne hreturn hvisible
  have hsome : trim s ≠ [] := by
    intro hnone
    rw [hnone] at htext
    cases htext
  have hparagraph := paragraph_of_parse (Inline.parse_escapeAll page hsome) htext
  rw [← hparagraph, ← trim_escapeAll]
  exact blocksFrom_lines_of_gathered (by simpa [hlines] using hne) hnoReturn hgathered

end Block

/-- Every text of visible lines can be shown as it is: escaped, it is one paragraph of that
text, whatever markup it holds. -/
theorem Node.ofMarkup_escapeAll (page : PageRef) {s : Text} (hreturn : '\r' ∉ s)
    (hne : lines s ≠ []) (hvisible : ∀ line ∈ lines s, blank line = false) :
    ofMarkup page (Inline.escapeAll s) = .mk .page [.mk .paragraph [.text (trim s)]] ∧
      ∀ cssClass handlers filter,
        Html.render cssClass handlers filter (ofMarkup page (Inline.escapeAll s)) =
          "<p class='".toList ++ escape cssClass ++ "'>".toList ++ escape (trim s) ++
            "</p>".toList := by
  have htree : ofMarkup page (Inline.escapeAll s) =
      .mk .page [.mk .paragraph [.text (trim s)]] := by
    rw [ofMarkup, Block.parse_escapeAll page hreturn hne hvisible]
  refine ⟨htree, fun cssClass handlers filter => ?_⟩
  rw [htree, Html.render_paragraph]

/-- Marks of every kind: a heading, bars, a quote, fences, an address, escapes and tags, with
white space that is not ASCII around them. -/
def sampleMarks : Text :=
  "\u2003== http://a//b |= ~~ **\n> \x7b\x7b\x7b<<x>>\\\\ [[p|t]]\n\x7b\x7b\x7b\n\x7d\x7d\x7d\n----\n* #\u00a0".toList

theorem Node.ofMarkup_escapeAll_sampleMarks :
    ('\r' ∉ sampleMarks ∧ lines sampleMarks ≠ [] ∧
      ∀ line ∈ lines sampleMarks, blank line = false) ∧
    ofMarkup (.onLocal []) (Inline.escapeAll sampleMarks) =
      .mk .page [.mk .paragraph [.text (trim sampleMarks)]] ∧
    ∀ cssClass handlers filter,
      Html.render cssClass handlers filter
          (ofMarkup (.onLocal []) (Inline.escapeAll sampleMarks)) =
        "<p class='".toList ++ escape cssClass ++ "'>".toList ++ escape (trim sampleMarks) ++
          "</p>".toList := by
  have hreturn : '\r' ∉ sampleMarks := by decide +kernel
  have hne : lines sampleMarks ≠ [] := by decide +kernel
  have hvisible : ∀ line ∈ lines sampleMarks, blank line = false := by decide +kernel
  exact ⟨⟨hreturn, hne, hvisible⟩, ofMarkup_escapeAll (.onLocal []) hreturn hne hvisible⟩

end Creole
