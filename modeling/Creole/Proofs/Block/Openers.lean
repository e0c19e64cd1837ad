import Creole.Proofs.Block.Takes
import Creole.Proofs.Text.Cut
import Creole.Proofs.Text.Kept

/-!
# Where blocks open

Two chains of tests look for the block that a line opens: `blockAt?` reads it, and `opens`,
which the items of a list ask before they go on, only says whether there is one.  They agree at
every line (`opens_iff_exists_blockAt?`), whether quotes may nest further or not, and what
`blockAt?` leaves are the lines from a later one on.

Most tests look at the first visible character of a line and at what follows it, so that this
character rules most of them out.
-/

namespace Creole.Block

open List Text

variable {line rest : Text} {c : Char}

/-! ### The first visible character of a line -/

theorem isBlank_of_trimStart (h : trimStart line = c :: rest) : isBlank c = false := by
  have hhead := head?_dropWhile_not isBlank line
  rw [trimStart] at h
  simpa [h] using hhead

theorem trim_of_trimStart (h : trimStart line = c :: rest) : trim line = c :: trimEnd rest := by
  rw [trim, h, trimEnd, dropTrailing_cons (isBlank_of_trimStart h), trimEnd]

theorem not_blank_of_trimStart (h : trimStart line = c :: rest) : blank line = false := by
  refine Bool.eq_false_iff.mpr fun hblank => ?_
  rw [trimStart, dropWhile_eq_nil_iff.mpr (all_eq_true.mp hblank)] at h
  cases h

/-- The characters that fences begin with. -/
def fenceHeads : Text := ['{', '[', '\x60']

theorem fence_eq_none (h : trimStart line = c :: rest) (hc : c ∉ fenceHeads) :
    Fence.of? line = none := by
  simp only [fenceHeads, mem_cons, not_mem_nil, or_false, not_or] at hc
  obtain ⟨hbrace, hbracket, hquote⟩ := hc
  unfold Fence.of?
  simp [trim_of_trimStart h, Fence.braces, Fence.backquotes, after?, hbrace,
    Ne.symm hbracket, Ne.symm hquote]

theorem heading_eq_none (h : trimStart line = c :: rest) (hc : c ≠ '=') :
    heading? line = none := by
  simp [heading?, h, hc]

theorem isRule_eq_false (h : trimStart line = c :: rest) (hc : c ≠ '-') :
    isRule line = false := by
  simp [isRule, trim_of_trimStart h, hc]

theorem isRow_eq_false (h : trimStart line = c :: rest) (hc : c ≠ '|') : isRow line = false := by
  simp [isRow, h, Text.opens, after?, Ne.symm hc]

theorem splitItem_eq_none (h : trimStart line = c :: rest) (hc : c ≠ '*' ∧ c ≠ '#') :
    splitItem? line = none := by
  simp [splitItem?, h, hc]

/-! ### Headings, rows and quotes -/

theorem trimStart_of_heading {level : Nat} {title : Text}
    (h : heading? line = some (level, title)) : ∃ rest, trimStart line = '=' :: rest := by
  cases hstart : trimStart line with
  | nil => simp [heading?, hstart] at h
  | cons c rest =>
      by_cases hc : c = '='
      · exact ⟨rest, by rw [hc]⟩
      · rw [heading_eq_none hstart hc] at h
        cases h

theorem not_blank_of_heading {level : Nat} {title : Text}
    (h : heading? line = some (level, title)) : blank line = false := by
  obtain ⟨rest, hstart⟩ := trimStart_of_heading h
  exact not_blank_of_trimStart hstart

theorem opener_of_heading {level : Nat} {title : Text}
    (h : heading? line = some (level, title)) : Opener.of? line = some (.heading level title) := by
  obtain ⟨rest, hstart⟩ := trimStart_of_heading h
  simp [Opener.of?, fence_eq_none hstart (by decide), h]

theorem opener_of_isRow (h : isRow line = true) : Opener.of? line = some .row := by
  obtain ⟨rest, hstart⟩ := Text.opens_iff.mp h
  rw [singleton_append] at hstart
  simp [Opener.of?, fence_eq_none hstart (by decide), heading_eq_none hstart (by decide),
    isRule_eq_false hstart (by decide), h]

theorem trimStart_of_isQuoted (h : isQuoted line = true) :
    ∃ rest, line = '>' :: rest ∧ trimStart line = '>' :: rest := by
  obtain ⟨rest, rfl⟩ := Text.opens_iff.mp h
  exact ⟨rest, rfl, rfl⟩

theorem opener_of_isQuoted (h : isQuoted line = true) : Opener.of? line = some .quote := by
  obtain ⟨rest, -, hstart⟩ := trimStart_of_isQuoted h
  simp [Opener.of?, fence_eq_none hstart (by decide), heading_eq_none hstart (by decide),
    isRule_eq_false hstart (by decide), isRow_eq_false hstart (by decide), h]

/-- A quoted line is no item of a list. -/
theorem splitItem_of_isQuoted (h : isQuoted line = true) : splitItem? line = none := by
  obtain ⟨rest, -, hstart⟩ := trimStart_of_isQuoted h
  exact splitItem_eq_none hstart (by decide)

theorem opensList_of_isQuoted (h : isQuoted line = true) : opensList line = false := by
  rw [opensList, splitItem_of_isQuoted h]

/-! ### Running text -/

theorem isQuoted_eq_false (h : trimStart line = c :: rest) (hc : c ≠ '>') :
    isQuoted line = false := by
  refine Bool.eq_false_iff.mpr fun hquoted => hc ?_
  obtain ⟨behind, -, hstart⟩ := trimStart_of_isQuoted hquoted
  rw [h] at hstart
  injection hstart

/-- The characters that blocks begin with. -/
def openerHeads : Text := fenceHeads ++ ['=', '-', '|', '>', '*', '#']

/-- A line that begins with another character opens nothing. -/
theorem opener_eq_none (h : trimStart line = c :: rest) (hc : c ∉ openerHeads) :
    Opener.of? line = none := by
  simp only [openerHeads, mem_append, mem_cons, not_mem_nil, or_false, not_or] at hc
  obtain ⟨hfence, hequals, hdash, hbar, hangle, hitem⟩ := hc
  simp [Opener.of?, fence_eq_none h (by simpa [fenceHeads] using hfence),
    heading_eq_none h hequals, isRule_eq_false h hdash, isRow_eq_false h hbar,
    isQuoted_eq_false h hangle, opensList, splitItem_eq_none h hitem]

/-! ### The two chains of tests -/

variable {page : PageRef} {quoted : Option (Text → List Node)}

/-- Behind every other test, a line is asked whether it is quoted before it may be an item. -/
theorem isSome_blockAt? (line : Text) (rest : List Text) :
    (blockAt? page quoted line rest).isSome = opens quoted.isSome line rest := by
  unfold blockAt? opens Opener.of?
  cases hfence : Fence.of? line with
  | some fence => simp only [Option.isSome_map, isSome_untilClosed?]
  | none =>
      cases hheading : heading? line with
      | some heading => rfl
      | none =>
          cases hrule : isRule line with
          | true => rfl
          | false =>
              cases hrow : isRow line with
              | true => rfl
              | false =>
                  cases hquoted : isQuoted line with
                  | true =>
                      -- where no quote may open, no list does either
                      cases quoted <;> simp [opensList_of_isQuoted hquoted]
                  | false => cases hlist : opensList line <;> simp

/-- What a block leaves are the last of the lines behind the one that opens it. -/
theorem isSuffix_of_blockAt? {behind : List Text} {nodes : List Node} {rest : List Text}
    (h : blockAt? page quoted line rest = some (nodes, behind)) : behind <:+ rest := by
  have hbehind : behind <:+ line :: rest := by
    cases takes_of_blockAt? h with
    | @fence inside _ close fence hrest => exact ⟨line :: inside ++ [close], by simp [← hrest]⟩
    | heading | rule => exact suffix_cons _ _
    | @table rows _ hrest => exact ⟨line :: rows, by simp [← hrest]⟩
    | @quote inside _ read _ hrest => exact ⟨line :: inside, by simp [← hrest]⟩
    | lists => exact items_isSuffix _ _
  exact suffix_of_suffix_length_le hbehind (suffix_cons line rest) (length_le_of_blockAt? h)

/-- At every line, a list is told that a block opens just if one is read there, at every depth of
quotes.  A block takes the line that opens it and leaves the lines from a later one on. -/
theorem opens_iff_exists_blockAt? (page : PageRef) (quoted : Option (Text → List Node))
    (ls : List Text) {i : Nat} (hi : i < ls.length) :
    (opens quoted.isSome ls[i] (ls.drop (i + 1)) = true ↔
      ∃ nodes behind, blockAt? page quoted ls[i] (ls.drop (i + 1)) = some (nodes, behind)) ∧
    ∀ nodes behind, blockAt? page quoted ls[i] (ls.drop (i + 1)) = some (nodes, behind) →
      ∃ next, i < next ∧ next ≤ ls.length ∧ behind = ls.drop next := by
  constructor
  · rw [← isSome_blockAt?, Option.isSome_iff_exists, Prod.exists]
  · intro nodes behind hblock
    have hsuffix := isSuffix_of_blockAt? hblock
    have hlength := hsuffix.length_le
    rw [suffix_iff_eq_drop, drop_drop] at hsuffix
    rw [length_drop] at hlength hsuffix
    exact ⟨_, by omega, by omega, hsuffix⟩

/-- An item of a list, which a quoted line continues where no quote may open, and a fence. -/
def sampleLines : List Text :=
  ["* a".toList, "> b".toList, Fence.backquotes, "= c".toList, Fence.backquotes]

theorem opens_iff_exists_blockAt?_sampleLines :
    (0 < sampleLines.length ∧ 1 < sampleLines.length ∧ 2 < sampleLines.length) ∧
    (∃ nodes behind,
      blockAt? (.onLocal []) none sampleLines[0] (sampleLines.drop 1) = some (nodes, behind) ∧
        ∃ next, 0 < next ∧ next ≤ sampleLines.length ∧ behind = sampleLines.drop next) ∧
    (¬ ∃ nodes behind,
      blockAt? (.onLocal []) none sampleLines[1] (sampleLines.drop 2) = some (nodes, behind)) ∧
    ∃ nodes behind,
      blockAt? (.onLocal []) none sampleLines[2] (sampleLines.drop 3) = some (nodes, behind) ∧
        ∃ next, 2 < next ∧ next ≤ sampleLines.length ∧ behind = sampleLines.drop next := by
  have hlistOpens : opens false sampleLines[0] (sampleLines.drop 1) = true := by decide +kernel
  have hquoteOpens : opens false sampleLines[1] (sampleLines.drop 2) = false := by decide +kernel
  have hfenceOpens : opens false sampleLines[2] (sampleLines.drop 3) = true := by decide +kernel
  have hfirst : 0 < sampleLines.length := by decide
  have hsecond : 1 < sampleLines.length := by decide
  have hthird : 2 < sampleLines.length := by decide
  obtain ⟨hlist, hlistEnd⟩ := opens_iff_exists_blockAt? (.onLocal []) none sampleLines hfirst
  obtain ⟨hquote, -⟩ := opens_iff_exists_blockAt? (.onLocal []) none sampleLines hsecond
  obtain ⟨hfence, hfenceEnd⟩ := opens_iff_exists_blockAt? (.onLocal []) none sampleLines hthird
  obtain ⟨items, behindItems, hitems⟩ := hlist.mp hlistOpens
  obtain ⟨code, behindCode, hcode⟩ := hfence.mp hfenceOpens
  refine ⟨⟨hfirst, hsecond, hthird⟩, ⟨items, behindItems, hitems, hlistEnd _ _ hitems⟩, ?_,
    code, behindCode, hcode, hfenceEnd _ _ hcode⟩
  exact fun hblock => Bool.eq_false_iff.mp hquoteOpens (hquote.mpr hblock)

example : (blockAt? (.onLocal []) none sampleLines[0] (sampleLines.drop 1)).map (·.2) =
    some (sampleLines.drop 2) := by
  decide +kernel

end Creole.Block
