import Creole.Proofs.Block.Fences
import Creole.Proofs.Block.Openers
import Creole.Proofs.Inline.Marks

/-!
# Code is taken as it is

Code stands between tags with the name of its language, or between lines of backquotes of which
the first may name one.  Its lines are those up to the first that closes the fence, and nothing
else is looked for in them: put together again they are the code as it was written, with the
blank lines at its ends and with whatever opens or closes other blocks (`parse_code`).
-/

namespace Creole.Block

open List Text

variable {language s first close : Text} {fence : Fence}

/-! ### Lines of visible characters -/

/-- A mark on a line of its own: some characters, and no white space. -/
structure MarkLine (line : Text) : Prop where
  ne_nil : line ≠ []
  visible : ∀ c ∈ line, isBlank c = false

theorem MarkLine.trim_eq (h : MarkLine s) : trim s = s := trim_of_visible h.visible

theorem MarkLine.notMem (h : MarkLine s) {c : Char} (hc : isBlank c = true) : c ∉ s := by
  intro hmem
  rw [h.visible c hmem] at hc
  cases hc

theorem MarkLine.not_blank (h : MarkLine s) : blank s = false := by
  obtain ⟨c, cs, rfl⟩ := exists_cons_of_ne_nil h.ne_nil
  simp [blank, h.visible c mem_cons_self]

/-- The name of a language holds no white space. -/
theorem isBlank_of_isLanguageChar {c : Char} (h : Inline.isLanguageChar c = true) :
    isBlank c = false := by
  have hcases : c.isAlphanum = true ∨ c ∈ "_+#.-".toList := by
    simpa [Inline.isLanguageChar] using h
  rcases hcases with halphanum | hmark
  · exact isBlank_of_isAlphanum halphanum
  · have hvisible : "_+#.-".toList.all (!isBlank ·) = true := by decide
    simpa using all_eq_true.mp hvisible c hmark

theorem markLine_around (before behind : Text)
    (hchars : language.all Inline.isLanguageChar = true) (hne : before ≠ [])
    (hmarks : (before ++ behind).all (!isBlank ·) = true) :
    MarkLine (before ++ language ++ behind) := by
  simp only [all_eq_true, Bool.not_eq_true', forall_mem_append] at hmarks
  refine ⟨by simp [hne], ?_⟩
  rw [forall_mem_append, forall_mem_append]
  refine ⟨⟨hmarks.1, fun c hc => ?_⟩, hmarks.2⟩
  exact isBlank_of_isLanguageChar (all_eq_true.mp hchars c hc)

/-! ### The lines of a fence -/

theorem markLine_codeStart (hchars : language.all Inline.isLanguageChar = true) :
    MarkLine (Inline.codeStart language) :=
  markLine_around "[<".toList ">]".toList hchars (by decide) (by decide)

theorem markLine_codeEnd (hchars : language.all Inline.isLanguageChar = true) :
    MarkLine (Inline.codeEnd language) :=
  markLine_around "[</".toList ">]".toList hchars (by decide) (by decide)

theorem markLine_backquotes (hchars : language.all Inline.isLanguageChar = true) :
    MarkLine (Fence.backquotes ++ language) := by
  have hline := markLine_around Fence.backquotes [] hchars (by decide) (by decide)
  rwa [append_nil] at hline

theorem fence_codeStart (hne : language ≠ [])
    (hchars : language.all Inline.isLanguageChar = true) :
    Fence.of? (Inline.codeStart language) = some (.tag language) := by
  have hbraces : Inline.codeStart language ≠ Fence.braces := by
    simp [Inline.codeStart, Fence.braces]
  have hstart : after? "[<".toList (Inline.codeStart language) =
      some (language ++ ">]".toList) := by
    rw [Inline.codeStart, append_assoc, after?_append]
  have htake := Inline.takeWhile_language hchars []
  have hdrop := Inline.dropWhile_language hchars []
  rw [append_nil] at htake hdrop
  unfold Fence.of?
  simp only [(markLine_codeStart hchars).trim_eq, hbraces, hstart, htake, hdrop, if_false]
  simp [hne]

theorem fence_backquotes (hchars : language.all Inline.isLanguageChar = true) :
    Fence.of? (Fence.backquotes ++ language) =
      some (.ticks (if language.isEmpty then none else some language)) := by
  have hbraces : Fence.backquotes ++ language ≠ Fence.braces := by
    simp [Fence.backquotes, Fence.braces]
  have htag : after? "[<".toList (Fence.backquotes ++ language) = none := rfl
  have hname : trimStart language = language := by
    cases language with
    | nil => rfl
    | cons c more =>
        have hc := isBlank_of_isLanguageChar (all_eq_true.mp hchars c mem_cons_self)
        exact dropWhile_cons_of_neg (by simp [hc])
  unfold Fence.of?
  simp only [(markLine_backquotes hchars).trim_eq, hbraces, htag, after?_append, hname, hchars,
    if_true, if_false]

/-! ### Code -/

/-- What stands between marks on lines of their own is taken as it is, if none of its lines
closes the fence that the first mark opens. -/
theorem parse_between_markLines (page : PageRef) (hfirst : MarkLine first) (hclose : MarkLine close)
    (hreturn : '\r' ∉ s) (hopens : Fence.of? first = some fence)
    (hcloses : fence.closes close = true) (hinside : ∀ line ∈ lines s, fence.closes line = false) :
    parse page (between first close s) = [fence.node (s.splitOn '\n')] := by
  have hfeed : isBlank '\n' = true := by decide
  refine parse_between page ⟨hfirst.notMem hfeed, hfirst.notMem (by decide)⟩
    ⟨hclose.notMem hfeed, hclose.ne_nil⟩ hreturn hfirst.not_blank hopens hcloses ?_
  -- the pieces of a text are its lines, and maybe an empty piece, which closes nothing
  rcases splitOn_eq_lines hreturn with heq | heq
  · rwa [heq]
  · rw [heq, forall_mem_append, forall_mem_singleton]
    exact ⟨hinside, closes_nil fence⟩

/-- Code on lines of its own between the tags of its language. -/
def inTags (language s : Text) : Text :=
  between (Inline.codeStart language) (Inline.codeEnd language) s

/-- Code on lines of its own between backquotes, with the name of its language, if it has any,
behind the first of them. -/
def inBackquotes (language s : Text) : Text :=
  between (Fence.backquotes ++ language) Fence.backquotes s

/-- Code is read as it was written, if no line of it closes the fence that it stands in. -/
theorem parse_code (page : PageRef) (hchars : language.all Inline.isLanguageChar = true)
    (hreturn : '\r' ∉ s) :
    (language ≠ [] → (∀ line ∈ lines s, trim line ≠ Inline.codeEnd language) →
      parse page (inTags language s) = [.leaf (.code s (some language))]) ∧
    ((∀ line ∈ lines s, trim line ≠ Fence.backquotes) →
      parse page (inBackquotes language s) =
        [.leaf (.code s (if language.isEmpty then none else some language))]) := by
  have hwhole : unlines (s.splitOn '\n') = s := intercalate_splitOn '\n'
  constructor
  · intro hne hinside
    have hend := markLine_codeEnd hchars
    rw [inTags, parse_between_markLines page (markLine_codeStart hchars) hend hreturn
      (fence_codeStart hne hchars) (decide_eq_true hend.trim_eq)
      fun line hline => decide_eq_false (hinside line hline)]
    rw [Fence.node, hwhole]
  · intro hinside
    have hend : MarkLine Fence.backquotes :=
      markLine_backquotes (rfl : ([] : Text).all Inline.isLanguageChar = true)
    rw [inBackquotes, parse_between_markLines page (markLine_backquotes hchars) hend hreturn
      (fence_backquotes hchars) (decide_eq_true hend.trim_eq)
      fun line hline => decide_eq_false (hinside line hline)]
    rw [Fence.node, hwhole]

/-- Code with blank lines at its ends that opens and closes other fences, quotes and lists. -/
def sampleProgram : Text :=
  "\n ```c\n[</c>]\n\x7b\x7b\x7b\n> [<c++>]\n* a\n= ~** \n\n".toList

theorem parse_code_sampleProgram :
    ("c++".toList.all Inline.isLanguageChar = true ∧ '\r' ∉ sampleProgram ∧ "c++".toList ≠ [] ∧
      (∀ line ∈ lines sampleProgram, trim line ≠ Inline.codeEnd "c++".toList) ∧
      ∀ line ∈ lines sampleProgram, trim line ≠ Fence.backquotes) ∧
    parse (.onLocal []) (inTags "c++".toList sampleProgram) =
      [.leaf (.code sampleProgram (some "c++".toList))] ∧
    parse (.onLocal []) (inBackquotes "c++".toList sampleProgram) =
      [.leaf (.code sampleProgram (some "c++".toList))] := by
  have hchars : "c++".toList.all Inline.isLanguageChar = true := by decide
  have hreturn : '\r' ∉ sampleProgram := by decide
  have htags : ∀ line ∈ lines sampleProgram, trim line ≠ Inline.codeEnd "c++".toList := by
    decide +kernel
  have hticks : ∀ line ∈ lines sampleProgram, trim line ≠ Fence.backquotes := by decide +kernel
  have hcode := parse_code (.onLocal []) hchars hreturn
  exact ⟨⟨hchars, hreturn, by decide, htags, hticks⟩, hcode.1 (by decide) htags, hcode.2 hticks⟩

end Creole.Block
