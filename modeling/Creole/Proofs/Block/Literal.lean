import Creole.Proofs.Block.Takes
import Creole.Proofs.Html.Row
import Creole.Proofs.Inline.Literal
import Creole.Proofs.Text.Lines

/-!
# Pages without complete markup

A text is unmarked if no inline markup in it is complete (`Inline.Quiet`) and none of its
lines is blank or begins like a block.  Lines may still open fences: they are not closed,
since the end of a fence would be the end of inline markup as well.  So the whole text is
running text, and one paragraph comes of it (`Node.ofMarkup_of_unmarked`).
-/

namespace Creole.Block

open List Text

/-- A line that does not begin like a block, but for a fence with braces or tags. -/
@[mk_iff]
structure Running (line : Text) : Prop where
  visible : blank line = false
  unmarked : ∀ mark ∈ [['='], ['|'], ['*'], ['#'], Fence.backquotes], ¬ mark <+: trimStart line
  unquoted : ¬ ['>'] <+: line

/-- A text with something in it, in which no markup is complete. -/
@[mk_iff]
structure Unmarked (s : Text) : Prop extends Inline.Quiet s where
  nonempty : s ≠ []
  noReturn : '\r' ∉ s
  running : ∀ line ∈ lines s, Running line

instance : DecidablePred Running := fun line => decidable_of_iff _ (running_iff line).symm

instance : DecidablePred Unmarked := fun s => decidable_of_iff _ (unmarked_iff s).symm

variable {line s : Text}

/-! ### Single lines -/

theorem takeWhile_eq_nil_of_not_isPrefix {p : Char → Bool} (h : ∀ c, p c = true → ¬ [c] <+: s) :
    s.takeWhile p = [] := by
  cases s with
  | nil => rfl
  | cons c s =>
      refine takeWhile_cons_of_neg fun hc => h c hc ?_
      exact prefix_append [c] s

theorem Running.heading? (h : Running line) : heading? line = none := by
  have hnone : (trimStart line).takeWhile (· = '=') = [] := by
    refine takeWhile_eq_nil_of_not_isPrefix fun c hc => ?_
    obtain rfl : c = '=' := by simpa using hc
    exact h.unmarked ['='] (by simp)
  simp [Block.heading?, hnone]

theorem Running.isRow (h : Running line) : isRow line = false := by
  refine Bool.eq_false_iff.mpr fun hrow => h.unmarked ['|'] (by simp) ?_
  exact isPrefix_of_opens hrow

theorem Running.isQuoted (h : Running line) : isQuoted line = false := by
  exact Bool.eq_false_iff.mpr fun hquoted => h.unquoted (isPrefix_of_opens hquoted)

theorem Running.opensList (h : Running line) : opensList line = false := by
  have hnone : (trimStart line).takeWhile (fun c => c == '*' || c == '#') = [] := by
    refine takeWhile_eq_nil_of_not_isPrefix fun c hc => ?_
    rcases (by simpa using hc : c = '*' ∨ c = '#') with rfl | rfl
    · exact h.unmarked ['*'] (by simp)
    · exact h.unmarked ['#'] (by simp)
  simp [Block.opensList, splitItem?, hnone]

theorem isRule_of_quiet (h : Inline.Quiet line) : isRule line = false := by
  refine Bool.eq_false_iff.mpr fun hrule => ?_
  obtain ⟨hlength, hdashes⟩ : 4 ≤ (trim line).length ∧ ∀ c ∈ trim line, c = '-' := by
    simpa [isRule] using hrule
  have hrow : trim line = replicate (trim line).length '-' := eq_replicate_of_mem hdashes
  -- three dashes are two pairs that overlap
  have hthree : replicate 3 '-' <:+: line := by
    refine IsInfix.trans ?_ (trim_isInfix line)
    rw [hrow]
    exact (prefix_replicate_iff.mpr ⟨by simpa using Nat.le_of_succ_le hlength, by simp⟩).isInfix
  have hmany := occurrences_le_of_isInfix hthree ['-', '-']
  have honce := h.once ['-', '-'] (by simp)
  have htwo : occurrences ['-', '-'] (replicate 3 '-') = 2 := by decide
  omega

/-- A running line opens no fence with backquotes. -/
theorem Running.fence_ne_ticks (h : Running line) {fence : Fence}
    (hfence : Fence.of? line = some fence) (language : Option Text) : fence ≠ .ticks language := by
  rintro rfl
  have hticks : ∃ rest, after? Fence.backquotes (trim line) = some rest := by
    unfold Fence.of? at hfence
    grind
  obtain ⟨rest, hafter⟩ := hticks
  refine h.unmarked Fence.backquotes (by simp) (IsPrefix.trans ?_ (trim_prefix_trimStart line))
  exact ⟨rest, (after?_eq_some_iff.mp hafter).symm⟩

/-- The end of a fence with braces or tags ends inline markup as well. -/
theorem closes_of_quiet (h : Inline.Quiet line) {fence : Fence}
    (hfence : ∀ language, fence ≠ .ticks language) : fence.closes line = false := by
  refine Bool.eq_false_iff.mpr fun hcloses => ?_
  cases fence with
  | nowiki =>
      have hend : trimEnd line = Fence.closingBraces := by simpa [Fence.closes] using hcloses
      have hin := (trimEnd_isPrefix line).isInfix
      rw [hend] at hin
      refine h.unclosed ['}', '}'] (by simp) (IsInfix.trans ?_ hin)
      exact (prefix_append ['}', '}'] ['}']).isInfix
  | tag language =>
      have hend : trim line = Inline.codeEnd language := by simpa [Fence.closes] using hcloses
      have hin := trim_isInfix line
      rw [hend] at hin
      refine h.unclosed ['[', '<', '/'] (by simp) (IsInfix.trans ?_ hin)
      exact ⟨[], language ++ ">]".toList, by simp [Inline.codeEnd]⟩
  | ticks language => exact hfence language rfl

/-- If a running line opens anything, then a fence that only the end of inline markup
closes. -/
theorem Running.fence_of_opener (h : Running line) (hquiet : Inline.Quiet line) {opener : Opener}
    (hopener : Opener.of? line = some opener) :
    ∃ fence, opener = .fence fence ∧ ∀ language, fence ≠ .ticks language := by
  unfold Opener.of? at hopener
  split at hopener
  · next fence hfence =>
    exact ⟨fence, by simpa using hopener.symm, h.fence_ne_ticks hfence⟩
  · simp [h.heading?, isRule_of_quiet hquiet, h.isRow, h.isQuoted, h.opensList] at hopener

/-! ### Running text -/

variable {page : PageRef} {quoted : Option (Text → List Node)}

theorem untilClosed?_eq_none {closes : Text → Bool} {ls : List Text}
    (h : ∀ line ∈ ls, closes line = false) : untilClosed? closes ls = none := by
  induction ls with
  | nil => rfl
  | cons line ls ih =>
      rw [forall_mem_cons] at h
      rw [untilClosed?, if_neg (by simp [h.1]), ih h.2]
      rfl

theorem Running.blockAt? (h : Running line) {rest : List Text}
    (hquiet : ∀ l ∈ line :: rest, Inline.Quiet l) : blockAt? page quoted line rest = none := by
  rw [forall_mem_cons] at hquiet
  unfold Block.blockAt?
  cases hopener : Opener.of? line with
  | none => rfl
  | some opener =>
      obtain ⟨fence, rfl, hfence⟩ := h.fence_of_opener hquiet.1 hopener
      have hopen : untilClosed? fence.closes rest = none :=
        untilClosed?_eq_none fun l hl => closes_of_quiet (hquiet.2 l hl) hfence
      simp only [hopen, Option.map_none]

/-- Lines that open nothing are gathered, down to the last. -/
theorem blocksFrom_of_gathered {ls : List Text}
    (h : ∀ line rest, line :: rest <:+ ls →
      blank line = false ∧ blockAt? page quoted line rest = none) (pending : List Text) :
    blocksFrom page quoted pending ls = flush page (ls.reverse ++ pending) := by
  induction ls generalizing pending with
  | nil => rw [blocksFrom, reverse_nil, nil_append]
  | cons line ls ih =>
      obtain ⟨hvisible, hblock⟩ := h line ls suffix_rfl
      have hrest := ih fun l rest hsuffix => h l rest (hsuffix.trans (suffix_cons line ls))
      rw [blocksFrom_of_text hvisible hblock, hrest, reverse_cons, append_assoc, singleton_append]

/-- What is read as a single visible text is a paragraph of that text. -/
theorem paragraph_of_parse {t : Text} (h : Inline.parse page s = [.text t])
    (hvisible : blank t = false) : paragraph page s = [.mk .paragraph [.text t]] := by
  simp [paragraph, h, isBlankText, isDirective, Node.text, Node.leaf, hvisible]

/-! ### Whole texts -/

theorem lines_ne_nil (hne : s ≠ []) (hreturn : '\r' ∉ s) : lines s ≠ [] := by
  intro hnone
  have hwhole : unlines (s.splitOn '\n') = s := intercalate_splitOn '\n'
  rcases splitOn_eq_lines hreturn with heq | heq
  · exact splitOn_ne_nil _ _ (heq.trans hnone)
  · rw [heq, hnone] at hwhole
    exact hne hwhole.symm

/-- A text of lines that open nothing is a single paragraph. -/
theorem blocksFrom_lines_of_gathered (hne : lines s ≠ []) (hreturn : '\r' ∉ s)
    (h : ∀ line rest, line :: rest <:+ lines s →
      blank line = false ∧ blockAt? page quoted line rest = none) :
    blocksFrom page quoted [] (lines s) = paragraph page (trim s) := by
  rw [blocksFrom_of_gathered h, append_nil, flush, if_neg (by simpa using hne), reverse_reverse,
    trim_unlines_lines hreturn]

theorem not_blank_trim (hne : lines s ≠ []) (hreturn : '\r' ∉ s)
    (h : ∀ line ∈ lines s, blank line = false) : blank (trim s) = false := by
  have hwhole := not_blank_unlines hne h
  obtain ⟨c, cs, htrim, hc⟩ := exists_trim_eq_cons hwhole
  rw [trim_unlines_lines hreturn] at htrim
  simp [htrim, blank, hc]

theorem Unmarked.blocksFrom (h : Unmarked s) :
    blocksFrom page quoted [] (lines s) = [.mk .paragraph [.text (trim s)]] := by
  have hquiet : ∀ line ∈ lines s, Inline.Quiet line := fun line hline =>
    h.toQuiet.of_isInfix (infix_of_mem_lines h.noReturn hline)
  have hne : lines s ≠ [] := lines_ne_nil h.nonempty h.noReturn
  have hvisible : blank (trim s) = false :=
    not_blank_trim hne h.noReturn fun line hline => (h.running line hline).visible
  have hwritten : trim s ≠ [] := by
    intro hnone
    simp [hnone, blank] at hvisible
  have hparse := Inline.parse_of_quiet page (h.toQuiet.of_isInfix (trim_isInfix s)) hwritten
  rw [blocksFrom_lines_of_gathered hne h.noReturn, paragraph_of_parse hparse hvisible]
  intro line rest hsuffix
  have hline := h.running line (hsuffix.subset mem_cons_self)
  exact ⟨hline.visible, hline.blockAt? fun l hl => hquiet l (hsuffix.subset hl)⟩

theorem parse_of_unmarked (page : PageRef) (h : Unmarked s) :
    parse page s = [.mk .paragraph [.text (trim s)]] := h.blocksFrom

end Creole.Block

namespace Creole

/-- A text without complete markup is one paragraph, and is shown as it was written. -/
theorem Node.ofMarkup_of_unmarked (page : PageRef) {s : Text} (h : Block.Unmarked s) :
    ofMarkup page s = .mk .page [.mk .paragraph [.text (Text.trim s)]] ∧
      ∀ cssClass handlers filter,
        Html.render cssClass handlers filter (ofMarkup page s) =
          "<p class='".toList ++ escape cssClass ++ "'>".toList ++ escape (Text.trim s) ++
            "</p>".toList := by
  have htree : ofMarkup page s = .mk .page [.mk .paragraph [.text (Text.trim s)]] := by
    rw [ofMarkup, Block.parse_of_unmarked page h]
  refine ⟨htree, fun cssClass handlers filter => ?_⟩
  rw [htree, Html.render_paragraph]

/-- Lines that open every kind of inline markup and two fences, and close nothing. -/
def sampleOpeners : Text :=
  "  [[one << two \x7b\x7bthree & **four\n\x7b\x7b\x7b\n[<c>]\n[//<five -- \"six\"\n".toList

theorem Node.ofMarkup_of_unmarked_sampleOpeners :
    Block.Unmarked sampleOpeners ∧
    ofMarkup (.onLocal []) sampleOpeners =
      .mk .page [.mk .paragraph [.text (Text.trim sampleOpeners)]] ∧
    ∀ cssClass handlers filter,
      Html.render cssClass handlers filter (ofMarkup (.onLocal []) sampleOpeners) =
        "<p class='".toList ++ escape cssClass ++ "'>".toList ++
          escape (Text.trim sampleOpeners) ++ "</p>".toList := by
  have hunmarked : Block.Unmarked sampleOpeners := by decide +kernel
  exact ⟨hunmarked, ofMarkup_of_unmarked (.onLocal []) hunmarked⟩

end Creole
