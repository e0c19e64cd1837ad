import Creole.Proofs.Block.Openers
import Creole.Proofs.Text.Lines
import Mathlib.Tactic.Set

/-!
# Headings keep their titles

A heading is a run of equals signs in front of a title, and maybe another run behind it, with
white space around both runs.  Whatever the title holds, it is read as it was written
(`parse_headingLine`): equals signs and white space are dropped from the ends of the line only,
and a title begins and ends with other characters.
-/

namespace Creole.Block

open List Text

/-- White space within a line. -/
structure Gap (w : Text) : Prop where
  isBlank : ∀ c ∈ w, isBlank c = true
  lineFeed : '\n' ∉ w

/-- Characters that may stand at the ends of a title. -/
def isTitleEnd (c : Char) : Bool := !isBlank c && c ≠ '='

/-- A title on a line, with white space and equals signs only inside it. -/
structure Title (t : Text) : Prop where
  ne_nil : t ≠ []
  lineFeed : '\n' ∉ t
  first : ∀ c ∈ t.head?, isTitleEnd c = true
  last : ∀ c ∈ t.getLast?, isTitleEnd c = true

/-- The line of a heading with `n` equals signs before its title and `m` behind it, and white
space at the start of the line, on both sides of the title and at the end of the line. -/
def headingLine (n m : Nat) (indent gap title gap' trail : Text) : Text :=
  indent ++ (replicate n '=' ++ (gap ++ (title ++ (gap' ++ (replicate m '=' ++ trail)))))

variable {n m : Nat} {indent gap title gap' trail : Text}

theorem isBlank_of_isTitleEnd {c : Char} (h : isTitleEnd c = true) : isBlank c = false := by
  simp_all [isTitleEnd]

theorem ne_equals_of_isTitleEnd {c : Char} (h : isTitleEnd c = true) :
    decide (c = '=') = false := by
  simp_all [isTitleEnd]

theorem ne_equals_of_isBlank {c : Char} (h : isBlank c = true) : decide (c = '=') = false := by
  refine decide_eq_false ?_
  rintro rfl
  exact absurd h (by decide)

theorem of_mem_replicate {c : Char} (h : c ∈ replicate n '=') : decide (c = '=') = true :=
  decide_eq_true (eq_of_mem_replicate h)

/-! ### What is dropped in front of a title -/

theorem Title.head?_append (h : Title title) (behind : Text) :
    ∀ c ∈ (title ++ behind).head?, isTitleEnd c = true := by
  rw [List.head?_append_of_ne_nil _ h.ne_nil]
  exact h.first

theorem Title.trimStart_append (hgap : Gap gap) (h : Title title) (behind : Text) :
    trimStart (gap ++ (title ++ behind)) = title ++ behind :=
  dropWhile_append_of_head hgap.isBlank fun c hc => isBlank_of_isTitleEnd (h.head?_append _ c hc)

theorem Title.takeWhile_equals (hgap : Gap gap) (h : Title title) (behind : Text) :
    (replicate n '=' ++ (gap ++ (title ++ behind))).takeWhile (· = '=') = replicate n '=' := by
  refine takeWhile_append_of_head (fun c => of_mem_replicate) fun c hc => ?_
  rw [List.head?_append, Option.mem_def, Option.or_eq_some_iff] at hc
  rcases hc with hc | ⟨-, hc⟩
  · exact ne_equals_of_isBlank (hgap.isBlank c (mem_of_head? hc))
  · exact ne_equals_of_isTitleEnd (h.head?_append _ c hc)

/-! ### What is dropped behind a title -/

theorem Title.trimEnd_append (hgap : Gap gap) (h : Title title) :
    trimEnd (title ++ gap) = title :=
  dropTrailing_append_of_last (fun c hc => isBlank_of_isTitleEnd (h.last c hc)) hgap.isBlank

/-- Behind a title, white space and equals signs are dropped, whether there are equals signs
or not. -/
theorem Title.trimEnd_dropTrailing (hgap : Gap gap') (htrail : Gap trail) (h : Title title) :
    trimEnd (dropTrailing (· = '=')
      (trimEnd (title ++ (gap' ++ (replicate m '=' ++ trail))))) = title := by
  cases m with
  | zero =>
      have hblank : Gap (gap' ++ trail) :=
        ⟨forall_mem_append.mpr ⟨hgap.isBlank, htrail.isBlank⟩,
          not_mem_append hgap.lineFeed htrail.lineFeed⟩
      have hnone : Gap [] := ⟨by simp, not_mem_nil⟩
      have hmarks : dropTrailing (· = '=') (title ++ []) = title :=
        dropTrailing_append_of_last (fun c hc => ne_equals_of_isTitleEnd (h.last c hc)) (by simp)
      have hend : trimEnd (title ++ []) = title := h.trimEnd_append hnone
      rw [append_nil] at hmarks hend
      rw [replicate_zero, nil_append, h.trimEnd_append hblank, hmarks, hend]
  | succ m =>
      have hequals : isBlank '=' = false := by decide
      have hwhite : trimEnd (title ++ (gap' ++ (replicate (m + 1) '=' ++ trail))) =
          title ++ gap' ++ replicate (m + 1) '=' := by
        rw [← append_assoc, ← append_assoc]
        refine dropTrailing_append_of_last ?_ htrail.isBlank
        simp [getLast?_append, getLast?_replicate, hequals]
      have hmarks : dropTrailing (· = '=') (title ++ gap' ++ replicate (m + 1) '=') =
          title ++ gap' := by
        refine dropTrailing_append_of_last (fun c hc => ?_) fun c => of_mem_replicate
        rw [getLast?_append, Option.mem_def, Option.or_eq_some_iff] at hc
        rcases hc with hc | ⟨-, hc⟩
        · exact ne_equals_of_isBlank (hgap.isBlank c (mem_of_getLast? hc))
        · exact ne_equals_of_isTitleEnd (h.last c hc)
      rw [hwhite, hmarks, h.trimEnd_append hgap]

/-! ### Headings -/

theorem heading?_headingLine (hn : 1 ≤ n)
    (hgaps : ∀ w ∈ [indent, gap, gap', trail], Gap w) (htitle : Title title) :
    heading? (headingLine n m indent gap title gap' trail) = some (n, title) := by
  simp only [forall_mem_cons, not_mem_nil, false_implies, implies_true, and_true] at hgaps
  obtain ⟨hindent, hgap, hgap', htrail⟩ := hgaps
  have hstart : trimStart (headingLine n m indent gap title gap' trail) =
      replicate n '=' ++ (gap ++ (title ++ (gap' ++ (replicate m '=' ++ trail)))) := by
    refine dropWhile_append_of_head hindent.isBlank ?_
    obtain ⟨k, rfl⟩ := Nat.exists_eq_add_of_le' hn
    have hequals : isBlank '=' = false := by decide
    simp [replicate_succ, hequals]
  have hne : n ≠ 0 := by omega
  unfold heading?
  simp only [hstart, htitle.takeWhile_equals hgap, length_replicate, hne, if_false]
  rw [drop_left' (length_replicate ..), htitle.trimStart_append hgap,
    htitle.trimEnd_dropTrailing hgap' htrail]

theorem lineFeed_notMem_headingLine (hgaps : ∀ w ∈ [indent, gap, gap', trail], Gap w)
    (htitle : Title title) : '\n' ∉ headingLine n m indent gap title gap' trail := by
  have hfeed : ∀ w ∈ [indent, gap, gap', trail], '\n' ∉ w := fun w hw => (hgaps w hw).lineFeed
  simp_all [headingLine, htitle.lineFeed]

/-- A heading is read with the title that was written, at the level of the equals signs before
it, but for levels above six. -/
theorem parse_headingLine (page : PageRef) (hn : 1 ≤ n) (m : Nat)
    (hgaps : ∀ w ∈ [indent, gap, gap', trail], Gap w) (htitle : Title title) :
    parse page (headingLine n m indent gap title gap' trail) =
      [.mk (.heading (min n 6)) (Inline.parse page title)] := by
  set line := headingLine n m indent gap title gap' trail with hline
  have hheading : heading? line = some (n, title) := heading?_headingLine hn hgaps htitle
  have hlevel : max 1 (min n 6) = min n 6 := by omega
  have hlines : lines line = [line] := by
    refine lines_of_notMem (lineFeed_notMem_headingLine hgaps htitle) ?_
    simp [hline, headingLine, htitle.ne_nil]
  have hblock : blockAt? page (some (parseTo page 31)) line [] =
      some ([.mk (.heading (min n 6)) (Inline.parse page title)], []) := by
    simp only [blockAt?, opener_of_heading hheading, Node.heading, hlevel]
  rw [parse_eq_blocksFrom, hlines, blocksFrom_of_whole (not_blank_of_heading hheading) hblock]

/-- A title with equals signs, marks and white space inside it. -/
def sampleTitle : Text := "a == b = **c** \u00a0|= [[d]]".toList

theorem parse_headingLine_sampleTitle :
    (1 ≤ 7 ∧ (∀ w ∈ ["\t ".toList, [], "\u3000".toList, " \r".toList], Gap w) ∧
      Title sampleTitle) ∧
    headingLine 7 2 "\t ".toList [] sampleTitle "\u3000".toList " \r".toList =
      "\t =======a == b = **c** \u00a0|= [[d]]\u3000== \r".toList ∧
    parse (.onLocal []) (headingLine 7 2 "\t ".toList [] sampleTitle "\u3000".toList " \r".toList) =
      [.mk (.heading 6) (Inline.parse (.onLocal []) sampleTitle)] := by
  have hgaps : ∀ w ∈ ["\t ".toList, [], "\u3000".toList, " \r".toList], Gap w := by
    have hall : ∀ w ∈ ["\t ".toList, [], "\u3000".toList, " \r".toList],
        blank w = true ∧ '\n' ∉ w := by decide +kernel
    exact fun w hw => ⟨all_eq_true.mp (hall w hw).1, (hall w hw).2⟩
  have htitle : Title sampleTitle := by
    have hfirst : sampleTitle.head? = some 'a' := by decide +kernel
    have hlast : sampleTitle.getLast? = some ']' := by decide +kernel
    refine ⟨by decide +kernel, by decide +kernel, fun c hc => ?_, fun c hc => ?_⟩
    · obtain rfl : 'a' = c := Option.some.inj (hfirst.symm.trans hc)
      decide
    · obtain rfl : ']' = c := Option.some.inj (hlast.symm.trans hc)
      decide
  exact ⟨⟨by decide, hgaps, htitle⟩, by decide +kernel,
    parse_headingLine (.onLocal []) (by decide) 2 hgaps htitle⟩

end Creole.Block
