import Creole.Proofs.Block.Takes
import Creole.Proofs.Text.Lines
import Mathlib.Tactic.Set

/-!
# Text between fences

What stands between two fences is taken as it is, if no line of it closes the first
(`parse_between`).  A line that would close braces may be guarded by a space in front of
it.  A text with its lines guarded is read from between braces as it was, but for a line
feed at its end (`parse_inBraces`): the lines are put together and taken apart once more when
the guards are taken away, and an empty line at the end is lost there.
-/

namespace Creole.Block

open List Text

variable {page : PageRef} {quoted : Option (Text → List Node)}

/-! ### Fences -/

theorem untilClosed?_append_cons {closes : Text → Bool} {inside : List Text} {close : Text}
    (h : ∀ line ∈ inside, closes line = false) (hclose : closes close = true)
    (behind : List Text) :
    untilClosed? closes (inside ++ close :: behind) = some (inside, behind) := by
  induction inside with
  | nil => rw [nil_append, untilClosed?, if_pos hclose]
  | cons line inside ih =>
      rw [forall_mem_cons] at h
      rw [cons_append, untilClosed?, if_neg (by simp [h.1]), ih h.2]
      rfl

theorem opener_of_fence {line : Text} {fence : Fence} (h : Fence.of? line = some fence) :
    Opener.of? line = some (.fence fence) := by
  simp [Opener.of?, h]

theorem blocksFrom_of_fence {first close : Text} {inside : List Text} {fence : Fence}
    (hvisible : blank first = false) (hfirst : Fence.of? first = some fence)
    (hinside : ∀ line ∈ inside, fence.closes line = false) (hclose : fence.closes close = true)
    (behind : List Text) :
    blocksFrom page quoted [] (first :: (inside ++ close :: behind)) =
      fence.node inside :: blocksFrom page quoted [] behind := by
  have hblock : blockAt? page quoted first (inside ++ close :: behind) =
      some ([fence.node inside], behind) := by
    simp only [blockAt?, opener_of_fence hfirst, untilClosed?_append_cons hinside hclose]
    rfl
  rw [blocksFrom_of_block hvisible hblock]
  rfl

/-- A text on lines of its own between two marks. -/
def between (first close body : Text) : Text := first ++ '\n' :: (body ++ '\n' :: close)

theorem lines_between {first close body : Text} (hfirst : '\n' ∉ first ∧ '\r' ∉ first)
    (hclose : '\n' ∉ close ∧ close ≠ []) (hbody : '\r' ∉ body) :
    lines (between first close body) = first :: (body.splitOn '\n' ++ [close]) := by
  rw [between, lines_append hfirst.2, splitOn_eq_singleton hfirst.1, lines_append hbody,
    lines_of_notMem hclose.1 hclose.2, singleton_append]

/-- What stands between two fences is taken as it is. -/
theorem parse_between (page : PageRef) {first close body : Text} {fence : Fence}
    (hfirst : '\n' ∉ first ∧ '\r' ∉ first) (hclose : '\n' ∉ close ∧ close ≠ [])
    (hbody : '\r' ∉ body) (hvisible : blank first = false)
    (hopens : Fence.of? first = some fence) (hcloses : fence.closes close = true)
    (hinside : ∀ line ∈ body.splitOn '\n', fence.closes line = false) :
    parse page (between first close body) = [fence.node (body.splitOn '\n')] := by
  have hnothing : blocksFrom page (some (parseTo page 31)) [] [] = [] := by
    rw [blocksFrom]
    rfl
  rw [parse_eq_blocksFrom, lines_between hfirst hclose hbody,
    blocksFrom_of_fence hvisible hopens hinside hcloses, hnothing]

/-! ### Braces -/

/-- A line with a space in front of it if it would close braces once it is trimmed. -/
def guardLine (line : Text) : Text := if trim line = Fence.closingBraces then ' ' :: line else line

theorem unguard_guardLine (line : Text) : unguard (guardLine line) = line := by
  unfold guardLine
  split
  · next hcloses =>
    have htrim : trim (' ' :: line) = trim line := rfl
    have hspace : isBlank ' ' = true := by decide
    simp [unguard, htrim, hcloses, hspace]
  · next hother => simp [unguard, hother]

/-- What braces close with is at the start of a line, where a guarded line has a space. -/
theorem closes_guardLine (line : Text) : Fence.nowiki.closes (guardLine line) = false := by
  refine decide_eq_false fun hend => ?_
  have hstart := trimEnd_isPrefix (guardLine line)
  rw [hend] at hstart
  unfold guardLine at hend hstart
  split at hend
  · next hcloses =>
    rw [if_pos hcloses] at hstart
    exact absurd (cons_prefix_cons.mp hstart).1 (by decide)
  · next hother =>
    -- the line begins with a brace, so that nothing is trimmed from its start
    rw [if_neg hother] at hstart
    obtain ⟨more, rfl⟩ := hstart
    refine hother (Eq.trans ?_ hend)
    have hbrace : isBlank '}' = false := by decide
    simp [trim, trimStart, Fence.closingBraces, hbrace]

/-- A text between braces, with its lines guarded. -/
def inBraces (s : Text) : Text :=
  between Fence.braces Fence.closingBraces (unlines ((s.splitOn '\n').map guardLine))

theorem notMem_guardLine {c : Char} (hc : c ≠ ' ') {line : Text} (h : c ∉ line) :
    c ∉ guardLine line := by
  unfold guardLine
  split
  · simp [hc, h]
  · exact h

theorem isEmpty_guardLine (line : Text) : (guardLine line).isEmpty = line.isEmpty := by
  unfold guardLine
  split
  · next hcloses =>
    have hne : line ≠ [] := by
      rintro rfl
      exact absurd hcloses (by decide)
    simp [hne]
  · rfl

/-- A text is read from between braces as it was, without a line feed at its end. -/
theorem parse_inBraces (page : PageRef) {s : Text} (h : '\r' ∉ s) :
    parse page (inBraces s) = [.leaf (.nowiki (dropLineFeed s))] := by
  set guarded := (s.splitOn '\n').map guardLine with hguarded
  have hpieces : ∀ piece ∈ s.splitOn '\n', '\r' ∉ piece := fun _ => notMem_of_mem_splitOn h
  have hreturn : '\r' ∉ unlines guarded := by
    refine notMem_unlines (by decide) (forall_mem_map.mpr fun piece hpiece => ?_)
    exact notMem_guardLine (by decide) (hpieces piece hpiece)
  have hsplit : (unlines guarded).splitOn '\n' = guarded := by
    refine splitOn_intercalate '\n' (forall_mem_map.mpr fun piece hpiece => ?_) (by simp [hguarded])
    exact notMem_guardLine (by decide) (lineFeed_notMem_of_mem_splitOn hpiece)
  have hlines : (lines (unlines guarded)).map unguard = lines s := by
    have hback : unguard ∘ guardLine = id := funext unguard_guardLine
    have hguard : lines (unlines guarded) = (lines s).map guardLine := by
      rw [lines, hsplit]
      exact ofPieces_map isEmpty_guardLine (fun _ => notMem_guardLine (by decide)) hpieces
    rw [hguard, map_map, hback, map_id]
  have hinside : ∀ line ∈ (unlines guarded).splitOn '\n', Fence.nowiki.closes line = false := by
    rw [hsplit]
    exact forall_mem_map.mpr fun piece _ => closes_guardLine piece
  rw [inBraces, ← hguarded, parse_between page (by decide) (by decide) hreturn (by decide) rfl
    (by decide) hinside, Fence.node, hsplit, hlines, unlines_lines h]

/-- Lines that would close braces, one of them indented, among others that would not. -/
def sampleListing : Text :=
  "\n\x7d\x7d\x7d\n \u3000\x7d\x7d\x7d \n\x7d\x7d\x7d**a**\n\x7b\x7b\x7b\n= b".toList

theorem parse_inBraces_sampleListing :
    '\r' ∉ sampleListing ∧
      inBraces sampleListing =
        ("\x7b\x7b\x7b\n\n \x7d\x7d\x7d\n  \u3000\x7d\x7d\x7d \n\x7d\x7d\x7d**a**\n" ++
          "\x7b\x7b\x7b\n= b\n\x7d\x7d\x7d").toList ∧
      parse (.onLocal []) (inBraces sampleListing) = [.leaf (.nowiki sampleListing)] := by
  have hreturn : '\r' ∉ sampleListing := by decide
  have hkept : dropLineFeed sampleListing = sampleListing := by decide +kernel
  have hparse := parse_inBraces (.onLocal []) hreturn
  rw [hkept] at hparse
  exact ⟨hreturn, by decide +kernel, hparse⟩

/-- An empty line at the end of a text between braces is lost. -/
theorem not_parse_inBraces_emptyLine :
    parse (.onLocal []) (inBraces "a\n".toList) ≠ [.leaf (.nowiki "a\n".toList)] ∧
      inBraces "a\n".toList = "\x7b\x7b\x7b\na\n\n\x7d\x7d\x7d".toList ∧
      parse (.onLocal []) (inBraces "a\n".toList) = [.leaf (.nowiki "a".toList)] := by
  decide +kernel

end Creole.Block
