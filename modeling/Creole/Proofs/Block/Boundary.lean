import Creole.Proofs.Block.Takes
import Creole.Proofs.Text.Lines

/-!
# Blank lines are boundaries

A blank line ends whatever block it meets: text behind it does not change how the text
before it is read (`parse_append_blank_line`).  The one thing that looks past blank lines
is a fence, whose closing line may stand anywhere behind it.  So every line that opens a
fence has to be closed in the text before the blank line, if the reader comes to ask what
that line opens (`examined`).
-/

namespace Creole.Block

open List

variable {page : PageRef} {quoted : Option (Text → List Node)} {quotable : Bool}

/-! ### Where the reader looks for blocks -/

/-- The lines, each before the lines behind it, of which the reader asks whether they open a
block that ends an item, at the start of the lines behind the item. -/
def examinedInItem (quotable : Bool) : List Text → List (Text × List Text)
  | [] => []
  | line :: rest =>
    if Text.blank line || (splitItem? line).isSome then []
    else if opens quotable line rest then [(line, rest)]
    else (line, rest) :: examinedInItem quotable rest

/-- The lines of which the reader asks in the items of a list whether they open a block. -/
def examinedInItems (quotable : Bool) (ls : List Text) : List (Text × List Text) :=
  match ls with
  | [] => []
  | line :: rest =>
    match Item.of? line with
    | none => []
    | some _ =>
      examinedInItem quotable rest ++ examinedInItems quotable (continuation quotable rest).2
termination_by ls.length
decreasing_by
  have := length_continuation_le quotable rest
  simp only [List.length_cons]
  omega

/-- The lines of which the reader asks what they open, each before the lines behind it. -/
def examined (page : PageRef) (quoted : Option (Text → List Node)) (ls : List Text) :
    List (Text × List Text) :=
  match ls with
  | [] => []
  | line :: rest =>
    if Text.blank line then examined page quoted rest
    else
      (line, rest) ::
        match _ : blockAt? page quoted line rest with
        | some (_, behind) =>
          (if Opener.of? line = some .item then examinedInItems quoted.isSome (line :: rest)
            else []) ++ examined page quoted behind
        | none => examined page quoted rest
termination_by ls.length
decreasing_by
  · simp
  · exact Nat.lt_succ_of_le (length_le_of_blockAt? (by assumption))
  · simp

theorem examined_of_block {line : Text} {rest behind : List Text} {nodes : List Node}
    (hblank : Text.blank line = false)
    (h : blockAt? page quoted line rest = some (nodes, behind)) :
    examined page quoted (line :: rest) =
      (line, rest) ::
        ((if Opener.of? line = some .item then examinedInItems quoted.isSome (line :: rest)
          else []) ++ examined page quoted behind) := by
  rw [examined, if_neg (by simp [hblank])]
  split <;> simp_all

theorem examined_of_text {line : Text} {rest : List Text} (hblank : Text.blank line = false)
    (h : blockAt? page quoted line rest = none) :
    examined page quoted (line :: rest) = (line, rest) :: examined page quoted rest := by
  rw [examined, if_neg (by simp [hblank])]
  split <;> simp_all

/-- Every line that opens a fence is closed by a line behind it. -/
def FencesClosed (positions : List (Text × List Text)) : Prop :=
  ∀ line rest, (line, rest) ∈ positions →
    ∀ fence, Fence.of? line = some fence → rest.any fence.closes = true

/-- Every fence that a line opens is closed by a line behind it, or else by none of `more`
either. -/
def FencesEnd (more : List Text) (positions : List (Text × List Text)) : Prop :=
  ∀ line rest, (line, rest) ∈ positions →
    ∀ fence, Fence.of? line = some fence →
      rest.any fence.closes = true ∨ more.any fence.closes = false

theorem FencesClosed.fencesEnd {positions : List (Text × List Text)} (h : FencesClosed positions)
    (more : List Text) : FencesEnd more positions :=
  fun line rest hmem fence hfence => Or.inl (h line rest hmem fence hfence)

theorem FencesEnd.of_append {more : List Text} {positions positions' : List (Text × List Text)}
    (h : FencesEnd more (positions ++ positions')) :
    FencesEnd more positions ∧ FencesEnd more positions' :=
  ⟨fun line rest hmem => h line rest (mem_append_left _ hmem),
    fun line rest hmem => h line rest (mem_append_right _ hmem)⟩

theorem FencesEnd.of_cons {more : List Text} {position : Text × List Text}
    {positions : List (Text × List Text)} (h : FencesEnd more (position :: positions)) :
    FencesEnd more [position] ∧ FencesEnd more positions :=
  FencesEnd.of_append h

/-! ### Single blocks -/

theorem fence_of_opener {line : Text} {fence : Fence}
    (h : Opener.of? line = some (.fence fence)) : Fence.of? line = some fence := by
  unfold Opener.of? at h
  split at h
  · next found hfound =>
    obtain rfl : found = fence := by simpa using h
    exact hfound
  · split at h
    · simp at h
    · grind

theorem opens_append {line : Text} {rest more : List Text}
    (hends : FencesEnd more [(line, rest)]) :
    opens quotable line (rest ++ more) = opens quotable line rest := by
  unfold opens
  cases hfence : Fence.of? line with
  | none => rfl
  | some fence =>
      simp only [any_append]
      rcases hends line rest mem_cons_self fence hfence with hclosed | hopen
      · rw [hclosed, Bool.true_or]
      · rw [hopen, Bool.or_false]

/-- More lines do not change where a fence is closed, if they close it only when it is closed
already. -/
theorem untilClosed?_append {closes : Text → Bool} {ls more : List Text}
    (h : ls.any closes = true ∨ more.any closes = false) :
    untilClosed? closes (ls ++ more) =
      (untilClosed? closes ls).map fun (inside, behind) => (inside, behind ++ more) := by
  induction ls with
  | nil =>
      have hmore : more.any closes = false := h.resolve_left (by simp)
      rw [← isSome_untilClosed?, Option.isSome_eq_false_iff, Option.isNone_iff_eq_none] at hmore
      exact hmore
  | cons line ls ih =>
      rw [cons_append, untilClosed?, untilClosed?]
      by_cases hline : closes line = true
      · rw [if_pos hline, if_pos hline]
        rfl
      · rw [any_cons, Bool.eq_false_iff.mpr hline, Bool.false_or] at h
        rw [if_neg hline, if_neg hline, ih h, Option.map_map, Option.map_map]
        rfl

/-- Lines that are taken as long as they satisfy `p` end at a line that does not. -/
theorem takeWhile_append_of_not {p : Text → Bool} {line : Text} (hp : p line = false)
    (ls more : List Text) :
    (ls ++ line :: more).takeWhile p = ls.takeWhile p ∧
      (ls ++ line :: more).dropWhile p = ls.dropWhile p ++ line :: more := by
  induction ls with
  | nil => simp [hp]
  | cons first ls ih =>
      cases hfirst : p first with
      | true => simp [hfirst, ih]
      | false => simp [hfirst]

/-! ### Lists -/

/-- An item ends at a blank line, and is continued by the same lines if more lines follow
it. -/
theorem continuation_append_blank {ls more : List Text}
    (hends : FencesEnd ([] :: more) (examinedInItem quotable ls)) :
    continuation quotable (ls ++ [] :: more) =
      ((continuation quotable ls).1, (continuation quotable ls).2 ++ [] :: more) := by
  induction ls with
  | nil => rfl
  | cons line rest ih =>
      rw [examinedInItem] at hends
      rw [cons_append, continuation, continuation]
      by_cases hlast : (Text.blank line || (splitItem? line).isSome) = true
      · rw [hlast, Bool.true_or, Bool.true_or, if_pos rfl, if_pos rfl, cons_append]
      · rw [if_neg hlast] at hends
        rw [Bool.not_eq_true] at hlast
        rw [hlast, Bool.false_or, Bool.false_or]
        by_cases hopens : opens quotable line rest = true
        · rw [if_pos hopens] at hends
          rw [opens_append hends, if_pos hopens, if_pos hopens, cons_append]
        · rw [if_neg hopens] at hends
          obtain ⟨hline, hrest⟩ := hends.of_cons
          rw [opens_append hline, if_neg hopens, if_neg hopens, ih hrest]

theorem items_append_blank {ls more : List Text}
    (hends : FencesEnd ([] :: more) (examinedInItems quotable ls)) :
    items quotable (ls ++ [] :: more) =
      ((items quotable ls).1, (items quotable ls).2 ++ [] :: more) := by
  fun_induction items quotable ls with
  | case1 =>
      rw [nil_append, items]
      rfl
  | case2 line rest hitem =>
      rw [cons_append, items, hitem]
  | case3 line rest item hitem following more' behind hitems ih =>
      rw [examinedInItems, hitem] at hends
      obtain ⟨hfollowing, hbehind⟩ := FencesEnd.of_append hends
      rw [cons_append, items, hitem]
      simp only [continuation_append_blank hfollowing]
      rw [ih hbehind, hitems]

/-- A block takes the same lines if a blank line and more lines follow. -/
theorem blockAt?_append_blank {line : Text} {rest more : List Text}
    (hends : FencesEnd ([] :: more) [(line, rest)])
    (hitems : Opener.of? line = some .item →
      FencesEnd ([] :: more) (examinedInItems quoted.isSome (line :: rest))) :
    blockAt? page quoted line (rest ++ [] :: more) =
      (blockAt? page quoted line rest).map fun (nodes, behind) =>
        (nodes, behind ++ [] :: more) := by
  unfold blockAt?
  cases hopener : Opener.of? line with
  | none => rfl
  | some opener =>
      cases opener with
      | fence fence =>
          have hfence := hends line rest mem_cons_self fence (fence_of_opener hopener)
          simp only [untilClosed?_append hfence, Option.map_map]
          rfl
      | heading level title => rfl
      | rule => rfl
      | row =>
          -- a blank line is no row, so that the table ends at it at the latest
          obtain ⟨htake, hdrop⟩ := @takeWhile_append_of_not isRow [] rfl rest more
          simp only [htake, hdrop]
          rfl
      | quote =>
          obtain ⟨htake, hdrop⟩ := @takeWhile_append_of_not isQuoted [] rfl rest more
          simp only [htake, hdrop]
          cases quoted <;> rfl
      | item =>
          have happend := items_append_blank (hitems hopener)
          simp only [← cons_append, happend]
          rfl

/-! ### Pages -/

/-- Lines in front of a blank line are read as if nothing followed them. -/
theorem blocksFrom_append_blank {ls more : List Text}
    (hends : FencesEnd ([] :: more) (examined page quoted ls)) (pending : List Text) :
    blocksFrom page quoted pending (ls ++ [] :: more) =
      blocksFrom page quoted pending ls ++ blocksFrom page quoted [] more := by
  -- along the reader's own recursion: a block may take many lines at once
  fun_induction blocksFrom page quoted pending ls with
  | case1 pending =>
      rw [nil_append, blocksFrom_of_blank rfl]
  | case2 pending line rest hblank ih =>
      rw [examined, if_pos hblank] at hends
      rw [cons_append, blocksFrom_of_blank hblank, ih hends, append_assoc]
  | case3 pending line rest hblank nodes behind hblock ih =>
      rw [Bool.not_eq_true] at hblank
      rw [examined_of_block hblank hblock] at hends
      obtain ⟨hline, hinside⟩ := hends.of_cons
      obtain ⟨hitems, hbehind⟩ := hinside.of_append
      have hmore : blockAt? page quoted line (rest ++ [] :: more) =
          some (nodes, behind ++ [] :: more) := by
        rw [blockAt?_append_blank hline (fun hitem => by simpa [hitem] using hitems), hblock]
        rfl
      rw [cons_append, blocksFrom_of_block hblank hmore, ih hbehind]
      simp only [append_assoc]
  | case4 pending line rest hblank hblock ih =>
      rw [Bool.not_eq_true] at hblank
      rw [examined_of_text hblank hblock] at hends
      obtain ⟨hline, hrest⟩ := hends.of_cons
      have hmore : blockAt? page quoted line (rest ++ [] :: more) = none := by
        rw [blockAt?_append_blank hline ?_, hblock]
        · rfl
        · -- an item always opens a list
          intro hitem
          simp [blockAt?, hitem] at hblock
      rw [cons_append, blocksFrom_of_text hblank hmore, ih hrest]

/-- A blank line at the end changes nothing. -/
theorem blocksFrom_append_nil (pending ls : List Text) :
    blocksFrom page quoted pending (ls ++ [[]]) = blocksFrom page quoted pending ls := by
  have hends : FencesEnd [[]] (examined page quoted ls) :=
    fun _ _ _ fence _ => Or.inr (by simp [closes_nil fence])
  have hnothing : blocksFrom page quoted [] [] = [] := by
    rw [blocksFrom]
    rfl
  rw [blocksFrom_append_blank hends, hnothing, append_nil]

/-- The lines of which the reader of a text asks what they open, if quotes may nest to the
given depth.  What is quoted is a text of its own. -/
def examinedTo (page : PageRef) : (depth : Nat) → Text → List (Text × List Text)
  | 0, s => examined page none (Text.lines s)
  | depth + 1, s => examined page (some (parseTo page depth)) (Text.lines s)

theorem blocksFrom_append_blank_line {s : Text} (hreturn : '\r' ∉ s)
    (hclosed : FencesClosed (examined page quoted (Text.lines s))) (t : Text) :
    blocksFrom page quoted [] (Text.lines (s ++ "\n\n".toList ++ t)) =
      blocksFrom page quoted [] (Text.lines s) ++ blocksFrom page quoted [] (Text.lines t) := by
  have hlines : Text.lines (s ++ "\n\n".toList ++ t) = s.splitOn '\n' ++ [] :: Text.lines t := by
    have hempty : '\r' ∉ ([] : Text) := not_mem_nil
    have hcut : s ++ "\n\n".toList ++ t = s ++ '\n' :: ([] ++ '\n' :: t) := by simp
    rw [hcut, Text.lines_append hreturn, Text.lines_append hempty, splitOn_nil, singleton_append]
  rcases Text.splitOn_eq_lines hreturn with heq | heq
  · rw [hlines, heq, blocksFrom_append_blank (hclosed.fencesEnd _)]
  · -- a line feed at the end of the first text makes a second blank line
    rw [hlines, heq, append_assoc, singleton_append,
      blocksFrom_append_blank (hclosed.fencesEnd _), blocksFrom_of_blank rfl]
    rfl

/-- A blank line is a boundary between blocks.  If the lines that open a fence, as far as
they are read as such, are closed within a text, the blocks of the text, a blank line and
another text are those of both. -/
theorem parse_append_blank_line (page : PageRef) {s : Text} (hreturn : '\r' ∉ s)
    (hclosed : ∀ line rest, (line, rest) ∈ examinedTo page maxNesting s →
      ∀ fence, Fence.of? line = some fence → rest.any fence.closes = true)
    (t : Text) : parse page (s ++ "\n\n".toList ++ t) = parse page s ++ parse page t :=
  blocksFrom_append_blank_line hreturn hclosed t

/-! ### An example -/

/-- A list that a closed fence ends, with a blank line inside the fence, and a quote whose
text opens a fence that nothing closes. -/
def sampleNotes : Text := "* one\n```\nkept\n\n```\n> \x7b\x7b\x7b\nlast".toList

/-- The ends of fences, as the first lines of a text of their own. -/
def sampleEnds : Text := "\x7d\x7d\x7d\n```".toList

theorem parse_append_blank_line_sampleNotes :
    '\r' ∉ sampleNotes ∧
    (∀ line rest, (line, rest) ∈ examinedTo (.onLocal []) maxNesting sampleNotes →
      ∀ fence, Fence.of? line = some fence → rest.any fence.closes = true) ∧
    parse (.onLocal []) (sampleNotes ++ "\n\n".toList ++ sampleEnds) =
      parse (.onLocal []) sampleNotes ++ parse (.onLocal []) sampleEnds := by
  have hreturn : '\r' ∉ sampleNotes := by decide
  have hclosed : ∀ line rest, (line, rest) ∈ examinedTo (.onLocal []) maxNesting sampleNotes →
      ∀ fence, Fence.of? line = some fence → rest.any fence.closes = true := by
    have hall : ((examinedTo (.onLocal []) maxNesting sampleNotes).all fun position =>
        (Fence.of? position.1).all fun fence => position.2.any fence.closes) = true := by
      decide +kernel
    intro line rest hmem fence hfence
    have hposition := all_eq_true.mp hall (line, rest) hmem
    simpa [hfence] using hposition
  exact ⟨hreturn, hclosed, parse_append_blank_line (.onLocal []) hreturn hclosed sampleEnds⟩

end Creole.Block
