import Creole.Block.Parse

/-!
# What a block takes

A line that opens a block takes some of the lines behind it.  `Takes` lists, for each
form of block, the nodes that come of it and the lines that are left, so that nothing
else needs to look into `blockAt?`.  A page is read on from the lines that are left
(`blocksFrom_of_block`).
-/

namespace Creole.Block

theorem eq_of_untilClosed? {closes : Text → Bool} {ls inside behind : List Text}
    (h : untilClosed? closes ls = some (inside, behind)) :
    ∃ close, ls = inside ++ close :: behind := by
  fun_induction untilClosed? closes ls generalizing inside with
  | case1 => simp at h
  | case2 line rest _ =>
      obtain ⟨rfl, rfl⟩ : [] = inside ∧ rest = behind := by simpa using h
      exact ⟨line, rfl⟩
  | case3 line rest _ ih =>
      obtain ⟨⟨inside', behind'⟩, hrest, heq⟩ := Option.map_eq_some_iff.mp h
      obtain ⟨rfl, rfl⟩ : line :: inside' = inside ∧ behind' = behind := by simpa using heq
      obtain ⟨close, rfl⟩ := ih hrest
      exact ⟨close, rfl⟩

theorem isSome_untilClosed? (closes : Text → Bool) (ls : List Text) :
    (untilClosed? closes ls).isSome = ls.any closes := by
  induction ls with
  | nil => rfl
  | cons line ls ih =>
      rw [untilClosed?, List.any_cons]
      by_cases hline : closes line = true
      · rw [if_pos hline, hline]
        rfl
      · rw [if_neg hline, Option.isSome_map, ih, Bool.eq_false_iff.mpr hline, Bool.false_or]

/-- An empty line closes nothing. -/
theorem closes_nil (fence : Fence) : fence.closes [] = false := by
  cases fence with
  | tag language => simp [Fence.closes, Text.trim, Text.trimStart, Text.trimEnd,
      Text.dropTrailing, Inline.codeEnd]
  | _ => rfl

theorem continuation_append (quotable : Bool) (ls : List Text) :
    (continuation quotable ls).1 ++ (continuation quotable ls).2 = ls := by
  fun_induction continuation quotable ls with
  | case1 => rfl
  | case2 => rfl
  | case3 line rest _ more rest' hmore ih =>
      rw [hmore] at ih
      exact congrArg (line :: ·) ih

/-- What is behind the items of a list are the last of the lines. -/
theorem items_isSuffix (quotable : Bool) (ls : List Text) : (items quotable ls).2 <:+ ls := by
  fun_induction items quotable ls with
  | case1 => exact List.suffix_rfl
  | case2 => exact List.suffix_rfl
  | case3 line rest item _ following more behind hitems ih =>
      rw [hitems] at ih
      have hrest : following.1 ++ following.2 = rest := continuation_append quotable rest
      have hfollowing : following.2 <:+ rest := ⟨following.1, hrest⟩
      exact (ih.trans hfollowing).trans (List.suffix_cons line rest)

theorem heading?_of_opener {line title : Text} {level : Nat}
    (h : Opener.of? line = some (.heading level title)) : heading? line = some (level, title) := by
  unfold Opener.of? at h
  split at h
  · simp at h
  · split at h
    · next hheading => simp_all
    · grind

/-- The nodes of the block that a line opens before `rest`, and what it leaves of
`rest`. -/
inductive Takes (page : PageRef) (quoted : Option (Text → List Node)) (line : Text)
    (rest : List Text) : List Node → (behind : List Text) → Prop
  | fence {inside behind : List Text} {close : Text} (fence : Fence) :
      inside ++ close :: behind = rest →
      Takes page quoted line rest [fence.node inside] behind
  | heading {level : Nat} {title : Text} :
      heading? line = some (level, title) →
      Takes page quoted line rest [Node.heading level (Inline.parse page title)] rest
  | rule : Takes page quoted line rest [.leaf .rule] rest
  | table {rows behind : List Text} :
      rows ++ behind = rest →
      Takes page quoted line rest [.mk .table ((line :: rows).map (rowNode page))] behind
  | quote {inside behind : List Text} {read : Text → List Node} :
      quoted = some read → inside ++ behind = rest →
      Takes page quoted line rest
        [.mk .blockquote (read (Text.unlines ((line :: inside).map unquote)))] behind
  | lists :
      Takes page quoted line rest (listNodes page (items quoted.isSome (line :: rest)).1)
        (items quoted.isSome (line :: rest)).2

theorem takes_of_blockAt? {page : PageRef} {quoted : Option (Text → List Node)} {line : Text}
    {rest behind : List Text} {nodes : List Node}
    (h : blockAt? page quoted line rest = some (nodes, behind)) :
    Takes page quoted line rest nodes behind := by
  unfold blockAt? at h
  split at h
  · simp at h
  · next fence _ =>
    obtain ⟨⟨inside, behind'⟩, hclosed, heq⟩ := Option.map_eq_some_iff.mp h
    obtain ⟨rfl, rfl⟩ : [fence.node inside] = nodes ∧ behind' = behind := by simpa using heq
    obtain ⟨close, rfl⟩ := eq_of_untilClosed? hclosed
    exact .fence fence rfl
  · next level title hopener =>
    obtain ⟨rfl, rfl⟩ : [Node.heading level (Inline.parse page title)] = nodes ∧
        rest = behind := by simpa using h
    exact .heading (heading?_of_opener hopener)
  · obtain ⟨rfl, rfl⟩ : [Node.leaf .rule] = nodes ∧ rest = behind := by simpa using h
    exact .rule
  · obtain ⟨rfl, rfl⟩ : [Node.mk .table ((line :: rest.takeWhile isRow).map (rowNode page))] =
        nodes ∧ rest.dropWhile isRow = behind := by simpa using h
    exact .table List.takeWhile_append_dropWhile
  · obtain ⟨read, hread, heq⟩ := Option.map_eq_some_iff.mp h
    obtain ⟨rfl, rfl⟩ : [Node.mk .blockquote
        (read (Text.unlines ((line :: rest.takeWhile isQuoted).map unquote)))] = nodes ∧
        rest.dropWhile isQuoted = behind := by simpa using heq
    exact .quote hread List.takeWhile_append_dropWhile
  · obtain ⟨rfl, rfl⟩ : _ = nodes ∧ _ = behind := by simpa using h
    exact .lists

/-! ## Line by line -/

section Lines

variable {page : PageRef} {quoted : Option (Text → List Node)} {line : Text}

theorem blocksFrom_of_blank (h : Text.blank line = true) (pending rest : List Text) :
    blocksFrom page quoted pending (line :: rest) =
      flush page pending ++ blocksFrom page quoted [] rest := by
  rw [blocksFrom, if_pos h]

theorem blocksFrom_of_block {rest behind : List Text} {nodes : List Node}
    (hblank : Text.blank line = false)
    (h : blockAt? page quoted line rest = some (nodes, behind)) (pending : List Text) :
    blocksFrom page quoted pending (line :: rest) =
      flush page pending ++ nodes ++ blocksFrom page quoted [] behind := by
  rw [blocksFrom, if_neg (by simp [hblank])]
  split <;> simp_all

/-- A block that takes all lines is all that comes of them. -/
theorem blocksFrom_of_whole {rest : List Text} {nodes : List Node}
    (hblank : Text.blank line = false)
    (h : blockAt? page quoted line rest = some (nodes, [])) :
    blocksFrom page quoted [] (line :: rest) = nodes := by
  rw [blocksFrom_of_block hblank h, blocksFrom]
  exact List.append_nil nodes

theorem blocksFrom_of_text {rest : List Text} (hblank : Text.blank line = false)
    (h : blockAt? page quoted line rest = none) (pending : List Text) :
    blocksFrom page quoted pending (line :: rest) =
      blocksFrom page quoted (line :: pending) rest := by
  rw [blocksFrom, if_neg (by simp [hblank])]
  split <;> simp_all

end Lines

/-- A page is read line by line, with room for quotes. -/
theorem parse_eq_blocksFrom (page : PageRef) (s : Text) :
    parse page s = blocksFrom page (some (parseTo page 31)) [] (Text.lines s) := rfl

end Creole.Block
