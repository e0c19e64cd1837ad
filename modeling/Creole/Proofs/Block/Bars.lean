import Creole.Proofs.Block.Cells
import Creole.Proofs.Text.Slice

/-!
# What is between bars

The scan of a row comes by its characters from the left (`Scans`).  It steps over an escape with
the character behind it, and over a mark with the text up to what closes it (`Region`).  The row
is cut at the bars that the scan comes by one at a time, so that none of them is in what it steps
over; and nothing of the row is lost but the bars, and white space behind the last of them
(`splitCells_between_bars`).

The scan can go by offsets (`cellsByOffset`).  Every slice that it takes is one that can be taken,
it ends, and it gives the same cells (`cellsByOffset_eq`).

## Strategy

Regions are what `shieldedLength?` has lengths of (`Region.shielded`, `exists_region`), so that
the pieces of a row are known one step at a time.  Both results are inductions over what the scan
comes by: `parted_pieces` gathers the steps into groups, and `cellsFrom_eq` says that, behind what
the scan by offsets has come by, the rest of the row is cut as if the row began there.
-/

namespace Creole.Block

open List Inline

/-! ## Regions -/

/-- The marks that open a region and those that close it, one that begins with another before
the other. -/
def regionMarks : List (Text × Text) :=
  [(['{', '{', '{'], ['}', '}', '}']), (['{', '{'], ['}', '}']), (['[', '['], [']', ']']),
    (['<', '<'], ['>', '>'])]

/-- The mark that a text opens a region with, and the one that closes it. -/
def regionMark? (s : Text) : Option (Text × Text) :=
  regionMarks.find? (Text.opens ·.1 s)

/-- What the scan of a row steps over at once where a text begins. -/
inductive Region : (s region : Text) → Prop
  /-- An escape with the character behind it. -/
  | escape (c : Char) (rest : Text) : Region ('~' :: c :: rest) ['~', c]
  /-- An escape at the end of a row. -/
  | lone : Region ['~'] ['~']
  /-- A mark and the text up to the first mark that closes it. -/
  | closed {opening closing inside body rest : Text} :
      regionMark? (opening ++ inside) = some (opening, closing) →
      Text.cut? closing inside = some (body, rest) →
      Region (opening ++ inside) (opening ++ body ++ closing)

/-- Of all marks, those that enclose a text are told apart before the others, but for escapes. -/
theorem find?_enclosingMarks_iff {s : Text} {mark : Mark} :
    enclosingMarks.find? (Text.opens ·.text s) = some mark ↔
      mark ∈ enclosingMarks ∧ Mark.of? s = some mark := by
  have hall : Mark.all = .escape :: (enclosingMarks ++
      [.lineBreak, .style .bold, .style .italic, .style .strikethrough]) := rfl
  rw [Mark.of?, hall, find?_cons, find?_append]
  cases hescape : Text.opens Mark.escape.text s with
  | true =>
      obtain ⟨rest, rfl⟩ := Text.opens_iff.mp hescape
      constructor
      · intro h
        cases h
      · rintro ⟨hin, h⟩
        cases h
        exact absurd hin (by decide)
  | false =>
      cases hinside : enclosingMarks.find? (Text.opens ·.text s) with
      | some found =>
          constructor
          · intro h
            cases h
            exact ⟨mem_of_find?_eq_some hinside, rfl⟩
          · rintro ⟨-, h⟩
            exact h
      | none =>
          constructor
          · intro h
            cases h
          · rintro ⟨hin, h⟩
            have hother := mem_of_find?_eq_some (Option.none_or.symm.trans h)
            simp only [mem_cons, not_mem_nil, or_false] at hother
            rcases hother with rfl | rfl | rfl | rfl <;> exact absurd hin (by decide)

/-- The mark of a region is what the text begins with, if that is a mark that encloses. -/
theorem regionMark?_eq_some_iff {s opening closing : Text} :
    regionMark? s = some (opening, closing) ↔
      ∃ mark ∈ enclosingMarks, Mark.of? s = some mark ∧ mark.text = opening ∧
        mark.closing = closing := by
  have hmap : regionMarks = enclosingMarks.map fun mark => (mark.text, mark.closing) := rfl
  rw [regionMark?, hmap, find?_map, Option.map_eq_some_iff]
  simp only [Function.comp_def, find?_enclosingMarks_iff, Prod.mk.injEq, and_assoc]

/-- A region is in front of the text, and shielded. -/
theorem Region.shielded {s region : Text} (h : Region s region) :
    region <+: s ∧ shieldedLength? s = some region.length := by
  cases h with
  | escape c rest =>
      have hmark : Mark.of? ('~' :: c :: rest) = some .escape := of?_append .escape (by simp)
      refine ⟨⟨rest, rfl⟩, ?_⟩
      rw [shieldedLength?_of_escape hmark]
      simp
  | lone => exact ⟨prefix_rfl, rfl⟩
  | @closed opening closing inside body rest hmark hcut =>
      obtain ⟨mark, hin, hfound, rfl, rfl⟩ := regionMark?_eq_some_iff.mp hmark
      refine ⟨⟨rest, ?_⟩, ?_⟩
      · rw [Text.eq_of_cut? hcut]
        simp only [append_assoc]
      · rw [shieldedLength?_of_enclosing hin hfound, drop_left, hcut]
        simp only [Option.map_some, Mark.reach, length_append]

/-- What is shielded is a region. -/
theorem exists_region {s : Text} {n : Nat} (h : shieldedLength? s = some n) :
    ∃ region, Region s region ∧ region.length = n := by
  rcases shieldedLength?_cases h with ⟨hmark, rfl⟩ | ⟨mark, hin, hmark, body, more, hcut, rfl⟩
  · obtain ⟨rest, rfl⟩ := eq_of_of? hmark
    cases rest with
    | nil => exact ⟨['~'], .lone, rfl⟩
    | cons c rest => exact ⟨['~', c], .escape c rest, by simp [Mark.text]⟩
  · obtain ⟨inside, rfl⟩ := eq_of_of? hmark
    rw [drop_left] at hcut
    have hfound := regionMark?_eq_some_iff.mpr ⟨mark, hin, hmark, rfl, rfl⟩
    refine ⟨mark.text ++ body ++ mark.closing, .closed hfound hcut, ?_⟩
    simp only [Mark.reach, length_append]

theorem Region.ne_nil {s region : Text} (h : Region s region) : region ≠ [] := by
  cases h with
  | escape | lone => simp
  | closed hmark hcut =>
      obtain ⟨mark, -, -, rfl, -⟩ := regionMark?_eq_some_iff.mp hmark
      simp [text_ne_nil]

/-! ## The scan -/

/-- What the scan of a row comes by. -/
inductive Step where
  | bar
  | char (c : Char)
  | region (s : Text)

/-- What is written there. -/
def Step.written : Step → Text
  | bar => ['|']
  | char c => [c]
  | region s => s

/-- What the scan comes by in a row from the left: a region where one begins, and otherwise a
bar or any other character. -/
inductive Scans : Text → List Step → Prop
  | nil : Scans [] []
  | region {region rest : Text} {steps : List Step} :
      Region (region ++ rest) region → Scans rest steps →
      Scans (region ++ rest) (.region region :: steps)
  | bar {rest : Text} {steps : List Step} :
      (∀ region, ¬ Region ('|' :: rest) region) → Scans rest steps →
      Scans ('|' :: rest) (.bar :: steps)
  | char {c : Char} {rest : Text} {steps : List Step} :
      (∀ region, ¬ Region (c :: rest) region) → c ≠ '|' → Scans rest steps →
      Scans (c :: rest) (.char c :: steps)

theorem Scans.flatMap_written {s : Text} {steps : List Step} (h : Scans s steps) :
    steps.flatMap Step.written = s := by
  induction h with
  | nil => rfl
  | region _ _ ih => rw [flatMap_cons, ih]; rfl
  | bar _ _ ih => rw [flatMap_cons, ih]; rfl
  | char _ _ _ ih => rw [flatMap_cons, ih]; rfl

/-- Every text is scanned to its end. -/
theorem exists_scans (s : Text) : ∃ steps, Scans s steps := by
  induction hlength : s.length using Nat.strong_induction_on generalizing s with
  | _ n ih =>
      subst hlength
      cases s with
      | nil => exact ⟨[], .nil⟩
      | cons c cs =>
          by_cases h : ∃ region, Region (c :: cs) region
          · obtain ⟨region, hregion⟩ := h
            obtain ⟨rest, heq⟩ := hregion.shielded.1
            have hshorter : rest.length < (c :: cs).length := by
              have hpos := length_pos_iff.mpr hregion.ne_nil
              rw [← heq, length_append]
              omega
            obtain ⟨steps, hsteps⟩ := ih rest.length hshorter rest rfl
            rw [← heq] at hregion ⊢
            exact ⟨_, .region hregion hsteps⟩
          · have hnone := not_exists.mp h
            obtain ⟨steps, hsteps⟩ := ih cs.length (Nat.lt_succ_self _) cs rfl
            by_cases hbar : c = '|'
            · subst hbar
              exact ⟨_, .bar hnone hsteps⟩
            · exact ⟨_, .char hnone hbar hsteps⟩

/-- A text is parted into pieces if the scan comes by a group of steps for each of them, with a
bar between one group and the next, and by no other bar. -/
def Parted (s : Text) (ps : List Text) : Prop :=
  ∃ groups : List (List Step), Scans s (intercalate [.bar] groups) ∧
    (∀ group ∈ groups, Step.bar ∉ group) ∧ groups.map (·.flatMap Step.written) = ps

theorem flatMap_written_intercalate (groups : List (List Step)) :
    (intercalate [.bar] groups).flatMap Step.written =
      intercalate ['|'] (groups.map (·.flatMap Step.written)) := by
  induction groups with
  | nil => rfl
  | cons group groups ih =>
      cases groups with
      | nil => simp
      | cons next groups =>
          have hne : (next :: groups).map (·.flatMap Step.written) ≠ [] := cons_ne_nil _ _
          rw [intercalate_cons_of_ne_nil (cons_ne_nil _ _), flatMap_append, flatMap_append, ih]
          exact (intercalate_cons_of_ne_nil hne).symm

/-- Nothing of a text is lost but the bars between its pieces. -/
theorem Parted.intercalate_eq {s : Text} {ps : List Text} (h : Parted s ps) :
    intercalate ['|'] ps = s := by
  obtain ⟨groups, hscans, -, rfl⟩ := h
  rw [← flatMap_written_intercalate, hscans.flatMap_written]

theorem Parted.cons_bar {s : Text} {ps : List Text} (h : Parted s ps) (hne : ps ≠ [])
    (hnone : ∀ region, ¬ Region ('|' :: s) region) : Parted ('|' :: s) ([] :: ps) := by
  obtain ⟨groups, hscans, hbars, rfl⟩ := h
  refine ⟨[] :: groups, ?_, forall_mem_cons.mpr ⟨not_mem_nil, hbars⟩, rfl⟩
  rw [intercalate_cons_of_ne_nil (by simpa using hne)]
  exact .bar hnone hscans

/-- A step that is no bar goes to the first group. -/
theorem Parted.cons_step {s : Text} {ps : List Text} (h : Parted s ps) (hne : ps ≠ [])
    {step : Step} (hstep : step ≠ .bar)
    (hfirst : ∀ steps, Scans s steps → Scans (step.written ++ s) (step :: steps)) :
    Parted (step.written ++ s) (prependPiece step.written ps) := by
  obtain ⟨groups, hscans, hbars, rfl⟩ := h
  obtain ⟨group, groups, rfl⟩ := exists_cons_of_ne_nil (by simpa using hne)
  rw [forall_mem_cons] at hbars
  refine ⟨(step :: group) :: groups, ?_, ?_, rfl⟩
  · have hcons : intercalate [.bar] ((step :: group) :: groups) =
        step :: intercalate [.bar] (group :: groups) := by
      cases groups <;> simp
    rw [hcons]
    exact hfirst _ hscans
  · refine forall_mem_cons.mpr ⟨?_, hbars.2⟩
    simp [hstep.symm, hbars.1]

theorem Parted.cons_region {rest region : Text} {ps : List Text} (h : Parted rest ps)
    (hne : ps ≠ []) (hregion : Region (region ++ rest) region) :
    Parted (region ++ rest) (prependPiece region ps) := by
  have hstep : Step.region region ≠ .bar := by simp
  exact h.cons_step hne hstep fun _ => .region hregion

theorem Parted.cons_char {c : Char} {rest : Text} {ps : List Text} (h : Parted rest ps)
    (hne : ps ≠ []) (hnone : ∀ region, ¬ Region (c :: rest) region) (hbar : c ≠ '|') :
    Parted (c :: rest) (prependPiece [c] ps) := by
  have hstep : Step.char c ≠ .bar := by simp
  exact h.cons_step hne hstep fun _ => .char hnone hbar

/-! ## Pieces -/

theorem Region.pieces {rest region : Text} (h : Region (region ++ rest) region) :
    pieces (region ++ rest) = prependPiece region (pieces rest) :=
  passed_of_shielded h.ne_nil h.shielded.2

theorem shieldedLength?_of_not_region {s : Text} (h : ∀ region, ¬ Region s region) :
    shieldedLength? s = none := by
  cases hshielded : shieldedLength? s with
  | none => rfl
  | some n =>
      obtain ⟨region, hregion, -⟩ := exists_region hshielded
      exact absurd hregion (h region)

theorem pieces_char {c : Char} {cs : Text} (hnone : ∀ region, ¬ Region (c :: cs) region)
    (hbar : c ≠ '|') : pieces (c :: cs) = prependPiece [c] (pieces cs) :=
  passed_singleton (shieldedLength?_of_not_region hnone) hbar

/-- The pieces of a row are those between the bars that the scan comes by. -/
theorem parted_pieces (s : Text) : Parted s (pieces s) := by
  obtain ⟨steps, hscans⟩ := exists_scans s
  induction hscans with
  | nil => exact ⟨[[]], .nil, by simp, pieces_nil.symm⟩
  | region hregion _ ih =>
      rw [hregion.pieces]
      exact ih.cons_region (pieces_ne_nil _) hregion
  | bar hnone _ ih =>
      rw [pieces_bar]
      exact ih.cons_bar (pieces_ne_nil _) hnone
  | char hnone hbar _ ih =>
      rw [pieces_char hnone hbar]
      exact ih.cons_char (pieces_ne_nil _) hnone hbar

/-! ## Cells -/

theorem intercalate_concat (ps : List Text) (last : Text) :
    intercalate ['|'] (ps ++ [last]) = ps.flatMap (· ++ ['|']) ++ last := by
  induction ps with
  | nil => simp
  | cons piece ps ih =>
      rw [cons_append, intercalate_cons_of_ne_nil (by simp), ih]
      simp

/-- The cells are all pieces, unless the last one is blank. -/
theorem dropBlankLast_cases {ps : List Text} (hne : ps ≠ []) :
    dropBlankLast ps = ps ∨ ∃ last, Text.blank last = true ∧ dropBlankLast ps ++ [last] = ps := by
  fun_induction dropBlankLast ps with
  | case1 => exact absurd rfl hne
  | case2 last hblank => exact Or.inr ⟨last, hblank, rfl⟩
  | case3 last hblank => exact Or.inl rfl
  | case4 piece next ps ih =>
      rcases ih (cons_ne_nil _ _) with heq | ⟨last, hblank, heq⟩
      · exact Or.inl (by rw [heq])
      · exact Or.inr ⟨last, hblank, by rw [cons_append, heq]⟩

/-- The row that is cut into cells, without one bar at the start. -/
def unbarred (row : Text) : Text := (Text.after? ['|'] row).getD row

/-! ## The scan by offsets -/

/-- The number of bytes of the closed region that a text opens. -/
def closedSize? (s : Text) : Sliced (Option Nat) :=
  match regionMark? s with
  | none => return none
  | some (opening, closing) => Text.closedSize? opening closing s

/-- The number of bytes that the scan of a row steps over at once where a text begins. -/
def regionSize? (s : Text) : Sliced (Option Nat) := do
  match ← closedSize? s with
  | some n => return some n
  | none =>
    if Text.opens ['~'] s then
      let escaped ← s.behind 1
      return some (1 + escaped.headSize?.getD 0)
    else return none

/-- The cells of a row from the one that begins at `start`, if the scan has come to `offset`.
There are at most as many steps as given. -/
def cellsFrom (row : Text) : (steps start offset : Nat) → Sliced (List Text)
  | 0, _, _ => throw .steps
  | steps + 1, start, offset =>
    if offset < row.size then do
      let rest ← row.behind offset
      match ← regionSize? rest with
      | some n => cellsFrom row steps start (offset + n)
      | none =>
        let next := offset + rest.headSize?.getD 1
        if Text.opens ['|'] rest then
          let cell ← row.slice start offset
          return cell :: (← cellsFrom row steps (offset + 1) next)
        else cellsFrom row steps start next
    else do
      let last ← row.behind start
      return if Text.blank last then [] else [last]

/-- The cells of a row, by a scan that goes by offsets. -/
def cellsByOffset (row : Text) : Sliced (List Text) :=
  let row := unbarred row
  cellsFrom row (row.size + 1) 0 0

theorem closedSize?_of_regionMark? {opening closing inside : Text}
    (h : regionMark? (opening ++ inside) = some (opening, closing)) :
    closedSize? (opening ++ inside) =
      .ok ((Text.offset? closing inside).map (Text.size opening + · + Text.size closing)) := by
  rw [closedSize?, h]
  exact Text.closedSize?_append opening closing inside

theorem closedSize?_of_escape (s : Text) : closedSize? ('~' :: s) = .ok none := by
  have hmark : regionMark? ('~' :: s) = none := by
    simp [regionMark?, regionMarks, Text.opens, Text.after?]
  rw [closedSize?, hmark]
  rfl

theorem regionSize?_of_region {s region : Text} (h : Region s region) :
    regionSize? s = .ok (some (Text.size region)) := by
  unfold regionSize?
  cases h with
  | escape c rest =>
      have hbehind : Text.behind ('~' :: c :: rest) 1 = .ok (c :: rest) :=
        Text.behind_append ['~'] (c :: rest)
      simp [closedSize?_of_escape, hbehind]
      rfl
  | lone => rfl
  | @closed opening closing inside body rest hmark hcut =>
      rw [closedSize?_of_regionMark? hmark, Text.offset?, hcut]
      simp only [Option.map_some, Text.size_append]
      rfl

theorem regionSize?_of_not_region {s : Text} (h : ∀ region, ¬ Region s region) :
    regionSize? s = .ok none := by
  have hclosed : closedSize? s = .ok none := by
    cases hmark : regionMark? s with
    | none =>
        rw [closedSize?, hmark]
        rfl
    | some marks =>
        obtain ⟨opening, closing⟩ := marks
        obtain ⟨inside, rfl⟩ : ∃ inside, s = opening ++ inside :=
          Text.opens_iff.mp (by simpa using find?_some hmark)
        cases hcut : Text.cut? closing inside with
        | none => rw [closedSize?_of_regionMark? hmark, Text.offset?, hcut]; rfl
        | some parts => exact absurd (.closed hmark hcut) (h _)
  have hescape : Text.opens ['~'] s = false := by
    refine Bool.eq_false_iff.mpr fun hopens => ?_
    obtain ⟨rest, rfl⟩ := Text.opens_iff.mp hopens
    cases rest with
    | nil => exact h _ .lone
    | cons c rest => exact h _ (.escape c rest)
  simp [regionSize?, hclosed, hescape]

theorem prependPiece_nil {ps : List Text} (hne : ps ≠ []) : prependPiece [] ps = ps := by
  obtain ⟨piece, ps, rfl⟩ := exists_cons_of_ne_nil hne
  rfl

theorem dropBlankLast_cons {ps : List Text} (hne : ps ≠ []) (piece : Text) :
    dropBlankLast (piece :: ps) = piece :: dropBlankLast ps := by
  obtain ⟨next, ps, rfl⟩ := exists_cons_of_ne_nil hne
  rfl

section
variable {row rest cell : Text} {steps start offset n : Nat}

theorem cellsFrom_region (hbehind : row.behind offset = .ok rest) (hwithin : offset < row.size)
    (hregion : regionSize? rest = .ok (some n)) :
    cellsFrom row (steps + 1) start offset = cellsFrom row steps start (offset + n) := by
  simp only [cellsFrom, if_pos hwithin, hbehind, hregion, Sliced.ok_bind]

theorem cellsFrom_bar (hbehind : row.behind offset = .ok ('|' :: rest))
    (hwithin : offset < row.size) (hregion : regionSize? ('|' :: rest) = .ok none)
    (hcell : row.slice start offset = .ok cell) :
    cellsFrom row (steps + 1) start offset =
      (cellsFrom row steps (offset + 1) (offset + 1)).map (cell :: ·) := by
  have hopens : Text.opens ['|'] ('|' :: rest) = true := Text.opens_append ['|'] rest
  have hnext : (Text.headSize? ('|' :: rest)).getD 1 = 1 := rfl
  simp only [cellsFrom, if_pos hwithin, hbehind, hregion, hopens, hcell, hnext, if_true,
    Sliced.ok_bind]
  cases cellsFrom row steps (offset + 1) (offset + 1) <;> rfl

theorem cellsFrom_char {c : Char} (hbehind : row.behind offset = .ok (c :: rest))
    (hwithin : offset < row.size) (hregion : regionSize? (c :: rest) = .ok none)
    (hbar : c ≠ '|') :
    cellsFrom row (steps + 1) start offset = cellsFrom row steps start (offset + c.utf8Size) := by
  have hopens : Text.opens ['|'] (c :: rest) = false := by
    simpa [Text.opens, Text.after?] using hbar.symm
  simp only [cellsFrom, if_pos hwithin, hbehind, hregion, hopens, Bool.false_eq_true, if_false,
    Sliced.ok_bind]
  rfl

end

theorem behind_done (done cell rest : Text) :
    (done ++ (cell ++ rest)).behind (done.size + cell.size) = .ok rest := by
  rw [← Text.size_append, ← append_assoc, Text.behind_append]

theorem done_lt_size {rest : Text} (hne : rest ≠ []) (done cell : Text) :
    done.size + cell.size < (done ++ (cell ++ rest)).size := by
  have hpos := Text.size_pos hne
  simp only [Text.size_append]
  omega

/-- Behind the cells that are done and the part of a cell that the scan has come by, what is left
is cut as if the row began there. -/
theorem cellsFrom_eq {rest : Text} {scanned : List Step} (hscans : Scans rest scanned)
    {steps : Nat} (hsteps : rest.length < steps) (done cell : Text) :
    cellsFrom (done ++ (cell ++ rest)) steps done.size (done.size + cell.size) =
      .ok (dropBlankLast (prependPiece cell (pieces rest))) := by
  induction hscans generalizing steps done cell with
  | nil =>
      obtain ⟨steps, rfl⟩ := Nat.exists_eq_add_one_of_ne_zero (Nat.ne_zero_of_lt hsteps)
      have hend : ¬ done.size + cell.size < (done ++ (cell ++ [])).size := by simp
      rw [cellsFrom, if_neg hend, Text.behind_append, pieces_nil]
      rfl
  | @region region rest _ hregion _ ih =>
      obtain ⟨steps, rfl⟩ := Nat.exists_eq_add_one_of_ne_zero (Nat.ne_zero_of_lt hsteps)
      have hpos := length_pos_iff.mpr hregion.ne_nil
      have hwithin := done_lt_size (append_ne_nil_of_left_ne_nil hregion.ne_nil rest) done cell
      rw [length_append] at hsteps
      have hshorter : rest.length < steps := by omega
      have hrest := ih hshorter done (cell ++ region)
      rw [prependPiece_append, ← hregion.pieces, append_assoc, Text.size_append,
        ← Nat.add_assoc] at hrest
      rw [cellsFrom_region (behind_done done cell _) hwithin (regionSize?_of_region hregion)]
      exact hrest
  | @bar rest _ hnone _ ih =>
      obtain ⟨steps, rfl⟩ := Nat.exists_eq_add_one_of_ne_zero (Nat.ne_zero_of_lt hsteps)
      have hwithin := done_lt_size (cons_ne_nil '|' rest) done cell
      have hcell := Text.slice_append done cell ('|' :: rest)
      -- the bar ends the cell, so that the next one begins behind it
      have hrest := ih (Nat.lt_of_succ_lt_succ hsteps) (done ++ cell ++ ['|']) []
      have hshape : done ++ cell ++ ['|'] ++ ([] ++ rest) = done ++ (cell ++ '|' :: rest) := by simp
      rw [prependPiece_nil (pieces_ne_nil rest), hshape, Text.size_append,
        Text.size_append] at hrest
      rw [cellsFrom_bar (behind_done done cell _) hwithin (regionSize?_of_not_region hnone) hcell,
        pieces_bar, prependPiece, append_nil, dropBlankLast_cons (pieces_ne_nil rest)]
      exact congrArg (Except.map (cell :: ·)) hrest
  | @char c rest _ hnone hbar _ ih =>
      obtain ⟨steps, rfl⟩ := Nat.exists_eq_add_one_of_ne_zero (Nat.ne_zero_of_lt hsteps)
      have hwithin := done_lt_size (cons_ne_nil c rest) done cell
      have hrest := ih (Nat.lt_of_succ_lt_succ hsteps) done (cell ++ [c])
      rw [prependPiece_append, ← pieces_char hnone hbar, append_assoc, Text.size_append,
        ← Nat.add_assoc] at hrest
      rw [cellsFrom_char (behind_done done cell _) hwithin (regionSize?_of_not_region hnone) hbar]
      exact hrest

theorem cellsByOffset_eq (row : Text) : cellsByOffset row = .ok (splitCells row) := by
  have hsteps : (unbarred row).length < Text.size (unbarred row) + 1 :=
    Nat.lt_succ_of_le (Text.length_le_size _)
  obtain ⟨scanned, hscans⟩ := exists_scans (unbarred row)
  have hcells := cellsFrom_eq hscans hsteps [] []
  rw [prependPiece_nil (pieces_ne_nil _)] at hcells
  exact hcells

/-- A row without the bar at its start is its cells with bars between them, or with a bar behind
each and white space behind the last bar.  The scan comes by the bars between the cells, and by no
other, and no cell is cut within a region or out of the bounds of the row. -/
theorem splitCells_between_bars (row : Text) :
    (∃ remainder, Parted (unbarred row) (splitCells row ++ remainder) ∧
      (remainder = [] ∧ intercalate ['|'] (splitCells row) = unbarred row ∨
        ∃ last, remainder = [last] ∧ Text.blank last = true ∧
          (splitCells row).flatMap (· ++ ['|']) ++ last = unbarred row)) ∧
      cellsByOffset row = .ok (splitCells row) := by
  refine ⟨?_, cellsByOffset_eq row⟩
  have hparted := parted_pieces (unbarred row)
  have hjoined := hparted.intercalate_eq
  have hcells : splitCells row = dropBlankLast (pieces (unbarred row)) := rfl
  rcases dropBlankLast_cases (pieces_ne_nil (unbarred row)) with hall | ⟨last, hblank, hlast⟩
  · rw [← hcells] at hall
    rw [← hall] at hparted hjoined
    exact ⟨[], by rwa [append_nil], Or.inl ⟨rfl, hjoined⟩⟩
  · rw [← hcells] at hlast
    rw [← hlast] at hparted hjoined
    rw [intercalate_concat] at hjoined
    exact ⟨[last], hparted, Or.inr ⟨last, rfl, hblank, hjoined⟩⟩

/-- A bar behind an escape and one inside a link separate no cells. -/
example : cellsByOffset "|a~|\u00e9|[[c|d]]| ".toList =
    .ok ["a~|\u00e9".toList, "[[c|d]]".toList] := by rfl

end Creole.Block
