/-!
# Text

Markup, page names and rendered documents are lists of characters here.  This
module holds the operations on them that no part of the markup decides: cutting
a text at the first occurrence of a mark, dropping characters from its end,
replacing every occurrence of a mark, and splitting it into lines.

The main statements are that cutting loses nothing (`eq_of_cut?`) and that the
rest behind a mark is shorter than the whole (`length_lt_of_cut?`), which is
what every scanner built on `cut?` ends by.
-/

namespace Creole

/-- A text is the list of its characters. -/
abbrev Text := List Char

namespace Text

/-- The decimal digits of a number. -/
def ofNat (n : Nat) : Text := Nat.toDigits 10 n

/-! ## Marks -/

/-- What follows `mark` in a text that begins with it. -/
def after? : (mark s : Text) → Option Text
  | [], s => some s
  | _ :: _, [] => none
  | m :: mark, c :: s => if m = c then after? mark s else none

theorem after?_eq_some_iff {mark s rest : Text} :
    after? mark s = some rest ↔ s = mark ++ rest := by
  fun_induction after? mark s with
  | case1 s => simp [eq_comm]
  | case2 m mark => simp
  | case3 mark c s ih => simp [ih]
  | case4 m mark c s hne => simp [Ne.symm hne]

/-- Whether a text begins with `mark`. -/
def opens (mark s : Text) : Bool := (after? mark s).isSome

/-- The parts of a text before and behind the first occurrence of `mark`. -/
def cut? (mark : Text) : Text → Option (Text × Text)
  | [] => if mark.isEmpty then some ([], []) else none
  | c :: s =>
    match after? mark (c :: s) with
    | some rest => some ([], rest)
    | none => (cut? mark s).map fun (before, rest) => (c :: before, rest)

theorem eq_of_cut? {mark s before rest : Text} (h : cut? mark s = some (before, rest)) :
    s = before ++ mark ++ rest := by
  fun_induction cut? mark s generalizing before with
  | case1 hmark => simp_all
  | case2 hmark => simp at h
  | case3 c s rest' hafter =>
    simp only [Option.some.injEq, Prod.mk.injEq] at h
    obtain ⟨rfl, rfl⟩ := h
    simpa using after?_eq_some_iff.1 hafter
  | case4 c s hafter ih =>
    obtain ⟨⟨before', rest'⟩, hcut, heq⟩ := Option.map_eq_some_iff.1 h
    simp only [Prod.mk.injEq] at heq
    obtain ⟨rfl, rfl⟩ := heq
    simp [ih hcut]

theorem length_of_cut? {mark s before rest : Text} (h : cut? mark s = some (before, rest)) :
    before.length + mark.length + rest.length = s.length := by
  simp [eq_of_cut? h, Nat.add_assoc]

theorem length_lt_of_cut? {mark s before rest : Text} (hmark : mark ≠ [])
    (h : cut? mark s = some (before, rest)) : rest.length < s.length := by
  have hlength := length_of_cut? h
  have hpos := List.length_pos_iff.2 hmark
  omega

/-- Whether `mark` occurs in a text. -/
def includes (mark s : Text) : Bool := (cut? mark s).isSome

/-- The text with every occurrence of `mark`, taken from the left and without
overlap, replaced by `value`.  An empty mark occurs nowhere. -/
def replaceAll (mark value s : Text) : Text :=
  if _ : mark = [] then s
  else
    match _ : cut? mark s with
    | some (before, rest) => before ++ value ++ replaceAll mark value rest
    | none => s
termination_by s.length
decreasing_by exact length_lt_of_cut? ‹_› ‹_›

/-! ## Ends -/

/-- The text without the longest run of characters at its end that satisfy `p`. -/
def dropTrailing (p : Char → Bool) (s : Text) : Text := (s.reverse.dropWhile p).reverse

theorem dropTrailing_append_trailing (p : Char → Bool) (s : Text) :
    dropTrailing p s ++ (s.reverse.takeWhile p).reverse = s := by
  rw [dropTrailing, ← List.reverse_append, List.takeWhile_append_dropWhile, List.reverse_reverse]

/-- The parts of a text before and behind the last occurrence of a character. -/
def cutLast? (mark : Char) (s : Text) : Option (Text × Text) :=
  let last := (s.reverse.takeWhile (· ≠ mark)).reverse
  match s.reverse.dropWhile (· ≠ mark) with
  | [] => none
  | _ :: before => some (before.reverse, last)

/-! ## Lines -/

/-- A line without the carriage return that its line feed may have carried. -/
def dropReturn (line : Text) : Text :=
  if line.getLast? = some '\r' then line.dropLast else line

/-- The lines among the pieces that line feeds separate.  All but the last piece
were ended by a line feed; the last is a line only if it holds something. -/
def ofPieces : List Text → List Text
  | [] => []
  | [last] => if last.isEmpty then [] else [last]
  | piece :: next :: pieces => dropReturn piece :: ofPieces (next :: pieces)

/-- The lines of a text, without their ends.  A line ends at a line feed, before
which one carriage return is dropped; a lone carriage return ends no line. -/
def lines (s : Text) : List Text := ofPieces (s.splitOn '\n')

/-- The text whose lines are the given ones, without a line feed at its end. -/
def unlines (ls : List Text) : Text := List.intercalate ['\n'] ls

end Text

end Creole
