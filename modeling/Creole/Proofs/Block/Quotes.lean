import Creole.Proofs.Block.Boundary
import Creole.Proofs.Block.Openers
import Creole.Proofs.Shape

/-!
# Quoting a text

With the mark of a quote before each of its lines, a text is read as one quote around what it
is read as by itself, if quotes do not nest too deep for that (`parse_quoteLines`).

## Strategy

What is quoted is read by a reader that lets quotes nest one level less.  The two readers differ
only at quoted lines, where one may no longer open a quote.  Wherever they come to ask this, also
in the items of a list, the deeper one does open a quote next.  So they read the same unless a
quote stands at the last level (`blocksFrom_of_nested`), and by induction on the levels, at no
depth do they differ on a text that leaves the last level free (`parseTo_of_nested`).
-/

namespace Creole.Block

open List Text Node

variable {page : PageRef} {line : Text} {rest ls : List Text}

/-! ### Quoted lines -/

theorem opens_of_not_quoted (h : isQuoted line = false) (quotable quotable' : Bool) :
    opens quotable line rest = opens quotable' line rest := by
  simp [opens, h]

theorem not_blank_of_isQuoted (h : isQuoted line = true) : blank line = false := by
  obtain ⟨rest, -, hstart⟩ := trimStart_of_isQuoted h
  exact not_blank_of_trimStart hstart

theorem blockAt?_of_isQuoted (h : isQuoted line = true) (read : Text → List Node)
    (rest : List Text) :
    blockAt? page (some read) line rest =
      some ([.mk .blockquote (read (unlines ((line :: rest.takeWhile isQuoted).map unquote)))],
        rest.dropWhile isQuoted) := by
  simp [blockAt?, opener_of_isQuoted h]

theorem opens_of_isQuoted (h : isQuoted line = true) (rest : List Text) :
    opens true line rest = true := by
  have hblock := @isSome_blockAt? default (some fun _ => []) line rest
  rw [blockAt?_of_isQuoted h] at hblock
  exact hblock.symm

/-- What is read of lines that begin with a quoted line begins with a quote. -/
theorem exists_quote_mem_blocksFrom (h : isQuoted line = true) (read : Text → List Node)
    (rest : List Text) :
    ∃ s, Node.mk .blockquote (read s) ∈ blocksFrom page (some read) [] (line :: rest) := by
  have hblock := @blockAt?_of_isQuoted page line h read rest
  rw [blocksFrom_of_block (not_blank_of_isQuoted h) hblock]
  exact ⟨_, mem_append_left _ (mem_append_right _ mem_cons_self)⟩

/-! ### Lists that no quote ends -/

/-- An item ends at the same line whether quotes may open there or not, unless a quote does. -/
theorem continuation_of_not_quoted
    (h : ∀ line ∈ (continuation true ls).2.head?, isQuoted line = false) :
    continuation false ls = continuation true ls := by
  induction ls with
  | nil => rfl
  | cons line rest ih =>
      have hline : isQuoted line = false := by
        refine Bool.eq_false_iff.mpr fun hquoted => ?_
        have hends : (continuation true (line :: rest)).2 = line :: rest := by
          rw [continuation, opens_of_isQuoted hquoted, Bool.or_true, if_pos rfl]
        rw [hends] at h
        exact Bool.eq_false_iff.mp (h line rfl) hquoted
      rw [continuation] at h
      rw [continuation, continuation, opens_of_not_quoted hline false true]
      split
      · rfl
      · next hcontinues =>
        rw [if_neg hcontinues] at h
        rw [ih h]

theorem items_of_not_quoted (h : ∀ line ∈ (items true ls).2.head?, isQuoted line = false) :
    items false ls = items true ls := by
  fun_induction items true ls with
  | case1 => rw [items]
  | case2 line rest hitem => rw [items, hitem]
  | case3 line rest item hitem following more behind hitems ih =>
      rw [hitems] at ih
      have hfollowing : continuation false rest = following := by
        refine continuation_of_not_quoted fun next hnext => ?_
        refine Bool.eq_false_iff.mpr fun hquoted => ?_
        -- a quoted line begins no item, so that it is what the list leaves
        obtain ⟨after, hafter⟩ := head?_eq_some_iff.mp hnext
        have hitem' : Item.of? next = none := by
          rw [Item.of?, splitItem_of_isQuoted hquoted]
          rfl
        have hleft : items true following.2 = ([], next :: after) := by
          rw [hafter, items, hitem']
        rw [hitems, Prod.mk.injEq] at hleft
        rw [hleft.2] at h
        exact Bool.eq_false_iff.mp (h next rfl) hquoted
      rw [items, hitem]
      simp only [hfollowing, ih h]

/-! ### Readers of different depths -/

section Nested

variable {shallow : Option (Text → List Node)} {deep : Text → List Node} {depth : Nat}

/-- Two readers agree on the text of every quote that nests no deeper than `depth`. -/
def AgreeTo (depth : Nat) (shallow : Option (Text → List Node)) (deep : Text → List Node) : Prop :=
  ∀ s, Nested Kind.isQuote depth (.mk .blockquote (deep s)) →
    ∃ read, shallow = some read ∧ read s = deep s

theorem AgreeTo.items (hagree : AgreeTo depth shallow deep)
    (h : ∀ node ∈ blocksFrom page (some deep) [] (items true ls).2,
      Nested Kind.isQuote depth node) :
    items shallow.isSome ls = items true ls := by
  cases shallow with
  | some read => rfl
  | none =>
      refine items_of_not_quoted fun next hnext => Bool.eq_false_iff.mpr fun hquoted => ?_
      obtain ⟨after, hafter⟩ := head?_eq_some_iff.mp hnext
      obtain ⟨s, hquote⟩ := @exists_quote_mem_blocksFrom page next hquoted deep after
      rw [hafter] at h
      obtain ⟨read, hnone, -⟩ := hagree s (h _ hquote)
      cases hnone

theorem AgreeTo.blockAt? {behind : List Text} {nodes : List Node}
    (hagree : AgreeTo depth shallow deep)
    (hblock : blockAt? page (some deep) line rest = some (nodes, behind))
    (hnodes : ∀ node ∈ nodes, Nested Kind.isQuote depth node)
    (hbehind : ∀ node ∈ blocksFrom page (some deep) [] behind, Nested Kind.isQuote depth node) :
    blockAt? page shallow line rest = some (nodes, behind) := by
  unfold Block.blockAt? at hblock ⊢
  cases hopener : Opener.of? line with
  | none => simp [hopener] at hblock
  | some opener =>
      rw [hopener] at hblock
      cases opener with
      | quote =>
          obtain ⟨rfl, rfl⟩ : [Node.mk .blockquote
              (deep (unlines ((line :: rest.takeWhile isQuoted).map unquote)))] = nodes ∧
              rest.dropWhile isQuoted = behind := by simpa using hblock
          obtain ⟨read, rfl, hread⟩ := hagree _ (hnodes _ mem_cons_self)
          simp only [Option.map_some, hread]
      | item =>
          obtain ⟨rfl, rfl⟩ : listNodes page (Block.items true (line :: rest)).1 = nodes ∧
              (Block.items true (line :: rest)).2 = behind := by simpa using hblock
          simp only [hagree.items hbehind]
      | _ => exact hblock

/-- If no quote nests deeper than readers agree, the same is read with both. -/
theorem blocksFrom_of_nested (hagree : AgreeTo depth shallow deep) (pending ls : List Text)
    (h : ∀ node ∈ blocksFrom page (some deep) pending ls, Nested Kind.isQuote depth node) :
    blocksFrom page shallow pending ls = blocksFrom page (some deep) pending ls := by
  fun_induction blocksFrom page (some deep) pending ls with
  | case1 pending => rw [blocksFrom]
  | case2 pending line rest hblank ih =>
      rw [forall_mem_append] at h
      rw [blocksFrom_of_blank hblank, ih h.2]
  | case3 pending line rest hblank nodes behind hblock ih =>
      rw [Bool.not_eq_true] at hblank
      rw [forall_mem_append, forall_mem_append] at h
      obtain ⟨⟨-, hnodes⟩, hbehind⟩ := h
      rw [blocksFrom_of_block hblank (hagree.blockAt? hblock hnodes hbehind), ih hbehind]
  | case4 pending line rest hblank hblock ih =>
      rw [Bool.not_eq_true] at hblank
      have hopens : opens true line rest = false := by
        rw [← Option.isSome_some (a := deep), ← @isSome_blockAt? page, hblock]
        rfl
      have hline : isQuoted line = false := by
        refine Bool.eq_false_iff.mpr fun hquoted => ?_
        rw [opens_of_isQuoted hquoted] at hopens
        cases hopens
      have hnone : blockAt? page shallow line rest = none := by
        rw [← Option.isNone_iff_eq_none, ← Option.isSome_eq_false_iff, isSome_blockAt?,
          opens_of_not_quoted hline _ true, hopens]
      rw [blocksFrom_of_text hblank hnone, ih h]

/-- Where a text leaves the last level of quotes free, a level less makes no difference. -/
theorem parseTo_of_nested (page : PageRef) (depth : Nat) (s : Text)
    (h : ∀ node ∈ parseTo page (depth + 1) s, Nested Kind.isQuote depth node) :
    parseTo page depth s = parseTo page (depth + 1) s := by
  induction depth generalizing s with
  | zero =>
      refine blocksFrom_of_nested (fun t hquote => ?_) [] (lines s) h
      obtain ⟨m, hm, -⟩ := hquote.exists_of_mk rfl
      cases hm
  | succ depth ih =>
      refine blocksFrom_of_nested (fun t hquote => ⟨parseTo page depth, rfl, ?_⟩) [] (lines s) h
      obtain ⟨m, hm, hbelow⟩ := hquote.exists_of_mk rfl
      obtain rfl : depth = m := by omega
      exact ih t hbelow

end Nested

/-! ### Quoted texts -/

/-- What is put before a quoted line. -/
def quoteMark : Text := ['>', ' ']

/-- The pieces between line feeds, with the mark of a quote before every line among them. -/
def quotePieces : List Text → List Text
  | [] => []
  | [last] => [if last.isEmpty then last else quoteMark ++ last]
  | piece :: next :: pieces => (quoteMark ++ piece) :: quotePieces (next :: pieces)

/-- The text with the mark of a quote before every line. -/
def quoteLines (s : Text) : Text := unlines (quotePieces (s.splitOn '\n'))

theorem quotePieces_ne_nil {ps : List Text} (h : ps ≠ []) : quotePieces ps ≠ [] := by
  fun_cases quotePieces ps <;> simp_all

theorem notMem_quotePieces {c : Char} (hc : c ∉ quoteMark) {ps : List Text}
    (h : ∀ piece ∈ ps, c ∉ piece) : ∀ piece ∈ quotePieces ps, c ∉ piece := by
  have hmark : ∀ piece : Text, c ∉ piece → c ∉ quoteMark ++ piece := fun _ =>
    not_mem_append hc
  fun_induction quotePieces ps with
  | case1 => exact h
  | case2 last =>
      have hlast := h last mem_cons_self
      refine forall_mem_singleton.mpr ?_
      split
      · exact hlast
      · exact hmark last hlast
  | case3 piece next pieces ih =>
      rw [forall_mem_cons] at h
      exact forall_mem_cons.mpr ⟨hmark piece h.1, ih h.2⟩

theorem ofPieces_quotePieces {ps : List Text} (h : ∀ piece ∈ ps, '\r' ∉ piece) :
    ofPieces (quotePieces ps) = (ofPieces ps).map (quoteMark ++ ·) := by
  fun_induction quotePieces ps with
  | case1 => rfl
  | case2 last =>
      by_cases hlast : last.isEmpty = true
      · rw [if_pos hlast, ofPieces, if_pos hlast, map_nil]
      · rw [if_neg hlast, ofPieces, ofPieces, if_neg hlast, if_neg (by simp [quoteMark]),
          map_singleton]
  | case3 piece next pieces ih =>
      rw [forall_mem_cons] at h
      have hmark : '\r' ∉ quoteMark ++ piece := not_mem_append (by decide) h.1
      obtain ⟨first, more, hmore⟩ := exists_cons_of_ne_nil
        (quotePieces_ne_nil (cons_ne_nil next pieces))
      rw [hmore, ofPieces, ← hmore, ih h.2, ofPieces, map_cons, dropReturn_of_notMem hmark,
        dropReturn_of_notMem h.1]

theorem lines_quoteLines {s : Text} (h : '\r' ∉ s) :
    lines (quoteLines s) = (lines s).map (quoteMark ++ ·) := by
  have hpieces : ∀ piece ∈ s.splitOn '\n', '\r' ∉ piece := fun _ => notMem_of_mem_splitOn h
  have hfeed : ∀ piece ∈ s.splitOn '\n', '\n' ∉ piece := fun _ => lineFeed_notMem_of_mem_splitOn
  have hsplit : (quoteLines s).splitOn '\n' = quotePieces (s.splitOn '\n') :=
    splitOn_intercalate '\n' (notMem_quotePieces (by decide) hfeed)
      (quotePieces_ne_nil (splitOn_ne_nil _ _))
  rw [lines, hsplit, ofPieces_quotePieces hpieces, lines]

/-- A line feed at the end of a text changes nothing. -/
theorem parseTo_append_lineFeed (page : PageRef) (depth : Nat) {s : Text} (h : '\r' ∉ s) :
    parseTo page depth (s ++ ['\n']) = parseTo page depth s := by
  have hread : ∀ quoted, blocksFrom page quoted [] (lines (s ++ ['\n'])) =
      blocksFrom page quoted [] (lines s) := by
    intro quoted
    have hlines : lines (s ++ ['\n']) = s.splitOn '\n' := by
      rw [lines_append h]
      exact append_nil _
    rcases splitOn_eq_lines h with heq | heq
    · rw [hlines, heq]
    · rw [hlines, heq, blocksFrom_append_nil]
  cases depth <;> exact hread _

/-- The lines of a text, put together, are read as the text is. -/
theorem parseTo_unlines_lines (page : PageRef) (depth : Nat) {s : Text} (h : '\r' ∉ s) :
    parseTo page depth (unlines (lines s)) = parseTo page depth s := by
  rw [unlines_lines h, dropLineFeed]
  split
  · next hlast =>
    obtain ⟨t, rfl⟩ := getLast?_eq_some_iff.mp hlast
    have ht : '\r' ∉ t := fun hmem => h (mem_append_left _ hmem)
    rw [dropLast_concat, parseTo_append_lineFeed page depth ht]
  · rfl

theorem isQuoted_quoteMark_append (line : Text) : isQuoted (quoteMark ++ line) = true := rfl

/-- Lines with the mark of a quote before each of them are one quote. -/
theorem blocksFrom_map_quoteMark (read : Text → List Node) (hne : ls ≠ []) :
    blocksFrom page (some read) [] (ls.map (quoteMark ++ ·)) =
      [.mk .blockquote (read (unlines ls))] := by
  obtain ⟨first, more, rfl⟩ := exists_cons_of_ne_nil hne
  have hmore : ∀ line ∈ more.map (quoteMark ++ ·), isQuoted line = true :=
    forall_mem_map.mpr fun line _ => isQuoted_quoteMark_append line
  have hback : unquote ∘ (quoteMark ++ ·) = id := rfl
  have hfirst := isQuoted_quoteMark_append first
  have hblock := @blockAt?_of_isQuoted page _ hfirst read (more.map (quoteMark ++ ·))
  rw [takeWhile_eq_self_iff.mpr hmore, dropWhile_eq_nil_iff.mpr hmore, ← map_cons, map_map, hback,
    map_id] at hblock
  rw [map_cons, blocksFrom_of_whole (not_blank_of_isQuoted hfirst) hblock]

/-- Quoting a text puts a quote around what it is read as, if that has room for one more. -/
theorem parse_quoteLines (page : PageRef) {s : Text} (hreturn : '\r' ∉ s) (hlines : lines s ≠ [])
    (hnested : ∀ node ∈ parse page s, ∀ path ∈ node.paths, path.countP Kind.isQuote ≤ 31) :
    parse page (quoteLines s) = [.mk .blockquote (parse page s)] := by
  have hdeeper : parseTo page 31 s = parse page s := parseTo_of_nested page 31 s hnested
  rw [parse_eq_blocksFrom, lines_quoteLines hreturn, blocksFrom_map_quoteMark _ hlines,
    parseTo_unlines_lines page 31 hreturn, hdeeper]

/-- A list that a quote ends, inside the quote a list, and a fence around a blank line, with
a blank line at the end. -/
def sampleReply : Text := "* a\n> * b\n>> c\n\n```\n\n> d\n```\n\n".toList

theorem parse_quoteLines_sampleReply :
    ('\r' ∉ sampleReply ∧ lines sampleReply ≠ [] ∧
      ∀ node ∈ parse (.onLocal []) sampleReply, ∀ path ∈ node.paths,
        path.countP Kind.isQuote ≤ 31) ∧
    quoteLines sampleReply =
      "> * a\n> > * b\n> >> c\n> \n> ```\n> \n> > d\n> ```\n> \n".toList ∧
    parse (.onLocal []) (quoteLines sampleReply) =
      [.mk .blockquote (parse (.onLocal []) sampleReply)] := by
  have hreturn : '\r' ∉ sampleReply := by decide +kernel
  have hlines : lines sampleReply ≠ [] := by decide +kernel
  have hnested : ∀ node ∈ parse (.onLocal []) sampleReply, ∀ path ∈ node.paths,
      path.countP Kind.isQuote ≤ 31 := by decide +kernel
  exact ⟨⟨hreturn, hlines, hnested⟩, by decide +kernel,
    parse_quoteLines (.onLocal []) hreturn hlines hnested⟩

end Creole.Block
