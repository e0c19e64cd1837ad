import Creole.Block.Table
import Creole.Proofs.Inline.Truncated

/-!
# Where a row is cut

The cells of a row are cut at bars by a scan of its own, which knows the marks that enclose a
text but not what they mean.  It cuts nowhere within printed nodes (`passed_print`), so that the
cells of a row are the texts that were written between its bars (`splitCells_of_passed`).

The scan does not know the tags around code in a language.  Code is kept together, whatever
follows, just if its markup is `undivided`: no bar stands in it outside of other marks, and no mark
is left open in it (`keeps_code_iff`).

## Strategy

`Passed` says that the scan goes on behind a text as if it began there.  It holds of what the scan
steps over at once, of characters that open nothing, and of two texts in a row if it holds of each
(`sequential_passed`).
-/

namespace Creole.Block

open List Inline

variable {s a b tail : Text} {mark : Mark} {n : Nat}

/-! ## Texts that are passed over -/

theorem prependPiece_ne_nil (s : Text) (ps : List Text) : prependPiece s ps ≠ [] := by
  cases ps <;> exact cons_ne_nil _ _

theorem pieces_ne_nil (s : Text) : pieces s ≠ [] := by
  fun_induction pieces s with
  | case1 | case3 => exact cons_ne_nil _ _
  | case2 | case4 => exact prependPiece_ne_nil _ _

theorem pieces_nil : pieces [] = [[]] := by rw [pieces]

theorem prependPiece_append (a b : Text) (ps : List Text) :
    prependPiece (a ++ b) ps = prependPiece a (prependPiece b ps) := by
  cases ps <;> simp [prependPiece]

/-- Behind the text, the row is cut as if it began there. -/
def Passed (s tail : Text) : Prop := pieces (s ++ tail) = prependPiece s (pieces tail)

theorem sequential_passed : Sequential Passed where
  nil {tail} := by
    obtain ⟨piece, ps, hpieces⟩ := exists_cons_of_ne_nil (pieces_ne_nil tail)
    rw [Passed, nil_append, hpieces, prependPiece, nil_append]
  append {a b tail} ha hb := by
    rw [Passed, append_assoc, ha, hb, prependPiece_append]

/-- A text is passed over that the scan steps over at once. -/
theorem passed_of_shielded (hne : s ≠ []) (h : shieldedLength? (s ++ tail) = some s.length) :
    Passed s tail := by
  obtain ⟨c, s, rfl⟩ := exists_cons_of_ne_nil hne
  have hlength : max 1 (c :: s).length = (c :: s).length := by simp
  rw [cons_append] at h
  rw [Passed, cons_append, pieces]
  simp only [h, hlength]
  rw [← cons_append, take_left, drop_left]

theorem passed_singleton {c : Char} (h : shieldedLength? (c :: tail) = none) (hbar : c ≠ '|') :
    Passed [c] tail := by
  rw [Passed, singleton_append, pieces]
  simp only [h, hbar, if_false]

theorem shieldedLength?_eq_none
    (h : ∀ mark ∈ Mark.of? s, mark = .lineBreak ∨ ∃ style, mark = .style style) :
    shieldedLength? s = none := by
  unfold shieldedLength?
  cases hmark : Mark.of? s with
  | none => rfl
  | some mark => rcases h mark hmark with rfl | ⟨style, rfl⟩ <;> rfl

theorem shieldedLength?_of_inert {c : Char} (h : c ∉ openers) (s : Text) :
    shieldedLength? (c :: s) = none :=
  shieldedLength?_eq_none fun _ => mark_of_inert h

theorem passed_of_inert (h : ∀ c ∈ s, c ∉ openers ∧ c ≠ '|') : Passed s tail :=
  sequential_passed.of_singleton fun c hc =>
    passed_singleton (shieldedLength?_of_inert (h c hc).1 _) (h c hc).2

theorem pieces_bar (tail : Text) : pieces ('|' :: tail) = [] :: pieces tail := by
  have hbar : '|' ∉ openers := by decide
  rw [pieces]
  simp only [shieldedLength?_of_inert hbar, if_true]

/-! ## What the scan steps over -/

/-- The marks behind which bars separate no cells, up to where they are closed. -/
def enclosingMarks : List Mark := [.verbatim, .image, .link, .call]

theorem shieldedLength?_of_escape (h : Mark.of? s = some .escape) :
    shieldedLength? s = some (min 2 s.length) := by
  rw [shieldedLength?, h]

theorem shieldedLength?_of_enclosing (hmark : mark ∈ enclosingMarks) (h : Mark.of? s = some mark) :
    shieldedLength? s =
      (Text.cut? mark.closing (s.drop mark.text.length)).map fun (body, _) => mark.reach body := by
  simp only [enclosingMarks, mem_cons, not_mem_nil, or_false] at hmark
  rw [shieldedLength?, h]
  rcases hmark with rfl | rfl | rfl | rfl <;> rfl

theorem passed_escape (c : Char) : Passed ['~', c] tail := by
  have hmark : Mark.of? ('~' :: c :: tail) = some .escape := of?_append .escape (by simp)
  refine passed_of_shielded (cons_ne_nil _ _) ?_
  rw [cons_append, cons_append, nil_append, shieldedLength?_of_escape hmark]
  simp

/-- What is enclosed by marks is passed over, up to the first closing mark. -/
theorem passed_of_cut? {body more : Text} (hmark : mark ∈ enclosingMarks)
    (h : Mark.of? (enclosed mark body ++ tail) = some mark)
    (hcut : Text.cut? mark.closing (body ++ (mark.closing ++ tail)) = some (body, more)) :
    Passed (enclosed mark body) tail := by
  refine passed_of_shielded (by simp [enclosed, text_ne_nil]) ?_
  rw [shieldedLength?_of_enclosing hmark h, enclosed_append, drop_left, hcut, length_enclosed]
  rfl

/-- Behind the first three braces that close a verbatim text, its other braces are passed over
one by one. -/
theorem passed_verbatim {body : Text} (h : Found .verbatim body) (htail : Unbraced tail) :
    Passed (enclosed .verbatim body) tail := by
  obtain ⟨⟨stem, more⟩, hcut, hbody⟩ := Option.map_eq_some_iff.mp (h.body htail)
  obtain ⟨run, hbraces, rfl⟩ : ∃ run : Text, (∀ c ∈ run, c = '}') ∧ stem ++ run = body :=
    ⟨_, fun c hc => by simpa using all_eq_true.mp all_takeWhile c hc, hbody⟩
  have hsplit : enclosed .verbatim (stem ++ run) = enclosed .verbatim stem ++ run := by
    simp only [enclosed, append_assoc, append_closing_verbatim hbraces]
  have hmark := h.of? tail
  rw [hsplit, append_assoc] at hmark
  rw [append_assoc, ← append_assoc run, append_closing_verbatim hbraces, append_assoc] at hcut
  rw [hsplit]
  refine sequential_passed.append (passed_of_cut? (by decide) hmark hcut) (passed_of_inert ?_)
  intro c hc
  rw [hbraces c hc]
  decide

theorem passed_enclosed {body : Text} (hmark : mark ∈ enclosingMarks) (h : Found mark body)
    (htail : Unbraced tail) : Passed (enclosed mark body) tail := by
  by_cases hverbatim : mark = .verbatim
  · subst hverbatim
    exact passed_verbatim h htail
  · have hbody := h.body htail
    rw [body?_eq_cut? (by simpa [enclosingMarks, hverbatim] using hmark)] at hbody
    obtain ⟨⟨before, more⟩, hcut, rfl⟩ := Option.map_eq_some_iff.mp hbody
    exact passed_of_cut? hmark (h.of? tail) hcut

/-! ## Texts that are kept together -/

/-- Whether no bar in a text separates cells and no mark is left open that a text behind it could
close. -/
def undivided (s : Text) : Bool :=
  match s with
  | [] => true
  | c :: cs =>
    match shieldedLength? (c :: cs) with
    | some n => undivided ((c :: cs).drop (max 1 n))
    | none =>
      c ≠ '|' && (enclosingMarks.all fun mark => !Text.opens mark.text (c :: cs)) && undivided cs
termination_by s.length
decreasing_by all_goals simp only [List.length_drop, List.length_cons]; omega

/-- No mark goes on behind the text. -/
def Ends (s : Text) : Prop := ∀ c ∈ s.getLast?, ∀ mark : Mark, c ∉ mark.text

theorem Ends.of_isSuffix (h : Ends s) (hsuffix : a <:+ s) : Ends a := by
  intro c hc
  obtain ⟨before, rfl⟩ := hsuffix
  refine h c ?_
  rw [getLast?_append, Option.mem_def.mp hc]
  rfl

theorem of?_append_of_ends (h : Ends s) (hne : s ≠ []) (tail : Text) :
    Mark.of? (s ++ tail) = Mark.of? s := by
  obtain ⟨c, hc⟩ : ∃ c, s.getLast? = some c := ⟨_, getLast?_eq_some_getLast hne⟩
  have hlast := h c hc
  cases hlonger : Mark.of? (s ++ tail) with
  | some mark =>
      obtain ⟨rest, heq⟩ := eq_of_of? hlonger
      refine (of?_of_append hlonger (Nat.le_of_not_lt fun hshort => ?_)).symm
      -- a mark that reaches further would hold the last character
      have hin : s <+: mark.text :=
        prefix_of_prefix_length_le (prefix_append s tail) ⟨rest, heq.symm⟩ hshort.le
      exact hlast mark (hin.subset (mem_of_getLast? hc))
  | none =>
      cases hmark : Mark.of? s with
      | none => rfl
      | some mark =>
          obtain ⟨rest, rfl⟩ := eq_of_of? hmark
          have hfound : Mark.of? (mark.text ++ rest ++ tail) = some mark := by
            refine of?_append_of_head hmark fun himage hrest => ?_
            subst himage hrest
            exact absurd (hlast .image (mem_of_getLast? hc)) not_false
          rw [hfound] at hlonger
          cases hlonger

theorem shieldedLength?_cases (h : shieldedLength? s = some n) :
    (Mark.of? s = some .escape ∧ n = min 2 s.length) ∨
      ∃ mark ∈ enclosingMarks, Mark.of? s = some mark ∧
        ∃ body more, Text.cut? mark.closing (s.drop mark.text.length) = some (body, more) ∧
          n = mark.reach body := by
  cases hmark : Mark.of? s with
  | none => simp [shieldedLength?, hmark] at h
  | some mark =>
      cases mark with
      | escape =>
          rw [shieldedLength?_of_escape hmark] at h
          exact Or.inl ⟨rfl, (Option.some.inj h).symm⟩
      | lineBreak | style => simp [shieldedLength?, hmark] at h
      | _ =>
          rw [shieldedLength?_of_enclosing (by decide) hmark] at h
          obtain ⟨⟨body, more⟩, hcut, rfl⟩ := Option.map_eq_some_iff.mp h
          exact Or.inr ⟨_, by decide, rfl, body, more, hcut, rfl⟩

/-- What the scan steps over in a text does not depend on what is behind the text. -/
theorem shieldedLength?_append (hends : Ends s) (h : shieldedLength? s = some n) (tail : Text) :
    1 ≤ n ∧ n ≤ s.length ∧ shieldedLength? (s ++ tail) = some n := by
  have hne : s ≠ [] := by
    rintro rfl
    cases h
  have hfound := of?_append_of_ends hends hne tail
  rcases shieldedLength?_cases h with ⟨hmark, rfl⟩ | ⟨mark, hin, hmark, body, more, hcut, rfl⟩
  · -- the last character is no escape, so that another one follows the first
    rw [hmark] at hfound
    obtain ⟨rest, rfl⟩ := eq_of_of? hmark
    cases rest with
    | nil => exact absurd (by simp [Mark.text]) (hends '~' rfl .escape)
    | cons c rest =>
        rw [shieldedLength?_of_escape hfound]
        simp [Mark.text]
  · rw [hmark] at hfound
    obtain ⟨rest, rfl⟩ := eq_of_of? hmark
    have hlength := mark.one_le_length_text
    rw [drop_left] at hcut
    rw [shieldedLength?_of_enclosing hin hfound, append_assoc, drop_left,
      Text.cut?_append hcut]
    have hcutLength := Text.length_of_cut? hcut
    refine ⟨?_, ?_, rfl⟩
    · rw [Mark.reach]
      omega
    · rw [Mark.reach, length_append]
      omega

/-- What the scan steps over first in a text is passed over, whatever is behind the text. -/
theorem passed_take (hends : Ends s) (hn : shieldedLength? s = some n) (tail : Text) :
    Passed (s.take (max 1 n)) (s.drop (max 1 n) ++ tail) := by
  obtain ⟨hpos, hle, hlonger⟩ := shieldedLength?_append hends hn tail
  have hmax : max 1 n = n := by omega
  rw [hmax]
  refine passed_of_shielded ?_ ?_
  · rw [← length_pos_iff, length_take]
    omega
  · rw [← append_assoc, take_append_drop, hlonger, length_take, Nat.min_eq_left hle]

theorem passed_first {c : Char} {cs : Text} (hends : Ends (c :: cs))
    (hn : shieldedLength? (c :: cs) = none) (hbar : c ≠ '|')
    (hopen : ∀ mark ∈ enclosingMarks, Text.opens mark.text (c :: cs) = false) (tail : Text) :
    Passed [c] (cs ++ tail) := by
  refine passed_singleton (shieldedLength?_eq_none fun mark hmark => ?_) hbar
  rw [← cons_append, of?_append_of_ends hends (cons_ne_nil _ _)] at hmark
  have hopens : Text.opens mark.text (c :: cs) = true := Text.opens_iff.mpr (eq_of_of? hmark)
  cases mark with
  | lineBreak => exact Or.inl rfl
  | style style => exact Or.inr ⟨style, rfl⟩
  | escape =>
      rw [shieldedLength?_of_escape hmark] at hn
      cases hn
  | _ => exact absurd hopens (Bool.eq_false_iff.mp (hopen _ (by decide)))

theorem passed_of_undivided (hends : Ends s) (h : undivided s = true) (tail : Text) :
    Passed s tail := by
  fun_induction undivided s with
  | case1 => exact sequential_passed.nil
  | case2 c cs n hn ih =>
      have hrest := ih (hends.of_isSuffix (drop_suffix _ _)) h
      have hwhole := sequential_passed.append (passed_take hends hn tail) hrest
      rwa [take_append_drop] at hwhole
  | case3 c cs hn ih =>
      simp only [Bool.and_eq_true, decide_eq_true_eq, all_eq_true, Bool.not_eq_true'] at h
      obtain ⟨⟨hbar, hopen⟩, hrest⟩ := h
      exact sequential_passed.append (passed_first hends hn hbar hopen tail)
        (ih (hends.of_isSuffix (suffix_cons c cs)) hrest)

/-! ### Texts that are not kept together -/

theorem prependPiece_inj {ps qs : List Text} (hps : ps ≠ []) (hqs : qs ≠ [])
    (h : prependPiece s ps = prependPiece s qs) : ps = qs := by
  obtain ⟨p, ps, rfl⟩ := exists_cons_of_ne_nil hps
  obtain ⟨q, qs, rfl⟩ := exists_cons_of_ne_nil hqs
  simpa [prependPiece] using h

theorem Passed.of_append (h : Passed (a ++ b) tail) (ha : Passed a (b ++ tail)) :
    Passed b tail := by
  rw [Passed, append_assoc, ha, prependPiece_append] at h
  exact prependPiece_inj (pieces_ne_nil _) (prependPiece_ne_nil _ _) h

/-- A mark that is open in a text is closed by the first closing mark behind it. -/
theorem closes_of_cut?_eq_none {closing : Text} {c : Char} (hc : c ∉ closing)
    (h : Text.cut? closing s = none) : Closes closing (s ++ [c]) := by
  have hopens := Text.opens_append_cons_eq_false hc (Text.opens_of_cut?_eq_none h) closing
  rw [Closes, append_assoc, singleton_append]
  induction s with
  | nil =>
      have hself := Text.cut?_append_self closing []
      rw [append_nil] at hself
      rw [nil_append] at hopens ⊢
      rw [Text.cut?_cons_of_opens hopens, hself]
      rfl
  | cons d s ih =>
      rw [Text.cut?_cons_of_opens (Text.opens_of_cut?_eq_none h), Option.map_eq_none_iff] at h
      rw [cons_append] at hopens ⊢
      rw [Text.cut?_cons_of_opens hopens,
        ih h (Text.opens_append_cons_eq_false hc (Text.opens_of_cut?_eq_none h) closing)]
      rfl

theorem exists_of?_of_opens (hmark : mark ∈ enclosingMarks) (h : Text.opens mark.text s = true) :
    ∃ found ∈ enclosingMarks, Mark.of? s = some found := by
  obtain ⟨rest, rfl⟩ := Text.opens_iff.mp h
  simp only [enclosingMarks, mem_cons, not_mem_nil, or_false] at hmark
  rcases hmark with rfl | rfl | rfl | rfl
  · exact ⟨.verbatim, by decide, of?_append .verbatim (by simp)⟩
  · by_cases hbrace : rest.head? = some '{'
    · obtain ⟨more, rfl⟩ := head?_eq_some_iff.mp hbrace
      exact ⟨.verbatim, by decide, of?_append .verbatim (by simp)⟩
    · exact ⟨.image, by decide, of?_append .image fun _ => hbrace⟩
  · exact ⟨.link, by decide, of?_append .link (by simp)⟩
  · exact ⟨.call, by decide, of?_append .call (by simp)⟩

theorem bar_notMem_closing (mark : Mark) : '|' ∉ mark.closing := by
  cases mark with
  | style s => cases s <;> decide
  | _ => decide

/-- A mark that is left open in a text makes one cell of the text, a bar and what closes it. -/
theorem not_passed_of_open (hmark : mark ∈ enclosingMarks) (hends : Ends s)
    (hn : shieldedLength? s = none) (h : Mark.of? s = some mark) :
    ¬ Passed s ('|' :: mark.closing) := by
  intro hpassed
  have hne : s ≠ [] := by
    rintro rfl
    cases h
  have hfound := of?_append_of_ends hends hne ('|' :: mark.closing)
  rw [h] at hfound
  rw [shieldedLength?_of_enclosing hmark h, Option.map_eq_none_iff] at hn
  obtain ⟨rest, rfl⟩ := eq_of_of? h
  rw [drop_left] at hn
  have hcut := cut?_of_closes (closes_of_cut?_eq_none (bar_notMem_closing mark) hn) []
  have hshape : mark.text ++ rest ++ '|' :: mark.closing =
      enclosed mark (rest ++ ['|']) ++ [] := by simp [enclosed]
  have hwhole : Passed (enclosed mark (rest ++ ['|'])) [] := by
    rw [hshape] at hfound
    exact passed_of_cut? hmark hfound hcut
  rw [Passed, hshape, hwhole, pieces_bar, pieces_nil] at hpassed
  exact pieces_ne_nil _ (cons.inj hpassed).2.symm

/-- Just the undivided texts are kept together whatever is behind them. -/
theorem forall_passed_iff (hends : Ends s) :
    (∀ tail, Passed s tail) ↔ undivided s = true := by
  refine ⟨fun h => ?_, fun h => passed_of_undivided hends h⟩
  fun_induction undivided s with
  | case1 => rfl
  | case2 c cs n hn ih =>
      refine ih (hends.of_isSuffix (drop_suffix _ _)) fun tail => ?_
      refine Passed.of_append ?_ (passed_take hends hn tail)
      rw [take_append_drop]
      exact h tail
  | case3 c cs hn ih =>
      have hbar : c ≠ '|' := by
        rintro rfl
        have hfirst := h []
        rw [Passed, append_nil, pieces_bar, pieces_nil] at hfirst
        cases hfirst
      have hopen : ∀ mark ∈ enclosingMarks, Text.opens mark.text (c :: cs) = false := by
        intro mark hmark
        refine Bool.eq_false_iff.mpr fun hopens => ?_
        obtain ⟨found, hin, hfound⟩ := exists_of?_of_opens hmark hopens
        exact not_passed_of_open hin hends hn hfound (h _)
      have hrest : undivided cs = true := by
        refine ih (hends.of_isSuffix (suffix_cons c cs)) fun tail => ?_
        exact Passed.of_append (h tail) (passed_first hends hn hbar hopen tail)
      simpa [hbar, hrest] using hopen

/-! ## Printed nodes -/

/-- Whether the markup of a kind is kept together.  It is, unless it is that of code. -/
def keeps : Kind → Bool
  | .inlineCode code (some language) => undivided (printCode code language)
  | _ => true

theorem passed_printChar (c : Char) : Passed (printChar c) tail := by
  rw [printChar]
  split
  · next hblank =>
    refine passed_of_inert (forall_mem_singleton.mpr ⟨notMem_openers_of_isBlank hblank, ?_⟩)
    rintro rfl
    exact absurd hblank (by decide)
  · exact passed_escape c

/-- The markup of code ends with the end of a tag, which no mark holds. -/
theorem ends_printCode (code language : Text) : Ends (printCode code language) := by
  intro c hc mark
  obtain ⟨before, hshape⟩ : ∃ before, printCode code language = before ++ [']'] :=
    ⟨"[<".toList ++ language ++ ">]".toList ++ code ++ "[</".toList ++ language ++ ['>'],
      by simp [printCode, codeEnd]⟩
  rw [hshape, getLast?_concat] at hc
  obtain rfl : ']' = c := by simpa using hc
  cases mark with
  | style s => cases s <;> decide
  | _ => decide

/-- Code is kept together just if it is passed over whatever is behind it. -/
theorem keeps_code_iff (code language : Text) :
    keeps (.inlineCode code (some language)) = true ↔
      ∀ tail, Passed (printCode code language) tail :=
  (forall_passed_iff (ends_printCode code language)).symm

theorem passed_printKind {page : PageRef} {kind : Kind} (h : PrintableKind page kind)
    (hkeeps : keeps kind = true) (htail : Unbraced tail) : Passed (printKind kind []) tail := by
  have hfound {mark : Mark} {body : Text} (henclosure : enclosure? kind = some (mark, body)) :=
    found_of_enclosure h henclosure
  cases h with
  | text => exact sequential_passed.text (fun c _ _ => passed_printChar c) _ htail
  | linebreak => exact passed_of_inert (by simp [printKind, Mark.text, openers, schemeHeads])
  | inlineCode => exact (keeps_code_iff _ _).mp hkeeps tail
  | _ => exact passed_enclosed (by decide) (hfound rfl) htail

theorem passed_print {page : PageRef} {node : Node} (h : Printable page node)
    (hkeeps : ∀ kind ∈ node.kinds, keeps kind = true) (htail : Unbraced tail) :
    Passed (print node) tail := by
  refine sequential_passed.print h (fun kind hkind hprintable _ => ?_) (fun style _ _ => ?_) htail
  · exact passed_printKind hprintable (hkeeps kind hkind)
  · refine passed_of_inert ?_
    cases style <;> simp [Mark.text, openers, schemeHeads]

/-! ## Cells -/

theorem pieces_of_passed {cells : List Text}
    (h : ∀ cell ∈ cells, ∀ tail, Passed cell ('|' :: tail)) :
    pieces (cells.flatMap (· ++ ['|'])) = cells ++ [[]] := by
  induction cells with
  | nil => exact pieces_nil
  | cons cell cells ih =>
      rw [forall_mem_cons] at h
      rw [flatMap_cons, append_assoc, singleton_append, h.1, pieces_bar, ih h.2, prependPiece,
        append_nil, cons_append]

theorem dropBlankLast_append_nil (ps : List Text) : dropBlankLast (ps ++ [[]]) = ps := by
  induction ps with
  | nil => rfl
  | cons piece ps ih =>
      obtain ⟨next, more, hmore⟩ := exists_cons_of_ne_nil (append_ne_nil_of_right_ne_nil ps
        (cons_ne_nil [] []))
      rw [cons_append, hmore, dropBlankLast, ← hmore, ih]

/-- A row is cut into the texts that stand between its bars, if each is passed over. -/
theorem splitCells_of_passed {cells : List Text}
    (h : ∀ cell ∈ cells, ∀ tail, Passed cell ('|' :: tail)) :
    splitCells ('|' :: cells.flatMap (· ++ ['|'])) = cells := by
  have hafter : Text.after? ['|'] ('|' :: cells.flatMap (· ++ ['|'])) =
      some (cells.flatMap (· ++ ['|'])) := Text.after?_append ['|'] _
  rw [splitCells, hafter, Option.getD_some, pieces_of_passed h, dropBlankLast_append_nil]

end Creole.Block
