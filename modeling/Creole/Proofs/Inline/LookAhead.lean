import Creole.Proofs.Inline.Leaves

/-!
# Looking ahead over printed nodes

The search for the end of an emphasis passes over the markup of every printable node
that has no emphasis of that style in it (`passes_print`).  So it finds the mark
behind printed children and no mark before that (`closing?_flatMap_print`).

## Strategy

`Passes` says that the search goes on behind some markup as if it began there.  It
holds of markup that the look-ahead steps over at once, and of two pieces of markup
in a row if it holds of each (`sequential_passes`), and so of printed nodes if it holds
of printed leaves and of marks.
-/

namespace Creole.Inline

/-! ## Passing over markup -/

/-- Where a search that begins behind the markup finds the mark, one that begins in
front of it finds it too. -/
def Passes (mark markup tail : Text) : Prop :=
  ∀ n, (∀ previous, closing? mark previous tail = some n) →
    ∀ previous, closing? mark previous (markup ++ tail) = some (markup.length + n)

section Passes

variable {mark a tail : Text}

theorem sequential_passes (mark : Text) : Sequential (Passes mark) where
  nil n h previous := by
    rw [List.nil_append, List.length_nil, Nat.zero_add]
    exact h previous
  append {a b tail} ha hb n h previous := by
    rw [List.append_assoc, List.length_append, Nat.add_assoc]
    exact ha (b.length + n) (hb n h) previous

/-- Markup is passed over that the look-ahead takes in one stride. -/
theorem passes_of_stride (hne : a ≠ []) (hopens : Text.opens mark (a ++ tail) = false)
    (hstride : ∀ previous, stride previous (a ++ tail) = a.length) : Passes mark a tail := by
  intro n h previous
  obtain ⟨c, a, rfl⟩ := List.exists_cons_of_ne_nil hne
  rw [List.cons_append] at hopens hstride ⊢
  have hdrop : (c :: (a ++ tail)).drop (c :: a).length = tail := by simp
  rw [closing?, if_neg (Bool.eq_false_iff.mp hopens)]
  simp only [hstride, hdrop, h, Option.map_some]

end Passes

/-! ## Single characters -/

/-- Characters are passed over that open nothing and are not in the mark. -/
theorem passes_of_inert {mark : Mark} {markup : Text} (tail : Text)
    (h : ∀ c ∈ markup, c ∉ openers ∧ c ∉ mark.text) : Passes mark.text markup tail := by
  refine (sequential_passes mark.text).of_singleton fun c hc {tail} => ?_
  refine passes_of_stride (by simp) (opens_eq_false_of_notMem (h c hc).2 _) fun previous => ?_
  rw [List.singleton_append, stride, atomicLength_of_inert (h c hc).1]
  rfl

/-! ## Leaves -/

section Style

variable {style : Style} {tail : Text}

theorem passes_whole {page : PageRef} {token : Token} {markup : Text}
    (h : Whole page token markup) (htail : Unbraced tail) :
    Passes (Mark.style style).text markup tail := by
  have hlength := one_le_atomicLength (h.atomicLength htail none)
  refine passes_of_stride (List.length_pos_iff.mp hlength) (h.style htail style) fun previous => ?_
  rw [stride, h.atomicLength htail]
  rfl

theorem passes_printChar (c : Char) (htail : Unbraced tail) :
    Passes (Mark.style style).text (printChar c) tail := by
  cases hblank : isBlank c with
  | true =>
      rw [printChar, hblank, if_pos rfl]
      exact passes_of_inert tail (List.forall_mem_singleton.mpr
        ⟨notMem_openers_of_isBlank hblank, notMem_text_of_isBlank hblank _⟩)
  | false =>
      have hwhole : Whole default (.literal [c]) ['~', c] := whole_escape hblank
      rw [printChar, hblank, if_neg Bool.false_ne_true]
      exact passes_whole hwhole htail

theorem passes_printKind {page : PageRef} {kind : Kind} (h : PrintableKind page kind)
    (htail : Unbraced tail) : Passes (Mark.style style).text (printKind kind []) tail := by
  rcases Node.text_or_not_text kind with ⟨content, escaped, rfl⟩ | htext
  · exact (sequential_passes _).text (fun c _ => passes_printChar c) content htail
  · by_cases hbreak : kind = .linebreak
    · subst hbreak
      refine passes_of_inert tail ?_
      cases style <;> simp [printKind, Mark.text, openers, schemeHeads]
    · exact passes_whole (whole_of_printable h htext hbreak) htail

/-! ## Printed nodes -/

/-- Marks of one style are passed over in the search for another. -/
theorem passes_other {other : Style} (hne : other ≠ style) :
    Passes (Mark.style style).text (Mark.style other).text tail := by
  refine passes_of_inert tail ?_
  cases other <;> cases style <;> simp [Mark.text, openers, schemeHeads] at hne ⊢

/-- The search for the end of an emphasis passes over every printable node without an
emphasis of that style. -/
theorem passes_print {page : PageRef} {node : Node} (h : Printable page node)
    (hstyle : Kind.emphasis style ∉ node.kinds) (htail : Unbraced tail) :
    Passes (Mark.style style).text (print node) tail :=
  (sequential_passes _).print h (fun _ _ hkind _ => passes_printKind hkind)
    (fun _ hother _ => passes_other fun heq => hstyle (heq ▸ hother)) htail

theorem closing?_append_self (mark : Mark) (tail : Text) (previous : Option Char) :
    closing? mark.text previous (mark.text ++ tail) = some 0 := by
  obtain ⟨c, rest, hmark⟩ := List.exists_cons_of_ne_nil (text_ne_nil mark)
  have hopens := Text.opens_append mark.text tail
  rw [hmark, List.cons_append] at hopens ⊢
  rw [closing?, if_pos hopens]

/-- Around printable nodes without its style, an emphasis ends where it was closed. -/
theorem closing?_flatMap_print {page : PageRef} {nodes : List Node}
    (h : ∀ node ∈ nodes, Printable page node)
    (hstyle : ∀ node ∈ nodes, Kind.emphasis style ∉ node.kinds) (tail : Text)
    (previous : Option Char) :
    closing? (Mark.style style).text previous
        (nodes.flatMap print ++ ((Mark.style style).text ++ tail)) =
      some (nodes.flatMap print).length := by
  have hpasses : Passes (Mark.style style).text (nodes.flatMap print)
      ((Mark.style style).text ++ tail) :=
    (sequential_passes _).flatMap (fun node hnode => unbraced_print (h node hnode))
      (fun node hnode _ => passes_print (h node hnode) (hstyle node hnode))
      (unbraced_mark_append style tail)
  exact hpasses 0 (closing?_append_self (.style style) tail) previous

end Style

end Creole.Inline
