import Creole.Proofs.Inline.LookAhead
import Creole.Proofs.Inline.Tokens

/-!
# Printed nodes read back

Reading the markup of printable nodes, no two texts among them side by side, gives
the nodes (`parse_print`).

## Strategy

`Reads` says of one node that whatever is read behind its markup is read with the
node in front of it.  A text is read character by character, each joined to the text
behind it, so that "in front of" is `Node.prepend`; the nodes in a row then come
out coalesced (`nodesFrom_flatMap_print`), which changes nothing in a sequence that
is joined already.  An emphasis is read if what it is around is: the look-ahead
finds its end (`closing?_flatMap_print`), and its children are read from what stands
before that.
-/

namespace Creole.Inline

variable {page : PageRef}

/-! ## Reading one token -/

/-- Markup that is scanned as one token is read as its nodes, in front of what is read
behind it. -/
theorem nodesFrom_append {markup tail : Text} {token : Token} {following : List Node}
    (hne : markup ≠ [])
    (hscan : ∀ {c cs}, markup ++ tail = c :: cs →
      ∀ previous, scan page previous c cs = (token, markup.length))
    (h : ∀ previous, nodesFrom page previous tail = following) (previous : Option Char) :
    nodesFrom page previous (markup ++ tail) = token.nodes page following := by
  obtain ⟨c, cs, heq⟩ := List.exists_cons_of_ne_nil (List.append_ne_nil_of_left_ne_nil hne tail)
  rw [heq, nodesFrom_cons (hscan heq previous), ← heq, List.drop_left, h]

/-! ## Reading one node -/

/-- Behind its markup the node is read in front of what is read there. -/
def Reads (page : PageRef) (node : Node) : Prop :=
  ∀ {tail following}, Unbraced tail → (∀ previous, nodesFrom page previous tail = following) →
    ∀ previous, nodesFrom page previous (print node ++ tail) = node.prepend following

theorem scan_printChar {c d : Char} {tail cs : Text} (htail : Unbraced tail)
    (heq : printChar c ++ tail = d :: cs) (previous : Option Char) :
    scan page previous d cs = (.literal [c], (printChar c).length) := by
  cases hblank : isBlank c with
  | true =>
      rw [printChar, hblank, if_pos rfl] at heq ⊢
      obtain ⟨rfl, rfl⟩ : c = d ∧ tail = cs := by simpa using heq
      exact scan_of_isBlank hblank page previous tail
  | false =>
      rw [printChar, hblank, if_neg Bool.false_ne_true] at heq ⊢
      exact (whole_escape hblank).scan htail heq previous

theorem reads_text (content : Text) : Reads page (.text content) := by
  intro tail following htail h previous
  rw [Node.text, Node.leaf, print_mk]
  show nodesFrom page previous (content.flatMap printChar ++ tail) = _
  induction content generalizing previous with
  | nil => exact h previous
  | cons c content ih =>
      have hne : printChar c ≠ [] := by
        rw [printChar]
        split <;> exact List.cons_ne_nil _ _
      have hbehind : Unbraced (content.flatMap printChar ++ tail) :=
        (unbraced_text content).append htail
      rw [List.flatMap_cons, List.append_assoc, nodesFrom_append hne (scan_printChar hbehind) ih]
      exact Node.prepend_text_prepend_text [c] content following

theorem scan_lineBreak {c : Char} {tail cs : Text} (heq : Mark.lineBreak.text ++ tail = c :: cs)
    (previous : Option Char) :
    scan page previous c cs = (.leaf .linebreak, Mark.lineBreak.text.length) := by
  have hfound : Mark.of? (Mark.lineBreak.text ++ tail) = some .lineBreak :=
    of?_append .lineBreak (by simp)
  rw [scan_of_mark (heq ▸ hfound)]
  rfl

theorem reads_printKind {kind : Kind} (h : PrintableKind page kind) : Reads page (.leaf kind) := by
  rcases Node.text_or_not_text kind with ⟨content, escaped, rfl⟩ | htext
  · cases h
    exact reads_text content
  · intro tail following htail hfollowing previous
    rw [Node.leaf, print_mk, Node.prepend_of_not_text htext]
    by_cases hbreak : kind = .linebreak
    · subst hbreak
      exact nodesFrom_append (text_ne_nil .lineBreak) scan_lineBreak hfollowing previous
    · have hwhole := whole_of_printable h htext hbreak
      have hlength := one_le_atomicLength (hwhole.atomicLength htail none)
      exact nodesFrom_append (List.length_pos_iff.mp hlength) (hwhole.scan htail) hfollowing
        previous

/-- An emphasis whose end is found is scanned with what it is around. -/
theorem scan_emphasis {style : Style} {c : Char} {below tail cs : Text} (hne : below ≠ [])
    (hclosing : ∀ previous, closing? (Mark.style style).text previous
      (below ++ ((Mark.style style).text ++ tail)) = some below.length)
    (heq : enclosed (.style style) below ++ tail = c :: cs) (previous : Option Char) :
    scan page previous c cs =
      (.span style below, (enclosed (.style style) below).length) := by
  have hshape : enclosed (.style style) below ++ tail =
      (Mark.style style).text ++ (below ++ ((Mark.style style).text ++ tail)) :=
    enclosed_append _ below tail
  have hfound : Mark.of? (c :: cs) = some (.style style) := by
    rw [← heq, hshape]
    exact of?_append _ (by simp)
  obtain ⟨n, hlength⟩ : ∃ n, below.length = n + 1 :=
    Nat.exists_eq_succ_of_ne_zero fun hzero => hne (List.length_eq_zero_iff.mp hzero)
  have htake : (below ++ ((Mark.style style).text ++ tail)).take (n + 1) = below := by
    rw [← hlength, List.take_left]
  rw [scan_of_mark hfound, ← heq, hshape, List.drop_left, Mark.scan?, spanToken?, hclosing,
    hlength]
  have htotal : 2 * (Mark.style style).text.length + (n + 1) =
      (enclosed (.style style) below).length := by
    rw [length_enclosed, Mark.reach, Mark.closing, hlength]
    omega
  simp only [htake, htotal, Option.getD_some]

/-! ## Reading nodes in a row -/

/-- Printed nodes are read coalesced. -/
theorem nodesFrom_flatMap_print {nodes : List Node} (hreads : ∀ node ∈ nodes, Reads page node)
    (hunbraced : ∀ node ∈ nodes, Unbraced (print node)) (previous : Option Char) :
    nodesFrom page previous (nodes.flatMap print) = Node.coalesce nodes := by
  induction nodes generalizing previous with
  | nil => rw [List.flatMap_nil, nodesFrom]; rfl
  | cons node nodes ih =>
      rw [List.forall_mem_cons] at hreads hunbraced
      rw [List.flatMap_cons, Node.coalesce_cons]
      exact hreads.1 (unbraced_flatMap hunbraced.2) (ih hreads.2 hunbraced.2) previous

theorem solid_of_printable {node : Node} (h : Printable page node) : Node.Solid node := by
  cases h with
  | leaf hkind =>
      cases hkind with
      | text hcontent => exact Node.solid_text hcontent
      | _ => exact Node.solid_of_not_text (by simp) []
  | emphasis => exact Node.solid_of_not_text (by simp) _

theorem joined_of_printable {nodes : List Node} (h : ∀ node ∈ nodes, Printable page node)
    (hseparate : nodes.IsChain Node.Separate) : Node.Joined nodes :=
  ⟨fun node hnode => solid_of_printable (h node hnode), hseparate⟩

theorem reads_of_printable {node : Node} (h : Printable page node) : Reads page node := by
  induction h with
  | leaf hkind => exact reads_printKind hkind
  | @emphasis style children hne hprintable hseparate hfree ih =>
      intro tail following _ hfollowing previous
      -- the text between the marks is read on its own, with nothing behind it
      have hbelow : nodesFrom page none (children.flatMap print) = children := by
        rw [nodesFrom_flatMap_print ih fun child hchild => unbraced_print (hprintable child hchild)]
        exact Node.coalesce_of_joined (joined_of_printable hprintable hseparate)
      have hmarkup : children.flatMap print ≠ [] := by
        intro hnil
        rw [hnil, nodesFrom] at hbelow
        exact hne hbelow.symm
      have hread := nodesFrom_append (by simp [enclosed, text_ne_nil])
        (scan_emphasis hmarkup (closing?_flatMap_print hprintable hfree tail)) hfollowing previous
      rw [Token.nodes, hbelow] at hread
      rw [print_mk, Node.prepend_of_not_text (by simp)]
      exact hread

/-- Printed nodes read back, if they are printable and no two texts among them stand
side by side. -/
theorem parse_print {nodes : List Node} (h : ∀ node ∈ nodes, Printable page node)
    (hseparate : nodes.IsChain Node.Separate) : parse page (nodes.flatMap print) = nodes := by
  rw [parse, nodesFrom_flatMap_print (fun node hnode => reads_of_printable (h node hnode))
    fun node hnode => unbraced_print (h node hnode)]
  exact Node.coalesce_of_joined (joined_of_printable h hseparate)

/-! ### An example -/

/-- The page of `sampleNodes`. -/
def samplePage : PageRef := .onLocal "Home".toList

/-- Nodes of every printable kind, with marks in their texts and arguments. -/
def sampleNodes : List Node :=
  [.text "2 * 3 ~".toList,
    .mk (.emphasis .bold)
      [.text "**".toList,
        .mk (.emphasis .italic)
          [.leaf (.link (linkTo .link samplePage "http://x//y".toList "[[T] t".toList)),
            .leaf .linebreak],
        .leaf (.inlineNowiki "**\x7d\x7d\x7d\x7d".toList)],
    .leaf (.inlineCode "[</c>]".toList (some "c++".toList)),
    .leaf (.anchor "top".toList),
    .leaf (.image (linkTo .image samplePage "a.png".toList "//".toList)),
    .leaf (.invocation { name := "toc".toList, args := "a:b".toList }),
    .leaf (.directive { name := "x".toList, enabled := false, args := ["y".toList, []] })]

theorem parse_print_sampleNodes :
    (∀ node ∈ sampleNodes, Printable samplePage node) ∧ sampleNodes.IsChain Node.Separate ∧
      parse samplePage (sampleNodes.flatMap print) = sampleNodes := by
  have hitalic : Printable samplePage (.mk (.emphasis .italic)
      [.leaf (.link (linkTo .link samplePage "http://x//y".toList "[[T] t".toList)),
        .leaf .linebreak]) := by
    refine .emphasis (by decide) ?_ (by simp [Node.Separate, Node.leaf]) (by simp)
    simp only [List.forall_mem_cons]
    exact ⟨.leaf (.link ⟨by decide, by decide, by decide, by decide, by decide, by decide⟩),
      .leaf .linebreak, by simp⟩
  have hbold : Printable samplePage sampleNodes[1] := by
    refine .emphasis (by decide) ?_ (by simp [Node.Separate, Node.leaf, Node.text])
      (by simp [Node.text])
    simp only [List.forall_mem_cons]
    exact ⟨.leaf (.text (by decide)), hitalic, .leaf (.inlineNowiki (by decide)), by simp⟩
  have hprintable : ∀ node ∈ sampleNodes, Printable samplePage node := by
    simp only [sampleNodes, List.forall_mem_cons]
    exact ⟨.leaf (.text (by decide)), hbold,
      .leaf (.inlineCode (by decide) (by decide) (by decide)),
      .leaf (.anchor (by decide) (by decide) (by decide)),
      .leaf (.image ⟨by decide, by decide, by decide, by decide, by decide, by decide⟩
        (by decide) (by decide)),
      .leaf (.invocation (by decide) (by decide) (by decide)),
      .leaf (.directive (by decide) (by decide) (by decide)), by simp⟩
  have hseparate : sampleNodes.IsChain Node.Separate := by
    simp [sampleNodes, Node.Separate, Node.leaf, Node.text]
  exact ⟨hprintable, hseparate, parse_print hprintable hseparate⟩

end Creole.Inline
