import Creole.Proofs.Inline.Marks
import Creole.Proofs.Inline.Tokens
import Creole.Proofs.Node.Joined
import Creole.Proofs.Shape
import Creole.Proofs.Text.Kept

/-!
# The shape of inline markup

The nodes of a text stand in a line: they are inline, well shaped, and no two of them
are texts in a row (`line_nodesFrom`).  A text that begins with a visible character has
a node that is more than white space (`exists_not_blank`).

## Strategy

Whatever a text begins with keeps a line a line when it is put before it (`Line.nodes`),
so that the rest is the induction over tokens.
-/

namespace Creole.Inline

open Node

variable {page : PageRef}

/-! ### Lines -/

/-- Nodes that can stand in a line of text. -/
structure Line (nodes : List Node) : Prop where
  inline : ∀ node ∈ nodes, node.kind.isInline = true
  shaped : ∀ node ∈ nodes, node.Everywhere Shaped
  apart : nodes.IsChain Apart

theorem line_nil : Line [] := ⟨by simp, by simp, .nil⟩

theorem Line.cons {node : Node} {nodes : List Node} (h : Line nodes)
    (hinline : node.kind.isInline = true) (hshaped : node.Everywhere Shaped)
    (hnext : ∀ next ∈ nodes.head?, Apart node next) : Line (node :: nodes) where
  inline := List.forall_mem_cons.mpr ⟨hinline, h.inline⟩
  shaped := List.forall_mem_cons.mpr ⟨hshaped, h.shaped⟩
  apart := List.isChain_cons.mpr ⟨hnext, h.apart⟩

theorem shaped_text {content : Text} (h : content ≠ []) : (text content).Everywhere Shaped :=
  shaped_leaf ⟨rfl, h, rfl⟩

/-- A text before a line belongs to it, as a node of its own or as the start of the
text at the front of the line. -/
theorem Line.prepend_text {content : Text} {nodes : List Node} (h : Line nodes)
    (hcontent : content ≠ []) : Line ((text content).prepend nodes) := by
  rcases prepend_text_cases hcontent nodes with
    ⟨next, below, behind, rfl, heq⟩ | ⟨hnext, heq⟩
  · -- the texts in front become one, and what stood apart from the second stands apart from both
    obtain ⟨hapart, hbehind⟩ := List.isChain_cons.mp h.apart
    have hline : Line behind :=
      ⟨fun node hnode => h.inline node (List.mem_cons_of_mem _ hnode),
        fun node hnode => h.shaped node (List.mem_cons_of_mem _ hnode), hbehind⟩
    rw [heq]
    exact hline.cons rfl (shaped_text (by simp [hcontent]))
      fun node hnode _ => hapart node hnode rfl
  · rw [heq]
    refine h.cons rfl (shaped_text hcontent) fun node hnode _ => ?_
    obtain ⟨more, rfl⟩ := List.head?_eq_some_iff.mp hnode
    obtain ⟨kind, below⟩ := node
    cases kind with
    | text next escaped =>
        obtain ⟨⟨⟨rfl, -⟩, -⟩, -⟩ := everywhere_mk.mp (h.shaped _ List.mem_cons_self)
        exact absurd rfl (hnext _ rfl next)
    | _ => rfl

/-! ### Tokens -/

section Begins

variable {s : Text} {n : Nat}

theorem not_blank_text (mark : Mark) : Text.blank mark.text = false := by
  cases mark with
  | style s => cases s <;> decide
  | _ => decide

theorem not_blank_of_escape {rest body : Text} (h : Mark.escape.body? rest = some body) :
    Text.blank body = false := by
  cases rest with
  | nil => simp [Mark.body?] at h
  | cons c rest =>
      obtain ⟨hc, rfl⟩ : isBlank c = false ∧ [c] = body := by simpa [Mark.body?] using h
      simpa [Text.blank] using hc

/-- Blank characters are kept one by one. -/
theorem not_blank_or_singleton {content : Text} (h : Begins page s (.literal content) n) :
    Text.blank content = false ∨ ∃ c cs, s = c :: cs ∧ content = [c] := by
  cases h with
  | char c cs => exact Or.inr ⟨c, cs, rfl, rfl⟩
  | mark mark => exact Or.inl (not_blank_text mark)
  | enclosed hbody htoken =>
      obtain ⟨rfl, hbody'⟩ | hleaf | ⟨kind, hleaf, -⟩ := eq_of_token? htoken
      · injection hbody' with hcontent
        exact Or.inl (hcontent ▸ not_blank_of_escape hbody)
      · cases hleaf
      · cases hleaf

theorem ne_nil_of_literal {content : Text} (h : Begins page s (.literal content) n) :
    content ≠ [] := by
  rintro rfl
  obtain hblank | ⟨c, cs, -, heq⟩ := not_blank_or_singleton h
  · exact absurd hblank (by decide)
  · exact absurd heq (by simp)

theorem ne_nil_of_span {style : Style} {content : Text}
    (h : Begins page s (.span style content) n) : content ≠ [] := by
  cases h with
  | span _ m hrest => simpa using hrest
  | enclosed hbody htoken =>
      rcases eq_of_token? htoken with ⟨-, hspan⟩ | hspan | ⟨kind, hspan, -⟩ <;>
        cases hspan

/-- The kinds of leaves other than texts that stand in a line. -/
structure LeafKind (kind : Kind) : Prop where
  inline : kind.isInline = true
  not_text : kind.isText = false
  holds : kind.Holds []

theorem leafKind_of_embedded {kind : Kind} (h : Embedded kind) : LeafKind kind := by
  cases h with
  | invocation hblock => exact ⟨by simp [Kind.isInline, hblock], rfl, rfl⟩
  | _ => exact ⟨rfl, rfl, rfl⟩

theorem leafKind_of_begins {kind : Kind} (h : Begins page s (.leaf kind) n) : LeafKind kind := by
  cases h with
  | url | code | lineBreak => exact ⟨rfl, rfl, rfl⟩
  | enclosed hbody htoken =>
      obtain ⟨-, hleaf⟩ | hleaf | ⟨found, hleaf, hfound⟩ := eq_of_token? htoken
      · cases hleaf
      · injection hleaf with hkind
        exact hkind ▸ ⟨rfl, rfl, rfl⟩
      · injection hleaf with hkind
        exact hkind ▸ leafKind_of_embedded hfound

end Begins

/-! ### Texts -/

theorem nodes_ne_nil {token : Token} {s : Text} {n : Nat} {following : List Node}
    (h : Begins page s token n) : token.nodes page following ≠ [] := by
  cases token with
  | literal content =>
      obtain ⟨more, behind, heq⟩ := exists_prepend_text (ne_nil_of_literal h) following
      rw [Token.nodes, heq]
      exact List.cons_ne_nil _ _
  | leaf | span => exact List.cons_ne_nil _ _

theorem nodesFrom_ne_nil {s : Text} (h : s ≠ []) (page : PageRef) (previous : Option Char) :
    nodesFrom page previous s ≠ [] := by
  obtain ⟨c, cs, rfl⟩ := List.exists_cons_of_ne_nil h
  rcases hscan : scan page previous c cs with ⟨token, n⟩
  rw [nodesFrom_cons hscan]
  exact nodes_ne_nil (begins_of_scan hscan)

/-- The nodes of a token before a line are a line, if those inside it are. -/
theorem Line.nodes {token : Token} {s : Text} {n : Nat} {following : List Node}
    (h : Line following) (hbegins : Begins page s token n)
    (hspan : ∀ style content, token = .span style content →
      Line (nodesFrom page none content)) : Line (token.nodes page following) := by
  cases token with
  | literal content => exact h.prepend_text (ne_nil_of_literal hbegins)
  | leaf kind =>
      obtain ⟨hinline, htext, hholds⟩ := leafKind_of_begins hbegins
      refine h.cons hinline (shaped_leaf hholds) fun _ _ hcontra => ?_
      exact absurd hcontra (by simp [leaf, htext])
  | span style content =>
      have hinside := hspan style content rfl
      have hne := nodesFrom_ne_nil (ne_nil_of_span hbegins) page none
      have hshaped : (Node.mk (.emphasis style) (nodesFrom page none content)).Everywhere Shaped :=
        .mk ⟨⟨hne, hinside.inline⟩, hinside.apart⟩ hinside.shaped
      refine h.cons rfl hshaped fun _ _ hcontra => ?_
      cases hcontra

theorem line_nodesFrom (page : PageRef) (previous : Option Char) (s : Text) :
    Line (nodesFrom page previous s) := by
  refine @nodesFrom_induction page (fun _ nodes => Line nodes) ?_ ?_ previous s
  · exact line_nil
  · intro c cs token n following hbegins hspan hfollowing
    exact hfollowing.nodes hbegins hspan

/-- A text that begins with a visible character has a node that is more than white
space: the one that the character belongs to. -/
theorem exists_not_blank {c : Char} (hc : isBlank c = false) (page : PageRef)
    (previous : Option Char) (cs : Text) :
    ∃ node ∈ nodesFrom page previous (c :: cs), Block.isBlankText node = false := by
  rcases hscan : scan page previous c cs with ⟨token, n⟩
  have hbegins := begins_of_scan hscan
  rw [nodesFrom_cons hscan]
  cases token with
  | literal content =>
      have hcontent : Text.blank content = false := by
        obtain hblank | ⟨d, ds, heq, rfl⟩ := not_blank_or_singleton hbegins
        · exact hblank
        · injection heq with hd
          simpa [Text.blank, ← hd] using hc
      obtain ⟨more, behind, heq⟩ := exists_prepend_text (ne_nil_of_literal hbegins)
        (nodesFrom page (c :: cs)[n - 1]? ((c :: cs).drop n))
      rw [Token.nodes, heq]
      exact ⟨_, List.mem_cons_self, Text.not_blank_append hcontent more⟩
  | leaf kind =>
      refine ⟨leaf kind, List.mem_cons_self, ?_⟩
      have htext := (leafKind_of_begins hbegins).not_text
      cases kind with
      | text => exact absurd htext (by simp [Kind.isText])
      | _ => rfl
  | span style content => exact ⟨_, List.mem_cons_self, rfl⟩

end Creole.Inline
