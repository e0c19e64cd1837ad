import Creole.Html
import Creole.Proofs.Node.Joined
import Creole.Proofs.Node.Walk

/-!
# Nodes in a row

Nodes in a row are written one behind the other, each seeing the directives behind the
one before it (`Html.row`).  Two rows read alike (`ReadsLike`) if they are written alike,
whatever is in force before them, and hold the same text.  Rows that read alike do so
within longer rows (`ReadsLike.append`) and as the children of a node of any kind
(`ReadsLike.below`).

Joining texts cannot be read: a coalesced row reads like the row it was made of
(`readsLike_coalesce`), as long as no text in it has nodes below it, which coalescing
would drop.
-/

namespace Creole.Html

open Node

/-- Nodes in a row, written one behind the other. -/
def row (cssClass : Text) (handlers : Handlers) (filter : UrlFilter) (nodes : List Node) :
    Walk Text :=
  (visitor cssClass handlers filter).children (nodes.map (visitor cssClass handlers filter).child)

/-- The HTML of nodes in a row, with nothing in force before them. -/
def renderRow (cssClass : Text) (handlers : Handlers) (filter : UrlFilter) (nodes : List Node) :
    Text :=
  (row (escape cssClass) handlers filter nodes .initial).1

variable {cssClass : Text} {handlers : Handlers} {filter : UrlFilter}

theorem row_append (nodes more : List Node) (state : Directives) :
    row cssClass handlers filter (nodes ++ more) state =
      ((row cssClass handlers filter nodes state).1 ++
          (row cssClass handlers filter more (row cssClass handlers filter nodes state).2).1,
        (row cssClass handlers filter more (row cssClass handlers filter nodes state).2).2) := by
  have happend := Walk.inOrder_append (nodes.map (visitor cssClass handlers filter).child)
    (more.map (visitor cssClass handlers filter).child) state
  rw [← List.map_append] at happend
  exact happend

theorem row_singleton (node : Node) :
    row cssClass handlers filter [node] = (visitor cssClass handlers filter).walk node := by
  funext state
  rfl

theorem render_eq_renderRow (root : Node) :
    render cssClass handlers filter root = renderRow cssClass handlers filter [root] := by
  rw [renderRow, row_singleton]
  rfl

theorem visit_congr {children others : List (Child Text)}
    (h : Walk.inOrder [] (· ++ ·) children = Walk.inOrder [] (· ++ ·) others) (kind : Kind) :
    (visitor cssClass handlers filter).visit kind children =
      (visitor cssClass handlers filter).visit kind others := by
  simp only [visitor, h]

/-- What a node is written as hangs on what its children are written as in a row. -/
theorem walk_congr {children others : List Node}
    (h : row cssClass handlers filter children = row cssClass handlers filter others)
    (kind : Kind) :
    (visitor cssClass handlers filter).walk (.mk kind children) =
      (visitor cssClass handlers filter).walk (.mk kind others) := by
  cases kind with
  | directive directive => rw [Visitor.walk_directive, Visitor.walk_directive]
  | _ =>
      rw [Visitor.walk_mk _ _ _ (by simp), Visitor.walk_mk _ _ _ (by simp)]
      exact visit_congr h _

/-- A node that is nothing but an element around its children. -/
theorem row_of_wrapper {kind : Kind} {tag : Text} (h : wrapper? kind = some tag)
    (children : List Node) (state : Directives) :
    row cssClass handlers filter [.mk kind children] state =
      (element tag (classAttribute cssClass) (row cssClass handlers filter children state).1,
        (row cssClass handlers filter children state).2) := by
  have hvisit : (visitor cssClass handlers filter).walk (.mk kind children) =
      (row cssClass handlers filter children).map (element tag (classAttribute cssClass)) := by
    rw [Visitor.walk_mk _ _ _ (by rintro directive rfl; cases h)]
    cases kind <;> simp_all [visitor, wrapper?, row, Visitor.children]
  rw [row_singleton, hvisit]
  rfl

/-! ## Rows that read alike -/

/-- Two rows of nodes are written alike, whatever is in force before them, and hold the
same text. -/
structure ReadsLike (nodes others : List Node) : Prop where
  html : ∀ cssClass handlers filter,
    row cssClass handlers filter nodes = row cssClass handlers filter others
  text : nodes.flatMap plainText = others.flatMap plainText

namespace ReadsLike

variable {nodes others more moreOthers : List Node}

theorem refl (nodes : List Node) : ReadsLike nodes nodes := ⟨fun _ _ _ => rfl, rfl⟩

theorem trans (h : ReadsLike nodes others) (h' : ReadsLike others more) : ReadsLike nodes more :=
  ⟨fun cssClass handlers filter =>
      (h.html cssClass handlers filter).trans (h'.html cssClass handlers filter),
    h.text.trans h'.text⟩

theorem append (h : ReadsLike nodes others) (hmore : ReadsLike more moreOthers) :
    ReadsLike (nodes ++ more) (others ++ moreOthers) where
  html cssClass handlers filter := by
    funext state
    rw [row_append, row_append, h.html, hmore.html]
  text := by rw [List.flatMap_append, List.flatMap_append, h.text, hmore.text]

theorem flatMap {f g : Node → List Node} (h : ∀ node ∈ nodes, ReadsLike (f node) (g node)) :
    ReadsLike (nodes.flatMap f) (nodes.flatMap g) := by
  induction nodes with
  | nil => exact refl []
  | cons node nodes ih =>
      rw [List.forall_mem_cons] at h
      rw [List.flatMap_cons, List.flatMap_cons]
      exact h.1.append (ih h.2)

theorem below (kind : Kind) (h : ReadsLike nodes others) :
    ReadsLike [.mk kind nodes] [.mk kind others] where
  html cssClass handlers filter := by
    rw [row_singleton, row_singleton]
    exact walk_congr (h.html cssClass handlers filter) kind
  text := by rw [List.flatMap_singleton, List.flatMap_singleton, plainText_mk, plainText_mk, h.text]

end ReadsLike

theorem readsLike_page (nodes : List Node) : ReadsLike [.mk .page nodes] nodes where
  html cssClass handlers filter := by
    rw [row_singleton, Visitor.walk_mk _ _ _ (by simp)]
    rfl
  text := by simp [Kind.content?]

theorem render_page (children : List Node) :
    render cssClass handlers filter (.mk .page children) =
      renderRow cssClass handlers filter children := by
  rw [render_eq_renderRow, renderRow, (readsLike_page children).html, renderRow]

/-! ## Joining texts -/

theorem row_text (content : Text) (escaped : Bool) (state : Directives) :
    row cssClass handlers filter [Node.leaf (.text content escaped)] state =
      (if escaped then escape content else content, state) := by
  rw [row_singleton]
  rfl

/-- A page that is one paragraph of text. -/
theorem render_paragraph (content : Text) :
    render cssClass handlers filter (.mk .page [.mk .paragraph [.text content]]) =
      "<p class='".toList ++ escape cssClass ++ "'>".toList ++ escape content ++
        "</p>".toList := by
  have hwrapper : wrapper? .paragraph = some "p".toList := rfl
  rw [render_page, renderRow, row_of_wrapper hwrapper, Node.text, row_text]
  unfold element classAttribute
  simp

theorem readsLike_empty (escaped : Bool) : ReadsLike [] [Node.leaf (.text [] escaped)] where
  html cssClass handlers filter := by
    funext state
    rw [row_text]
    cases escaped <;> rfl
  text := by simp [Node.leaf, Kind.content?]

/-- Two texts of one mode read like one text. -/
theorem readsLike_join (content next : Text) (escaped : Bool) :
    ReadsLike [Node.leaf (.text (content ++ next) escaped)]
      [Node.leaf (.text content escaped), Node.leaf (.text next escaped)] where
  html cssClass handlers filter := by
    funext state
    have htwo := @row_append cssClass handlers filter [Node.leaf (.text content escaped)]
      [Node.leaf (.text next escaped)] state
    rw [row_text, row_text] at htwo
    refine Eq.trans ?_ htwo.symm
    rw [row_text]
    cases escaped <;> simp
  text := by simp [Node.leaf, Kind.content?]

theorem readsLike_prepend {node : Node} {rest : List Node} (hnode : TextLeaf node)
    (hrest : Joined rest) : ReadsLike (prepend node rest) (node :: rest) := by
  obtain ⟨kind, children⟩ := node
  rcases text_or_not_text kind with ⟨content, escaped, rfl⟩ | hnot
  · obtain rfl : children = [] := hnode content escaped rfl
    unfold prepend
    simp only [kind_mk]
    split
    · next hempty =>
      obtain rfl : content = [] := List.isEmpty_iff.mp hempty
      exact (readsLike_empty escaped).append (.refl rest)
    · split
      · next next escaped' below more =>
        split
        · next hmode =>
          subst hmode
          obtain rfl : below = [] := (hrest.solid _ List.mem_cons_self next escaped rfl).2
          exact (readsLike_join content next escaped).append (.refl more)
        · exact .refl _
      · exact .refl _
  · rw [prepend_of_not_text hnot]
    exact .refl _

/-- Joining texts cannot be read, where no text has anything below it. -/
theorem readsLike_coalesce {nodes : List Node} (h : ∀ node ∈ nodes, TextLeaf node) :
    ReadsLike (coalesce nodes) nodes := by
  induction nodes with
  | nil => exact .refl []
  | cons node nodes ih =>
      rw [List.forall_mem_cons] at h
      have hrest : ReadsLike (node :: coalesce nodes) (node :: nodes) :=
        ReadsLike.append (.refl [node]) (ih h.2)
      exact (readsLike_prepend h.1 (joined_coalesce nodes)).trans hrest

end Creole.Html
