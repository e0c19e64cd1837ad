import Creole.Proofs.Html.Cells
import Creole.Proofs.Node.Urls

/-!
# URLs in HTML

Of the HTML of a document, only the URLs hang on the filter: the rest is fixed text around
them, and each URL is filtered once and then escaped (`fixedAround_render`).

`FixedAround` says so of any HTML that is a function of the filter.  It is closed under all
that the renderer does with HTML: it appends and puts elements around, with attributes that
do not hang on the filter, since what is in force at a node does not (`walk_snd`).  What is
left is where the filter is called (`fixedAround_linked`).
-/

namespace Creole.Html

/-- A part of an output: fixed text, or the place of a URL. -/
inductive Piece where
  | fixed (s : Text)
  | url (u : Text)

namespace Piece

/-- The URL whose place it is. -/
def url? : Piece → Option Text
  | fixed _ => none
  | url u => some u

/-- What is written: URLs are filtered and escaped. -/
def write (filter : UrlFilter) : Piece → Text
  | fixed s => s
  | url u => escape (filter u)

end Piece

/-- In the HTML, nothing but the given URLs hangs on the filter, each of them written once,
filtered and escaped, in the given order. -/
def FixedAround (urls : List Text) (html : UrlFilter → Text) : Prop :=
  ∃ pieces : List Piece, pieces.filterMap Piece.url? = urls ∧
    ∀ filter, html filter = pieces.flatMap (Piece.write filter)

namespace FixedAround

variable {urls more : List Text} {html other behind : UrlFilter → Text}

theorem congr (h : FixedAround urls html) (heq : ∀ filter, other filter = html filter) :
    FixedAround urls other :=
  (funext heq : other = html) ▸ h

theorem fixed (s : Text) : FixedAround [] fun _ => s :=
  ⟨[.fixed s], rfl, fun _ => by simp [Piece.write]⟩

theorem url (u : Text) : FixedAround [u] fun filter => escape (filter u) :=
  ⟨[.url u], rfl, fun _ => by simp [Piece.write]⟩

theorem append (h : FixedAround urls html) (hbehind : FixedAround more behind) :
    FixedAround (urls ++ more) fun filter => html filter ++ behind filter := by
  obtain ⟨pieces, rfl, hhtml⟩ := h
  obtain ⟨others, rfl, hothers⟩ := hbehind
  refine ⟨pieces ++ others, List.filterMap_append, fun filter => ?_⟩
  rw [List.flatMap_append, ← hhtml, ← hothers]

theorem between (h : FixedAround urls html) (before after : Text) :
    FixedAround urls fun filter => before ++ html filter ++ after := by
  have hall := ((fixed before).append h).append (fixed after)
  rwa [List.nil_append, List.append_nil] at hall

theorem element (h : FixedAround urls html) (tag attributes : Text) :
    FixedAround urls fun filter => Html.element tag attributes (html filter) := by
  refine (h.between ('<' :: tag ++ attributes ++ ['>']) ("</".toList ++ tag ++ ['>'])).congr
    fun filter => ?_
  unfold Html.element
  simp only [List.append_assoc, List.cons_append, List.nil_append]

/-- Pieces without URLs between them can be joined. -/
theorem exists_eq (h : FixedAround urls html) :
    ∃ (first : Text) (rest : List (Text × Text)), rest.map Prod.fst = urls ∧
      ∀ filter, html filter =
        first ++ rest.flatMap fun (url, behind) => escape (filter url) ++ behind := by
  obtain ⟨pieces, rfl, hhtml⟩ := h
  induction pieces generalizing html with
  | nil => exact ⟨[], [], rfl, fun filter => by simp [hhtml]⟩
  | cons piece pieces ih =>
      obtain ⟨first, rest, hurls, hrest⟩ := ih fun _ => rfl
      cases piece with
      | fixed s =>
          refine ⟨s ++ first, rest, hurls, fun filter => ?_⟩
          rw [hhtml, List.flatMap_cons, hrest, Piece.write, List.append_assoc]
      | url u =>
          refine ⟨[], (u, first) :: rest, congrArg (u :: ·) hurls, fun filter => ?_⟩
          rw [hhtml, List.flatMap_cons, hrest, Piece.write, List.nil_append, List.flatMap_cons,
            List.append_assoc]

end FixedAround

variable {handlers : Handlers} {services : HandlerName → Service} {cssClass : Text}

/-! ## Documents -/

/-- A link or an image calls the filter once if its target leads anywhere, and never if
not. -/
theorem fixedAround_linked {link : Link}
    (h : handlers.named link.handler = (services link.handler).handler)
    (fallback : Text → Text) :
    FixedAround (link.url? services).toList fun filter =>
      linked handlers filter link fallback := by
  unfold linked Link.url?
  simp only [h, Service.render_handler]
  cases (services link.handler).resolve link.page link.target with
  | ok resolved => exact (FixedAround.url resolved.url).between _ _
  | error e => exact FixedAround.fixed _

theorem leaf_eq {kind : Kind} (hlink : ∀ link, kind ≠ .link link)
    (himage : ∀ link, kind ≠ .image link) (filter : UrlFilter) :
    leaf cssClass handlers filter kind = leaf cssClass handlers id kind := by
  cases kind with
  | link link => exact absurd rfl (hlink link)
  | image link => exact absurd rfl (himage link)
  | code content language => cases language <;> rfl
  | _ => rfl

theorem fixedAround_leaf (cssClass : Text) {kind : Kind} (hshows : kind.showsChildren = false)
    {children : List Node} (h : Node.Served handlers services (.mk kind children)) :
    FixedAround ((Node.mk kind children).urls services) fun filter =>
      leaf cssClass handlers filter kind := by
  rw [Node.urls_mk]
  have hkind : kind ∈ (Node.mk kind children).kinds := Node.kind_mem_kinds _
  cases kind with
  | link link => exact fixedAround_linked (h link (Or.inl hkind)) _
  | image link => exact fixedAround_linked (h link (Or.inr hkind)) _
  | page | paragraph | heading | blockquote | emphasis | list | listItem | table | row | cell =>
      cases hshows
  | _ =>
      exact (FixedAround.fixed _).congr fun filter => leaf_eq (by simp) (by simp) filter

theorem fixedAround_inOrder {children : List Node}
    (h : ∀ child ∈ children, ∀ state, FixedAround (child.urls services) fun filter =>
      ((visitor cssClass handlers filter).walk child state).1)
    (state : Directives) :
    FixedAround (children.flatMap (Node.urls services)) fun filter =>
      (Walk.inOrder [] (· ++ ·) (children.map (visitor cssClass handlers filter).child)
        state).1 := by
  induction children generalizing state with
  | nil => exact FixedAround.fixed []
  | cons child children ih =>
      rw [List.forall_mem_cons] at h
      -- what is in force behind the child is the same for all filters
      have hbehind : ∀ filter, ((visitor cssClass handlers filter).walk child state).2 =
          child.events.foldl Event.apply state := fun filter =>
        (threads_visitor cssClass handlers filter).walk_snd child state
      refine ((h.1 state).append (ih h.2 (child.events.foldl Event.apply state))).congr
        fun filter => ?_
      rw [List.map_cons, Walk.inOrder_cons, ← hbehind filter]
      rfl

theorem fixedAround_walk {node : Node} (h : Node.Served handlers services node)
    (state : Directives) :
    FixedAround (node.urls services) fun filter =>
      ((visitor cssClass handlers filter).walk node state).1 := by
  induction node using Node.induction generalizing state with
  | mk kind children ih =>
      have hbelow : ∀ child ∈ children, ∀ state, FixedAround (child.urls services) fun filter =>
          ((visitor cssClass handlers filter).walk child state).1 :=
        fun child hchild => ih child hchild (h.of_mem_children hchild)
      have hchildren := fixedAround_inOrder hbelow state
      have hvisit : ∀ {urls}, (∀ directive, kind ≠ .directive directive) →
          (FixedAround urls fun filter => ((visitor cssClass handlers filter).visit kind
            (children.map (visitor cssClass handlers filter).child) state).1) →
          FixedAround urls fun filter =>
            ((visitor cssClass handlers filter).walk (.mk kind children) state).1 :=
        fun hkind hvisited => hvisited.congr fun filter => by rw [Visitor.walk_mk _ _ _ hkind]
      cases kind with
      | directive directive =>
          simp only [Visitor.walk_directive]
          exact FixedAround.fixed []
      | page =>
          rw [Node.urls_of_showsChildren rfl]
          exact hvisit (by simp) hchildren
      | paragraph | heading level | blockquote | emphasis style | list ordered | listItem | table
      | row | cell header =>
          rw [Node.urls_of_showsChildren rfl]
          exact hvisit (by simp) (hchildren.element _ _)
      | _ =>
          refine hvisit (by simp) ?_
          exact fixedAround_leaf cssClass rfl h

theorem fixedAround_render {root : Node} (h : Node.Served handlers services root)
    (cssClass : Text) :
    FixedAround (root.urls services) fun filter => render cssClass handlers filter root :=
  fixedAround_walk h .initial

end Creole.Html
