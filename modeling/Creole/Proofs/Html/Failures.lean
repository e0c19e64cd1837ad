import Creole.Proofs.Html.Row
import Creole.Proofs.Node.View
import Creole.Proofs.Text.Replace

/-!
# Links that fail

Where the handler of a link or an image fails, nothing else of a document is written in
another way (`render_of_failures`).  The title is written as if it stood there as a text, so
that a tree may have texts in the place of all links and images that fail.  A mail address
that fails is an anchor on its own, between outputs that hang on nothing that stands in its
place.

Both come from what a walk sees of a node.  A node may be replaced by one that is walked
alike, at any number of places at once (`walk_replace`).  And the nodes around a place put
the same text before and behind whatever is written there, as long as it changes no
directive (`uniform_fill`).
-/

namespace Creole

open List

namespace Node

/-- The tree with other nodes in the place of those of some kinds. -/
def replace (other? : Kind → Option Node) : Node → Node :=
  fold fun kind below => (other? kind).getD (mk kind below)

@[simp] theorem replace_mk (other? : Kind → Option Node) (kind : Kind) (children : List Node) :
    (mk kind children).replace other? =
      (other? kind).getD (mk kind (children.map (replace other?))) := by
  rw [replace, fold_mk]

/-- What is around a node: its parent, and its siblings before and behind it. -/
structure Around where
  kind : Kind
  before : List Node
  behind : List Node

/-- A place in a tree, by what is around it, from the inside out. -/
abbrev Place := List Around

/-- The tree with a node at a place. -/
def Place.fill : Place → Node → Node
  | [], node => node
  | around :: place, node =>
    Place.fill place (mk around.kind (around.before ++ node :: around.behind))

/-- Whether what stands at a place is shown. -/
def Place.Shown (place : Place) : Prop := ∀ around ∈ place, around.kind.showsChildren = true

end Node

/-- Whether the handler of a link or an image fails. -/
def Link.fails (handlers : Handlers) (filter : UrlFilter) (link : Link) : Bool :=
  match (handlers.named link.handler).render link.page (escape link.title) link.target filter with
  | .ok _ => false
  | .error _ => true

/-- Whether a link was written with a mail address. -/
def Link.isMail (link : Link) : Bool := Text.opens "mailto:".toList (Text.trim link.source)

namespace Html

/-- The title of a link or an image that fails, as a text.  Mail addresses have none. -/
def failedTitle? (handlers : Handlers) (filter : UrlFilter) : Kind → Option Node
  | .link link =>
    if link.fails handlers filter && !link.isMail then some (.text link.title) else none
  | .image link => if link.fails handlers filter then some (.text link.title) else none
  | _ => none

variable {cssClass : Text} {handlers : Handlers} {filter : UrlFilter}

/-! ## Nodes that are walked alike -/

theorem row_cons (node : Node) (nodes : List Node) (state : Directives) :
    row cssClass handlers filter (node :: nodes) state =
      (((visitor cssClass handlers filter).walk node state).1 ++
          (row cssClass handlers filter nodes
            ((visitor cssClass handlers filter).walk node state).2).1,
        (row cssClass handlers filter nodes
          ((visitor cssClass handlers filter).walk node state).2).2) := by
  rw [← singleton_append, row_append, row_singleton]

theorem row_map_congr {nodes : List Node} {change : Node → Node}
    (h : ∀ node ∈ nodes, (visitor cssClass handlers filter).walk (change node) =
      (visitor cssClass handlers filter).walk node) :
    row cssClass handlers filter (nodes.map change) = row cssClass handlers filter nodes := by
  induction nodes with
  | nil => rfl
  | cons node nodes ih =>
      rw [forall_mem_cons] at h
      funext state
      rw [map_cons, row_cons, row_cons, h.1, ih h.2]

/-- Nodes can be replaced by such as are walked alike. -/
theorem walk_replace {other? : Kind → Option Node}
    (h : ∀ kind other, other? kind = some other → ∀ children,
      (visitor cssClass handlers filter).walk other =
        (visitor cssClass handlers filter).walk (.mk kind children)) (node : Node) :
    (visitor cssClass handlers filter).walk (node.replace other?) =
      (visitor cssClass handlers filter).walk node := by
  induction node using Node.induction with
  | mk kind children ih =>
      rw [Node.replace_mk]
      cases hother : other? kind with
      | some other => exact h kind other hother children
      | none => exact walk_congr (row_map_congr ih) kind

theorem walk_link (link : Link) (children : List Node) :
    (visitor cssClass handlers filter).walk (.mk (.link link) children) =
      Walk.pure (linked handlers filter link (linkFallback link.source)) :=
  Visitor.walk_mk _ _ _ (by simp)

theorem walk_image (link : Link) (children : List Node) :
    (visitor cssClass handlers filter).walk (.mk (.image link) children) =
      Walk.pure (linked handlers filter link id) :=
  Visitor.walk_mk _ _ _ (by simp)

theorem linked_of_fails {link : Link} (h : link.fails handlers filter = true)
    (fallback : Text → Text) :
    linked handlers filter link fallback = fallback (escape link.title) := by
  unfold Link.fails at h
  unfold linked
  split at h
  · cases h
  · next e heq => simp only [heq]

/-- A title is written like the link or the image that fails. -/
theorem walk_of_failedTitle? {kind : Kind} {other : Node}
    (h : failedTitle? handlers filter kind = some other) (children : List Node) :
    (visitor cssClass handlers filter).walk other =
      (visitor cssClass handlers filter).walk (.mk kind children) := by
  cases kind with
  | link link =>
      obtain ⟨⟨hfails, hmail⟩, rfl⟩ : (link.fails handlers filter = true ∧ link.isMail = false) ∧
          Node.text link.title = other := by
        simpa [failedTitle?] using h
      have hplain : linkFallback link.source (escape link.title) = escape link.title := by
        unfold linkFallback
        exact if_neg (Bool.eq_false_iff.mp hmail)
      rw [walk_link, linked_of_fails hfails, hplain]
      rfl
  | image link =>
      obtain ⟨hfails, rfl⟩ : link.fails handlers filter = true ∧ Node.text link.title = other := by
        simpa [failedTitle?] using h
      rw [walk_image, linked_of_fails hfails]
      rfl
  | _ => cases h

/-! ## What is around a place -/

/-- Nodes that are written alike around texts of their own, and leave the same directives in
force. -/
def Uniform {ι : Type} (cssClass : Text) (handlers : Handlers) (filter : UrlFilter)
    (texts : ι → Text) (nodes : ι → Node) : Prop :=
  ∀ state, ∃ before behind state', ∀ i,
    (visitor cssClass handlers filter).walk (nodes i) state =
      (before ++ texts i ++ behind, state')

section Uniform

variable {ι : Type} {texts : ι → Text} {nodes : ι → Node}

theorem uniform_of_walk (h : ∀ i, (visitor cssClass handlers filter).walk (nodes i) =
    Walk.pure (texts i)) : Uniform cssClass handlers filter texts nodes := by
  intro state
  refine ⟨[], [], state, fun i => ?_⟩
  rw [h, List.nil_append, List.append_nil]
  rfl

/-- An element is its content between two tags. -/
theorem exists_element_eq (tag attributes : Text) :
    ∃ opening closing, ∀ content,
      element tag attributes content = opening ++ content ++ closing := by
  refine ⟨'<' :: tag ++ attributes ++ ['>'], "</".toList ++ tag ++ ['>'], fun content => ?_⟩
  unfold element
  simp only [append_assoc, cons_append, nil_append]

/-- A kind that shows its children writes them between two texts. -/
theorem exists_walk_eq {kind : Kind} (hshows : kind.showsChildren = true) (state : Directives) :
    ∃ opening closing, ∀ children,
      (visitor cssClass handlers filter).walk (.mk kind children) state =
        (opening ++ (row cssClass handlers filter children state).1 ++ closing,
          (row cssClass handlers filter children state).2) := by
  have hwrapped : ∀ tag, wrapper? kind = some tag → ∃ opening closing, ∀ children,
      (visitor cssClass handlers filter).walk (.mk kind children) state =
        (opening ++ (row cssClass handlers filter children state).1 ++ closing,
          (row cssClass handlers filter children state).2) := by
    intro tag hwrapper
    obtain ⟨opening, closing, helement⟩ := exists_element_eq tag (classAttribute cssClass)
    refine ⟨opening, closing, fun children => ?_⟩
    rw [← row_singleton, row_of_wrapper hwrapper, helement]
  cases kind with
  | page =>
      refine ⟨[], [], fun children => ?_⟩
      rw [Visitor.walk_mk _ _ _ (by simp), nil_append, append_nil]
      rfl
  | cell header =>
      obtain ⟨opening, closing, helement⟩ := exists_element_eq (cellTag header)
        (classAttribute cssClass ++ alignmentAttribute state.tableAlignment?)
      refine ⟨opening, closing, fun children => ?_⟩
      rw [Visitor.walk_mk _ _ _ (by simp), ← helement]
      rfl
  | paragraph | heading level | blockquote | emphasis style | list ordered | listItem | table
  | row => exact hwrapped _ rfl
  | _ => cases hshows

/-- Siblings put the same texts before and behind a node. -/
theorem Uniform.row (h : Uniform cssClass handlers filter texts nodes) (siblings more : List Node)
    (state : Directives) : ∃ before behind state', ∀ i,
      row cssClass handlers filter (siblings ++ nodes i :: more) state =
        (before ++ texts i ++ behind, state') := by
  obtain ⟨before, behind, state', hwalk⟩ := h (Html.row cssClass handlers filter siblings state).2
  refine ⟨(Html.row cssClass handlers filter siblings state).1 ++ before,
    behind ++ (Html.row cssClass handlers filter more state').1,
    (Html.row cssClass handlers filter more state').2, fun i => ?_⟩
  rw [row_append, row_cons, hwalk]
  simp only [append_assoc]

/-- A parent that shows its children puts the same texts around them. -/
theorem Uniform.below (h : Uniform cssClass handlers filter texts nodes) {kind : Kind}
    (hshows : kind.showsChildren = true) (siblings more : List Node) :
    Uniform cssClass handlers filter texts fun i => .mk kind (siblings ++ nodes i :: more) := by
  intro state
  obtain ⟨before, behind, state', hrow⟩ := h.row siblings more state
  obtain ⟨opening, closing, hwalk⟩ :=
    @exists_walk_eq cssClass handlers filter kind hshows state
  refine ⟨opening ++ before, behind ++ closing, state', fun i => ?_⟩
  rw [hwalk, hrow]
  simp only [append_assoc]

theorem uniform_fill (h : Uniform cssClass handlers filter texts nodes) {place : Node.Place}
    (hshown : place.Shown) :
    Uniform cssClass handlers filter texts fun i => place.fill (nodes i) := by
  induction place generalizing nodes with
  | nil => exact h
  | cons around place ih =>
      obtain ⟨hshows, hrest⟩ := forall_mem_cons.mp hshown
      exact ih (h.below hshows around.before around.behind) hrest

end Uniform

/-! ## Documents -/

/-- The bare anchor of a mail address. -/
theorem linkFallback_of_isMail {link : Link} (h : link.isMail = true) (content : Text) :
    linkFallback link.source content =
      "<a href='".toList ++ escape (Text.trim link.source) ++ "'>".toList ++ content ++
        "</a>".toList := by
  unfold linkFallback
  exact if_pos h

/-- With the titles of the links and images that fail as texts in their place, a document is
written as before; mail addresses keep their place.  Of a link to a mail address that is
shown and fails, there is an anchor with the address and the title, both escaped, between
texts that stay the same whatever stands in its place. -/
theorem render_of_failures (cssClass : Text) (handlers : Handlers) (filter : UrlFilter)
    (root : Node) :
    render cssClass handlers filter (root.replace (failedTitle? handlers filter)) =
        render cssClass handlers filter root ∧
      ∀ (place : Node.Place) (link : Link) (below : List Node),
        place.fill (.mk (.link link) below) = root → place.Shown →
        link.fails handlers filter = true → link.isMail = true →
        ∃ before behind,
          render cssClass handlers filter root =
              before ++ ("<a href='".toList ++ escape (Text.trim link.source) ++ "'>".toList ++
                escape link.title ++ "</a>".toList) ++ behind ∧
            ∀ content, render cssClass handlers filter (place.fill (.raw content)) =
              before ++ content ++ behind := by
  refine ⟨?_, ?_⟩
  · have hwalk : (visitor (escape cssClass) handlers filter).walk
        (root.replace (failedTitle? handlers filter)) =
          (visitor (escape cssClass) handlers filter).walk root :=
      walk_replace (fun _ _ h children => walk_of_failedTitle? h children) root
    exact congrArg (fun walk => (walk .initial).1) hwalk
  · rintro place link below rfl hshown hfails hmail
    -- the link is one of two things that may stand in its place, the other is any text
    have hlink : (visitor (escape cssClass) handlers filter).walk (.mk (.link link) below) =
        Walk.pure (linkFallback link.source (escape link.title)) := by
      rw [walk_link, linked_of_fails hfails]
    have huniform : Uniform (escape cssClass) handlers filter
        (fun content : Option Text => content.getD (linkFallback link.source (escape link.title)))
        fun content => content.elim (.mk (.link link) below) Node.raw := by
      refine uniform_of_walk fun content => ?_
      cases content with
      | none => exact hlink
      | some content => rfl
    obtain ⟨before, behind, state', hwalk⟩ := uniform_fill huniform hshown .initial
    refine ⟨before, behind, ?_, fun content => congrArg Prod.fst (hwalk (some content))⟩
    rw [← linkFallback_of_isMail hmail]
    exact congrArg Prod.fst (hwalk none)

/-! ### An example -/

/-- A wiki that knows no other wiki. -/
def letterHandlers : Handlers :=
  let site : Site := { store := ({} : Archive).toStore }
  .ofSite site defaultClass fun _ => .anchors site

/-- A link to a page on some wiki, or to a mail address. -/
def letterLink (source title : String) : Link where
  source := source.toList
  title := title.toList
  target := .read source.toList title.toList
  page := .onLocal "Home".toList
  handler := .link

/-- The paragraph around the second of two links. -/
def letterPlace : Node.Place :=
  [{ kind := .paragraph, before := [.leaf (.link (letterLink "c2:Wiki" "a & b"))], behind := [] },
    { kind := .page, before := [], behind := [] }]

/-- A link to a page on a wiki that is not known, and one to an address with a space in it. -/
def sampleLetter : Node :=
  letterPlace.fill (.leaf (.link (letterLink " mailto:a b" "<A>")))

theorem render_of_failures_sampleLetter :
    render defaultClass letterHandlers id sampleLetter =
        "<p class='wiki-content'>a &amp; b<a href='mailto:a b'>&lt;A&gt;</a></p>".toList ∧
      letterPlace.Shown ∧
      (letterLink " mailto:a b" "<A>").fails letterHandlers id = true ∧
      (letterLink " mailto:a b" "<A>").isMail = true ∧
      ∃ before behind, ∀ content,
        render defaultClass letterHandlers id (letterPlace.fill (.raw content)) =
          before ++ content ++ behind := by
  have hshown : letterPlace.Shown := by simp [Node.Place.Shown, letterPlace, Kind.showsChildren]
  have hfails : (letterLink " mailto:a b" "<A>").fails letterHandlers id = true := by
    decide +kernel
  have hmail : (letterLink " mailto:a b" "<A>").isMail = true := by decide +kernel
  obtain ⟨before, behind, -, haround⟩ :=
    (render_of_failures defaultClass letterHandlers id sampleLetter).2 letterPlace _ [] rfl
      hshown hfails hmail
  exact ⟨by decide +kernel, hshown, hfails, hmail, before, behind, haround⟩

end Html

end Creole
