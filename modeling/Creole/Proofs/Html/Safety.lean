import Creole.Proofs.Html.Fragment
import Creole.Proofs.Node.View
import Creole.Proofs.Node.Walk

/-!
# Written HTML is well-formed and loses no text

A document without raw HTML, whose links and images are shown by the handlers of a
site, is written as a fragment of the grammar `Fragment`, whatever its texts, targets,
classes and arguments hold, and whatever the URL filter makes of its URLs.  The runs
of text in that fragment, their references read, are the text that is shown of the
document.

## Strategy

Everything that a document brings into the output is escaped, so the runs of the
output are the escaped text of the document.  That is what is proved, in one
induction on the tree, for the output behind any directives (`fragment_walk`).  The
kinds fall into three groups: those that put an element around their children
(`Fragment.of_marked`), those that are written on their own (`fragment_leaf`), and
links and images, whose output is that of a handler or a fallback (`fragment_link`,
`fragment_image`).
-/

namespace Creole.Html

/-! ## What is assumed of a document -/

/-- The title of an image whose handler fails. -/
def failedTitle (handlers : Handlers) (filter : UrlFilter) (link : Link) : Text :=
  match
    (handlers.named link.handler).render link.page (escape link.title) link.target filter
  with
  | .ok _ => []
  | .error _ => link.title

/-- A document is plain if no text in it is to be written as it is, and if its links
are shown as anchors and its images as images, each on some site. -/
structure Plain (handlers : Handlers) (root : Node) : Prop where
  escaped : ∀ content, Kind.text content false ∉ root.kinds
  links : ∀ link, Kind.link link ∈ root.kinds →
    ∃ site, handlers.named link.handler = .anchors site
  images : ∀ link, Kind.image link ∈ root.kinds →
    ∃ site imageClass, handlers.named link.handler = .images site imageClass

variable {handlers : Handlers}

theorem Plain.child {kind : Kind} {children : List Node} {child : Node}
    (h : Plain handlers (.mk kind children)) (hchild : child ∈ children) :
    Plain handlers child where
  escaped content hmem := h.escaped content (Node.mem_kinds_of_mem_children hchild hmem)
  links link hmem := h.links link (Node.mem_kinds_of_mem_children hchild hmem)
  images link hmem := h.images link (Node.mem_kinds_of_mem_children hchild hmem)

/-! ## Attributes -/

theorem classAttribute_eq (cssClass : Text) :
    classAttribute cssClass = writeAttributes [⟨"class".toList, cssClass⟩] := by
  unfold classAttribute
  simp [writeAttributes, Attribute.write]

theorem isName_class : IsName "class".toList := by decide

theorem isName_href : IsName "href".toList := by decide

/-- A class and one more attribute. -/
theorem valid_pair {cssClass name value : Text} (hclass : Escaped cssClass) (hname : IsName name)
    (hvalue : Escaped value) :
    ∀ a ∈ [(⟨"class".toList, cssClass⟩ : Attribute), ⟨name, value⟩], a.Valid := by
  simp only [List.forall_mem_cons]
  exact ⟨⟨isName_class, hclass⟩, ⟨hname, hvalue⟩, by simp⟩

/-! ## Elements of a class -/

/-- An element of a class around a fragment. -/
theorem Fragment.of_marked {name cssClass content runs : Text} (hname : IsName name)
    (hclass : Escaped cssClass) (hcontent : Fragment content runs) :
    Fragment (Html.element name (classAttribute cssClass) content) runs := by
  rw [classAttribute_eq]
  exact .of_element hname (List.forall_mem_singleton.mpr ⟨isName_class, hclass⟩) hcontent

theorem Fragment.of_marked_escape {name cssClass : Text} (hname : IsName name)
    (hclass : Escaped cssClass) (content : Text) :
    Fragment (Html.element name (classAttribute cssClass) (escape content)) (escape content) :=
  .of_marked hname hclass (.of_escape content)

/-- An element of a class without content. -/
theorem Fragment.of_marked_empty {name cssClass : Text} (hname : IsName name)
    (hclass : Escaped cssClass) : Fragment (emptyElement name (classAttribute cssClass)) [] := by
  rw [classAttribute_eq]
  exact .of_emptyElement hname (List.forall_mem_singleton.mpr ⟨isName_class, hclass⟩)

/-! ## Elements around children -/

theorem isName_heading (level : Nat) : IsName ('h' :: Text.ofNat level) := by
  refine ⟨by simp, List.all_eq_true.mpr (List.forall_mem_cons.mpr ⟨by decide, fun c hc => ?_⟩)⟩
  have hdigit : c.isDigit = true := Nat.isDigit_of_mem_toDigits (by decide) (by decide) hc
  simp [Char.isAlphanum, hdigit]

/-- The tags of kinds other than headings that are nothing but an element around their children. -/
def wrapperTags : List Text :=
  ["p".toList, "blockquote".toList, "strong".toList, "em".toList, "strike".toList, "ol".toList,
    "ul".toList, "li".toList, "table".toList, "tr".toList]

theorem mem_of_wrapper {kind : Kind} {tag : Text} (h : wrapper? kind = some tag) :
    (∃ level, tag = 'h' :: Text.ofNat level) ∨ tag ∈ wrapperTags := by
  cases kind with
  | heading level => exact Or.inl ⟨level, (Option.some.inj h).symm⟩
  | emphasis style =>
      obtain rfl : styleTag style = tag := Option.some.inj h
      cases style <;> exact Or.inr (by decide)
  | list ordered =>
      obtain rfl : (if ordered then "ol".toList else "ul".toList) = tag := Option.some.inj h
      cases ordered <;> exact Or.inr (by decide)
  | paragraph | blockquote | listItem | table | row =>
      injection h with h
      subst h
      exact Or.inr (by decide)
  | _ => cases h

theorem isName_of_wrapper {kind : Kind} {tag : Text} (h : wrapper? kind = some tag) :
    IsName tag := by
  have hnames : ∀ tag ∈ wrapperTags, IsName tag := by decide
  rcases mem_of_wrapper h with ⟨level, rfl⟩ | hmem
  · exact isName_heading level
  · exact hnames tag hmem

/-! ## Links and images -/

theorem anchor_eq (cssClass href content : Text) :
    Handler.anchor cssClass href content =
      Html.element "a".toList
        (writeAttributes [⟨"class".toList, cssClass⟩, ⟨"href".toList, escape href⟩]) content := by
  unfold Handler.anchor
  simp [Html.element, writeAttributes, Attribute.write]

theorem image_eq (cssClass source content : Text) :
    Handler.image cssClass source content =
      emptyElement "img".toList
        (writeAttributes [⟨"class".toList, escape cssClass⟩, ⟨"src".toList, escape source⟩,
          ⟨"alt".toList, content⟩]) := by
  unfold Handler.image
  simp [emptyElement, writeAttributes, Attribute.write]

/-- The classes of anchors. -/
def anchorClasses : List Text :=
  ["external".toList, "existing-page".toList, "new-page".toList, "attachment".toList,
    "inter-wiki".toList, "fragment".toList]

theorem anchorClass_mem (site : Site) (destination : Destination) :
    Handler.anchorClass site destination ∈ anchorClasses := by
  cases destination with
  | localPage page =>
      unfold Handler.anchorClass
      dsimp only
      split <;> simp [anchorClasses]
  | _ =>
      unfold Handler.anchorClass
      simp [anchorClasses]

theorem escaped_anchorClass (site : Site) (destination : Destination) :
    Escaped (Handler.anchorClass site destination) := by
  have hplain : ∀ cssClass ∈ anchorClasses, ∀ c ∈ cssClass, c ≠ '&' ∧ c ∉ markupChars := by
    simp [anchorClasses, markupChars]
  exact escaped_of_forall (hplain _ (anchorClass_mem site destination))

/-- Where the target of a link leads nowhere, its title is shown, in an anchor of
its own if the source is a mail address. -/
theorem fragment_linkFallback (source title : Text) :
    Fragment (linkFallback source (escape title)) (escape title) := by
  have hanchor : "<a href='".toList ++ escape (Text.trim source) ++ "'>".toList ++
        escape title ++ "</a>".toList =
      Html.element "a".toList
        (writeAttributes [⟨"href".toList, escape (Text.trim source)⟩]) (escape title) := by
    simp [Html.element, writeAttributes, Attribute.write]
  unfold linkFallback
  dsimp only
  split
  · rw [hanchor]
    exact .of_element (by decide)
      (List.forall_mem_singleton.mpr ⟨isName_href, escaped_escape _⟩) (.of_escape title)
  · exact .of_escape title

/-- A link on a site is shown as an anchor around its title. -/
theorem fragment_link (filter : UrlFilter) {link : Link} {site : Site}
    (h : handlers.named link.handler = .anchors site) :
    Fragment (linked handlers filter link (linkFallback link.source)) (escape link.title) := by
  unfold linked
  rw [h]
  simp only [Handler.anchors]
  cases site.resolve link.page link.target with
  | ok resolved =>
      show Fragment (Handler.anchor _ _ _) _
      rw [anchor_eq]
      exact .of_element (by decide) (valid_pair (escaped_anchorClass site resolved.destination)
        isName_href (escaped_escape _)) (.of_escape link.title)
  | error cause => exact fragment_linkFallback link.source link.title

/-- An image on a site is shown as an element without content; where its target leads
nowhere, its title is shown. -/
theorem fragment_image (filter : UrlFilter) {link : Link} {site : Site} {imageClass : Text}
    (h : handlers.named link.handler = .images site imageClass) :
    Fragment (linked handlers filter link id) (escape (failedTitle handlers filter link)) := by
  unfold linked failedTitle
  rw [h]
  simp only [Handler.images]
  cases site.resolve link.page (Handler.imageTarget link.target) with
  | ok resolved =>
      have hvalid : ∀ a ∈ [(⟨"class".toList, escape imageClass⟩ : Attribute),
          ⟨"src".toList, escape (filter resolved.url)⟩, ⟨"alt".toList, escape link.title⟩],
          a.Valid := by
        have hsrc : IsName "src".toList := by decide
        have halt : IsName "alt".toList := by decide
        simp only [List.forall_mem_cons]
        exact ⟨⟨isName_class, escaped_escape _⟩, ⟨hsrc, escaped_escape _⟩,
          ⟨halt, escaped_escape _⟩, by simp⟩
      show Fragment (Handler.image _ _ _) []
      rw [image_eq]
      exact .of_emptyElement (by decide) hvalid
  | error cause => exact .of_escape link.title

/-! ## Kinds written on their own -/

/-- The output of a kind whose children are not shown is its visible text, in whatever
elements. -/
theorem fragment_leaf {cssClass : Text} (hclass : Escaped cssClass) (filter : UrlFilter)
    {kind : Kind} {children : List Node} (hplain : Plain handlers (.mk kind children))
    (hshows : kind.showsChildren = false) :
    Fragment (leaf cssClass handlers filter kind)
      (escape ((Node.mk kind children).visibleText (failedTitle handlers filter))) := by
  have hkind : kind ∈ (Node.mk kind children).kinds := Node.kind_mem_kinds _
  have hpre : IsName "pre".toList := by decide
  have hcode : IsName "code".toList := by decide
  cases kind with
  | text content escaped =>
      rw [Node.visibleText_mk]
      cases escaped with
      | false => exact absurd hkind (hplain.escaped content)
      | true => exact .of_escape content
  | code content language =>
      cases language with
      | none => exact .of_marked_escape hpre hclass content
      | some language =>
          exact .of_marked hpre hclass (.of_marked_escape hcode (escaped_escape language) content)
  | inlineCode content language =>
      have hinline : Escaped (cssClass ++ " inline".toList) :=
        hclass.append (escaped_of_forall (by simp [markupChars]))
      cases language with
      | none =>
          exact .of_marked_escape hcode (hinline.append escaped_nil) content
      | some language =>
          have hlanguage : Escaped (' ' :: escape language) :=
            (escaped_singleton (by decide) (by decide)).append (escaped_escape language)
          exact .of_marked_escape hcode (hinline.append hlanguage) content
  | nowiki content => exact .of_marked_escape hpre hclass content
  | inlineNowiki content => exact .of_marked_escape hcode hclass content
  | invocation call =>
      have htag : IsName (if call.block then "pre".toList else "code".toList) := by
        cases call.block <;> decide
      rw [Node.visibleText_invocation]
      exact .of_marked_escape htag hclass call.source
  | rule => exact .of_marked_empty (by decide) hclass
  | linebreak => exact .of_marked_empty (by decide) hclass
  | anchor id =>
      have hid : IsName "id".toList := by decide
      have hattributes : classAttribute cssClass ++ " id='".toList ++ escape id ++ "'".toList =
          writeAttributes [⟨"class".toList, cssClass⟩, ⟨"id".toList, escape id⟩] := by
        unfold classAttribute
        simp [writeAttributes, Attribute.write]
      show Fragment (emptyElement "a".toList _) []
      rw [hattributes]
      exact .of_emptyElement (by decide) (valid_pair hclass hid (escaped_escape id))
  | link link =>
      obtain ⟨site, hsite⟩ := hplain.links link hkind
      exact fragment_link filter hsite
  | image link =>
      obtain ⟨site, imageClass, hsite⟩ := hplain.images link hkind
      exact fragment_image filter hsite
  | directive directive => exact .nil
  | _ => cases hshows

/-! ## Documents -/

/-- The outputs of children in a row, from those of each behind any directives. -/
theorem fragment_inOrder (v : Visitor Text) (shown : Node → Text) {children : List Node}
    (h : ∀ child ∈ children, ∀ state, Fragment (v.walk child state).1 (escape (shown child)))
    (state : Directives) :
    Fragment (Walk.inOrder [] (· ++ ·) (children.map v.child) state).1
      (escape (children.flatMap shown)) := by
  induction children generalizing state with
  | nil => exact .nil
  | cons child children ih =>
      rw [List.forall_mem_cons] at h
      rw [List.map_cons, Walk.inOrder_cons, List.flatMap_cons, escape_append]
      exact (h.1 state).append (ih h.2 _)

/-- The style of a cell is one more attribute, if there is one. -/
theorem Fragment.of_cell {cssClass content runs : Text} (header : Bool)
    (hclass : Escaped cssClass) (alignment : Option Text) (hcontent : Fragment content runs) :
    Fragment
      (Html.element (cellTag header) (classAttribute cssClass ++ alignmentAttribute alignment)
        content)
      runs := by
  have hname : IsName (cellTag header) := by cases header <;> decide
  cases alignment with
  | none =>
      unfold alignmentAttribute
      rw [List.append_nil]
      exact .of_marked hname hclass hcontent
  | some alignment =>
      have hattributes : classAttribute cssClass ++ alignmentAttribute (some alignment) =
          writeAttributes [⟨"class".toList, cssClass⟩,
            ⟨"style".toList, "vertical-align:".toList ++ escape alignment⟩] := by
        unfold classAttribute alignmentAttribute
        simp [writeAttributes, Attribute.write]
      have hstyle : Escaped "vertical-align:".toList :=
        escaped_of_forall (by simp [markupChars])
      rw [hattributes]
      exact .of_element hname
        (valid_pair hclass (by decide) (hstyle.append (escaped_escape alignment))) hcontent

/-- A kind that is nothing but an element around its children is written as one. -/
theorem fragment_wrapper {cssClass tag runs : Text} (hclass : Escaped cssClass)
    {filter : UrlFilter} {kind : Kind} (h : wrapper? kind = some tag)
    {children : List (Child Text)} {state : Directives}
    (hchildren : Fragment (Walk.inOrder [] (· ++ ·) children state).1 runs) :
    Fragment ((visitor cssClass handlers filter).visit kind children state).1 runs := by
  have hvisit : (visitor cssClass handlers filter).visit kind children =
      (Walk.inOrder [] (· ++ ·) children).map (element tag (classAttribute cssClass)) := by
    cases kind <;> simp_all [visitor, wrapper?]
  rw [hvisit]
  exact .of_marked (isName_of_wrapper h) hclass hchildren

theorem visit_of_not_showsChildren {cssClass : Text} {filter : UrlFilter} {kind : Kind}
    (hshows : kind.showsChildren = false) (children : List (Child Text)) :
    (visitor cssClass handlers filter).visit kind children =
      Walk.pure (leaf cssClass handlers filter kind) := by
  cases kind with
  | page | paragraph | heading | blockquote | emphasis | list | listItem | table | row | cell =>
      cases hshows
  | _ => rfl

/-- Behind any directives, the output of a plain tree is a fragment whose runs are its
visible text, escaped. -/
theorem fragment_walk {cssClass : Text} (hclass : Escaped cssClass) (filter : UrlFilter)
    {node : Node} (hplain : Plain handlers node) (state : Directives) :
    Fragment ((visitor cssClass handlers filter).walk node state).1
      (escape (node.visibleText (failedTitle handlers filter))) := by
  induction node using Node.induction generalizing state with
  | mk kind children ih =>
      have hchildren := fragment_inOrder (visitor cssClass handlers filter)
        (Node.visibleText (failedTitle handlers filter))
        (fun child hchild => ih child hchild (hplain.child hchild))
      cases kind with
      | directive directive =>
          rw [Visitor.walk_directive, Node.visibleText_mk]
          exact .nil
      | page =>
          rw [Visitor.walk_mk _ _ _ (by simp), Node.visibleText_mk]
          exact hchildren state
      | cell header =>
          rw [Visitor.walk_mk _ _ _ (by simp), Node.visibleText_mk]
          exact .of_cell header hclass state.tableAlignment? (hchildren state)
      | paragraph | heading level | blockquote | emphasis style | list ordered | listItem | table
      | row =>
          rw [Visitor.walk_mk _ _ _ (by simp), Node.visibleText_of_showsChildren rfl]
          exact fragment_wrapper hclass rfl (hchildren state)
      | _ =>
          -- the children of all other kinds are not shown
          rw [Visitor.walk_mk _ _ _ (by simp), visit_of_not_showsChildren rfl]
          exact fragment_leaf hclass filter hplain rfl

/-- The HTML of a plain tree is a fragment of the grammar, and its runs of text, with
their references read, are the visible text of the tree. -/
theorem fragment_render (cssClass : Text) (filter : UrlFilter) {root : Node}
    (hplain : Plain handlers root) :
    (∃ runs, Fragment (render cssClass handlers filter root) runs) ∧
      ∀ runs, Fragment (render cssClass handlers filter root) runs →
        unescape runs = root.visibleText (failedTitle handlers filter) := by
  have hwritten : Fragment (render cssClass handlers filter root)
      (escape (root.visibleText (failedTitle handlers filter))) :=
    fragment_walk (escaped_escape cssClass) filter hplain .initial
  refine ⟨⟨_, hwritten⟩, fun runs hruns => ?_⟩
  rw [hruns.runs_unique hwritten]
  exact unescape_escape _

/-! ### An example -/

/-- The handlers of a wiki without pages. -/
def sampleHandlers : Handlers :=
  let site : Site := { store := ({} : Archive).toStore }
  .ofSite site "pic".toList fun _ => .anchors site

/-- A paragraph whose texts, attributes and URLs hold markup, with a link to a URL, an image
that leads nowhere and a macro use. -/
def sampleDocument : Node :=
  let page : PageRef := .onLocal "Home".toList
  .mk .paragraph
    [.text "1 < 2 & ".toList,
      .mk (.emphasis .bold) [.leaf (.inlineCode "a'b".toList (some "c'>".toList))],
      .leaf (.link
        { source := "x:y".toList, title := "\"T\"".toList, page, handler := .link,
          target := { uri := some "x:'/><y".toList } }),
      .leaf (.image
        { source := [], title := "</p>".toList, page, handler := .image, target := {} }),
      .leaf (.invocation { name := "toc".toList, args := "a<b".toList }),
      .leaf (.anchor "'".toList)]

theorem fragment_render_sampleDocument :
    Plain sampleHandlers sampleDocument ∧
    (∃ runs, Fragment (render "wiki".toList sampleHandlers id sampleDocument) runs) ∧
      ∀ runs, Fragment (render "wiki".toList sampleHandlers id sampleDocument) runs →
        unescape runs = "1 < 2 & a'b\"T\"</p><<toc:a<b>>".toList := by
  have hplain : Plain sampleHandlers sampleDocument := by
    refine ⟨by simp [sampleDocument, Node.text], fun link hlink => ?_, fun link hlink => ?_⟩
    · obtain rfl : link = _ := by simpa [sampleDocument, Node.text] using hlink
      exact ⟨_, rfl⟩
    · obtain rfl : link = _ := by simpa [sampleDocument, Node.text] using hlink
      exact ⟨_, _, rfl⟩
  exact ⟨hplain, fragment_render "wiki".toList id hplain⟩

end Creole.Html
