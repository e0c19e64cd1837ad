import Creole.Docbook.Render
import Creole.Proofs.Docbook.SectionNesting
import Creole.Proofs.Node.View
import Creole.Proofs.Node.Walk

/-!
# The article holds what the document shows

The character data of the article of a document is the text that is shown of the
document, in document order (`data_article`).  Nothing of it is lost, written twice or
moved, although what stands under a heading is held back in sections that are still
open.

## Strategy

Most of the article is written where the walk through the document stands.  On a page,
and in a quote that has headings, the outputs of the children go through a
`SectionBuilder` instead.  Whatever is read off XML part by part, looking through
sections, is the same for both ways (`flatMap_sectioned`): the builder returns what was
added to it, in order (`allContents_finish_run`).  So is it for all kinds that are shown
as their children (`flatMap_visit`), and an induction on the tree remains.
-/

namespace Creole.Docbook

/-! ## What a builder returns -/

theorem allContents_finish_run {α : Type} (steps : List (Step α)) :
    Outline.allContents (SectionBuilder.run steps).finish = steps.flatMap Step.content := by
  rw [finish_run, nested, allContents_outline, Forest.labels_nest]
  exact flatMap_content_created steps

section Parts

variable {β : Type} {f : Xml → List β}

mutual

theorem flatMap_toXml
    (hsection : ∀ content, f (.element "section".toList [] content) = content.flatMap f) :
    (entry : Outline Xml) → f entry.toXml = entry.contents.flatMap f
  | .content x => by simp [Outline.toXml, Outline.contents]
  | .division _ entries => by
    rw [Outline.toXml, hsection, flatMap_allToXml hsection entries, Outline.contents]

/-- What is read off parts one by one is read off sections around them as well, if it
looks through the sections. -/
theorem flatMap_allToXml
    (hsection : ∀ content, f (.element "section".toList [] content) = content.flatMap f) :
    (entries : List (Outline Xml)) →
      (Outline.allToXml entries).flatMap f = (Outline.allContents entries).flatMap f
  | [] => rfl
  | entry :: entries => by
    rw [Outline.allToXml, List.flatMap_cons, flatMap_toXml hsection entry,
      flatMap_allToXml hsection entries, Outline.allContents, List.flatMap_append]

end

end Parts

/-! ## Children in sections -/

/-- The step with which a child of some kind begins: a heading begins a section. -/
def beginning (kind : Kind) : List (Step Xml) :=
  match kind.headingLevel? with
  | some level => [.start level]
  | none => []

/-- The steps that children ask of a builder, one after the other. -/
def steps : List (Child (List Xml)) → Directives → List (Step Xml)
  | [], _ => []
  | child :: children, state =>
    beginning child.kind ++ Step.append (child.walk state).1 :: steps children (child.walk state).2

theorem flatMap_content_steps (children : List (Child (List Xml))) (state : Directives) :
    (steps children state).flatMap Step.content = (inOrder children state).1 := by
  induction children generalizing state with
  | nil => rfl
  | cons child children ih =>
      have hbeginning : (beginning child.kind).flatMap Step.content = [] := by
        unfold beginning
        split <;> rfl
      rw [steps, List.flatMap_append, hbeginning, List.nil_append, List.flatMap_cons, ih,
        Step.content, inOrder, inOrder, Walk.inOrder_cons]

theorem addChild_eq (builder : SectionBuilder Xml) (state : Directives)
    (child : Child (List Xml)) :
    addChild (builder, state) child =
      ((beginning child.kind ++ [Step.append (child.walk state).1]).foldl
          SectionBuilder.step builder,
        (child.walk state).2) := by
  unfold addChild beginning
  cases child.kind.headingLevel? <;> rfl

theorem foldl_addChild (children : List (Child (List Xml))) (builder : SectionBuilder Xml)
    (state : Directives) :
    children.foldl addChild (builder, state) =
      ((steps children state).foldl SectionBuilder.step builder, (inOrder children state).2) := by
  induction children generalizing builder state with
  | nil => rfl
  | cons child children ih =>
      rw [List.foldl_cons, addChild_eq, ih, steps, inOrder, inOrder, Walk.inOrder_cons]
      simp only [List.foldl_append, List.foldl_cons, List.foldl_nil]

theorem sectioned_eq (children : List (Child (List Xml))) (state : Directives) :
    sectioned children state =
      (Outline.allToXml (SectionBuilder.run (steps children state)).finish,
        (inOrder children state).2) := by
  unfold sectioned
  rw [foldl_addChild]
  rfl

/-! ## Kinds that are shown as their children -/

section Parts

variable {β : Type} {f : Xml → List β}

theorem flatMap_sectioned
    (hsection : ∀ content, f (.element "section".toList [] content) = content.flatMap f)
    (children : List (Child (List Xml))) (state : Directives) :
    (sectioned children state).1.flatMap f = (inOrder children state).1.flatMap f := by
  rw [sectioned_eq, flatMap_allToXml hsection, allContents_finish_run, flatMap_content_steps]

/-- The names of the elements of cells. -/
def cellNames : List Text := ["th".toList, "td".toList]

/-- A kind other than a cell that is shown as its children: what is read off XML part by
part, looking through all elements but cells, is read off the children in order. -/
theorem flatMap_visit
    (hthrough : ∀ name attributes content, name ∉ cellNames →
      f (.element name attributes content) = content.flatMap f)
    {kind : Kind} (hshows : kind.showsChildren = true) (hcell : ∀ header, kind ≠ .cell header)
    (handlers : Handlers) (filter : UrlFilter) (children : List (Child (List Xml)))
    (state : Directives) :
    ((visitor handlers filter).visit kind children state).1.flatMap f =
      (inOrder children state).1.flatMap f := by
  have hsectioned := flatMap_sectioned (fun content => hthrough _ _ content (by decide))
    children state
  have haround : ∀ (name : Text) (attributes : List (Text × Text)) (walk : Walk (List Xml)),
      name ∉ cellNames →
      (around name attributes walk state).1.flatMap f = (walk state).1.flatMap f := by
    intro name attributes walk hname
    simp [around, Walk.map, hthrough _ _ _ hname]
  cases kind with
  | page => exact hsectioned
  | cell header => exact absurd rfl (hcell header)
  | heading level =>
      show [element "info".toList [element "title".toList (inOrder children state).1]].flatMap f = _
      rw [List.flatMap_singleton, element, hthrough _ _ _ (by decide), List.flatMap_singleton,
        element, hthrough _ _ _ (by decide)]
  | blockquote =>
      have hquote := haround "section".toList [("role".toList, "blockquote".toList)]
        (if anyHeading children then sectioned children else inOrder children) (by decide)
      refine hquote.trans ?_
      split
      · exact hsectioned
      · rfl
  | paragraph | emphasis style | listItem | table | row => exact haround _ _ _ (by decide)
  | list ordered => cases ordered <;> exact haround _ _ _ (by decide)
  | _ => cases hshows

end Parts

/-! ## Text -/

theorem data_eq_flatMap (name : Text) (attributes : List (Text × Text)) (content : List Xml) :
    Xml.data (.element name attributes content) = content.flatMap Xml.data := by
  rw [Xml.data, Xml.dataAll_eq_flatMap]

/-- The character data of children in order, from that of each behind any directives. -/
theorem data_inOrder (v : Visitor (List Xml)) (shown : Node → Text) {children : List Node}
    (h : ∀ child ∈ children, ∀ state, (v.walk child state).1.flatMap Xml.data = shown child)
    (state : Directives) :
    (inOrder (children.map v.child) state).1.flatMap Xml.data = children.flatMap shown := by
  induction children generalizing state with
  | nil => rfl
  | cons child children ih =>
      rw [List.forall_mem_cons] at h
      rw [inOrder, List.map_cons, Walk.inOrder_cons, List.flatMap_append, List.flatMap_cons]
      exact congr_arg₂ (· ++ ·) (h.1 state) (ih h.2 _)

/-- What is shown of a kind that does not show its children. -/
theorem data_leaf (handlers : Handlers) (filter : UrlFilter) {kind : Kind}
    (hshows : kind.showsChildren = false) (children : List Node) :
    (leaf handlers filter kind).flatMap Xml.data =
      (Node.mk kind children).visibleText Link.title := by
  cases kind with
  | text content escaped => cases escaped <;> simp [Node.visibleText_mk, leaf, Xml.data]
  | invocation call =>
      rw [Node.visibleText_invocation]
      cases hblock : call.block <;> simp [leaf, hblock, element, Xml.data, Xml.dataAll]
  | code content language | inlineCode content language | nowiki content | inlineNowiki content
  | rule | linebreak | anchor id | link link | image link | directive directive =>
      simp [Node.visibleText_mk, leaf, imageElement, element, Xml.data, Xml.dataAll]
  | _ => cases hshows

theorem visit_of_not_showsChildren (handlers : Handlers) (filter : UrlFilter) {kind : Kind}
    (hshows : kind.showsChildren = false) (children : List (Child (List Xml))) :
    (visitor handlers filter).visit kind children = Walk.pure (leaf handlers filter kind) := by
  cases kind with
  | page | paragraph | heading | blockquote | emphasis | list | listItem | table | row | cell =>
      cases hshows
  | _ => rfl

/-- Behind any directives, the character data of a node is the text that is shown of it. -/
theorem data_walk (handlers : Handlers) (filter : UrlFilter) (node : Node) (state : Directives) :
    ((visitor handlers filter).walk node state).1.flatMap Xml.data =
      node.visibleText Link.title := by
  induction node using Node.induction generalizing state with
  | mk kind children ih =>
      have hchildren := data_inOrder (visitor handlers filter) (Node.visibleText Link.title) ih
      have hthrough : ∀ name attributes content, name ∉ cellNames →
          Xml.data (.element name attributes content) = content.flatMap Xml.data :=
        fun name attributes content _ => data_eq_flatMap name attributes content
      cases kind with
      | directive directive =>
          rw [Visitor.walk_directive, Node.visibleText_mk]
          rfl
      | cell header =>
          rw [Visitor.walk_mk _ _ _ (by simp), Node.visibleText_of_showsChildren rfl,
            ← hchildren state]
          show [Xml.element _ _ _].flatMap Xml.data = _
          rw [List.flatMap_singleton, data_eq_flatMap]
          rfl
      | page | paragraph | heading level | blockquote | emphasis style | list ordered | listItem
      | table | row =>
          rw [Visitor.walk_mk _ _ _ (by simp), flatMap_visit hthrough rfl (by simp),
            hchildren, Node.visibleText_of_showsChildren rfl]
      | _ =>
          rw [Visitor.walk_mk _ _ _ (by simp), visit_of_not_showsChildren _ _ rfl, Walk.pure,
            data_leaf _ _ rfl]

/-- The character data of the article of a document is the text that is shown of the
document.  It is the plain text of a document without links, images and macro uses
in which nothing is hidden. -/
theorem data_article (language : Text) (handlers : Handlers) (filter : UrlFilter) (root : Node) :
    (article language handlers filter root).data = root.visibleText Link.title ∧
      ((∀ link, Kind.link link ∉ root.kinds ∧ Kind.image link ∉ root.kinds) →
        (∀ call, Kind.invocation call ∉ root.kinds) → root.Everywhere Node.HidesNothing →
        (article language handlers filter root).data = root.plainText) := by
  have hdata : (article language handlers filter root).data = root.visibleText Link.title := by
    rw [XmlElement.data, Xml.dataAll_eq_flatMap]
    exact data_walk handlers filter root .initial
  refine ⟨hdata, fun hlinks hcalls hhides => ?_⟩
  rw [hdata, Node.visibleText_eq_plainText _ hlinks hcalls hhides]

/-! ### An example -/

/-- Handlers that resolve nothing. -/
def failingHandlers : Handlers :=
  let failing : Handler :=
    { resolve := fun _ target _ => .error (.malformedTarget target.text)
      render := fun _ _ target _ => .error (.malformedTarget target.text) }
  { link := failing, image := failing, custom := fun _ => failing }

/-- Text before the first heading, sections of rising and falling levels, and a quote with
sections of its own. -/
def sampleSections : Node :=
  .mk .page
    [.mk .paragraph [.text "lead ".toList],
      .heading 2 [.text "two ".toList],
      .mk .blockquote
        [.heading 3 [.raw "three ".toList],
          .mk .paragraph [.leaf (.inlineCode "code ".toList none)]],
      .heading 1 [.text "one ".toList],
      .leaf (.nowiki "end".toList)]

/-- `sampleSections` in front of two macro uses, one of them with arguments. -/
def sampleCalls : Node :=
  sampleSections.withChildren (sampleSections.children ++
    [.leaf (.invocation { name := "toc".toList, args := "2".toList, block := true }),
      .mk .paragraph [.leaf (.invocation { name := "now".toList })]])

theorem data_article_sampleSections :
    (∀ link, Kind.link link ∉ sampleSections.kinds ∧ Kind.image link ∉ sampleSections.kinds) ∧
      (∀ call, Kind.invocation call ∉ sampleSections.kinds) ∧
      sampleSections.Everywhere Node.HidesNothing ∧
      (article "en".toList failingHandlers id sampleSections).data =
        "lead two three code one end".toList ∧
      (article "en".toList failingHandlers id sampleCalls).data =
        "lead two three code one end<<toc:2>><<now>>".toList := by
  have hlinks : ∀ link, Kind.link link ∉ sampleSections.kinds ∧
      Kind.image link ∉ sampleSections.kinds := by
    simp [sampleSections, Node.heading, Node.text, Node.raw]
  have hcalls : ∀ call, Kind.invocation call ∉ sampleSections.kinds := by
    simp [sampleSections, Node.heading, Node.text, Node.raw]
  have hhides : sampleSections.Everywhere Node.HidesNothing := by
    simp [sampleSections, Node.heading, Node.text, Node.raw, Node.leaf, Node.HidesNothing,
      Kind.showsChildren]
  have hdata := (data_article "en".toList failingHandlers id sampleSections).2 hlinks hcalls hhides
  have hshown := (data_article "en".toList failingHandlers id sampleCalls).1
  exact ⟨hlinks, hcalls, hhides, hdata.trans (by decide), hshown.trans (by decide)⟩

end Creole.Docbook
