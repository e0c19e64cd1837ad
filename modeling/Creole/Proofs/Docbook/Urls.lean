import Creole.Proofs.Docbook.Cells
import Creole.Proofs.Node.Urls

/-!
# URLs in an article

Of the article of a document, only the attributes that take URLs hang on the filter: the
article is a marked tree (`Xml.Marked`), in which the filtered URLs are put in
(`exists_marked_article`).

As with HTML, `FixedAround` is closed under all that the renderer does with XML.  Sections
need an argument of their own, since what is put out under a heading goes through a
`SectionBuilder`.  The builder looks at levels only: what it returns for steps with filled
content is what it returns for the marked content, filled (`created_map`,
`fixedAround_outline`).
-/

namespace Creole

namespace Xml

/-- An attribute: fixed, or one that takes a URL. -/
inductive MarkedAttribute where
  | fixed (name value : Text)
  | href (url : Text)
  | fileref (url : Text)

namespace MarkedAttribute

/-- The URL that the attribute takes. -/
def url? : MarkedAttribute → Option Text
  | fixed _ _ => none
  | href url | fileref url => some url

/-- The attribute with its URL filtered. -/
def fill (filter : UrlFilter) : MarkedAttribute → Text × Text
  | fixed name value => (name, value)
  | href url => ("xl:href".toList, filter url)
  | fileref url => ("fileref".toList, filter url)

/-- Attributes that take no URL. -/
def unmarked (attributes : List (Text × Text)) : List MarkedAttribute :=
  attributes.map fun (name, value) => fixed name value

theorem filterMap_url?_unmarked (attributes : List (Text × Text)) :
    (unmarked attributes).filterMap url? = [] := by
  induction attributes with
  | nil => rfl
  | cons first attributes ih => exact ih

theorem map_fill_unmarked (filter : UrlFilter) (attributes : List (Text × Text)) :
    (unmarked attributes).map (fill filter) = attributes := by
  induction attributes with
  | nil => rfl
  | cons first attributes ih => exact congrArg (first :: ·) ih

end MarkedAttribute

/-- A part of an XML document in which some attributes are marked as taking URLs. -/
inductive Marked where
  | element (name : Text) (attributes : List MarkedAttribute) (content : List Marked)
  | text (s : Text)
  | cdata (s : Text)

namespace Marked

mutual

/-- The part with the URLs put in, filtered. -/
def fill (filter : UrlFilter) : Marked → Xml
  | element name attributes content =>
    .element name (attributes.map (MarkedAttribute.fill filter)) (fillAll filter content)
  | text s => .text s
  | cdata s => .cdata s

/-- Parts in a row with the URLs put in, filtered. -/
def fillAll (filter : UrlFilter) : List Marked → List Xml
  | [] => []
  | x :: xs => fill filter x :: fillAll filter xs

end

mutual

/-- The URLs of the marked attributes, in document order. -/
def urls : Marked → List Text
  | element _ attributes content => attributes.filterMap MarkedAttribute.url? ++ urlsAll content
  | text _ | cdata _ => []

/-- The URLs of the marked attributes of parts in a row. -/
def urlsAll : List Marked → List Text
  | [] => []
  | x :: xs => urls x ++ urlsAll xs

end

theorem fillAll_eq_map (filter : UrlFilter) (xs : List Marked) :
    fillAll filter xs = xs.map (fill filter) := by
  induction xs with
  | nil => rfl
  | cons x xs ih => rw [fillAll, ih, List.map_cons]

theorem urlsAll_eq_flatMap (xs : List Marked) : urlsAll xs = xs.flatMap urls := by
  induction xs with
  | nil => rfl
  | cons x xs ih => rw [urlsAll, ih, List.flatMap_cons]

mutual

theorem exists_unmarked : (x : Xml) → ∃ marked : Marked, marked.urls = [] ∧
    ∀ filter, marked.fill filter = x
  | .element name attributes content => by
    obtain ⟨marked, hurls, hfill⟩ := exists_allUnmarked content
    refine ⟨.element name (MarkedAttribute.unmarked attributes) marked, ?_, fun filter => ?_⟩
    · rw [urls, urlsAll_eq_flatMap, hurls, MarkedAttribute.filterMap_url?_unmarked,
        List.append_nil]
    · rw [fill, fillAll_eq_map, hfill, MarkedAttribute.map_fill_unmarked]
  | .text s => ⟨.text s, rfl, fun _ => rfl⟩
  | .cdata s => ⟨.cdata s, rfl, fun _ => rfl⟩

/-- XML can be seen as marked XML without marks. -/
theorem exists_allUnmarked : (xs : List Xml) → ∃ marked : List Marked, marked.flatMap urls = [] ∧
    ∀ filter, marked.map (fill filter) = xs
  | [] => ⟨[], rfl, fun _ => rfl⟩
  | x :: xs => by
    obtain ⟨first, hurls, hfirst⟩ := exists_unmarked x
    obtain ⟨rest, hmore, hrest⟩ := exists_allUnmarked xs
    refine ⟨first :: rest, ?_, fun filter => ?_⟩
    · rw [List.flatMap_cons, hurls, hmore, List.nil_append]
    · rw [List.map_cons, hfirst, hrest]

end

end Marked

end Xml

namespace Docbook

open Xml

/-- In the XML, nothing but the given URLs hangs on the filter, each of them the value of
one attribute, filtered, in the given order. -/
def FixedAround (urls : List Text) (parts : UrlFilter → List Xml) : Prop :=
  ∃ marked : List Marked, marked.flatMap Marked.urls = urls ∧
    ∀ filter, parts filter = marked.map (Marked.fill filter)

namespace FixedAround

variable {urls more : List Text} {parts others : UrlFilter → List Xml}

theorem congr (h : FixedAround urls parts) (heq : ∀ filter, others filter = parts filter) :
    FixedAround urls others :=
  (funext heq : others = parts) ▸ h

theorem fixed (xs : List Xml) : FixedAround [] fun _ => xs := by
  obtain ⟨marked, hurls, hfill⟩ := Marked.exists_allUnmarked xs
  exact ⟨marked, hurls, fun filter => (hfill filter).symm⟩

theorem append (h : FixedAround urls parts) (hmore : FixedAround more others) :
    FixedAround (urls ++ more) fun filter => parts filter ++ others filter := by
  obtain ⟨marked, rfl, hparts⟩ := h
  obtain ⟨behind, rfl, hothers⟩ := hmore
  refine ⟨marked ++ behind, List.flatMap_append, fun filter => ?_⟩
  rw [List.map_append, ← hparts, ← hothers]

/-- An element around XML, its attributes marked before the XML is. -/
theorem element (h : FixedAround urls parts) (name : Text) (attributes : List MarkedAttribute) :
    FixedAround (attributes.filterMap MarkedAttribute.url? ++ urls) fun filter =>
      [.element name (attributes.map (MarkedAttribute.fill filter)) (parts filter)] := by
  obtain ⟨marked, rfl, hparts⟩ := h
  refine ⟨[.element name attributes marked], ?_, fun filter => ?_⟩
  · rw [List.flatMap_singleton, Marked.urls, Marked.urlsAll_eq_flatMap]
  · rw [List.map_singleton, Marked.fill, Marked.fillAll_eq_map, ← hparts]

/-- An element around XML, with attributes that take no URL. -/
theorem around (h : FixedAround urls parts) (name : Text) (attributes : List (Text × Text)) :
    FixedAround urls fun filter => [.element name attributes (parts filter)] := by
  have hall := h.element name (MarkedAttribute.unmarked attributes)
  rw [MarkedAttribute.filterMap_url?_unmarked, List.nil_append] at hall
  refine hall.congr fun filter => ?_
  rw [MarkedAttribute.map_fill_unmarked]

end FixedAround

/-! ## Sections -/

section Sections

variable {α β : Type}

/-- The section with other content. -/
def Division.map (f : α → β) (division : Division α) : Division β :=
  ⟨division.level, division.content.map f⟩

/-- The step with other content. -/
def Step.map (f : α → β) : Step α → Step β
  | .start level => .start level
  | .append content => .append (content.map f)

theorem leading_map (f : α → β) (steps : List (Step α)) :
    Step.leading (steps.map (Step.map f)) = (Step.leading steps).map f := by
  induction steps with
  | nil => rfl
  | cons step steps ih =>
      cases step with
      | start level => rfl
      | append content =>
          rw [List.map_cons, Step.map, Step.leading, Step.leading, ih, List.map_append]

theorem begun_map (f : α → β) (steps : List (Step α)) :
    Step.begun (steps.map (Step.map f)) = (Step.begun steps).map (Division.map f) := by
  induction steps with
  | nil => rfl
  | cons step steps ih =>
      cases step with
      | start level =>
          rw [List.map_cons, Step.map, Step.begun, Step.begun, ih, leading_map, List.map_cons,
            Division.map]
      | append content => rw [List.map_cons, Step.map, Step.begun, Step.begun, ih]

theorem created_map (f : α → β) (steps : List (Step α)) :
    Step.created (steps.map (Step.map f)) = (Step.created steps).map (Division.map f) := by
  unfold Step.created
  rw [leading_map, begun_map]
  by_cases hleading : Step.leading steps = []
  · rw [if_pos hleading, if_pos (by rw [hleading, List.map_nil])]
  · rw [if_neg hleading, if_neg (by simpa using hleading), List.map_cons, Division.map]

/-- Sections nest by level, whatever they hold. -/
theorem nested_map (f : α → β) (sections : List (Division α)) :
    nested (sections.map (Division.map f)) =
      outline (Division.map f) (Forest.nest Division.level sections) := by
  have hnest := Forest.map_nest Division.level (Division.map f) sections
  rw [nested, ← hnest, outline_map]
  rfl

end Sections

theorem allToXml_append (entries more : List (Outline Xml)) :
    Outline.allToXml (entries ++ more) = Outline.allToXml entries ++ Outline.allToXml more := by
  induction entries with
  | nil => rfl
  | cons entry entries ih =>
      rw [List.cons_append, Outline.allToXml, Outline.allToXml, ih, List.cons_append]

theorem allToXml_map_content (content : List Xml) :
    Outline.allToXml (content.map .content) = content := by
  induction content with
  | nil => rfl
  | cons x content ih => rw [List.map_cons, Outline.allToXml, Outline.toXml, ih]

/-- Sections in a forest, written as elements. -/
theorem fixedAround_outline (forest : Forest (Division Marked)) :
    FixedAround (forest.labels.flatMap fun division => division.content.flatMap Marked.urls)
      fun filter => Outline.allToXml (outline (Division.map (Marked.fill filter)) forest) := by
  induction forest with
  | nil => exact FixedAround.fixed []
  | cons label inside behind ihinside ihbehind =>
      have hcontent : FixedAround (label.content.flatMap Marked.urls) fun filter =>
          label.content.map (Marked.fill filter) := ⟨label.content, rfl, fun _ => rfl⟩
      have hall := ((hcontent.append ihinside).around "section".toList []).append ihbehind
      rw [List.append_assoc, ← List.flatMap_append] at hall
      refine hall.congr fun filter => ?_
      rw [outline, Outline.allToXml, Outline.toXml, allToXml_append, Division.map,
        allToXml_map_content]
      rfl

/-- What a builder returns for steps whose content is marked. -/
theorem fixedAround_finish (steps : List (Step Marked)) :
    FixedAround ((steps.flatMap Step.content).flatMap Marked.urls) fun filter =>
      Outline.allToXml
        (SectionBuilder.run (steps.map (Step.map (Marked.fill filter)))).finish := by
  have hforest := fixedAround_outline (Forest.nest Division.level (Step.created steps))
  rw [Forest.labels_nest, ← List.flatMap_assoc, flatMap_content_created] at hforest
  refine hforest.congr fun filter => ?_
  rw [finish_run, created_map, nested_map]

/-! ## Documents -/

variable {handlers : Handlers} {services : HandlerName → Service}

/-- A link calls the filter once if its target leads anywhere, and never if not. -/
theorem fixedAround_link {link : Link}
    (h : handlers.named link.handler = (services link.handler).handler) :
    FixedAround (link.url? services).toList fun filter => leaf handlers filter (.link link) := by
  have htitle : FixedAround [] fun _ => [.text link.title] := FixedAround.fixed _
  unfold leaf href Link.url?
  simp only [h, Service.resolve_handler]
  cases (services link.handler).resolve link.page link.target with
  | ok resolved => exact htitle.element "link".toList [.href resolved.url]
  | error e => exact htitle.around "link".toList [("xl:href".toList, link.source)]

/-- An image calls the filter once if its target leads anywhere, and never if not. -/
theorem fixedAround_image {link : Link}
    (h : handlers.named link.handler = (services link.handler).handler) :
    FixedAround (link.url? services).toList fun filter => leaf handlers filter (.image link) := by
  have hinfo : FixedAround [] fun _ =>
      [Docbook.element "info".toList [Docbook.element "title".toList [.text link.title]]] :=
    FixedAround.fixed _
  have hnothing : FixedAround [] fun _ => [] := FixedAround.fixed _
  unfold leaf imageElement href Link.url?
  simp only [h, Service.resolve_handler]
  cases (services link.handler).resolve link.page link.target with
  | ok resolved =>
      have hdata := hnothing.element "imagedata".toList [.fileref resolved.url]
      exact (hinfo.append hdata).around "imageobject".toList []
  | error e =>
      have hdata := hnothing.around "imagedata".toList [("fileref".toList, link.source)]
      exact (hinfo.append hdata).around "imageobject".toList []

theorem leaf_eq {kind : Kind} (hlink : ∀ link, kind ≠ .link link)
    (himage : ∀ link, kind ≠ .image link) (filter : UrlFilter) :
    leaf handlers filter kind = leaf handlers id kind := by
  cases kind with
  | link link => exact absurd rfl (hlink link)
  | image link => exact absurd rfl (himage link)
  | _ => rfl

theorem fixedAround_leaf {kind : Kind} (hshows : kind.showsChildren = false)
    {children : List Node} (h : Node.Served handlers services (.mk kind children)) :
    FixedAround ((Node.mk kind children).urls services) fun filter =>
      leaf handlers filter kind := by
  rw [Node.urls_mk]
  have hkind : kind ∈ (Node.mk kind children).kinds := Node.kind_mem_kinds _
  cases kind with
  | link link => exact fixedAround_link (h link (Or.inl hkind))
  | image link => exact fixedAround_image (h link (Or.inr hkind))
  | page | paragraph | heading | blockquote | emphasis | list | listItem | table | row | cell =>
      cases hshows
  | _ =>
      exact (FixedAround.fixed _).congr fun filter => leaf_eq (by simp) (by simp) filter

section Children

variable {children : List Node}

theorem fixedAround_inOrder
    (h : ∀ child ∈ children, ∀ state, FixedAround (child.urls services) fun filter =>
      ((visitor handlers filter).walk child state).1)
    (state : Directives) :
    FixedAround (children.flatMap (Node.urls services)) fun filter =>
      (inOrder (children.map (visitor handlers filter).child) state).1 := by
  induction children generalizing state with
  | nil => exact FixedAround.fixed []
  | cons child children ih =>
      rw [List.forall_mem_cons] at h
      -- what is in force behind the child is the same for all filters
      have hbehind : ∀ filter, ((visitor handlers filter).walk child state).2 =
          child.events.foldl Event.apply state := fun filter =>
        (threads_visitor handlers filter).walk_snd child state
      refine ((h.1 state).append (ih h.2 (child.events.foldl Event.apply state))).congr
        fun filter => ?_
      rw [inOrder, List.map_cons, Walk.inOrder_cons, ← hbehind filter]
      rfl

theorem exists_marked_beginning (kind : Kind) :
    ∃ marked : List (Step Marked), marked.flatMap Step.content = [] ∧
      ∀ filter, beginning kind = marked.map (Step.map (Marked.fill filter)) := by
  unfold beginning
  cases kind.headingLevel? with
  | none => exact ⟨[], rfl, fun _ => rfl⟩
  | some level => exact ⟨[.start level], rfl, fun _ => rfl⟩

/-- The steps of children, with marked content for what the children put out. -/
theorem exists_marked_steps
    (h : ∀ child ∈ children, ∀ state, FixedAround (child.urls services) fun filter =>
      ((visitor handlers filter).walk child state).1)
    (state : Directives) :
    ∃ marked : List (Step Marked),
      (marked.flatMap Step.content).flatMap Marked.urls =
        children.flatMap (Node.urls services) ∧
      ∀ filter, steps (children.map (visitor handlers filter).child) state =
        marked.map (Step.map (Marked.fill filter)) := by
  induction children generalizing state with
  | nil => exact ⟨[], rfl, fun _ => rfl⟩
  | cons child children ih =>
      rw [List.forall_mem_cons] at h
      have hbehind : ∀ filter, ((visitor handlers filter).walk child state).2 =
          child.events.foldl Event.apply state := fun filter =>
        (threads_visitor handlers filter).walk_snd child state
      obtain ⟨start, hstart, hbeginning⟩ := exists_marked_beginning child.kind
      obtain ⟨out, hout, hfirst⟩ := h.1 state
      obtain ⟨rest, hurls, hrest⟩ := ih h.2 (child.events.foldl Event.apply state)
      refine ⟨start ++ .append out :: rest, ?_, fun filter => ?_⟩
      · rw [List.flatMap_append, hstart, List.nil_append, List.flatMap_cons, List.flatMap_append,
          hurls, Step.content, hout, List.flatMap_cons]
      · rw [List.map_cons, steps, Visitor.child_kind, hbeginning filter, List.map_append,
          List.map_cons, ← hrest filter, ← hbehind filter, Step.map, ← hfirst filter]
        rfl

theorem fixedAround_sectioned
    (h : ∀ child ∈ children, ∀ state, FixedAround (child.urls services) fun filter =>
      ((visitor handlers filter).walk child state).1)
    (state : Directives) :
    FixedAround (children.flatMap (Node.urls services)) fun filter =>
      (sectioned (children.map (visitor handlers filter).child) state).1 := by
  obtain ⟨marked, hurls, hsteps⟩ := exists_marked_steps h state
  have hfinish := fixedAround_finish marked
  rw [hurls] at hfinish
  refine hfinish.congr fun filter => ?_
  rw [sectioned_eq, hsteps]

end Children

theorem anyHeading_eq (children : List Node) (filter : UrlFilter) :
    anyHeading (children.map (visitor handlers filter).child) =
      children.any (·.kind.headingLevel?.isSome) := by
  simp [anyHeading, List.any_map, Function.comp_def]

theorem fixedAround_walk {node : Node} (h : Node.Served handlers services node)
    (state : Directives) :
    FixedAround (node.urls services) fun filter =>
      ((visitor handlers filter).walk node state).1 := by
  induction node using Node.induction generalizing state with
  | mk kind children ih =>
      have hbelow : ∀ child ∈ children, ∀ state, FixedAround (child.urls services) fun filter =>
          ((visitor handlers filter).walk child state).1 :=
        fun child hchild => ih child hchild (h.of_mem_children hchild)
      have hinOrder := fixedAround_inOrder hbelow state
      have hsectioned := fixedAround_sectioned hbelow state
      have hvisit : ∀ {urls}, (∀ directive, kind ≠ .directive directive) →
          (FixedAround urls fun filter => ((visitor handlers filter).visit kind
            (children.map (visitor handlers filter).child) state).1) →
          FixedAround urls fun filter =>
            ((visitor handlers filter).walk (.mk kind children) state).1 :=
        fun hkind hvisited => hvisited.congr fun filter => by rw [Visitor.walk_mk _ _ _ hkind]
      cases kind with
      | directive directive =>
          simp only [Visitor.walk_directive]
          exact FixedAround.fixed []
      | page =>
          rw [Node.urls_of_showsChildren rfl]
          exact hvisit (by simp) hsectioned
      | blockquote =>
          have hcontent : FixedAround (children.flatMap (Node.urls services)) fun filter =>
              ((if anyHeading (children.map (visitor handlers filter).child) then
                sectioned (children.map (visitor handlers filter).child)
              else inOrder (children.map (visitor handlers filter).child)) state).1 := by
            simp only [anyHeading_eq]
            split
            · exact hsectioned
            · exact hinOrder
          rw [Node.urls_of_showsChildren rfl]
          exact hvisit (by simp) (hcontent.around _ _)
      | heading level =>
          rw [Node.urls_of_showsChildren rfl]
          exact hvisit (by simp) ((hinOrder.around "title".toList []).around "info".toList [])
      | paragraph | emphasis style | list ordered | listItem | table | row | cell header =>
          rw [Node.urls_of_showsChildren rfl]
          exact hvisit (by simp) (hinOrder.around _ _)
      | _ =>
          refine hvisit (by simp) ?_
          exact fixedAround_leaf rfl h

/-- The article is one marked tree with the filtered URLs put in. -/
theorem exists_marked_article {root : Node} (h : Node.Served handlers services root)
    (language : Text) :
    ∃ marked : Marked, marked.urls = root.urls services ∧
      ∀ filter, (article language handlers filter root).toXml = marked.fill filter := by
  have hcontent : FixedAround (root.urls services) fun filter =>
      (visitor handlers filter).run root := fixedAround_walk h .initial
  obtain ⟨marked, hurls, hfill⟩ := hcontent
  refine ⟨.element "article".toList (MarkedAttribute.unmarked
    (article language handlers id root).attributes) marked, ?_, fun filter => ?_⟩
  · rw [Marked.urls, MarkedAttribute.filterMap_url?_unmarked, Marked.urlsAll_eq_flatMap, hurls,
      List.nil_append]
  · rw [Marked.fill, MarkedAttribute.map_fill_unmarked, Marked.fillAll_eq_map, ← hfill filter]
    rfl

end Docbook

end Creole
