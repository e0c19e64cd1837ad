import Creole.Proofs.Node.View

/-!
# The URLs of a document

An ordinary wiki serves links as anchors and images as images of some site (`Service`).
Both resolve a target to a URL or fail, whatever the filter, and put nothing but the
filtered URL into what they write (`resolve_handler`, `render_handler`).  So the URLs of a
document are settled before anything is written: there is one for each link and each image
that is shown and whose target resolves, in document order (`Node.urls`).
-/

namespace Creole

/-- What serves links or images: anchors on a site, or images of a class on a site. -/
inductive Service where
  | anchors (site : Site)
  | images (site : Site) (imageClass : Text)

namespace Service

/-- The handler that a service is. -/
def handler : Service → Handler
  | anchors site => .anchors site
  | images site imageClass => .images site imageClass

/-- Where a target on a page leads. -/
def resolve (service : Service) (page : PageRef) (target : Target) : Except LinkError Resolved :=
  match service with
  | anchors site => site.resolve page target
  | images site _ => site.resolve page (Handler.imageTarget target)

/-- What a service writes before and behind a URL, around content. -/
def frame (service : Service) (content : Text) (resolved : Resolved) : Text × Text :=
  match service with
  | anchors site =>
    ("<a class='".toList ++ Handler.anchorClass site resolved.destination ++ "' href='".toList,
      "'>".toList ++ content ++ "</a>".toList)
  | images _ imageClass =>
    ("<img class='".toList ++ escape imageClass ++ "' src='".toList,
      "' alt='".toList ++ content ++ "' />".toList)

theorem resolve_handler (service : Service) (page : PageRef) (target : Target)
    (filter : UrlFilter) :
    service.handler.resolve page target filter =
      (service.resolve page target).map fun resolved => filter resolved.url := by
  cases service <;> rfl

theorem render_handler (service : Service) (page : PageRef) (content : Text) (target : Target)
    (filter : UrlFilter) :
    service.handler.render page content target filter =
      (service.resolve page target).map fun resolved =>
        (service.frame content resolved).1 ++ escape (filter resolved.url) ++
          (service.frame content resolved).2 := by
  cases service with
  | anchors site =>
      refine congrArg (Except.map · (site.resolve page target)) (funext fun resolved => ?_)
      unfold Handler.anchor frame
      simp only [List.append_assoc]
  | images site imageClass =>
      refine congrArg (Except.map · (site.resolve page _)) (funext fun resolved => ?_)
      unfold Handler.image frame
      simp only [List.append_assoc]

end Service

/-- The URL of a link or an image, if its target leads anywhere. -/
def Link.url? (services : HandlerName → Service) (link : Link) : Option Text :=
  match (services link.handler).resolve link.page link.target with
  | .ok resolved => some resolved.url
  | .error _ => none

namespace Node

/-- The URLs of the links and images that are shown, in document order, as far as their
targets lead anywhere. -/
def urls (services : HandlerName → Service) : Node → List Text :=
  fold fun kind below =>
    match kind with
    | .link link | .image link => (link.url? services).toList
    | kind => if kind.showsChildren then below.flatten else []

theorem urls_mk (services : HandlerName → Service) (kind : Kind) (children : List Node) :
    (mk kind children).urls services =
      match kind with
      | .link link | .image link => (link.url? services).toList
      | kind => if kind.showsChildren then children.flatMap (urls services) else [] := by
  rw [urls, fold_mk, List.flatMap]

theorem urls_of_showsChildren {kind : Kind} (h : kind.showsChildren = true)
    {services : HandlerName → Service} {children : List Node} :
    (mk kind children).urls services = children.flatMap (urls services) := by
  rw [urls_mk]
  cases kind <;> simp_all [Kind.showsChildren]

/-- Every link and every image of the document names a handler that is a service. -/
def Served (handlers : Handlers) (services : HandlerName → Service) (root : Node) : Prop :=
  ∀ link, Kind.link link ∈ root.kinds ∨ Kind.image link ∈ root.kinds →
    handlers.named link.handler = (services link.handler).handler

theorem Served.of_mem_children {handlers : Handlers} {services : HandlerName → Service}
    {root child : Node} (h : Served handlers services root) (hchild : child ∈ root.children) :
    Served handlers services child := by
  intro link hlink
  refine h link (hlink.imp ?_ ?_)
  · exact mem_kinds_of_mem_children hchild
  · exact mem_kinds_of_mem_children hchild

end Node

end Creole
