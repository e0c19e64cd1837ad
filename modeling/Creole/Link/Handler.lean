import Creole.Link.Site
import Creole.Text.Escape

/-!
# Link handlers

How a link or an image is resolved and shown is left to the `Handler` that its
node names.  `Handler.anchors` and `Handler.images` are the two that serve an
ordinary wiki: they resolve targets on a `Site`, pass the URL through the filter
of the render, and write an `a` or an `img` element.
-/

namespace Creole

/-- Applied to every URL before it is written; what it does is up to the host. -/
abbrev UrlFilter := Text → Text

/-- How links or images are resolved and shown. -/
structure Handler where
  /-- The filtered URL of a target on a page. -/
  resolve : PageRef → Target → UrlFilter → Except LinkError Text
  /-- The HTML of a target on a page, around content that is already escaped. -/
  render : PageRef → (content : Text) → Target → UrlFilter → Except LinkError Text

/-- The name of a handler, which the nodes shown with it carry. -/
inductive HandlerName where
  | link
  | image
  | custom (number : Nat)
  deriving DecidableEq, Repr, Inhabited

/-- The handlers of a wiki: the one for links, the one for images, and those that
nodes made by macros or by the host may name. -/
structure Handlers where
  link : Handler
  image : Handler
  custom : Nat → Handler

/-- The handler of a name. -/
def Handlers.named (handlers : Handlers) : HandlerName → Handler
  | .link => handlers.link
  | .image => handlers.image
  | .custom number => handlers.custom number

namespace Handler

/-! ## Anchors -/

/-- The class of an anchor tells what it leads to, and of a local page whether
the page exists. -/
def anchorClass (site : Site) : Destination → Text
  | .external => "external".toList
  | .localPage page => if site.hasPage page then "existing-page".toList else "new-page".toList
  | .attachment => "attachment".toList
  | .interWiki => "inter-wiki".toList
  | .fragment => "fragment".toList

/-- The anchor element of a class around escaped content. -/
def anchor (cssClass href content : Text) : Text :=
  "<a class='".toList ++ cssClass ++ "' href='".toList ++ escape href ++ "'>".toList ++ content ++
    "</a>".toList

/-- Links as anchors on a site. -/
def anchors (site : Site) : Handler where
  resolve page target filter := do
    let resolved ← site.resolve page target
    pure (filter resolved.url)
  render page content target filter := do
    let resolved ← site.resolve page target
    pure (anchor (anchorClass site resolved.destination) (filter resolved.url) content)

/-! ## Images -/

/-- The target that an image is taken from: a bare file name is an attachment of
the page that the image is on. -/
def imageTarget (target : Target) : Target :=
  if target.isUri || target.wiki.isSome || target.attachment.isSome then target
  else
    match target.page with
    | some name =>
      if !name.contains '/' && name.contains '.' then
        { target with page := none, attachment := some name }
      else target
    | none => target

/-- The image element of a class, with escaped content as its alternative text. -/
def image (cssClass source content : Text) : Text :=
  "<img class='".toList ++ escape cssClass ++ "' src='".toList ++ escape source ++
    "' alt='".toList ++ content ++ "' />".toList

/-- The class of images, unless another is asked for. -/
def defaultImageClass : Text := "wiki-content".toList

/-- Images on a site, marked with a class. -/
def images (site : Site) (cssClass : Text) : Handler where
  resolve page target filter := do
    let resolved ← site.resolve page (imageTarget target)
    pure (filter resolved.url)
  render page content target filter := do
    let resolved ← site.resolve page (imageTarget target)
    pure (image cssClass (filter resolved.url) content)

end Handler

/-- Links as anchors and images as images of one site. -/
def Handlers.ofSite (site : Site) (imageClass : Text) (custom : Nat → Handler) : Handlers where
  link := .anchors site
  image := .images site imageClass
  custom

end Creole
