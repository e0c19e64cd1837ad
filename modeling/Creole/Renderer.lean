import Creole.Docbook.Render
import Creole.Html
import Creole.Macro.Expansion
import Creole.Settings.Basic

/-!
# Rendering pages

A `Renderer` has all that pages are rendered with: the handlers of links and images,
the macros and the options of the formats.  It reads the markup of a page, expands
its macros and writes the tree in a format.
-/

namespace Creole

/-- Why a document could not be written. -/
inductive RenderError where
  | storage (cause : StoreError)
  | format (message : Text)
  deriving DecidableEq, Repr

/-- The text of an error. -/
def RenderError.message : RenderError → Text
  | .storage cause => cause.message
  | .format message => "XML error: ".toList ++ message

/-- The options of all formats. -/
structure RenderOptions where
  cssClass : Text := Html.defaultClass
  maxMacroDepth : Nat := defaultMacroDepth
  docbook : Docbook.Options := {}
  deriving DecidableEq, Repr

/-- The options that settings ask for. -/
def RenderOptions.ofSettings (s : Settings) : RenderOptions where
  cssClass := s.render.cssClass
  maxMacroDepth := s.render.maxMacroDepth
  docbook := { language := s.docbook.language, indent := s.docbook.indent }

/-- A written document and its media type. -/
structure Rendered where
  contentType : Text
  body : Text
  deriving DecidableEq, Repr

/-- A way to write a tree. -/
structure Format where
  contentType : Text
  write : Handlers → UrlFilter → Node → Except RenderError Text

/-- HTML, its elements marked with a class. -/
def Format.html (cssClass : Text) : Format where
  contentType := "text/html; charset=utf-8".toList
  write handlers filter root := .ok (Html.render cssClass handlers filter root)

/-- Docbook. -/
def Format.docbook (options : Docbook.Options) : Format where
  contentType := "text/xml; charset=utf-8".toList
  write handlers filter root := .ok (Docbook.render options handlers filter root)

/-- What pages are rendered with. -/
structure Renderer where
  handlers : Handlers
  macros : Registry := []
  options : RenderOptions := {}

/-- The site of a wiki with given settings and pages. -/
def Site.ofSettings (s : LinkSettings) (store : PageStore) : Site where
  store
  baseUrl := s.baseUrl
  localWiki := s.localWiki
  interwiki := s.interwiki

namespace Renderer

/-- The renderer of a site, with the default options. -/
def ofSite (site : Site) (custom : Nat → Handler) : Renderer where
  handlers := .ofSite site Handler.defaultImageClass custom

/-- The renderer of a wiki with given settings and pages. -/
def ofSettings (s : Settings) (store : PageStore) (custom : Nat → Handler) : Renderer where
  handlers := .ofSite (.ofSettings s.links store) s.render.cssClass custom
  options := .ofSettings s

/-- The tree of a page, its macros expanded. -/
def tree (r : Renderer) (page : Page) : Node :=
  r.macros.expand page.ref r.options.maxMacroDepth (.ofMarkup page.ref page.content)

/-- The format for HTML that the options ask for. -/
def html (r : Renderer) : Format := .html r.options.cssClass

/-- The format for Docbook that the options ask for. -/
def docbook (r : Renderer) : Format := .docbook r.options.docbook

/-- A page in a format. -/
def render (r : Renderer) (format : Format) (page : Page) (filter : UrlFilter) :
    Except RenderError Rendered := do
  let body ← format.write r.handlers filter (r.tree page)
  pure { contentType := format.contentType, body }

/-- A page in a format that writes an error in place of the document where there is
none. -/
def renderOrExplain (r : Renderer) (format : Format) (page : Page) (filter : UrlFilter) :
    Rendered :=
  match r.render format page filter with
  | .ok rendered => rendered
  | .error e => { contentType := format.contentType, body := "error: ".toList ++ e.message }

/-- A page as HTML. -/
def renderHtml (r : Renderer) (page : Page) (filter : UrlFilter) : Rendered :=
  r.renderOrExplain r.html page filter

/-- A page as Docbook. -/
def renderDocbook (r : Renderer) (page : Page) (filter : UrlFilter) : Rendered :=
  r.renderOrExplain r.docbook page filter

/-- The latest revision of a page of a store in a format. -/
def renderStored (r : Renderer) (store : PageStore) (ref : PageRef) (format : Format)
    (filter : UrlFilter) : Except RenderError Rendered :=
  match store.get ref none with
  | .ok page => r.render format page filter
  | .error cause => .error (.storage cause)

end Renderer

end Creole
