import Creole.Link.Target
import Creole.Page.Store
import Creole.Text.Percent

/-!
# Sites

A `Site` is what a wiki knows about where its pages and those of other wikis are
served.  `Site.resolve` turns the pieces of a target into a URL and says what the
URL leads to.
-/

namespace Creole

/-- Why a target leads nowhere. -/
inductive LinkError where
  /-- There is no URL for the wiki of this name. -/
  | unknownWiki (name : Text)
  /-- This text names nothing, or cannot name a page. -/
  | malformedTarget (text : Text)
  /-- The page could not be looked up. -/
  | storage (cause : StoreError)
  deriving DecidableEq, Repr

/-- The text of an error. -/
def LinkError.message : LinkError → Text
  | .unknownWiki name => "unknown wiki: ".toList ++ name
  | .malformedTarget text => "malformed link target: ".toList ++ text
  | .storage _ => "page lookup failed".toList

/-- What a resolved URL leads to. -/
inductive Destination where
  | external
  | localPage (page : PageRef)
  | attachment
  | interWiki
  /-- A place on the page that the link is on. -/
  | fragment
  deriving DecidableEq, Repr

/-- A URL, and what it leads to. -/
structure Resolved where
  url : Text
  destination : Destination
  deriving DecidableEq, Repr

/-- Where the pages of a wiki are served, under which name it may be addressed,
and the URL templates of the wikis it knows. -/
structure Site where
  store : PageStore
  baseUrl : Text := "/pages".toList
  localWiki : Option Text := none
  interwiki : Dictionary Text := .empty

namespace Site

/-- Whether a local page exists; a failed look-up counts as no. -/
def hasPage (site : Site) (page : PageRef) : Bool :=
  match site.store.exists page with
  | .ok found => found
  | .error _ => false

/-- The characters that no page name holds. -/
def forbidden : Text := "<>\"'[]\x7b\x7d|\\".toList

/-- Whether a text can name a page. -/
def validName (name : Text) : Bool := !Text.blank name && !name.any forbidden.contains

/-- Whether a target is on the local wiki. -/
def isLocal (site : Site) (wiki : Option Text) : Bool :=
  match wiki with
  | none => true
  | some name => site.localWiki = some name

/-- A fragment as the end of a URL. -/
def fragmentSuffix : Option Text → Text
  | some fragment => '#' :: fragment
  | none => []

/-- The path that a foreign wiki is asked for. -/
def foreignPath (target : Target) : Text :=
  target.page.getD [] ++
    match target.attachment with
    | some attachment => '/' :: attachment
    | none => []

/-- Where a target on another wiki leads: every `%s` of the wiki's template
stands for the encoded path. -/
def resolveForeign (site : Site) (target : Target) : Except LinkError Resolved :=
  let wiki := target.wiki.getD []
  match site.interwiki.get? wiki with
  | none => .error (.unknownWiki wiki)
  | some template =>
    .ok {
      url := Text.replaceAll "%s".toList (Percent.encode (foreignPath target)) template ++
        fragmentSuffix target.fragment
      destination := .interWiki }

/-- The URL of a local page. -/
def pageUrl (site : Site) (path : Text) : Text :=
  Text.dropTrailing (· == '/') site.baseUrl ++ '/' :: Percent.encode path

/-- Where a target on the local wiki leads, from a page or to a page of its own. -/
def resolveLocal (site : Site) (page : PageRef) (target : Target) : Resolved :=
  let path := target.page.getD page.path
  let (place, destination) :=
    match target.attachment with
    | some attachment =>
      ("/attachments/".toList ++ Percent.encode attachment, Destination.attachment)
    | none => ([], .localPage (.onLocal path))
  let pinned :=
    match target.revision with
    | some number => "?revision=".toList ++ Text.ofNat number
    | none => []
  { url := site.pageUrl path ++ place ++ pinned ++ fragmentSuffix target.fragment, destination }

/-- Where a target leads from `page`.  A target that names neither a page nor an
attachment leads to its fragment on the page itself. -/
def resolve (site : Site) (page : PageRef) (target : Target) : Except LinkError Resolved :=
  match target.uri with
  | some uri => .ok ⟨uri, .external⟩
  | none =>
    if target.page.isNone && target.attachment.isNone then
      match target.fragment, target.wiki with
      | some fragment, none => .ok ⟨'#' :: fragment, .fragment⟩
      | _, _ => .error (.malformedTarget target.text)
    else
      match target.page.filter (!validName ·) with
      | some name => .error (.malformedTarget name)
      | none =>
        if site.isLocal target.wiki then .ok (site.resolveLocal page target)
        else site.resolveForeign target

end Site

end Creole
