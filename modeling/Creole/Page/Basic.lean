import Creole.Text.Dictionary

/-!
# Pages

A page is addressed by a path, on the local wiki or on a named one, and has a
content of wiki markup at each of its revisions.
-/

namespace Creole

/-- The address of a page: a path on the local wiki, or on the wiki of that name. -/
structure PageRef where
  wiki : Option Text := none
  path : Text
  deriving DecidableEq, Repr, Inhabited

namespace PageRef

/-- A page of the local wiki. -/
def onLocal (path : Text) : PageRef := { path }

/-- The name of a page: the last segment of its path. -/
def name (page : PageRef) : Text :=
  match Text.cutLast? '/' page.path with
  | some (_, last) => last
  | none => page.path

/-- The written form of an address: `path`, or `wiki:path`. -/
def display (page : PageRef) : Text :=
  match page.wiki with
  | some wiki => wiki ++ ':' :: page.path
  | none => page.path

end PageRef

/-- One revision of a page. -/
structure Page where
  ref : PageRef
  /-- The revision number; unsaved or unversioned content has none. -/
  revision : Option Nat := none
  content : Text := []
  attributes : Dictionary Text := .empty
  /-- The markup dialect of the content, if one is recorded. -/
  dialect : Option Text := none
  deriving DecidableEq, Repr, Inhabited

/-- The value of a page attribute. -/
def Page.attribute? (page : Page) (key : Text) : Option Text := page.attributes.get? key

end Creole
