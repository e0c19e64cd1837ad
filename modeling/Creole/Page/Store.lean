import Creole.Page.Basic

/-!
# Page stores

The renderer reads pages through a `PageStore`, which answers a request for one
revision of a page with that revision or with a `StoreError`.  An `Archive` is
the store that keeps every revision in memory.
-/

namespace Creole

/-- What went wrong in a store. -/
inductive StoreFailure where
  | notFound
  | unknownWiki
  | invalidPath
  | unavailable
  | other
  deriving DecidableEq, Repr

/-- The words for a failure. -/
def StoreFailure.message : StoreFailure → Text
  | .notFound => "Page not found".toList
  | .unknownWiki => "Unknown wiki".toList
  | .invalidPath => "Invalid page name".toList
  | .unavailable => "Unavailable".toList
  | .other => "Error".toList

/-- A failed request, with the page it was for, the store it was made to and the
cause that the store names, as far as they are known. -/
structure StoreError where
  failure : StoreFailure
  page : Option PageRef := none
  backend : Option Text := none
  cause : Option Text := none
  deriving DecidableEq, Repr

namespace StoreError

/-- Whether the error says that the page does not exist. -/
def isNotFound (e : StoreError) : Bool := e.failure == .notFound

/-- The text of an error: the store in brackets, the failure, its cause behind a
colon, and the page in parentheses. -/
def message (e : StoreError) : Text :=
  (match e.backend with
    | some backend => '[' :: backend ++ "] ".toList
    | none => []) ++
  e.failure.message ++
  (match e.cause with
    | some cause => ": ".toList ++ cause
    | none => []) ++
  (match e.page with
    | some page => " (page: ".toList ++ page.display ++ [')']
    | none => [])

end StoreError

/-- Where pages are read from: the revision asked for, or the latest. -/
structure PageStore where
  get : PageRef → Option Nat → Except StoreError Page

/-- Whether a page exists.  That it was not found is an answer; any other
failure is not. -/
def PageStore.exists (store : PageStore) (page : PageRef) : Except StoreError Bool :=
  match store.get page none with
  | .ok _ => .ok true
  | .error e => if e.isNotFound then .ok false else .error e

/-- The revisions of all pages, in the order in which they were stored, and the
names of the foreign wikis whose pages may be among them. -/
structure Archive where
  wikis : List Text := []
  stored : List Page := []
  deriving Repr

namespace Archive

/-- The stored revisions of one page, oldest first. -/
def revisions (a : Archive) (page : PageRef) : List Page := a.stored.filter (·.ref = page)

/-- The number under which a page is stored: its own, or one more than the count
of revisions that the page has. -/
def revisionNumber (a : Archive) (page : Page) : Nat :=
  page.revision.getD ((a.revisions page.ref).length + 1)

/-- The archive with one more revision. -/
def insert (a : Archive) (page : Page) : Archive :=
  { a with stored := a.stored ++ [{ page with revision := some (a.revisionNumber page) }] }

/-- Whether the pages of the wiki that an address names may be asked for. -/
def knows (a : Archive) (page : PageRef) : Bool :=
  match page.wiki with
  | some wiki => a.wikis.contains wiki
  | none => true

/-- The error for a request that an archive refuses. -/
def refusal (failure : StoreFailure) (page : PageRef) : StoreError :=
  { failure, page := some page, backend := some "Mock".toList }

/-- The first stored revision with the given number, or the latest revision. -/
def get (a : Archive) (page : PageRef) (revision : Option Nat) : Except StoreError Page :=
  if a.knows page then
    let found :=
      match revision with
      | some number => (a.revisions page).find? (·.revision = some number)
      | none => (a.revisions page).getLast?
    match found with
    | some found => .ok found
    | none => .error (refusal .notFound page)
  else .error (refusal .unknownWiki page)

/-- The archive as a page store. -/
def toStore (a : Archive) : PageStore := ⟨a.get⟩

end Archive

end Creole
