import Creole.Text.Digit

/-!
# Link targets

A target is an absolute URI, or it is written

  `[wiki:]page[@revision][/attachment][#fragment]`.

`Target.read` takes a written target apart.  It never fails: what does not have
one of the optional pieces is left in the page name, and a page name that cannot
name a page is refused later, when the target is resolved.
-/

namespace Creole

/-- The pieces of a link or image target, beside the text it is shown with. -/
structure Target where
  text : Text := []
  wiki : Option Text := none
  page : Option Text := none
  revision : Option Nat := none
  attachment : Option Text := none
  fragment : Option Text := none
  /-- The whole target, if it is an absolute URI. -/
  uri : Option Text := none
  deriving DecidableEq, Repr, Inhabited

namespace Target

/-! ## Absolute URIs -/

/-- A non-empty text without white space. -/
def solid (s : Text) : Bool := !s.isEmpty && s.all (!isBlank ·)

/-- Whether a character may stand in a URI scheme behind its first letter. -/
def isSchemeChar (c : Char) : Bool := c.isAlphanum || c == '+' || c == '.' || c == '-'

/-- A scheme that begins with a letter, `://`, and a solid rest. -/
def hasScheme : Text → Bool
  | [] => false
  | c :: s =>
    c.isAlpha &&
      match Text.after? "://".toList (s.dropWhile isSchemeChar) with
      | some rest => solid rest
      | none => false

/-- A solid text behind `mailto:`. -/
def isMailAddress (s : Text) : Bool :=
  match Text.after? "mailto:".toList s with
  | some address => solid address
  | none => false

/-- Whether a text is an absolute URI. -/
def isAbsolute (s : Text) : Bool := hasScheme s || isMailAddress s

/-! ## Pieces of a path -/

/-- The path before the first `#`, and the fragment behind it unless that is empty. -/
def splitFragment (s : Text) : Text × Option Text :=
  match Text.cut? ['#'] s with
  | some (path, fragment) => (path, if fragment.isEmpty then none else some fragment)
  | none => (s, none)

/-- The wiki name before the colon of a path that begins with a word and a colon
and goes on, on one line. -/
def splitWiki (path : Text) : Option Text × Text :=
  match path with
  | [] => (none, path)
  | c :: s =>
    match s.dropWhile Char.isAlphanum with
    | ':' :: rest =>
      if c.isAlpha && !rest.isEmpty && !rest.contains '\n' then
        (some (c :: s.takeWhile Char.isAlphanum), rest)
      else (none, path)
    | _ => (none, path)

/-- The last segment of a path is an attachment if it has a file extension. -/
def splitAttachment (path : Text) : Text × Option Text :=
  match Text.cutLast? '/' path with
  | some (page, file) => if file.contains '.' then (page, some file) else (path, none)
  | none => (path, none)

/-- Revision numbers are 64 bits wide. -/
def revisionBound : Nat := 18446744073709551616

/-- The revision behind the last `@` of a page name on one line, if nothing but
digits follow.  Such a suffix is never part of the page name, even where it is no
number that a revision can have. -/
def splitRevision (page : Text) : Text × Option Nat :=
  match Text.cutLast? '@' page with
  | some (name, digits) =>
    if !name.isEmpty && !name.contains '\n' && !digits.isEmpty && digits.all isDecimalDigit then
      (name, Text.toNatBelow? revisionBound digits)
    else (page, none)
  | none => (page, none)

/-! ## Reading a target -/

/-- The pieces of a written target, to be shown as `text`. -/
def read (source text : Text) : Target :=
  let source := Text.trim source
  if isAbsolute source then { text, uri := some source }
  else
    let (path, fragment) := splitFragment source
    let (wiki, path) := splitWiki path
    let (path, attachment) := splitAttachment path
    let (page, revision) := splitRevision path
    { text, wiki, page := if page.isEmpty then none else some page, revision, attachment, fragment }

/-- Whether the target is an absolute URI. -/
def isUri (t : Target) : Bool := t.uri.isSome

/-- Whether the target is a mail address. -/
def isMailto (t : Target) : Bool :=
  match t.uri with
  | some uri => Text.opens "mailto:".toList uri
  | none => false

end Target

end Creole
