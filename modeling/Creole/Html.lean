import Creole.Node.Walk

/-!
# HTML

A document is written as an HTML fragment whose elements all carry one marker
class.  Links and images are written by their handlers; where a handler fails, the
escaped title takes their place, or a bare anchor for a mail address.  A macro use
that is still in the tree is shown as its markup.
-/

namespace Creole.Html

/-- The marker class, unless another is asked for. -/
def defaultClass : Text := "wiki-content".toList

/-! ## Elements -/

/-- The attribute that marks an element with a class, which is already escaped. -/
def classAttribute (cssClass : Text) : Text := " class='".toList ++ cssClass ++ "'".toList

/-- An element with attributes, each behind a space, around its content. -/
def element (tag attributes content : Text) : Text :=
  '<' :: tag ++ attributes ++ '>' :: content ++ "</".toList ++ tag ++ ['>']

/-- An element without content. -/
def emptyElement (tag attributes : Text) : Text := '<' :: tag ++ attributes ++ " />".toList

/-- The tag of an emphasis style. -/
def styleTag : Style → Text
  | .bold => "strong".toList
  | .italic => "em".toList
  | .strikethrough => "strike".toList

/-- The tag around the children of a kind, for those that are nothing but an
element around them. -/
def wrapper? : Kind → Option Text
  | .paragraph => some "p".toList
  | .heading level => some ('h' :: Text.ofNat level)
  | .blockquote => some "blockquote".toList
  | .emphasis style => some (styleTag style)
  | .list ordered => some (if ordered then "ol".toList else "ul".toList)
  | .listItem => some "li".toList
  | .table => some "table".toList
  | .row => some "tr".toList
  | _ => none

/-- The tag of a table cell. -/
def cellTag (header : Bool) : Text := if header then "th".toList else "td".toList

/-- The style attribute of a cell under an alignment. -/
def alignmentAttribute : Option Text → Text
  | some alignment => " style='vertical-align:".toList ++ escape alignment ++ "'".toList
  | none => []

/-! ## Leaves -/

/-- What is shown where the handler of a link fails, around the escaped title. -/
def linkFallback (source content : Text) : Text :=
  let source := Text.trim source
  if Text.opens "mailto:".toList source then
    "<a href='".toList ++ escape source ++ "'>".toList ++ content ++ "</a>".toList
  else content

/-- A link or an image through its handler, or what stands in for it. -/
def linked (handlers : Handlers) (filter : UrlFilter) (link : Link) (fallback : Text → Text) :
    Text :=
  let content := escape link.title
  match (handlers.named link.handler).render link.page content link.target filter with
  | .ok html => html
  | .error _ => fallback content

/-- The output of a kind whose children are not shown. -/
def leaf (cssClass : Text) (handlers : Handlers) (filter : UrlFilter) : Kind → Text
  | .text content escaped => if escaped then escape content else content
  | .code content (some language) =>
    element "pre".toList (classAttribute cssClass)
      (element "code".toList (classAttribute (escape language)) (escape content))
  | .code content none => element "pre".toList (classAttribute cssClass) (escape content)
  | .inlineCode content language =>
    let suffix :=
      match language with
      | some language => ' ' :: escape language
      | none => []
    element "code".toList (classAttribute (cssClass ++ " inline".toList ++ suffix)) (escape content)
  | .nowiki content => element "pre".toList (classAttribute cssClass) (escape content)
  | .inlineNowiki content => element "code".toList (classAttribute cssClass) (escape content)
  | .rule => emptyElement "hr".toList (classAttribute cssClass)
  | .linebreak => emptyElement "br".toList (classAttribute cssClass)
  | .anchor id =>
    emptyElement "a".toList (classAttribute cssClass ++ " id='".toList ++ escape id ++ "'".toList)
  | .link link => linked handlers filter link (linkFallback link.source)
  | .image link => linked handlers filter link id
  | .invocation call =>
    element (if call.block then "pre".toList else "code".toList) (classAttribute cssClass)
      (escape call.source)
  | _ => []

/-! ## Documents -/

/-- How HTML is made, with a marker class that is already escaped. -/
def visitor (cssClass : Text) (handlers : Handlers) (filter : UrlFilter) : Visitor Text where
  empty := []
  append := (· ++ ·)
  visit kind children :=
    match kind with
    | .page => Walk.inOrder [] (· ++ ·) children
    | .cell header => fun state =>
      let attributes := classAttribute cssClass ++ alignmentAttribute state.tableAlignment?
      (Walk.inOrder [] (· ++ ·) children).map (element (cellTag header) attributes) state
    | kind =>
      match wrapper? kind with
      | some tag =>
        (Walk.inOrder [] (· ++ ·) children).map (element tag (classAttribute cssClass))
      | none => Walk.pure (leaf cssClass handlers filter kind)

/-- The HTML of a document, its elements marked with a class. -/
def render (cssClass : Text) (handlers : Handlers) (filter : UrlFilter) (root : Node) : Text :=
  (visitor (escape cssClass) handlers filter).run root

end Creole.Html
