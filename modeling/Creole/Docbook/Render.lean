import Creole.Docbook.Sections
import Creole.Node.Walk
import Creole.Xml.Written

/-!
# Docbook

A document is written as a Docbook 5 article.  Headings begin sections, on the page
and inside a quote that has any; code and verbatim text are character data that is
not escaped.  Links and images take their URL from their handlers; where a handler
fails, the target stands as it was written.
-/

namespace Creole.Docbook

/-- The namespace of Docbook elements. -/
def docbookNamespace : Text := "http://docbook.org/ns/docbook".toList

/-- The namespace of link attributes. -/
def linkNamespace : Text := "http://www.w3.org/1999/xlink".toList

/-- How the article is written: its language, and the spaces per level. -/
structure Options where
  language : Text := "en".toList
  indent : Nat := 2
  deriving DecidableEq, Repr

/-! ## Elements -/

/-- An element around content. -/
def element (name : Text) (content : List Xml) : Xml := .element name [] content

/-- The role of an emphasis style. -/
def roleAttributes : Style → List (Text × Text)
  | .bold => [("role".toList, "bold".toList)]
  | .italic => []
  | .strikethrough => [("role".toList, "strike".toList)]

/-- The language of code, as far as it is known. -/
def languageAttributes : Option Text → List (Text × Text)
  | some language => [("language".toList, language)]
  | none => []

/-- The alignment of a table cell, if one is in force. -/
def alignmentAttributes : Option Text → List (Text × Text)
  | some alignment => [("valign".toList, alignment)]
  | none => []

/-- The URL of a link or an image. -/
def href (handlers : Handlers) (filter : UrlFilter) (link : Link) : Text :=
  match (handlers.named link.handler).resolve link.page link.target filter with
  | .ok url => url
  | .error _ => link.source

/-- The image element of a URL under a title. -/
def imageElement (url title : Text) : Xml :=
  element "imageobject".toList
    [element "info".toList [element "title".toList [.text title]],
      .element "imagedata".toList [("fileref".toList, url)] []]

/-- What a kind becomes whose children are not shown. -/
def leaf (handlers : Handlers) (filter : UrlFilter) : Kind → List Xml
  | .text content escaped => [if escaped then .text content else .cdata content]
  | .code content language =>
    [.element "programlisting".toList (languageAttributes language) [.cdata content]]
  | .inlineCode content language =>
    [.element "code".toList (languageAttributes language) [.text content]]
  | .nowiki content => [element "programlisting".toList [.cdata content]]
  | .inlineNowiki content => [element "literal".toList [.cdata content]]
  | .rule => [.element "bridgehead".toList [("role".toList, "separator".toList)] []]
  | .linebreak => [element "sbr".toList []]
  | .anchor id => [.element "anchor".toList [("xml:id".toList, id)] []]
  | .link link =>
    [.element "link".toList [("xl:href".toList, href handlers filter link)] [.text link.title]]
  | .image link => [imageElement (href handlers filter link) link.title]
  | .invocation call =>
    [if call.block then element "programlisting".toList [.cdata call.source]
      else element "code".toList [.text call.source]]
  | _ => []

/-! ## Containers -/

/-- The output of children in document order. -/
def inOrder (children : List (Child (List Xml))) : Walk (List Xml) :=
  Walk.inOrder [] (· ++ ·) children

/-- One step of building sections: a heading begins one, then the output of the
child is added. -/
def addChild (current : SectionBuilder Xml × Directives) (child : Child (List Xml)) :
    SectionBuilder Xml × Directives :=
  let (builder, state) := current
  let builder :=
    match child.kind.headingLevel? with
    | some level => builder.start level
    | none => builder
  let (out, state) := child.walk state
  (builder.append out, state)

/-- The output of children in the sections that the headings among them begin. -/
def sectioned (children : List (Child (List Xml))) : Walk (List Xml) := fun state =>
  let (builder, state) := children.foldl addChild ({}, state)
  (Outline.allToXml builder.finish, state)

/-- An element with attributes around the output of its children. -/
def around (name : Text) (attributes : List (Text × Text)) (walk : Walk (List Xml)) :
    Walk (List Xml) :=
  walk.map fun content => [.element name attributes content]

/-- Whether a heading is among some children. -/
def anyHeading (children : List (Child (List Xml))) : Bool :=
  children.any (·.kind.headingLevel?.isSome)

/-- How Docbook is made. -/
def visitor (handlers : Handlers) (filter : UrlFilter) : Visitor (List Xml) where
  empty := []
  append := (· ++ ·)
  visit kind children :=
    match kind with
    | .page => sectioned children
    | .paragraph => around "para".toList [] (inOrder children)
    | .heading _ =>
      (inOrder children).map fun title => [element "info".toList [element "title".toList title]]
    | .blockquote =>
      around "section".toList [("role".toList, "blockquote".toList)]
        (if anyHeading children then sectioned children else inOrder children)
    | .emphasis style => around "emphasis".toList (roleAttributes style) (inOrder children)
    | .list ordered =>
      around (if ordered then "orderedlist".toList else "itemizedlist".toList) []
        (inOrder children)
    | .listItem => around "listitem".toList [] (inOrder children)
    | .table => around "table".toList [] (inOrder children)
    | .row => around "tr".toList [] (inOrder children)
    | .cell header => fun state =>
      around (if header then "th".toList else "td".toList)
        (alignmentAttributes state.tableAlignment?) (inOrder children) state
    | kind => Walk.pure (leaf handlers filter kind)

/-- The article of a document. -/
def article (language : Text) (handlers : Handlers) (filter : UrlFilter) (root : Node) :
    XmlElement where
  name := "article".toList
  attributes :=
    [("xmlns".toList, docbookNamespace), ("xmlns:xl".toList, linkNamespace),
      ("version".toList, "5.0".toList), ("xml:lang".toList, language)]
  content := (visitor handlers filter).run root

/-- The written article of a document. -/
def render (options : Options) (handlers : Handlers) (filter : UrlFilter) (root : Node) : Text :=
  (article options.language handlers filter root).write options.indent

end Creole.Docbook
