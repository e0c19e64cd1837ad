import Creole.Inline.Token
import Creole.Proofs.Node.Joined
import Creole.Proofs.Node.View

/-!
# Printing inline nodes

Inline nodes are printed as markup: their texts with every character escaped, what
is emphasized between the marks of its style, and everything else as its body
between the marks that enclose it.  `Printable` nodes are those whose markup says
all about them: no body holds a mark that would end it early, and no emphasis has
its own style below it.
-/

namespace Creole.Inline

/-! ## Markup -/

/-- A body between a mark and what ends it. -/
def enclosed (mark : Mark) (body : Text) : Text := mark.text ++ body ++ mark.closing

/-- A character of a text, behind an escape unless it is white space. -/
def printChar (c : Char) : Text := if isBlank c then [c] else ['~', c]

/-- The body of a link or an image. -/
def titledBody (source title : Text) : Text := source ++ '|' :: title

/-- A name, and arguments behind a colon. -/
def callBody (name : Text) : (args : Option Text) → Text
  | some args => name ++ ':' :: args
  | none => name

/-- The body of a macro use, which has no colon if it has no arguments. -/
def invocationBody (call : Invocation) : Text :=
  callBody call.name (if call.args = [] then none else some call.args)

/-- The body of a directive, its arguments between commas. -/
def directiveBody (directive : Directive) : Text :=
  (if directive.enabled then '+' else '-') ::
    callBody directive.name
      (if directive.args = [] then none else some (List.intercalate [','] directive.args))

/-- The mark and the body that a kind is printed as, for those that are enclosed. -/
def enclosure? : Kind → Option (Mark × Text)
  | .inlineNowiki content => some (.verbatim, content)
  | .anchor id => some (.image, '#' :: id)
  | .link link => some (.link, titledBody link.source link.title)
  | .image link => some (.image, titledBody link.source link.title)
  | .invocation call => some (.call, invocationBody call)
  | .directive directive => some (.call, directiveBody directive)
  | _ => none

/-- Code between the tags of its language. -/
def printCode (code language : Text) : Text :=
  "[<".toList ++ language ++ ">]".toList ++ code ++ codeEnd language

/-- The markup of a kind around that of its children. -/
def printKind (kind : Kind) (below : Text) : Text :=
  match kind with
  | .text content _ => content.flatMap printChar
  | .linebreak => Mark.lineBreak.text
  | .inlineCode code (some language) => printCode code language
  | .emphasis style => enclosed (.style style) below
  | kind =>
    match enclosure? kind with
    | some (mark, body) => enclosed mark body
    | none => []

/-- The markup of a node. -/
def print : Node → Text := Node.fold fun kind below => printKind kind below.flatten

@[simp] theorem print_mk (kind : Kind) (children : List Node) :
    print (.mk kind children) = printKind kind (children.flatMap print) := by
  simp [print, List.flatMap]

/-! ## What can be printed -/

/-- Behind a text, its closing mark is the first one. -/
def Closes (closing body : Text) : Prop := Text.cut? closing (body ++ closing) = some (body, [])

instance (closing body : Text) : Decidable (Closes closing body) :=
  inferInstanceAs (Decidable (_ = _))

/-- The source and the title of a link or an image that read back from its body. -/
structure Titled (closing source title : Text) : Prop where
  source_ne_nil : source ≠ []
  title_ne_nil : title ≠ []
  trim_source : Text.trim source = source
  trim_title : Text.trim title = title
  bar : '|' ∉ source
  closes : Closes closing (titledBody source title)

/-- The kinds of leaves that read back from their markup. -/
inductive PrintableKind (page : PageRef) : Kind → Prop
  | text {content : Text} : content ≠ [] → PrintableKind page (.text content true)
  | linebreak : PrintableKind page .linebreak
  /-- Three braces in a row stand among those at the end of the text only. -/
  | inlineNowiki {content : Text} :
      Text.includes Mark.verbatim.closing (Text.dropTrailing (· = '}') content) = false →
      PrintableKind page (.inlineNowiki content)
  | inlineCode {code language : Text} :
      language ≠ [] → language.all isLanguageChar = true →
      Closes (codeEnd language) code → PrintableKind page (.inlineCode code (some language))
  | anchor {id : Text} :
      id ≠ [] → Text.trim id = id → Closes Mark.image.closing id →
      PrintableKind page (.anchor id)
  | link {source title : Text} :
      Titled Mark.link.closing source title →
      PrintableKind page (.link (linkTo .link page source title))
  | image {source title : Text} :
      Titled Mark.image.closing source title →
      source.head? ≠ some '#' → source.head? ≠ some '{' →
      PrintableKind page (.image (linkTo .image page source title))
  | invocation {name args : Text} :
      isName name = true → Text.trim args = args →
      Closes Mark.call.closing (invocationBody { name, args }) →
      PrintableKind page (.invocation { name, args })
  | directive {directive : Directive} :
      isName directive.name = true →
      (∀ arg ∈ directive.args, Text.trim arg = arg ∧ ',' ∉ arg) →
      Closes Mark.call.closing (directiveBody directive) →
      PrintableKind page (.directive directive)

/-- The nodes that read back from their markup.  Below an emphasis there are such
nodes, no two texts among them side by side, and none of the same emphasis. -/
inductive Printable (page : PageRef) : Node → Prop
  | leaf {kind : Kind} : PrintableKind page kind → Printable page (.leaf kind)
  | emphasis {style : Style} {children : List Node} :
      children ≠ [] → (∀ child ∈ children, Printable page child) →
      children.IsChain Node.Separate →
      (∀ child ∈ children, Kind.emphasis style ∉ child.kinds) →
      Printable page (.mk (.emphasis style) children)

end Creole.Inline
