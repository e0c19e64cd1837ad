import Creole.Text.Basic

/-!
# XML trees

An XML document is an element with attributes in order and content, which is
elements, text, and character data that is written without escaping.
-/

namespace Creole

/-- A part of an XML document. -/
inductive Xml where
  | element (name : Text) (attributes : List (Text × Text)) (content : List Xml)
  | text (s : Text)
  | cdata (s : Text)
  deriving Repr, Inhabited

/-- An element on its own, which is what a document has at its root. -/
structure XmlElement where
  name : Text
  attributes : List (Text × Text) := []
  content : List Xml := []
  deriving Repr, Inhabited

/-- The element as a part of a document. -/
def XmlElement.toXml (e : XmlElement) : Xml := .element e.name e.attributes e.content

namespace Xml

mutual

/-- The character data of a part, in document order. -/
def data : Xml → Text
  | element _ _ content => dataAll content
  | text s => s
  | cdata s => s

/-- The character data of parts in a row. -/
def dataAll : List Xml → Text
  | [] => []
  | x :: xs => data x ++ dataAll xs

end

theorem dataAll_eq_flatMap (xs : List Xml) : dataAll xs = xs.flatMap data := by
  induction xs with
  | nil => rfl
  | cons x xs ih => simp [dataAll, ih]

/-- The element that a part is, if it is one. -/
def asElement? : Xml → Option XmlElement
  | element name attributes content => some { name, attributes, content }
  | _ => none

end Xml

namespace XmlElement

/-- The value of an attribute; of several with one name the first counts. -/
def attribute? (e : XmlElement) (name : Text) : Option Text := e.attributes.lookup name

/-- The elements of a name among the content. -/
def elements (e : XmlElement) (name : Text) : List XmlElement :=
  (e.content.filterMap Xml.asElement?).filter (·.name = name)

/-- All character data of the element, in document order. -/
def data (e : XmlElement) : Text := Xml.dataAll e.content

end XmlElement

end Creole
