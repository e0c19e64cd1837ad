import Creole.Xml.Basic

/-!
# Written XML

A document is written with its tags indented.  A tag goes on a line of its own
unless it directly follows character data, which is written where it stands, so
that no white space comes into the text of an element.  Character data that must
not be escaped is written as CDATA sections; since a section ends at the first
`]]>`, data that holds this mark is divided within it.
-/

namespace Creole.Xml

/-- The written form of one character of text or of an attribute value. -/
def escapeChar : Char → Text
  | '&' => "&amp;".toList
  | '<' => "&lt;".toList
  | '>' => "&gt;".toList
  | '"' => "&quot;".toList
  | '\'' => "&apos;".toList
  | c => [c]

/-- Text or an attribute value with every reserved character as a reference. -/
def escape (s : Text) : Text := s.flatMap escapeChar

/-- What begins a CDATA section. -/
def cdataStart : Text := "<![CDATA[".toList

/-- What ends a CDATA section. -/
def cdataEnd : Text := [']', ']', '>']

/-- The sections of character data: it is divided behind the brackets of every
`]]>`, so that no section holds this mark. -/
def sections (s : Text) : List Text :=
  match _ : Text.cut? cdataEnd s with
  | some (before, rest) => (before ++ [']', ']']) :: sections ('>' :: rest)
  | none => [s]
termination_by s.length
decreasing_by
  have hlength := Text.length_of_cut? (by assumption)
  simp only [cdataEnd, List.length_cons, List.length_nil] at hlength ⊢
  omega

/-- One CDATA section. -/
def writeSection (s : Text) : Text := cdataStart ++ s ++ cdataEnd

/-- The attributes of a tag. -/
def writeAttributes (attributes : List (Text × Text)) : Text :=
  attributes.flatMap fun (name, value) => ' ' :: name ++ "=\"".toList ++ escape value ++ ['"']

/-- The line end and indentation before a tag, unless it follows character data. -/
def lineBreak (indent depth : Nat) (afterData : Bool) : Text :=
  if afterData then [] else '\n' :: List.replicate (indent * depth) ' '

/-- Whether a part is character data. -/
def isData : Xml → Bool
  | element _ _ _ => false
  | _ => true

/-- Whether the last of some parts is character data. -/
def endsInData : List Xml → Bool
  | [] => false
  | [x] => isData x
  | _ :: x :: xs => endsInData (x :: xs)

mutual

/-- A part of a document at a depth, behind character data or not. -/
def write (indent depth : Nat) (afterData : Bool) : Xml → Text
  | element name attributes [] =>
    lineBreak indent depth afterData ++ '<' :: name ++ writeAttributes attributes ++ "/>".toList
  | element name attributes (x :: xs) =>
    lineBreak indent depth afterData ++ '<' :: name ++ writeAttributes attributes ++ ['>'] ++
      writeAll indent (depth + 1) false (x :: xs) ++
      lineBreak indent depth (endsInData (x :: xs)) ++ "</".toList ++ name ++ ['>']
  | text s => escape s
  | cdata s => (sections s).flatMap writeSection

/-- Parts in a row. -/
def writeAll (indent depth : Nat) (afterData : Bool) : List Xml → Text
  | [] => []
  | x :: xs => write indent depth afterData x ++ writeAll indent depth (isData x) xs

end

/-- The line that a document begins with. -/
def declaration : Text := "<?xml version=\"1.0\" encoding=\"UTF-8\"?>".toList

end Creole.Xml

namespace Creole

/-- A document, each level of elements indented by so many spaces. -/
def XmlElement.write (e : XmlElement) (indent : Nat) : Text :=
  Xml.declaration ++ Xml.write indent 0 false e.toXml

end Creole
