import Creole.Xml.Basic

/-!
# Sections

The blocks of a document come in a row in which headings mark where sections
begin.  A `SectionBuilder` takes them one by one and nests the sections by level:
a section lies in the closest open section of a lower level.  Content before the
first heading opens a section of its own.
-/

namespace Creole.Docbook

/-- Content in sections that may lie inside one another. -/
inductive Outline (α : Type) where
  | content (a : α)
  | division (level : Nat) (entries : List (Outline α))
  deriving Repr, Inhabited

/-- A section to which entries may still be added. -/
structure OpenSection (α : Type) where
  level : Nat
  entries : List (Outline α) := []
  deriving Repr, Inhabited

namespace OpenSection

variable {α : Type}

/-- The section with more entries behind those that it has. -/
def add (s : OpenSection α) (entries : List (Outline α)) : OpenSection α :=
  { s with entries := s.entries ++ entries }

/-- The section as an entry. -/
def close (s : OpenSection α) : Outline α := .division s.level s.entries

end OpenSection

/-- The open sections, the innermost first, and what lies before the outermost. -/
structure SectionBuilder (α : Type) where
  stack : List (OpenSection α) := []
  closed : List (Outline α) := []
  deriving Repr, Inhabited

namespace SectionBuilder

variable {α : Type}

/-- Closes the open sections from the innermost as long as they are not of a lower
level than the given one. -/
def closeFrom (level : Nat) (b : SectionBuilder α) : SectionBuilder α :=
  match b with
  | ⟨[], closed⟩ => ⟨[], closed⟩
  | ⟨[outermost], closed⟩ =>
    if level ≤ outermost.level then ⟨[], closed ++ [outermost.close]⟩
    else ⟨[outermost], closed⟩
  | ⟨innermost :: parent :: rest, closed⟩ =>
    if level ≤ innermost.level then
      closeFrom level ⟨parent.add [innermost.close] :: rest, closed⟩
    else ⟨innermost :: parent :: rest, closed⟩
termination_by b.stack.length

/-- Begins a section of a level, inside the open sections of lower levels. -/
def start (level : Nat) (b : SectionBuilder α) : SectionBuilder α :=
  let b := b.closeFrom level
  { b with stack := { level } :: b.stack }

/-- The level of the section that content before the first heading opens. -/
def implicitLevel : Nat := 1

/-- Adds content to the innermost open section.  Where none is open, content other
than none at all opens one. -/
def append (content : List α) (b : SectionBuilder α) : SectionBuilder α :=
  if content.isEmpty then b
  else
    let entries := content.map Outline.content
    match b.stack with
    | [] => { b with stack := [{ level := implicitLevel, entries }] }
    | innermost :: rest => { b with stack := innermost.add entries :: rest }

/-- The document, every section closed. -/
def finish (b : SectionBuilder α) : List (Outline α) := (b.closeFrom 0).closed

end SectionBuilder

mutual

/-- Sections as elements around their content. -/
def Outline.toXml : Outline Xml → Xml
  | .content x => x
  | .division _ entries => .element "section".toList [] (Outline.allToXml entries)

/-- Entries in a row as parts of a document. -/
def Outline.allToXml : List (Outline Xml) → List Xml
  | [] => []
  | entry :: entries => entry.toXml :: Outline.allToXml entries

end

end Creole.Docbook
