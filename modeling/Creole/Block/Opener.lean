import Creole.Inline.Mark

/-!
# Lines that open blocks

A line opens a block by its form alone.  `Opener.of?` says which block that is,
or that the line is one of running text.  Blocks whose content is taken as it is
stand between fences; a line that opens a fence opens a block only if a later
line closes it.  `opens` asks for no more than that there is a block, in a chain of
tests of its own.
-/

namespace Creole.Block

/-- The fences around content that is taken as it is. -/
inductive Fence where
  /-- Three braces. -/
  | nowiki
  /-- Tags with the name of a language. -/
  | tag (language : Text)
  /-- Three backquotes, the first of them with the name of a language or without. -/
  | ticks (language : Option Text)
  deriving DecidableEq, Repr

namespace Fence

/-- The three braces that open a fence. -/
def braces : Text := ['{', '{', '{']

/-- The three braces that close a fence. -/
def closingBraces : Text := ['}', '}', '}']

/-- The three backquotes of a fence. -/
def backquotes : Text := ['\x60', '\x60', '\x60']

/-- Whether a line closes the fence.  White space may stand around the closing
mark, but braces close only at the start of a line. -/
def closes : Fence → (line : Text) → Bool
  | nowiki, line => Text.trimEnd line = closingBraces
  | tag language, line => Text.trim line = Inline.codeEnd language
  | ticks _, line => Text.trim line = backquotes

/-- The fence that a line opens. -/
def of? (line : Text) : Option Fence :=
  let line := Text.trim line
  if line = braces then some nowiki
  else
    match Text.after? "[<".toList line with
    | some rest =>
      let language := rest.takeWhile Inline.isLanguageChar
      if !language.isEmpty && rest.dropWhile Inline.isLanguageChar = ">]".toList then
        some (tag language)
      else none
    | none =>
      match Text.after? backquotes line with
      | some rest =>
        let language := Text.trimStart rest
        if language.all Inline.isLanguageChar then
          some (ticks (if language.isEmpty then none else some language))
        else none
      | none => none

end Fence

/-- What a line opens. -/
inductive Opener where
  | fence (fence : Fence)
  | heading (level : Nat) (title : Text)
  | rule
  /-- A row of a table. -/
  | row
  | quote
  /-- An item of a list. -/
  | item
  deriving DecidableEq, Repr

/-- The number of equals signs at the start of a heading and its title, which ends
before the equals signs at the end of the line. -/
def heading? (line : Text) : Option (Nat × Text) :=
  let line := Text.trimStart line
  let level := (line.takeWhile (· = '=')).length
  if level = 0 then none
  else
    let title := Text.trimStart (line.drop level)
    some (level, Text.trimEnd (Text.dropTrailing (· = '=') (Text.trimEnd title)))

/-- Four or more dashes and nothing else. -/
def isRule (line : Text) : Bool :=
  let line := Text.trim line
  4 ≤ line.length && line.all (· = '-')

/-- A row of a table begins with a bar. -/
def isRow (line : Text) : Bool := Text.opens ['|'] (Text.trimStart line)

/-- A quoted line begins with an angle bracket, with no white space before it. -/
def isQuoted (line : Text) : Bool := Text.opens ['>'] line

/-- The white space, the marks and the text of a line that may be an item of a list. -/
def splitItem? (line : Text) : Option (Text × Text × Text) :=
  let rest := Text.trimStart line
  let marks := rest.takeWhile fun c => c == '*' || c == '#'
  if marks.isEmpty then none
  else some (line.takeWhile isBlank, marks, Text.trimStart (rest.drop marks.length))

/-- Outside a list, a line with a single item mark opens one. -/
def opensList (line : Text) : Bool :=
  match splitItem? line with
  | some (_, marks, _) => marks.length = 1
  | none => false

/-- What a line opens, if it is not one of running text. -/
def Opener.of? (line : Text) : Option Opener :=
  match Fence.of? line with
  | some found => some (.fence found)
  | none =>
    match heading? line with
    | some (level, title) => some (.heading level title)
    | none =>
      if isRule line then some .rule
      else if isRow line then some .row
      else if isQuoted line then some .quote
      else if opensList line then some .item
      else none

/-- Whether a line, before the given ones, opens a block, told without reading the block.
A fence must be closed behind it; a quote must be one that is `quotable`. -/
def opens (quotable : Bool) (line : Text) (rest : List Text) : Bool :=
  match Fence.of? line with
  | some fence => rest.any fence.closes
  | none =>
    (heading? line).isSome || isRule line || isRow line || (quotable && isQuoted line) ||
      opensList line

end Creole.Block
