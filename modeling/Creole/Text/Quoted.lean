import Creole.Text.Hidden

/-!
# Quoted texts

A text is quoted for display: it stands between double quotes, and every character
in it can be seen.  Quotes and backslashes follow a backslash, line ends, tabs and
the null character have a letter or digit of their own, and any other hidden
character is written as its code point in braces.
-/

namespace Creole.Text

/-- The written form of one character of a quoted text. -/
def quoteChar : Char → Text
  | '"' => ['\\', '"']
  | '\\' => ['\\', '\\']
  | '\n' => ['\\', 'n']
  | '\r' => ['\\', 'r']
  | '\t' => ['\\', 't']
  | '\x00' => ['\\', '0']
  | c =>
    if isHidden c then "\\u\x7b".toList ++ Nat.toDigits 16 c.toNat ++ ['}'] else [c]

/-- The text between quotes. -/
def quote (s : Text) : Text := '"' :: s.flatMap quoteChar ++ ['"']

end Creole.Text
