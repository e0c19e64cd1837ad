import Creole.Text.Basic

/-!
# Escaping for HTML

Five characters are written as references, so that an escaped text can stand
between tags as well as inside an attribute quoted either way.
-/

namespace Creole

/-- The written form of one character. -/
def escapeChar : Char → Text
  | '&' => "&amp;".toList
  | '<' => "&lt;".toList
  | '>' => "&gt;".toList
  | '"' => "&quot;".toList
  | '\'' => "&#x27;".toList
  | c => [c]

/-- The text with every character that HTML reserves written as a reference. -/
def escape (s : Text) : Text := s.flatMap escapeChar

@[simp] theorem escape_nil : escape [] = [] := rfl

@[simp] theorem escape_append (s t : Text) : escape (s ++ t) = escape s ++ escape t :=
  List.flatMap_append

end Creole
