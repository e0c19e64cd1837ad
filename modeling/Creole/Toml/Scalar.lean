import Creole.Toml.DateTime
import Creole.Toml.Value

/-!
# TOML: values without delimiters

A value that is no string, no array and no table is a run of characters.  Its first
characters decide whether it is a truth value, a number, or a date or time.

Dates, times and the form of a float are decided here.  Of a decimal whole number
only what the first zero and the underscores say is: `Value.int?` finds out whether
the rest of it are digits, and how large it is.
-/

namespace Creole.Toml

/-! ## Runs -/

/-- Whether a character may stand in a run: it separates no keys, values or lines. -/
def isRunChar (c : Char) : Bool := !" \t\r\n=,[]\x7b\x7d#".toList.contains c

/-- The run of characters at the start of a text.  A space belongs to it between a date
and what begins with a digit. -/
def run (s : Text) : Text :=
  let first := s.takeWhile isRunChar
  match s.drop first.length with
  | ' ' :: c :: rest =>
    if afterDate? first = some [] && c.isDigit then
      first ++ ' ' :: (c :: rest).takeWhile isRunChar
    else first
  | _ => first

/-! ## Numbers -/

/-- The base that a letter behind a first zero stands for. -/
def baseOf? : Char → Option Nat
  | 'x' => some 16
  | 'o' => some 8
  | 'b' => some 2
  | _ => none

/-- The whole number whose digits in the given base are written.  There may be none of
them, as long as its value is not asked for. -/
def based? (base : Nat) (digits : Text) : Option Value :=
  if digits.all (fun c => isDigitIn base c || c == '_') && isGrouped isHexDigit false digits then
    some (.integer base (ungrouped digits))
  else none

/-- Whether a text begins with a zero in front of other digits. -/
def hasLeadingZero : Text → Bool
  | '0' :: c :: _ => c.isDigit || c == '_'
  | _ => false

/-- The number, date or time that is written by a sign, which may be missing, and the
digits and other characters behind it.  The sign may stand in front of an underscore.
What follows the first digits decides what is written. -/
def decimal? (sign s : Text) : Option Value :=
  let rest := s.dropWhile Char.isDigit
  if rest.head? = some '-' || rest.head? = some ':' then
    if isDateTime (sign ++ s) then some (.dateTime (sign ++ s)) else none
  else if rest.any ['.', 'e', 'E'].contains then
    if !hasLeadingZero s && isGrouped Char.isDigit (!sign.isEmpty) s &&
        (Decimal.ofText? (ungrouped s)).isSome then
      some (.float (sign ++ ungrouped s))
    else none
  else if (s = ['0'] || s.head? ≠ some '0') && isGrouped isHexDigit (!sign.isEmpty) s then
    some (.integer 10 (sign ++ ungrouped s))
  else none

/-- The number, date or time that is written by a run of characters. -/
def number? (s : Text) : Option Value :=
  match s with
  | '0' :: letter :: digits =>
    match baseOf? letter with
    | some base => based? base digits
    | none => decimal? [] s
  | _ =>
    let (sign, rest) := splitSign s
    if rest.head?.any fun c : Char => c.isDigit || c == '_' then decimal? sign rest else none

/-! ## Values -/

/-- The value that a run of characters writes. -/
def scalar? (s : Text) : Option Value :=
  if s = "true".toList then some (.bool true)
  else if s = "false".toList then some (.bool false)
  else if ["inf".toList, "nan".toList].contains (splitSign s).2 then some (.float s)
  else number? s

end Creole.Toml
