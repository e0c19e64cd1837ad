import Creole.Toml.Lexeme

/-!
# TOML: dates and times

A date, a time of day, or a date followed by a time of day and perhaps by its offset
from universal time.  Only whether a text writes one matters, so what reads a part
gives back the text behind it.
-/

namespace Creole.Toml

/-- The number that exactly two digits at the start of a text write, and the rest. -/
def twoDigits? : Text → Option (Nat × Text)
  | a :: b :: rest =>
    if a.isDigit && b.isDigit then some (hexValue a * 10 + hexValue b, rest) else none
  | _ => none

/-- The number of days of a month. -/
def daysIn (year month : Nat) : Nat :=
  if month = 2 then
    if (year % 4 = 0 && year % 100 ≠ 0) || year % 400 = 0 then 29 else 28
  else if [4, 6, 9, 11].contains month then 30
  else 31

/-- What follows the date at the start of a text. -/
def afterDate? (s : Text) : Option Text := do
  let (century, s) ← twoDigits? s
  let (year, s) ← twoDigits? s
  let s ← Text.after? ['-'] s
  let (month, s) ← twoDigits? s
  let s ← Text.after? ['-'] s
  let (day, s) ← twoDigits? s
  if 1 ≤ month && month ≤ 12 && 1 ≤ day && day ≤ daysIn (century * 100 + year) month then some s
  else none

/-- What follows the time of day at the start of a text.  Seconds may be missing. -/
def afterTime? (s : Text) : Option Text := do
  let (hour, s) ← twoDigits? s
  let s ← Text.after? [':'] s
  let (minute, s) ← twoDigits? s
  if 24 ≤ hour || 60 ≤ minute then none
  else
    match s with
    | ':' :: s =>
      let (second, s) ← twoDigits? s
      if 60 < second then none
      else
        match s with
        | '.' :: s =>
          let fraction := s.takeWhile Char.isDigit
          if fraction.isEmpty then none else some (s.drop fraction.length)
        | s => some s
    | s => some s

/-- Whether a text is an offset from universal time, or nothing. -/
def isOffset (s : Text) : Bool :=
  match s with
  | [] => true
  | ['Z'] | ['z'] => true
  | sign :: rest =>
    (sign == '+' || sign == '-') &&
      (do
        let (hour, rest) ← twoDigits? rest
        let rest ← Text.after? [':'] rest
        let (minute, rest) ← twoDigits? rest
        pure (rest.isEmpty && hour < 24 && minute < 60)).getD false

/-- Whether a text is a date, a time of day, or both with or without an offset. -/
def isDateTime (s : Text) : Bool :=
  match afterDate? s with
  | some [] => true
  | some (c :: rest) =>
    (c == 'T' || c == 't' || c == ' ') && (afterTime? rest).any isOffset
  | none => afterTime? s = some []

end Creole.Toml
