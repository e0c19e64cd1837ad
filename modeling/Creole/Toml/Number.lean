import Creole.Toml.Lexeme

/-!
# TOML: numbers

A number is kept as its sign and digits are written and gets its value where it is
asked for.  So a document may hold a number that is too large for any use, as long
as nobody asks for it.

`wholeNumber?` gives the value of a whole number in its base.  Of a number with a
fraction or an exponent only the size matters, and `Decimal.isFinite` decides it
exactly.
-/

namespace Creole.Toml

/-! ## Signs and underscores -/

/-- The sign at the start of a number, if there is one, and what follows it. -/
def splitSign : Text → Text × Text
  | '+' :: rest => (['+'], rest)
  | '-' :: rest => (['-'], rest)
  | rest => ([], rest)

/-- The whole number with the given sign and size. -/
def withSign (sign : Text) (size : Nat) : Int :=
  if sign = ['-'] then -(size : Int) else size

/-- Whether every underscore stands in front of a digit and behind a digit;
`divisible` says whether one may come first. -/
def isGrouped (isDigit : Char → Bool) (divisible : Bool) : Text → Bool
  | [] => true
  | '_' :: rest => divisible && rest.head?.any isDigit && isGrouped isDigit false rest
  | c :: rest => isGrouped isDigit (isDigit c) rest

/-- The text without underscores. -/
def ungrouped (s : Text) : Text := s.filter (· ≠ '_')

/-! ## Whole numbers -/

/-- Whether a character is a digit in a base of at most sixteen. -/
def isDigitIn (base : Nat) (c : Char) : Bool := isHexDigit c && hexValue c < base

/-- The number that a sign, which may be missing, and digits write. -/
def wholeNumber? (base : Nat) (s : Text) : Option Int :=
  let (sign, digits) := splitSign s
  if digits.isEmpty || !digits.all (isDigitIn base) then none
  else some (withSign sign (Text.digitsToNat base hexValue digits))

/-- Whether a whole number can be read at all: it fits 128 bits, with or without a
sign. -/
def isReadableWhole (n : Int) : Bool :=
  -170141183460469231731687303715884105728 ≤ n && n ≤ 340282366920938463463374607431768211455

/-! ## Numbers with a fraction or an exponent -/

/-- The number `mantissa * 10 ^ exponent`. -/
structure Decimal where
  mantissa : Nat
  exponent : Int
  deriving DecidableEq, Repr

namespace Decimal

/-- The digits at the start of a text, at least one, and what follows them. -/
def digits? (s : Text) : Option (Text × Text) :=
  let digits := s.takeWhile Char.isDigit
  if digits.isEmpty then none else some (digits, s.drop digits.length)

/-- The digits behind the point at the start of a text, and what follows them.
Without a point there are none. -/
def fraction? : Text → Option (Text × Text)
  | '.' :: rest => digits? rest
  | rest => some ([], rest)

/-- The exponent at the start of a text, and what follows it.  Where none is written
it is zero. -/
def exponent? : Text → Option (Int × Text)
  | c :: rest =>
    if c = 'e' || c = 'E' then
      let (sign, rest) := splitSign rest
      (digits? rest).map fun (digits, rest) =>
        (withSign sign (Text.digitsToNat 10 hexValue digits), rest)
    else some (0, c :: rest)
  | [] => some (0, [])

/-- The number that a text without sign writes: digits, then a fraction and an
exponent, each of which may be missing. -/
def ofText? (s : Text) : Option Decimal := do
  let (whole, s) ← digits? s
  let (fraction, s) ← fraction? s
  let (exponent, s) ← exponent? s
  if s.isEmpty then
    some ⟨Text.digitsToNat 10 hexValue (whole ++ fraction), exponent - fraction.length⟩
  else none

/-- The least number that is too large for a float of double precision: the
midpoint between the largest such float and the next power of two. -/
def bound : Nat := Nat.pow 2 1024 - Nat.pow 2 970

/-- Whether a number can be a float.  Powers of ten are taken only where the number
of digits does not decide. -/
def isFinite (d : Decimal) : Bool :=
  let magnitude := (Text.ofNat d.mantissa).length + d.exponent
  if d.mantissa = 0 || magnitude < 309 then true
  else if 309 < magnitude then false
  else if 0 ≤ d.exponent then d.mantissa * Nat.pow 10 d.exponent.toNat < bound
  else d.mantissa < bound * Nat.pow 10 (-d.exponent).toNat

end Decimal

/-- Whether a float can be read.  Infinity, and what is no number, have names in place
of digits and can always be read. -/
def isReadableFloat (written : Text) : Bool :=
  (Decimal.ofText? (splitSign written).2).all Decimal.isFinite

end Creole.Toml
