import Creole.Text.Basic

/-!
# Percent-encoding of page paths

A path is encoded byte by byte in UTF-8.  ASCII letters and digits, the four
marks `-`, `_`, `.` and `~`, and the slash between path segments stand for
themselves; any other byte is written as a percent sign and two upper-case
hexadecimal digits.
-/

namespace Creole.Percent

/-- Whether a character of a path stands for itself. -/
def isPlain (c : Char) : Bool :=
  c.isAlphanum || c == '-' || c == '_' || c == '.' || c == '~' || c == '/'

/-- The upper-case hexadecimal digit of a number below sixteen. -/
def hexDigit (n : Nat) : Char := ("0123456789ABCDEF".toList[n]?).getD '0'

/-- The written form of one byte. -/
def encodeByte (b : UInt8) : Text :=
  ['%', hexDigit (b.toNat / 16), hexDigit (b.toNat % 16)]

/-- The written form of one character. -/
def encodeChar (c : Char) : Text :=
  if isPlain c then [c] else (String.utf8EncodeChar c).flatMap encodeByte

/-- The written form of a path. -/
def encode (s : Text) : Text := s.flatMap encodeChar

@[simp] theorem encode_append (s t : Text) : encode (s ++ t) = encode s ++ encode t :=
  List.flatMap_append

end Creole.Percent
