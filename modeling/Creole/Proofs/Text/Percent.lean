import Creole.Text.Blank
import Creole.Text.Percent
import Mathlib.Data.List.Basic
import Mathlib.Logic.Function.Basic

/-!
# Percent-encoding loses nothing

What is written for a path can be read byte by byte (`Percent.decode`), and what is read
are the bytes of the path in UTF-8 (`decode_encode`).  Hence different paths are written
differently (`encode_injective`).  Apart from characters that stand for themselves, only
percent signs are written (`notMem_encode`).
-/

namespace Creole.Percent

/-- The value of an upper-case hexadecimal digit. -/
def digitValue (c : Char) : Nat :=
  if c.isDigit then c.toNat - '0'.toNat else c.toNat - 'A'.toNat + 10

/-- The bytes that a written path stands for. -/
def decode : Text → List UInt8
  | '%' :: high :: low :: s => UInt8.ofNat (16 * digitValue high + digitValue low) :: decode s
  | c :: s => UInt8.ofNat c.toNat :: decode s
  | [] => []

/-! ### Single characters -/

theorem digitValue_hexDigit {n : Nat} (h : n < 16) : digitValue (hexDigit n) = n := by
  have hall : ∀ n < 16, digitValue (hexDigit n) = n := by decide
  exact hall n h

theorem decode_cons {c : Char} (h : c ≠ '%') (s : Text) :
    decode (c :: s) = UInt8.ofNat c.toNat :: decode s := by
  rw [decode]
  intro high low rest hc
  exact absurd hc h

theorem decode_encodeByte_append (b : UInt8) (s : Text) :
    decode (encodeByte b ++ s) = b :: decode s := by
  have hb : b.toNat < 256 := b.toNat_lt
  have hsum : 16 * (b.toNat / 16) + b.toNat % 16 = b.toNat := by omega
  have hhigh : digitValue (hexDigit (b.toNat / 16)) = b.toNat / 16 :=
    digitValue_hexDigit (by omega)
  have hlow : digitValue (hexDigit (b.toNat % 16)) = b.toNat % 16 :=
    digitValue_hexDigit (by omega)
  show decode ('%' :: hexDigit (b.toNat / 16) :: hexDigit (b.toNat % 16) :: s) = _
  rw [decode, hhigh, hlow, hsum, UInt8.ofNat_toNat]

theorem decode_flatMap_encodeByte_append (bytes : List UInt8) (s : Text) :
    decode (bytes.flatMap encodeByte ++ s) = bytes ++ decode s := by
  induction bytes with
  | nil => rfl
  | cons b bytes ih =>
      rw [List.flatMap_cons, List.append_assoc, decode_encodeByte_append, ih, List.cons_append]

/-- A character that stands for itself is one byte. -/
theorem toNat_lt_of_isPlain {c : Char} (h : isPlain c = true) : c.toNat < 128 := by
  simp only [isPlain, Bool.or_eq_true, beq_iff_eq] at h
  rcases h with ((((h | rfl) | rfl) | rfl) | rfl) | rfl
  · exact Nat.lt_of_le_of_lt (toNat_of_isAlphanum h).2 (by decide)
  all_goals decide

theorem ne_percent_of_isPlain {c : Char} (h : isPlain c = true) : c ≠ '%' := by
  rintro rfl
  exact absurd h (by decide)

theorem utf8EncodeChar_of_isPlain {c : Char} (h : isPlain c = true) :
    String.utf8EncodeChar c = [UInt8.ofNat c.toNat] := by
  have hbound : c.toNat ≤ 127 := Nat.le_of_lt_succ (toNat_lt_of_isPlain h)
  unfold String.utf8EncodeChar
  exact if_pos hbound

theorem decode_encodeChar_append (c : Char) (s : Text) :
    decode (encodeChar c ++ s) = String.utf8EncodeChar c ++ decode s := by
  unfold encodeChar
  split
  · next hplain =>
    rw [utf8EncodeChar_of_isPlain hplain, List.singleton_append, List.singleton_append,
      decode_cons (ne_percent_of_isPlain hplain)]
  · exact decode_flatMap_encodeByte_append _ s

/-! ### Paths -/

theorem decode_encode (s : Text) : decode (encode s) = s.flatMap String.utf8EncodeChar := by
  induction s with
  | nil => rfl
  | cons c s ih =>
      have hcons : encode (c :: s) = encodeChar c ++ encode s := List.flatMap_cons
      rw [hcons, decode_encodeChar_append, ih, List.flatMap_cons]

theorem flatMap_utf8EncodeChar_injective :
    Function.Injective fun s : Text => s.flatMap String.utf8EncodeChar := by
  intro s t h
  have hbytes : s.utf8Encode = t.utf8Encode := congrArg List.toByteArray h
  rw [← String.toByteArray_ofList, ← String.toByteArray_ofList, String.toByteArray_inj] at hbytes
  simpa using congrArg String.toList hbytes

/-- Different paths are written differently. -/
theorem encode_injective : Function.Injective encode := by
  intro s t h
  have hbytes : decode (encode s) = decode (encode t) := congrArg decode h
  rw [decode_encode, decode_encode] at hbytes
  exact flatMap_utf8EncodeChar_injective hbytes

theorem isPlain_hexDigit {n : Nat} (h : n < 16) : isPlain (hexDigit n) = true := by
  have hall : ∀ n < 16, isPlain (hexDigit n) = true := by decide
  exact hall n h

theorem eq_percent_or_isPlain_of_mem_encodeByte {b : UInt8} {c : Char} (h : c ∈ encodeByte b) :
    c = '%' ∨ isPlain c = true := by
  have hb : b.toNat < 256 := b.toNat_lt
  simp only [encodeByte, List.mem_cons, List.not_mem_nil, or_false] at h
  rcases h with rfl | rfl | rfl
  · exact Or.inl rfl
  · exact Or.inr (isPlain_hexDigit (by omega))
  · exact Or.inr (isPlain_hexDigit (by omega))

/-- A character that does not stand for itself is not written, but for percent signs. -/
theorem notMem_encode {c : Char} (hplain : isPlain c = false) (hpercent : c ≠ '%') (s : Text) :
    c ∉ encode s := by
  intro hmem
  obtain ⟨d, -, hd⟩ := List.mem_flatMap.mp hmem
  unfold encodeChar at hd
  split at hd
  · next hself =>
    obtain rfl := List.mem_singleton.mp hd
    simp [hself] at hplain
  · obtain ⟨b, -, hb⟩ := List.mem_flatMap.mp hd
    rcases eq_percent_or_isPlain_of_mem_encodeByte hb with hc | hc
    · exact hpercent hc
    · simp [hc] at hplain

end Creole.Percent
