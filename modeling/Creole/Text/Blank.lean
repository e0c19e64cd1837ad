import Creole.Text.Basic

/-!
# White space

A character is blank when it has the Unicode property `White_Space`: the
control characters from tab to carriage return, the space, and the spaces and
separators listed in `blankRanges`.  Zero-width characters and the information
separators below the space are not blank.
-/

namespace Creole

/-- The Unicode property `White_Space`, as inclusive ranges of code points. -/
def blankRanges : List (Nat × Nat) :=
  [(0x9, 0xD), (0x20, 0x20), (0x85, 0x85), (0xA0, 0xA0), (0x1680, 0x1680), (0x2000, 0x200A),
    (0x2028, 0x2029), (0x202F, 0x202F), (0x205F, 0x205F), (0x3000, 0x3000)]

/-- Whether a character lies in one of the given inclusive ranges of code points. -/
def inRanges (ranges : List (Nat × Nat)) (c : Char) : Bool :=
  ranges.any fun (low, high) => low ≤ c.toNat && c.toNat ≤ high

/-- Whether a character is white space. -/
def isBlank (c : Char) : Bool := inRanges blankRanges c

/-- The letters and digits of ASCII stand between the digit 0 and the letter z. -/
theorem toNat_of_isAlphanum {c : Char} (h : c.isAlphanum = true) :
    48 ≤ c.toNat ∧ c.toNat ≤ 122 := by
  have hcases : ((c.isUpper || c.isLower) || c.isDigit) = true := h
  have hwithin : ∀ first last : Char, 48 ≤ first.toNat → last.toNat ≤ 122 →
      first.val ≤ c.val ∧ c.val ≤ last.val → 48 ≤ c.toNat ∧ c.toNat ≤ 122 :=
    fun first last hfirst hlast hc => ⟨Nat.le_trans hfirst hc.1, Nat.le_trans hc.2 hlast⟩
  rw [Bool.or_eq_true, Bool.or_eq_true] at hcases
  rcases hcases with (hupper | hlower) | hdigit
  · exact hwithin 'A' 'Z' (by decide) (by decide) (of_decide_eq_true hupper)
  · have hbounds := Bool.and_eq_true_iff.mp hlower
    exact hwithin 'a' 'z' (by decide) (by decide)
      ⟨of_decide_eq_true hbounds.1, of_decide_eq_true hbounds.2⟩
  · have hbounds := Bool.and_eq_true_iff.mp hdigit
    exact hwithin '0' '9' (by decide) (by decide)
      ⟨of_decide_eq_true hbounds.1, of_decide_eq_true hbounds.2⟩

theorem isBlank_of_isAlphanum {c : Char} (h : c.isAlphanum = true) : isBlank c = false := by
  have hcode := toNat_of_isAlphanum h
  simp [isBlank, inRanges, blankRanges]
  omega

namespace Text

/-- Whether a text holds nothing but white space. -/
def blank (s : Text) : Bool := s.all isBlank

/-- The text without the white space at its start. -/
def trimStart (s : Text) : Text := s.dropWhile isBlank

/-- The text without the white space at its end. -/
def trimEnd (s : Text) : Text := dropTrailing isBlank s

/-- The text without the white space at either end. -/
def trim (s : Text) : Text := trimEnd (trimStart s)

end Text

end Creole
