import Creole.Text.Escape

/-!
# Escaped text

An escaped text holds none of the characters that end a tag or an attribute, and an
ampersand only where one of five references begins.  `escape` makes such texts
(`escaped_escape`), and `unescape`, which reads the references, gives back what was
escaped (`unescape_escape`).
-/

namespace Creole

/-- The characters that end a tag or an attribute. -/
def markupChars : Text := ['<', '>', '"', '\'']

/-- The references that stand for the characters HTML reserves. -/
def references : List Text :=
  ["&amp;".toList, "&lt;".toList, "&gt;".toList, "&quot;".toList, "&#x27;".toList]

/-- A text that may stand between tags and inside an attribute. -/
structure Escaped (s : Text) : Prop where
  plain : ∀ c ∈ s, c ∉ markupChars
  ampersand : ∀ before behind, s = before ++ '&' :: behind →
    ∃ reference ∈ references, reference <+: '&' :: behind

/-- The text with its references read as the characters that they stand for. -/
def unescape : Text → Text
  | '&' :: 'a' :: 'm' :: 'p' :: ';' :: s => '&' :: unescape s
  | '&' :: 'l' :: 't' :: ';' :: s => '<' :: unescape s
  | '&' :: 'g' :: 't' :: ';' :: s => '>' :: unescape s
  | '&' :: 'q' :: 'u' :: 'o' :: 't' :: ';' :: s => '"' :: unescape s
  | '&' :: '#' :: 'x' :: '2' :: '7' :: ';' :: s => '\'' :: unescape s
  | c :: s => c :: unescape s
  | [] => []

/-! ## One character -/

/-- The characters that are written as references, each with its reference. -/
theorem escapeChar_cases (c : Char) :
    (c, escapeChar c) ∈ [('&', "&amp;".toList), ('<', "&lt;".toList), ('>', "&gt;".toList),
        ('"', "&quot;".toList), ('\'', "&#x27;".toList)] ∨
      c ≠ '&' ∧ c ∉ markupChars ∧ escapeChar c = [c] := by
  by_cases h : c ∈ ['&', '<', '>', '"', '\'']
  · simp only [List.mem_cons, List.not_mem_nil, or_false] at h
    rcases h with rfl | rfl | rfl | rfl | rfl <;> exact Or.inl (by decide)
  · rw [List.mem_cons, not_or] at h
    refine Or.inr ⟨h.1, h.2, ?_⟩
    unfold escapeChar
    split <;> simp_all

/-- A reference has one ampersand, at its start, and no markup. -/
theorem escaped_reference {reference : Text} (h : reference ∈ references) : Escaped reference := by
  refine ⟨?_, fun before behind heq => ⟨reference, h, ?_⟩⟩
  · revert reference
    simp [references, markupChars]
  · cases before with
    | nil => exact heq ▸ List.prefix_rfl
    | cons c before =>
        have htail : ∀ reference ∈ references, '&' ∉ reference.tail := by decide
        refine absurd ?_ (htail reference h)
        rw [heq]
        simp

theorem escaped_of_forall {s : Text} (h : ∀ c ∈ s, c ≠ '&' ∧ c ∉ markupChars) : Escaped s := by
  refine ⟨fun c hc => (h c hc).2, fun before behind heq => ?_⟩
  have hmem : '&' ∈ s := by simp [heq]
  exact absurd rfl (h '&' hmem).1

theorem escaped_nil : Escaped [] := escaped_of_forall (by simp)

theorem escaped_singleton {c : Char} (hamp : c ≠ '&') (h : c ∉ markupChars) : Escaped [c] :=
  escaped_of_forall (List.forall_mem_singleton.mpr ⟨hamp, h⟩)

theorem Escaped.append {s t : Text} (hs : Escaped s) (ht : Escaped t) : Escaped (s ++ t) := by
  refine ⟨fun c hc => (List.mem_append.mp hc).elim (hs.plain c) (ht.plain c), ?_⟩
  intro before behind heq
  rcases List.append_eq_append_iff.mp heq with ⟨mid, rfl, hmid⟩ | ⟨mid, rfl, hmid⟩
  · exact ht.ampersand mid behind hmid
  · cases mid with
    | nil => exact ht.ampersand [] behind (by simpa using hmid.symm)
    | cons c mid =>
        obtain ⟨rfl, rfl⟩ : '&' = c ∧ behind = mid ++ t := by simpa using hmid
        obtain ⟨reference, hmem, hprefix⟩ := hs.ampersand before mid rfl
        exact ⟨reference, hmem, hprefix.trans ⟨t, by simp⟩⟩

theorem escaped_escapeChar (c : Char) : Escaped (escapeChar c) := by
  rcases escapeChar_cases c with h | ⟨hamp, hplain, heq⟩
  · refine escaped_reference ?_
    simp only [List.mem_cons, Prod.mk.injEq, List.not_mem_nil, or_false] at h
    rcases h with ⟨-, h⟩ | ⟨-, h⟩ | ⟨-, h⟩ | ⟨-, h⟩ | ⟨-, h⟩ <;> rw [h] <;> decide
  · exact heq ▸ escaped_singleton hamp hplain

/-! ## Texts -/

theorem escaped_escape (s : Text) : Escaped (escape s) := by
  induction s with
  | nil => exact escaped_nil
  | cons c s ih => exact (escaped_escapeChar c).append ih

theorem unescape_cons {c : Char} (h : c ≠ '&') (s : Text) :
    unescape (c :: s) = c :: unescape s := by
  rw [unescape]
  all_goals exact fun _ hc => absurd hc h

theorem unescape_escapeChar_append (c : Char) (s : Text) :
    unescape (escapeChar c ++ s) = c :: unescape s := by
  rcases escapeChar_cases c with h | ⟨hamp, -, heq⟩
  · simp only [List.mem_cons, Prod.mk.injEq, List.not_mem_nil, or_false] at h
    rcases h with ⟨rfl, h⟩ | ⟨rfl, h⟩ | ⟨rfl, h⟩ | ⟨rfl, h⟩ | ⟨rfl, h⟩ <;> rw [h] <;> rfl
  · rw [heq]
    exact unescape_cons hamp s

/-- Reading the references of an escaped text undoes the escaping. -/
theorem unescape_escape (s : Text) : unescape (escape s) = s := by
  induction s with
  | nil => rfl
  | cons c s ih =>
      rw [escape, List.flatMap_cons, unescape_escapeChar_append]
      exact congrArg (c :: ·) ih

end Creole
