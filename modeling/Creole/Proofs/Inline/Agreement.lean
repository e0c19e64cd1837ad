import Creole.Proofs.Inline.Leaves
import Creole.Proofs.Inline.Tokens

/-!
# The look-ahead and the scanner

The search for the end of an emphasis steps over what nothing ends inside, and the scanner
takes the same text for one token.  Whether they agree on where such a construct stands and on
how long it is depends on one thing.  A construct is hollow if its mark is closed, but encloses
nothing that is valid there, such as a link without a target or a macro use without a name.
Wherever a text is not hollow, the look-ahead and the scanner agree, and where it is hollow,
they do not (`agrees_iff_not_hollow`): the scanner keeps the mark and reads on behind it, while
the look-ahead steps over all that the mark encloses.

## Strategy

The look-ahead steps over a URL, over a code span, or over a mark with the text that it
encloses.  The scanner makes a token of the first two and asks `Mark.token?` about the third,
which gives a token unless the text is hollow (`exists_atomic`).  Where the look-ahead takes a
single character, the token is one of those that `Loose` lists, and none of them is atomic.
-/

namespace Creole.Inline

/-! ## Atomic tokens -/

/-- The tokens of a text that nothing ends inside: nodes other than line breaks and emphasis,
and characters that are escaped. -/
inductive Atomic : Text → Token → Prop
  | leaf {s : Text} {kind : Kind} : kind ≠ .linebreak → Atomic s (.leaf kind)
  | escape {c : Char} {rest : Text} : isBlank c = false → Atomic ('~' :: c :: rest) (.literal [c])

/-- The look-ahead steps over a construct of some length where the scanner finds an atomic token
of that length, and nowhere else. -/
def Agrees (page : PageRef) (previous : Option Char) (c : Char) (cs : Text) : Prop :=
  ∀ n, atomicLength previous (c :: cs) = some n ↔
    ∃ token, scan page previous c cs = (token, n) ∧ Atomic (c :: cs) token

/-- A text begins with a mark that is closed, but encloses nothing that is valid there. -/
def Hollow (page : PageRef) (s : Text) : Prop :=
  ∃ mark ∈ Mark.of? s, ∃ body ∈ mark.body? (s.drop mark.text.length),
    mark.token? page body = none

instance (page : PageRef) : DecidablePred (Hollow page) := fun s =>
  inferInstanceAs (Decidable (∃ mark ∈ Mark.of? s, _))

/-- The tokens where the look-ahead takes a single character. -/
inductive Loose : Text → Token → Nat → Prop
  | char {c : Char} {cs : Text} : Mark.of? (c :: cs) = none → Loose (c :: cs) (.literal [c]) 1
  | mark {mark : Mark} {rest : Text} :
      Mark.of? (mark.text ++ rest) = some mark → mark.body? rest = none →
      Loose (mark.text ++ rest) (.literal mark.text) mark.text.length
  | lineBreak (rest : Text) :
      Loose (Mark.lineBreak.text ++ rest) (.leaf .linebreak) Mark.lineBreak.text.length
  | span {style : Style} {rest : Text} {n : Nat} :
      closing? (Mark.style style).text (Mark.style style).text.getLast? rest = some (n + 1) →
      Loose ((Mark.style style).text ++ rest) (.span style (rest.take (n + 1)))
        (2 * (Mark.style style).text.length + (n + 1))

variable {page : PageRef} {previous : Option Char} {c : Char} {cs rest : Text} {mark : Mark}
  {token : Token} {n : Nat}

/-! ## Where the look-ahead steps over a construct -/

theorem atomic_of_token? {body : Text} (hbody : mark.body? rest = some body)
    (htoken : mark.token? page body = some token) : Atomic (mark.text ++ rest) token := by
  obtain ⟨rfl, rfl⟩ | rfl | ⟨kind, rfl, hkind⟩ := eq_of_token? htoken
  · unfold Mark.body? at hbody
    split at hbody <;> try contradiction
    next c more =>
      split at hbody
      · cases hbody
      · next hblank =>
        obtain rfl := Option.some.inj hbody
        exact .escape (Bool.eq_false_iff.mpr hblank)
  · exact .leaf (by simp)
  · refine .leaf ?_
    rintro rfl
    cases hkind

/-- Where the look-ahead steps over a construct that is not hollow, the scanner finds an atomic
token of its length. -/
theorem exists_atomic (hlength : atomicLength previous (c :: cs) = some n)
    (hhollow : ¬ Hollow page (c :: cs)) :
    ∃ token, scan page previous c cs = (token, n) ∧ Atomic (c :: cs) token := by
  cases hmark : Mark.of? (c :: cs) with
  | some mark =>
      rw [atomicLength_of_mark hmark] at hlength
      obtain ⟨body, hbody, rfl⟩ := Option.map_eq_some_iff.mp hlength
      cases htoken : mark.token? page body with
      | none => exact absurd ⟨mark, hmark, body, hbody, htoken⟩ hhollow
      | some token =>
          obtain ⟨rest, heq⟩ := eq_of_of? hmark
          refine ⟨token, ?_, ?_⟩
          · rw [scan_of_mark hmark, scan?_of_body? hbody, htoken]
            rfl
          · rw [heq, List.drop_left] at hbody
            rw [heq]
            exact atomic_of_token? hbody htoken
  | none =>
      unfold atomicLength at hlength
      split at hlength
      · next url hurl =>
        obtain rfl : url.length = n := by simpa using hlength
        refine ⟨.leaf (.link (linkTo .link page url url)), ?_, .leaf Kind.noConfusion⟩
        rw [scan, hurl]
      · next hurl =>
        split at hlength
        · next language code hcode =>
          obtain rfl : codeLength language code = n := by simpa using hlength
          refine ⟨.leaf (.inlineCode code (some language)), ?_, .leaf Kind.noConfusion⟩
          rw [scan, hurl, hcode]
        · simp [hmark] at hlength

/-- In a hollow text, the scanner keeps the mark. -/
theorem scan_of_hollow (h : Hollow page (c :: cs)) (previous : Option Char) :
    ∃ (mark : Mark) (rest : Text), mark ≠ .escape ∧ c :: cs = mark.text ++ rest ∧
      scan page previous c cs = (.literal mark.text, mark.text.length) := by
  obtain ⟨mark, hmark, body, hbody, htoken⟩ := h
  obtain ⟨rest, heq⟩ := eq_of_of? hmark
  refine ⟨mark, rest, ?_, heq, ?_⟩
  · rintro rfl
    cases htoken
  · rw [scan_of_mark hmark, scan?_of_body? hbody, htoken]
    rfl

/-! ## Where the look-ahead takes a single character -/

theorem loose_of_scan? (page : PageRef) (hmark : Mark.of? (mark.text ++ rest) = some mark)
    (hbody : mark.body? rest = none) :
    Loose (mark.text ++ rest)
      ((mark.scan? page rest).getD (.literal mark.text, mark.text.length)).1
      ((mark.scan? page rest).getD (.literal mark.text, mark.text.length)).2 := by
  cases mark with
  | lineBreak => exact .lineBreak rest
  | style style =>
      rw [Mark.scan?, spanToken?]
      split
      · next hclosing => exact .span hclosing
      · exact .mark hmark hbody
  | _ =>
      simp only [Mark.scan?, hbody, Option.getD_none]
      exact .mark hmark hbody

theorem loose_of_scan (hlength : atomicLength previous (c :: cs) = none)
    (hscan : scan page previous c cs = (token, n)) : Loose (c :: cs) token n := by
  cases hmark : Mark.of? (c :: cs) with
  | some mark =>
      obtain ⟨rest, heq⟩ := eq_of_of? hmark
      rw [atomicLength_of_mark hmark, Option.map_eq_none_iff, heq, List.drop_left] at hlength
      have hloose := loose_of_scan? page (heq ▸ hmark) hlength
      rw [scan_of_mark hmark, heq, List.drop_left] at hscan
      rwa [hscan, ← heq] at hloose
  | none =>
      unfold atomicLength at hlength
      rw [scan] at hscan
      split at hlength
      · cases hlength
      · next hurl =>
        split at hlength
        · cases hlength
        · next hcode =>
          simp only [hurl, hcode, hmark] at hscan
          obtain ⟨rfl, rfl⟩ : Token.literal [c] = token ∧ 1 = n := by simpa using hscan
          exact .char hmark

theorem not_atomic_mark (h : mark ≠ .escape ∨ mark.body? rest = none) :
    ¬ Atomic (mark.text ++ rest) (.literal mark.text) := by
  intro hatomic
  generalize hs : mark.text ++ rest = s at hatomic
  generalize htext : mark.text = text at hatomic
  cases hatomic with
  | @escape c more hblank =>
      -- the mark of an escape is the only one that is a single character
      cases mark with
      | escape =>
          obtain rfl : rest = c :: more := by simpa [Mark.text] using hs
          simp [Mark.body?, hblank] at h
      | style style => cases style <;> simp [Mark.text] at htext
      | _ => simp [Mark.text] at htext

theorem not_atomic_of_loose {s : Text} (h : Loose s token n) : ¬ Atomic s token := by
  cases h with
  | char hmark =>
      intro hatomic
      cases hatomic
      -- what is escaped begins with a mark
      cases hmark
  | mark _ hbody => exact not_atomic_mark (Or.inr hbody)
  | lineBreak rest =>
      intro hatomic
      cases hatomic with
      | leaf hkind => exact hkind rfl
  | @span style rest n _ =>
      intro hatomic
      generalize (Mark.style style).text ++ rest = s at hatomic
      cases hatomic

/-! ## Agreement -/

/-- Where the scanner finds an atomic token, the text is not hollow, and the look-ahead steps
over the token. -/
theorem atomicLength_of_atomic (hscan : scan page previous c cs = (token, n))
    (hatomic : Atomic (c :: cs) token) :
    ¬ Hollow page (c :: cs) ∧ atomicLength previous (c :: cs) = some n := by
  have hhollow : ¬ Hollow page (c :: cs) := by
    intro hhollow
    obtain ⟨mark, rest, hne, heq, hkept⟩ := scan_of_hollow hhollow previous
    obtain ⟨rfl, -⟩ : Token.literal mark.text = token ∧ mark.text.length = n := by
      simpa using hkept.symm.trans hscan
    exact not_atomic_mark (Or.inl hne) (heq ▸ hatomic)
  refine ⟨hhollow, ?_⟩
  cases hlength : atomicLength previous (c :: cs) with
  | none => exact absurd hatomic (not_atomic_of_loose (loose_of_scan hlength hscan))
  | some m =>
      obtain ⟨found, hfound, -⟩ := exists_atomic hlength hhollow
      obtain ⟨-, rfl⟩ : found = token ∧ m = n := by simpa using hfound.symm.trans hscan
      rfl

/-- The look-ahead and the scanner agree wherever a text is not hollow, and only there. -/
theorem agrees_iff_not_hollow (page : PageRef) (previous : Option Char) (c : Char) (cs : Text) :
    Agrees page previous c cs ↔ ¬ Hollow page (c :: cs) := by
  constructor
  · intro hagrees hhollow
    -- the look-ahead steps over what the mark encloses, and the scanner would have to as well
    obtain ⟨mark, hmark, body, hbody, -⟩ := id hhollow
    have hlength : atomicLength previous (c :: cs) = some (mark.reach body) := by
      rw [atomicLength_of_mark hmark, hbody]
      rfl
    obtain ⟨token, hscan, hatomic⟩ := (hagrees _).mp hlength
    exact (atomicLength_of_atomic hscan hatomic).1 hhollow
  · intro hhollow n
    constructor
    · intro hlength
      exact exists_atomic hlength hhollow
    · rintro ⟨token, hscan, hatomic⟩
      exact (atomicLength_of_atomic hscan hatomic).2

/-- A macro use without a name hides the mark that would end an emphasis, although the scanner
reads the mark in it. -/
theorem not_agrees_unnamedCall :
    ¬ Agrees default (some 'a') '<' "<**>>".toList ∧
      atomicLength (some 'a') "<<**>>".toList = some 6 ∧
      scan default (some 'a') '<' "<**>>".toList = (.literal "<<".toList, 2) ∧
      parse default "**a<<**>>".toList = [.text "**a<<**>>".toList] := by
  have hlength : atomicLength (some 'a') "<<**>>".toList = some 6 := by decide +kernel
  have hscan : scan default (some 'a') '<' "<**>>".toList = (.literal "<<".toList, 2) := by
    decide +kernel
  refine ⟨?_, hlength, hscan, by decide +kernel⟩
  intro hagrees
  obtain ⟨token, hfound, -⟩ := (hagrees 6).mp hlength
  rw [hscan] at hfound
  cases hfound

end Creole.Inline
