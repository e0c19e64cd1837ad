import Creole.Proofs.Link.Written

/-!
# What reading a target keeps

A URI is kept as a whole.  The pieces of any other target write it again, but for a number
sign with nothing behind it and for the digits of its revision (`Target.Kept`), in every case
but one: digits that are no number that a revision can have are read as no revision, though
they are cut off from the page (`kept_iff_not_loses`).
-/

namespace Creole.Target

open Text

variable {source name digits : Text}

/-- Whether reading keeps all that is written of a target: a URI is kept as a whole, and the
pieces of any other target write it again, up to a number sign at its end and to other digits
for the same revision.  What stands behind the page as a revision is read as that revision,
or else is part of the page. -/
structure Kept (source text : Text) : Prop where
  pieces : read source text = { text, uri := some (trim source) } ∨
    (read source text).uri = none ∧ ∃ part,
      (trim source = (read source text).writeAround part ∨
        (read source text).fragment = none ∧
          trim source = (read source text).writeAround part ++ ['#']) ∧
      ((read source text).revision = none ∧ part = (read source text).page.getD [] ∨
        ∃ n digits, (read source text).revision = some n ∧ Spells digits n ∧
          part = (read source text).page.getD [] ++ '@' :: digits)
  revision : (read source text).uri = none →
    ∀ name digits, pagePart source = name ++ '@' :: digits → digits ≠ [] →
      (∀ c ∈ digits, isDecimalDigit c = true) →
      (∃ n, Spells digits n ∧ (read source text).revision = some n) ∨
        (read source text).page = some (name ++ '@' :: digits)

/-- Whether a target is no URI and has a page with digits behind it that are no number of a
revision. -/
def Loses (source : Text) : Prop :=
  isAbsolute (trim source) = false ∧
    ∃ name digits, Suffixed (pagePart source) name digits ∧
      ∀ n, Spells digits n → revisionBound ≤ n

theorem kept_of_isAbsolute (h : isAbsolute (trim source) = true) (text : Text) :
    Kept source text := by
  have hread : read source text = { text, uri := some (trim source) } := by simp [read, h]
  refine ⟨Or.inl hread, fun huri => ?_⟩
  rw [hread] at huri
  cases huri

theorem kept_of_spells (hrelative : isAbsolute (trim source) = false) (text : Text) {n : Nat}
    (hsuffix : Suffixed (pagePart source) name digits) (hspells : Spells digits n)
    (hbound : n < revisionBound) : Kept source text := by
  obtain ⟨huri, hwritten, hpage, hrevision⟩ := pieces_of_read hrelative text
  rw [splitRevision_of_suffixed hsuffix] at hpage hrevision
  rw [if_neg hsuffix.name_ne_nil] at hpage
  rw [toNatBelow?_eq_some_iff.mpr ⟨hspells, hbound⟩] at hrevision
  constructor
  · refine Or.inr ⟨huri, pagePart source, hwritten, Or.inr ⟨n, digits, hrevision, hspells, ?_⟩⟩
    rw [hpage]
    exact hsuffix.eq
  · intro _ name' digits' heq _ hdecimal
    -- the at sign is the last one, so the digits are the same
    have hat : ∀ s : Text, (∀ c ∈ s, isDecimalDigit c = true) → '@' ∉ s :=
      fun s hs hmem => absurd (hs '@' hmem) (by decide)
    have hcut := cutLast?_append (hat digits' hdecimal) name'
    rw [← heq, hsuffix.eq, cutLast?_append (hat digits hsuffix.decimal)] at hcut
    cases hcut
    exact Or.inl ⟨n, hspells, hrevision⟩

theorem kept_of_not_suffixed (hrelative : isAbsolute (trim source) = false) (text : Text)
    (hsuffix : ∀ name digits, ¬ Suffixed (pagePart source) name digits) : Kept source text := by
  obtain ⟨huri, hwritten, hpage, hrevision⟩ := pieces_of_read hrelative text
  rw [splitRevision_of_not_suffixed hsuffix] at hpage hrevision
  constructor
  · refine Or.inr ⟨huri, pagePart source, hwritten, Or.inl ⟨hrevision, ?_⟩⟩
    rw [hpage]
    split
    · next hempty => exact hempty
    · rfl
  · intro _ name digits heq _ _
    have hne : pagePart source ≠ [] := by simp [heq]
    rw [if_neg hne, heq] at hpage
    exact Or.inr hpage

theorem not_kept_of_loses (text : Text) (h : Loses source) : ¬ Kept source text := by
  intro hkept
  obtain ⟨hrelative, name, digits, hsuffix, hlarge⟩ := h
  obtain ⟨huri, -, hpage, hrevision⟩ := pieces_of_read hrelative text
  rw [splitRevision_of_suffixed hsuffix] at hpage hrevision
  rcases hkept.revision huri name digits hsuffix.eq hsuffix.digits_ne_nil hsuffix.decimal with
    ⟨n, -, hn⟩ | hwhole
  · rw [hrevision, toNatBelow?_eq_none_iff.mpr hlarge] at hn
    cases hn
  · rw [hpage, if_neg hsuffix.name_ne_nil, Option.some.injEq] at hwhole
    exact absurd hwhole (by simp)

/-- Reading loses something of a target if the target has digits for a revision that are no
number of one, and in no other case. -/
theorem kept_iff_not_loses (source text : Text) : Kept source text ↔ ¬ Loses source := by
  refine ⟨fun hkept hloses => not_kept_of_loses text hloses hkept, fun hloses => ?_⟩
  cases hrelative : isAbsolute (trim source) with
  | true => exact kept_of_isAbsolute hrelative text
  | false =>
      by_cases hsuffix : ∃ name digits, Suffixed (pagePart source) name digits
      · obtain ⟨name, digits, hsuffix⟩ := hsuffix
        cases hread : toNatBelow? revisionBound digits with
        | none =>
            refine absurd ?_ hloses
            exact ⟨hrelative, name, digits, hsuffix, toNatBelow?_eq_none_iff.mp hread⟩
        | some n =>
            obtain ⟨hspells, hbound⟩ := toNatBelow?_eq_some_iff.mp hread
            exact kept_of_spells hrelative text hsuffix hspells hbound
      · refine kept_of_not_suffixed hrelative text fun name digits h => hsuffix ?_
        exact ⟨name, digits, h⟩

/-- A number that is too large for a revision is dropped: what is left of the target names the
page without a revision. -/
theorem not_kept_largeRevision :
    ¬ Kept "Page@18446744073709551616".toList "Page@18446744073709551616".toList ∧
      read "Page@18446744073709551616".toList "Page@18446744073709551616".toList =
        { text := "Page@18446744073709551616".toList, page := some "Page".toList } := by
  have hread : read "Page@18446744073709551616".toList "Page@18446744073709551616".toList =
      { text := "Page@18446744073709551616".toList, page := some "Page".toList } := by
    decide +kernel
  refine ⟨fun hkept => ?_, hread⟩
  have hpart : pagePart "Page@18446744073709551616".toList =
      "Page".toList ++ '@' :: "18446744073709551616".toList := by decide +kernel
  have hdecimal : "18446744073709551616".toList.all isDecimalDigit = true := by decide +kernel
  have hrevision := hkept.revision (by rw [hread]) _ _ hpart (by decide)
    (List.all_eq_true.mp hdecimal)
  rw [hread] at hrevision
  rcases hrevision with ⟨n, -, hn⟩ | hpage
  · cases hn
  · exact absurd hpage (by decide +kernel)

end Creole.Target
