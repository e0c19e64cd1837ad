import Creole.Proofs.Text.Replace
import Creole.Proofs.Xml.Tokens

/-!
# Dividing character data

A CDATA section ends at the first `]]>` in it.  Data that holds this mark is divided into
sections that do not.  Nothing is lost, and nothing is read that was not there
(`sections_lossless`): a reader that takes one section after the other, each up to the first
mark, gets the sections that were written, which are the data once they are joined.
-/

namespace Creole.Xml

open List Text

/-- The CDATA sections that a text begins with, and what follows the last of them.  Each ends at
the first mark behind its beginning; there is no answer if one has no end. -/
def readSections (s : Text) : Option (List Text × Text) :=
  match _ : after? cdataStart s with
  | some opened =>
    match _ : cut? cdataEnd opened with
    | some (data, behind) =>
      (readSections behind).map fun (parts, rest) => (data :: parts, rest)
    | none => none
  | none => some ([], s)
termination_by s.length
decreasing_by
  have hopened := length_lt_of_after? (by decide) ‹after? cdataStart s = some opened›
  have hbehind := length_lt_of_cut? (by decide) ‹cut? cdataEnd opened = some (data, behind)›
  omega

theorem readSections_of_after? {s : Text} (h : after? cdataStart s = none) :
    readSections s = some ([], s) := by
  rw [readSections]
  split
  · next opened hopened => rw [h] at hopened; cases hopened
  · rfl

/-- A section that holds no mark is read as it was written. -/
theorem readSections_writeSection {part : Text} (h : cut? cdataEnd part = none) (rest : Text) :
    readSections (writeSection part ++ rest) =
      (readSections rest).map fun (parts, behind) => (part :: parts, behind) := by
  have hopened : after? cdataStart (writeSection part ++ rest) =
      some (part ++ cdataEnd ++ rest) := by
    rw [writeSection, append_assoc cdataStart, append_assoc cdataStart]
    exact after?_append cdataStart _
  have hcut := cut?_cdataEnd_append h rest
  rw [readSections]
  split
  · next opened hopened' =>
    cases hopened.symm.trans hopened'
    split
    · next data behind hcut' =>
      cases hcut.symm.trans hcut'
      rfl
    · next hnone => rw [hcut] at hnone; cases hnone
  · next hnone => rw [hopened] at hnone; cases hnone

/-- Sections in front of a text that begins no further one are read as they were written. -/
theorem readSections_flatMap_writeSection {parts : List Text}
    (h : ∀ part ∈ parts, cut? cdataEnd part = none) {rest : Text}
    (hrest : after? cdataStart rest = none) :
    readSections (parts.flatMap writeSection ++ rest) = some (parts, rest) := by
  induction parts with
  | nil => exact readSections_of_after? hrest
  | cons part parts ih =>
      rw [forall_mem_cons] at h
      rw [flatMap_cons, append_assoc, readSections_writeSection h.1, ih h.2]
      rfl

/-- Data is divided into at least one section, none of which holds the mark that ends one; the
sections are the data when joined, and are read back from where they are written in a row. -/
theorem sections_lossless (s : Text) :
    sections s ≠ [] ∧ (sections s).flatten = s ∧
      (∀ part ∈ sections s, ¬ cdataEnd <:+: part) ∧
      readSections ((sections s).flatMap writeSection) = some (sections s, []) := by
  have hfree : ∀ part ∈ sections s, cut? cdataEnd part = none := fun _ => cut?_of_mem_sections
  refine ⟨sections_ne_nil s, flatten_sections s, ?_, ?_⟩
  · intro part hpart
    exact not_isInfix_of_cut?_eq_none (hfree part hpart)
  · have hread : readSections ((sections s).flatMap writeSection ++ []) = some (sections s, []) :=
      readSections_flatMap_writeSection hfree rfl
    rwa [append_nil] at hread

/-- A mark is divided within, also where brackets in front of it could belong to it. -/
example : sections "a]]]>b]]>]]>".toList =
    ["a]]]".toList, ">b]]".toList, ">]]".toList, ">".toList] := by decide +kernel

end Creole.Xml
