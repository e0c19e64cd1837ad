import Creole.Link.Target
import Creole.Proofs.Text.Cut

/-!
# The pieces of a target

What `Target.read` calls an attachment is the last segment of a path, and it has a file
extension (`attachment_of_read`).  Conversely, where a page is named and no attachment, the
last segment of the page has none (`page_of_read`): dropping a revision from a page does
not bring a file to its end, since no slash stands in what is dropped.
-/

namespace Creole.Target

open Text

/-- What is dropped from a page with its revision holds no slash. -/
theorem exists_eq_splitRevision_append (page : Text) :
    ∃ suffix, page = (splitRevision page).1 ++ suffix ∧ '/' ∉ suffix := by
  have hnone : page = page ++ [] ∧ '/' ∉ ([] : Text) := ⟨(List.append_nil page).symm, by simp⟩
  unfold splitRevision
  split
  · next name digits hcut =>
    split
    · next hsuffix =>
      obtain ⟨rfl, -⟩ := cutLast?_eq_some_iff.mp hcut
      have hdigits : ∀ c ∈ digits, isDecimalDigit c = true := by
        simp only [Bool.and_eq_true, List.all_eq_true] at hsuffix
        exact hsuffix.2
      refine ⟨'@' :: digits, rfl, ?_⟩
      intro hmem
      rcases List.mem_cons.mp hmem with hat | hmem
      · exact absurd hat (by decide)
      · exact absurd (hdigits '/' hmem) (by decide)
    · exact ⟨[], hnone⟩
  · exact ⟨[], hnone⟩

/-- A target that is no URI has a path, of which its page and attachment are pieces. -/
theorem exists_path_of_read {source text : Text} (h : (read source text).uri = none) :
    ∃ path, (splitAttachment path).2 = (read source text).attachment ∧
      (splitRevision (splitAttachment path).1).1 = (read source text).page.getD [] := by
  unfold read at h ⊢
  simp only at h ⊢
  split
  · next habsolute =>
    rw [if_pos habsolute] at h
    cases h
  · refine ⟨(splitWiki (splitFragment (trim source)).1).2, rfl, ?_⟩
    simp only
    split
    · next hempty => simpa using hempty
    · rfl

/-- An attachment is a single segment with a file extension. -/
theorem attachment_of_read {source text file : Text}
    (h : (read source text).attachment = some file) : '/' ∉ file ∧ '.' ∈ file := by
  have huri : (read source text).uri = none := by
    unfold read at h ⊢
    simp only at h ⊢
    split at h <;> simp_all
  obtain ⟨path, hattachment, -⟩ := exists_path_of_read huri
  rw [h] at hattachment
  unfold splitAttachment at hattachment
  split at hattachment
  · next page last hcut =>
    split at hattachment
    · next hextension =>
      obtain rfl : last = file := by simpa using hattachment
      exact ⟨(cutLast?_eq_some_iff.mp hcut).2, by simpa using hextension⟩
    · cases hattachment
  · cases hattachment

/-- The last segment of a page that is named without an attachment has no file
extension. -/
theorem page_of_read {source text before last : Text} (huri : (read source text).uri = none)
    (hattachment : (read source text).attachment = none)
    (hpage : (read source text).page = some (before ++ '/' :: last)) (hlast : '/' ∉ last) :
    '.' ∉ last := by
  obtain ⟨path, hfile, hname⟩ := exists_path_of_read huri
  rw [hattachment] at hfile
  rw [hpage, Option.getD_some] at hname
  obtain ⟨suffix, hsuffix, hslash⟩ := exists_eq_splitRevision_append (splitAttachment path).1
  rw [hname] at hsuffix
  have hwhole : (splitAttachment path).1 = path := by
    unfold splitAttachment at hfile ⊢
    split at hfile
    · split at hfile
      · cases hfile
      · next hextension => rw [if_neg hextension]
    · rfl
  -- the last segment of the path is that of the page, and its revision
  have hcut : cutLast? '/' path = some (before, last ++ suffix) := by
    refine cutLast?_eq_some_iff.mpr ⟨?_, by simp [hlast, hslash]⟩
    rw [← hwhole, hsuffix, List.append_assoc, List.cons_append]
  intro hextension
  have hmem : '.' ∈ last ++ suffix := List.mem_append_left suffix hextension
  simp [splitAttachment, hcut, hmem] at hfile

end Creole.Target
