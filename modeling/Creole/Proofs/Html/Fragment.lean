import Creole.Html
import Creole.Proofs.Text.Escaped

/-!
# Well-formed fragments

The grammar of the HTML that documents are written as.  A fragment is made of runs
of escaped text, elements around fragments, and elements without content:

  `F ::= (T | <n A>F</n> | <n A />)*`

`Fragment html runs` says that `html` is one, and that `runs` are its runs of text,
one behind the other.  The main statement is `runs_unique`: the runs are determined
by the HTML, since they are all that `withoutTags` leaves of it.
-/

namespace Creole.Html

/-! ## The grammar -/

/-- A name of an element or an attribute: letters and digits. -/
def IsName (name : Text) : Prop := name ≠ [] ∧ name.all Char.isAlphanum = true

instance (name : Text) : Decidable (IsName name) := inferInstanceAs (Decidable (_ ∧ _))

/-- An attribute in single quotes. -/
structure Attribute where
  name : Text
  value : Text

namespace Attribute

/-- A name, and a value that does not end the attribute. -/
def Valid (a : Attribute) : Prop := IsName a.name ∧ Escaped a.value

/-- The attribute behind a space. -/
def write (a : Attribute) : Text :=
  ' ' :: a.name ++ "='".toList ++ a.value ++ "'".toList

end Attribute

/-- Attributes in a row. -/
def writeAttributes (attributes : List Attribute) : Text := attributes.flatMap Attribute.write

/-- HTML in the grammar, with its runs of text one behind the other. -/
inductive Fragment : (html runs : Text) → Prop
  | nil : Fragment [] []
  | text {s html runs : Text} : Escaped s → Fragment html runs → Fragment (s ++ html) (s ++ runs)
  | element {name : Text} {attributes : List Attribute} {inner innerRuns html runs : Text} :
      IsName name → (∀ a ∈ attributes, a.Valid) →
      Fragment inner innerRuns → Fragment html runs →
      Fragment
        ('<' :: name ++ writeAttributes attributes ++ '>' :: inner ++ '<' :: '/' :: name ++
          '>' :: html)
        (innerRuns ++ runs)
  | empty {name : Text} {attributes : List Attribute} {html runs : Text} :
      IsName name → (∀ a ∈ attributes, a.Valid) → Fragment html runs →
      Fragment ('<' :: name ++ writeAttributes attributes ++ ' ' :: '/' :: '>' :: html) runs

namespace Fragment

theorem append {html runs more moreRuns : Text} (h : Fragment html runs)
    (hmore : Fragment more moreRuns) : Fragment (html ++ more) (runs ++ moreRuns) := by
  induction h with
  | nil => exact hmore
  | text hs _ ih =>
      rw [List.append_assoc, List.append_assoc]
      exact .text hs ih
  | element hname hattributes hinner _ _ ih =>
      simpa using Fragment.element hname hattributes hinner ih
  | empty hname hattributes _ ih => simpa using Fragment.empty hname hattributes ih

theorem of_escape (s : Text) : Fragment (escape s) (escape s) := by
  simpa using Fragment.text (escaped_escape s) .nil

/-- An element around a fragment. -/
theorem of_element {name content runs : Text} {attributes : List Attribute} (hname : IsName name)
    (hattributes : ∀ a ∈ attributes, a.Valid) (hcontent : Fragment content runs) :
    Fragment (Html.element name (writeAttributes attributes) content) runs := by
  simpa [Html.element] using Fragment.element hname hattributes hcontent .nil

/-- An element without content. -/
theorem of_emptyElement {name : Text} {attributes : List Attribute} (hname : IsName name)
    (hattributes : ∀ a ∈ attributes, a.Valid) :
    Fragment (emptyElement name (writeAttributes attributes)) [] := by
  simpa [emptyElement] using Fragment.empty hname hattributes .nil

end Fragment

/-! ## The runs of text -/

/-- What is left of HTML without its tags, read from inside a tag or from outside. -/
def withoutTags : (inTag : Bool) → Text → Text
  | _, [] => []
  | true, c :: s => withoutTags (c ≠ '>') s
  | false, c :: s => if c = '<' then withoutTags true s else c :: withoutTags false s

theorem withoutTags_text {s : Text} (h : '<' ∉ s) (rest : Text) :
    withoutTags false (s ++ rest) = s ++ withoutTags false rest := by
  induction s with
  | nil => rfl
  | cons c s ih =>
      rw [List.mem_cons, not_or] at h
      rw [List.cons_append, withoutTags, if_neg (Ne.symm h.1), ih h.2, List.cons_append]

theorem withoutTags_tag {s : Text} (h : '>' ∉ s) (rest : Text) :
    withoutTags true (s ++ '>' :: rest) = withoutTags false rest := by
  induction s with
  | nil => simp [withoutTags]
  | cons c s ih =>
      rw [List.mem_cons, not_or] at h
      rw [List.cons_append, withoutTags, decide_eq_true (Ne.symm h.1), ih h.2]

theorem notMem_of_isName {name : Text} (h : IsName name) : '>' ∉ name :=
  fun hmem => absurd (List.all_eq_true.mp h.2 '>' hmem) (by decide)

theorem notMem_writeAttributes {attributes : List Attribute}
    (h : ∀ a ∈ attributes, a.Valid) : '>' ∉ writeAttributes attributes := by
  rw [writeAttributes, List.mem_flatMap]
  rintro ⟨a, hmem, hwrite⟩
  obtain ⟨hname, hvalue⟩ := h a hmem
  have hplain : '>' ∉ a.value := fun hc => hvalue.plain '>' hc (by decide)
  have hinName := notMem_of_isName hname
  simp [Attribute.write, hplain, hinName] at hwrite

theorem withoutTags_append_of_fragment {html runs : Text} (h : Fragment html runs) (rest : Text) :
    withoutTags false (html ++ rest) = runs ++ withoutTags false rest := by
  induction h generalizing rest with
  | nil => rfl
  | text hs _ ih =>
      have hplain : '<' ∉ _ := fun hc => hs.plain '<' hc (by decide)
      rw [List.append_assoc, withoutTags_text hplain, ih, List.append_assoc]
  | @element name attributes inner innerRuns html runs hname hattributes _ _ ihinner ih =>
      -- neither tag holds a character that would end it early
      have hopen : '>' ∉ name ++ writeAttributes attributes := by
        simp [notMem_of_isName hname, notMem_writeAttributes hattributes]
      have hclose : '>' ∉ '/' :: name := by simp [notMem_of_isName hname]
      have hshape : '<' :: name ++ writeAttributes attributes ++ '>' :: inner ++
            '<' :: '/' :: name ++ '>' :: html ++ rest =
          '<' :: ((name ++ writeAttributes attributes) ++ '>' :: (inner ++
            '<' :: (('/' :: name) ++ '>' :: (html ++ rest)))) := by
        simp
      rw [hshape, withoutTags, if_pos rfl, withoutTags_tag hopen, ihinner, withoutTags,
        if_pos rfl, withoutTags_tag hclose, ih, List.append_assoc]
  | @empty name attributes html runs hname hattributes _ ih =>
      have htag : '>' ∉ name ++ writeAttributes attributes ++ [' ', '/'] := by
        simp [notMem_of_isName hname, notMem_writeAttributes hattributes]
      have hshape : '<' :: name ++ writeAttributes attributes ++ ' ' :: '/' :: '>' :: html ++ rest =
          '<' :: ((name ++ writeAttributes attributes ++ [' ', '/']) ++ '>' :: (html ++ rest)) := by
        simp
      rw [hshape, withoutTags, if_pos rfl, withoutTags_tag htag, ih]

/-- The runs of text in a fragment are what its tags leave. -/
theorem Fragment.runs_eq {html runs : Text} (h : Fragment html runs) :
    runs = withoutTags false html := by
  have hshown := withoutTags_append_of_fragment h []
  simpa [withoutTags] using hshown.symm

theorem Fragment.runs_unique {html runs runs' : Text} (h : Fragment html runs)
    (h' : Fragment html runs') : runs = runs' :=
  h.runs_eq.trans h'.runs_eq.symm

end Creole.Html
