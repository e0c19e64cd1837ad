import Creole.Proofs.Xml.Writer

/-!
# Documents up to white space between tags

A document that was written and read back is not quite the one that it was: character data
that stood side by side is joined (`joined`), and between two tags with no character data
between them there may be a line end and indentation that was not there (`Spaced`).
`XmlElement.ReadsAs` allows for this and for nothing else.

What an element of character data alone holds is left as it was (`XmlElement.ReadsAs.listings`).
-/

namespace Creole.Xml

open List

/-! ## Joined character data -/

/-- Character data in front of parts, joined with what is character data there. -/
def prependText (s : Text) (content : List Xml) : List Xml :=
  match content with
  | .text t :: rest => .text (s ++ t) :: rest
  | _ => if s = [] then content else .text s :: content

mutual

/-- A part in front of others, joined with what is character data there. -/
def prepend : Xml → List Xml → List Xml
  | element name attributes content, rest => .element name attributes (joined content) :: rest
  | text s, rest | cdata s, rest => prependText s rest

/-- Parts in a row with all character data that stands side by side joined, at any depth. -/
def joined : List Xml → List Xml
  | [] => []
  | x :: xs => prepend x (joined xs)

end

theorem prependText_cases (s : Text) (content : List Xml) :
    (∃ t rest, content = .text t :: rest ∧ prependText s content = .text (s ++ t) :: rest) ∨
      (s = [] ∧ prependText s content = content) ∨ prependText s content = .text s :: content := by
  unfold prependText
  split
  · next t rest => exact Or.inl ⟨t, rest, rfl, rfl⟩
  · split
    · next hempty => exact Or.inr (Or.inl ⟨hempty, rfl⟩)
    · exact Or.inr (Or.inr rfl)

theorem prependText_nil (content : List Xml) : prependText [] content = content := by
  unfold prependText
  split
  · rfl
  · exact if_pos rfl

theorem prependText_prependText (s t : Text) (content : List Xml) :
    prependText s (prependText t content) = prependText (s ++ t) content := by
  cases content with
  | nil => cases t <;> cases s <;> simp [prependText]
  | cons x rest =>
      cases x <;> cases t <;> cases s <;> simp [prependText]

theorem prependText_element (s name : Text) (attributes : List (Text × Text))
    (content rest : List Xml) :
    prependText s (.element name attributes content :: rest) =
      prependText s [] ++ .element name attributes content :: rest := by
  cases s <;> rfl

/-! ## Added white space -/

/-- What may stand before a tag that was not there: nothing, or a line end and indentation,
unless the tag directly follows character data. -/
inductive Run : (afterData : Bool) → Text → Prop
  | none {afterData : Bool} : Run afterData []
  | line (n : Nat) : Run false (lineStart n)

/-- The parts between two tags, and these parts with a run before every tag at any depth,
that of the second of the two tags included. -/
inductive Spaced : (afterData : Bool) → List Xml → List Xml → Prop
  | nil {afterData : Bool} {run : Text} : Run afterData run → Spaced afterData [] [.text run]
  | text {afterData : Bool} {s : Text} {xs ys : List Xml} :
      Spaced true xs ys → Spaced afterData (.text s :: xs) (.text s :: ys)
  | cdata {afterData : Bool} {s : Text} {xs ys : List Xml} :
      Spaced true xs ys → Spaced afterData (.cdata s :: xs) (.cdata s :: ys)
  | empty {afterData : Bool} {run name : Text} {attributes : List (Text × Text)}
      {xs ys : List Xml} :
      Run afterData run → Spaced false xs ys →
      Spaced afterData (.element name attributes [] :: xs)
        (.text run :: .element name attributes [] :: ys)
  | element {afterData : Bool} {run name : Text} {attributes : List (Text × Text)}
      {content inside xs ys : List Xml} :
      Run afterData run → content ≠ [] → Spaced false content inside → Spaced false xs ys →
      Spaced afterData (.element name attributes content :: xs)
        (.text run :: .element name attributes inside :: ys)

/-- The content of an element, and this content with added white space.  An element without
content is a single tag. -/
inductive SpacedWithin : List Xml → List Xml → Prop
  | empty : SpacedWithin [] []
  | content {content inside : List Xml} :
      content ≠ [] → Spaced false content inside → SpacedWithin content inside

/-- An element has a run before its tag, whether or not it holds anything. -/
theorem Spaced.cons_element {afterData : Bool} {run name : Text}
    {attributes : List (Text × Text)} {content inside xs ys : List Xml}
    (hrun : Run afterData run) (hinside : SpacedWithin content inside)
    (h : Spaced false xs ys) :
    Spaced afterData (.element name attributes content :: xs)
      (.text run :: .element name attributes inside :: ys) := by
  cases hinside with
  | empty => exact .empty hrun h
  | content hne hcontent => exact .element hrun hne hcontent h

/-! ## Elements of character data alone -/

mutual

/-- The elements that hold nothing but character data, in document order, with their names,
attributes and character data. -/
def listings : Xml → List (Text × List (Text × Text) × Text)
  | element name attributes content =>
    (if content.all isData then [(name, attributes, dataAll content)] else []) ++
      listingsAll content
  | text _ | cdata _ => []

/-- The elements of parts in a row that hold nothing but character data. -/
def listingsAll : List Xml → List (Text × List (Text × Text) × Text)
  | [] => []
  | x :: xs => listings x ++ listingsAll xs

end

theorem listingsAll_prependText (s : Text) (content : List Xml) :
    listingsAll (prependText s content) = listingsAll content := by
  rcases prependText_cases s content with ⟨t, rest, rfl, heq⟩ | ⟨-, heq⟩ | heq <;> rw [heq] <;> rfl

theorem all_isData_prependText (s : Text) (content : List Xml) :
    (prependText s content).all isData = content.all isData := by
  rcases prependText_cases s content with ⟨t, rest, rfl, heq⟩ | ⟨-, heq⟩ | heq <;> rw [heq] <;> rfl

theorem dataAll_prependText (s : Text) (content : List Xml) :
    dataAll (prependText s content) = s ++ dataAll content := by
  rcases prependText_cases s content with ⟨t, rest, rfl, heq⟩ | ⟨rfl, heq⟩ | heq <;> rw [heq]
  · rw [dataAll, dataAll, data, data, append_assoc]
  · rw [nil_append]
  · rw [dataAll, data]

theorem all_isData_joined (xs : List Xml) : (joined xs).all isData = xs.all isData := by
  induction xs with
  | nil => rfl
  | cons x xs ih =>
      cases x with
      | element name attributes content => rfl
      | text s | cdata s =>
          rw [joined, prepend, all_isData_prependText, ih]
          rfl

theorem dataAll_joined {xs : List Xml} (h : xs.all isData = true) :
    dataAll (joined xs) = dataAll xs := by
  induction xs with
  | nil => rfl
  | cons x xs ih =>
      rw [all_cons, Bool.and_eq_true] at h
      cases x with
      | element name attributes content => cases h.1
      | text s | cdata s => rw [joined, prepend, dataAll_prependText, ih h.2, dataAll, data]

variable {afterData : Bool} {xs ys : List Xml}

theorem Spaced.all_isData (h : Spaced afterData xs ys) : ys.all isData = xs.all isData := by
  induction h with
  | nil => rfl
  | text _ ih | cdata _ ih => exact ih
  | empty | element => rfl

/-- No white space comes into character data. -/
theorem Spaced.dataAll (h : Spaced afterData xs ys) (hdata : xs.all isData = true)
    (hbehind : afterData = true ∨ xs ≠ []) : Xml.dataAll ys = Xml.dataAll xs := by
  induction h with
  | nil hrun =>
      obtain rfl := hbehind.resolve_right fun hne => hne rfl
      cases hrun
      rfl
  | @text _ s _ _ _ ih | @cdata _ s _ _ _ ih => exact congrArg (s ++ ·) (ih hdata (Or.inl rfl))
  | empty | element => cases hdata

/-- The listing that an element is hangs on its content only. -/
theorem listings_element_congr {content inside : List Xml} (name : Text)
    (attributes : List (Text × Text)) (hall : inside.all isData = content.all isData)
    (hdata : content.all isData = true → dataAll inside = dataAll content)
    (hlistings : listingsAll inside = listingsAll content) :
    listings (.element name attributes inside) = listings (.element name attributes content) := by
  rw [listings, listings, hall, hlistings]
  split
  · next h => rw [hdata h]
  · rfl

/-- What an element of character data alone holds is the same, also once it is joined. -/
theorem Spaced.listings (h : Spaced afterData xs ys) :
    listingsAll (joined ys) = listingsAll xs := by
  induction h with
  | nil => rw [joined, joined, prepend, listingsAll_prependText]
  | text _ ih | cdata _ ih => rw [joined, prepend, listingsAll_prependText, ih]; rfl
  | empty _ _ ih =>
      rw [joined, prepend, listingsAll_prependText, joined, prepend, listingsAll, ih]
      rfl
  | @element _ run name attributes content inside xs ys _ hne hinside _ ihinside ih =>
      have hall : (joined inside).all isData = content.all isData := by
        rw [all_isData_joined, hinside.all_isData]
      have hdata : content.all isData = true →
          Xml.dataAll (joined inside) = Xml.dataAll content := by
        intro h
        rw [dataAll_joined (hinside.all_isData.trans h), hinside.dataAll h (Or.inr hne)]
      rw [joined, prepend, listingsAll_prependText, joined, prepend, listingsAll, ih,
        listings_element_congr name attributes hall hdata ihinside]
      rfl

end Creole.Xml

namespace Creole.XmlElement

open Xml

/-- The element that reads back from what was written of an element: the same, but for
joined character data and white space between tags. -/
structure ReadsAs (e root : XmlElement) : Prop where
  name : root.name = e.name
  attributes : root.attributes = e.attributes
  content : ∃ inside, SpacedWithin e.content inside ∧ root.content = joined inside

/-- The elements of a document that hold nothing but character data. -/
def listings (e : XmlElement) : List (Text × List (Text × Text) × Text) := Xml.listings e.toXml

theorem ReadsAs.listings {e root : XmlElement} (h : e.ReadsAs root) :
    root.listings = e.listings := by
  obtain ⟨name, attributes, content⟩ := e
  obtain ⟨name', attributes', content'⟩ := root
  obtain ⟨rfl, rfl, inside, hinside, rfl⟩ := h
  cases hinside with
  | empty => rfl
  | content hne hspaced =>
      refine listings_element_congr _ _ ?_ (fun hdata => ?_) hspaced.listings
      · rw [all_isData_joined, hspaced.all_isData]
      · rw [dataAll_joined (hspaced.all_isData.trans hdata), hspaced.dataAll hdata (Or.inr hne)]

end Creole.XmlElement
