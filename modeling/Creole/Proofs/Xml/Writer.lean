import Creole.Proofs.Xml.Reader

/-!
# What an XML writer may do

An element is handed to a writer as a sequence of events: tags, texts and CDATA sections
(`XmlElement.events`).  How they are written is up to the writer, but for what everyone can
rely on (`Writes`): it copies CDATA; it writes the reserved characters of texts and of
attribute values as references of any kind to them; and it may begin a new line, indented by
spaces, before a tag that does not directly follow character data.

The writer of this library is one of these (`writes_write`), for every indentation.
-/

namespace Creole.Xml

open List Text

/-! ## Events -/

/-- What a writer is handed. -/
inductive Event where
  | start (name : Text) (attributes : List (Text × Text))
  /-- A tag that is an element of its own. -/
  | empty (name : Text) (attributes : List (Text × Text))
  | close (name : Text)
  | text (s : Text)
  /-- One CDATA section. -/
  | cdata (s : Text)

mutual

/-- The events of a part of a document. -/
def events : Xml → List Event
  | element name attributes [] => [.empty name attributes]
  | element name attributes (x :: xs) =>
    .start name attributes :: (eventsAll (x :: xs) ++ [.close name])
  | text s => [.text s]
  | cdata s => (sections s).map .cdata

/-- The events of parts in a row. -/
def eventsAll : List Xml → List Event
  | [] => []
  | x :: xs => events x ++ eventsAll xs

end

/-! ## Writing -/

/-- The characters that are written as references only. -/
def reserved : Text := ['<', '>', '&', '"', '\'']

/-- A text and how it may be written: each character as it is, unless it is reserved, or as a
reference to it. -/
inductive Escapes : Text → Text → Prop
  | nil : Escapes [] []
  | plain {c : Char} {s t : Text} : c ∉ reserved → Escapes s t → Escapes (c :: s) (c :: t)
  | reference {c : Char} {body s t : Text} :
      referent? body = some c → Escapes s t → Escapes (c :: s) ('&' :: body ++ ';' :: t)

/-- Attributes and how they may be written. -/
inductive WritesAttributes : List (Text × Text) → Text → Prop
  | nil : WritesAttributes [] []
  | cons {name value s t : Text} {attributes : List (Text × Text)} :
      Escapes value s → WritesAttributes attributes t →
      WritesAttributes ((name, value) :: attributes)
        (' ' :: name ++ ['=', '"'] ++ s ++ '"' :: t)

/-- An event that asks for a tag, and how the tag may be written. -/
inductive WritesTag : Event → Text → Prop
  | start {name s : Text} {attributes : List (Text × Text)} :
      WritesAttributes attributes s →
      WritesTag (.start name attributes) ('<' :: name ++ s ++ ['>'])
  | empty {name s : Text} {attributes : List (Text × Text)} :
      WritesAttributes attributes s →
      WritesTag (.empty name attributes) ('<' :: name ++ s ++ ['/', '>'])
  | close {name : Text} : WritesTag (.close name) ('<' :: '/' :: name ++ ['>'])

/-- A line end and the indentation of the next line. -/
def lineStart (n : Nat) : Text := '\n' :: replicate n ' '

/-- Events and how they may be written, directly behind character data or not. -/
inductive Writes : (afterData : Bool) → List Event → Text → Prop
  | nil {afterData : Bool} : Writes afterData [] []
  | text {afterData : Bool} {s t rest : Text} {events : List Event} :
      Escapes s t → Writes true events rest → Writes afterData (.text s :: events) (t ++ rest)
  | cdata {afterData : Bool} {s rest : Text} {events : List Event} :
      Writes true events rest →
      Writes afterData (.cdata s :: events) (writeSection s ++ rest)
  | tag {afterData : Bool} {event : Event} {t rest : Text} {events : List Event} :
      WritesTag event t → Writes false events rest →
      Writes afterData (event :: events) (t ++ rest)
  | line {event : Event} {t rest : Text} {events : List Event} (n : Nat) :
      WritesTag event t → Writes false events rest →
      Writes false (event :: events) (lineStart n ++ t ++ rest)

/-- Whether what stands behind parts in a row stands directly behind character data, given
whether the parts do. -/
def endsAfterData (afterData : Bool) : List Xml → Bool
  | [] => afterData
  | x :: xs => endsAfterData (isData x) xs

theorem endsAfterData_cons (afterData : Bool) (x : Xml) (xs : List Xml) :
    endsAfterData afterData (x :: xs) = endsInData (x :: xs) := by
  induction xs generalizing afterData x with
  | nil => rfl
  | cons y ys ih => exact ih (isData x) y

/-! ## Sections -/

theorem sections_of_cut? {s before rest : Text} (h : cut? cdataEnd s = some (before, rest)) :
    sections s = (before ++ [']', ']']) :: sections ('>' :: rest) := by
  rw [sections]
  split
  · next before' rest' h' =>
    obtain ⟨rfl, rfl⟩ : before' = before ∧ rest' = rest := by simpa [h] using h'.symm
    rfl
  · next hnone => rw [h] at hnone; cases hnone

theorem sections_of_not_cut? {s : Text} (h : cut? cdataEnd s = none) : sections s = [s] := by
  rw [sections]
  split
  · next before rest h' => rw [h] at h'; cases h'
  · rfl

theorem sections_ne_nil (s : Text) : sections s ≠ [] := by
  cases h : cut? cdataEnd s with
  | some parts => rw [sections_of_cut? h]; exact cons_ne_nil _ _
  | none => rw [sections_of_not_cut? h]; exact cons_ne_nil _ _

/-- Divided data is put together again. -/
theorem flatten_sections (s : Text) : (sections s).flatten = s := by
  induction s using sections.induct with
  | case1 s before rest hcut ih =>
      have hwhole := eq_of_cut? hcut
      rw [sections_of_cut? hcut, flatten_cons, ih, hwhole]
      simp [cdataEnd]
  | case2 s hcut => rw [sections_of_not_cut? hcut, flatten_singleton]

/-- No section holds the end of a section. -/
theorem cut?_of_mem_sections {s part : Text} (h : part ∈ sections s) :
    cut? cdataEnd part = none := by
  induction s using sections.induct with
  | case1 s before rest hcut ih =>
      rw [sections_of_cut? hcut, mem_cons] at h
      rcases h with rfl | h
      · -- an end before the first bracket of the first one would come before that
        cases hpart : cut? cdataEnd (before ++ [']', ']']) with
        | none => rfl
        | some parts =>
            obtain ⟨before', rest'⟩ := parts
            have hlong := cut?_append hpart ('>' :: rest)
            have hwhole : before ++ [']', ']'] ++ '>' :: rest = s := by
              rw [eq_of_cut? hcut]
              simp [cdataEnd]
            rw [hwhole, hcut] at hlong
            obtain ⟨-, hrest⟩ : before = before' ∧ rest = rest' ++ '>' :: rest := by
              simpa using hlong
            have hlength := congrArg length hrest
            simp only [length_append, length_cons] at hlength
            omega
      · exact ih h
  | case2 s hcut =>
      rw [sections_of_not_cut? hcut, mem_singleton] at h
      exact h ▸ hcut

/-! ## The writer of this library -/

theorem escapes_escape (s : Text) : Escapes s (escape s) := by
  induction s with
  | nil => exact .nil
  | cons c s ih =>
      rw [escape, flatMap_cons]
      show Escapes (c :: s) (escapeChar c ++ escape s)
      by_cases hreserved : c ∈ reserved
      · have hall : ∀ c ∈ reserved, ∃ body, referent? body = some c ∧
            escapeChar c = '&' :: body ++ [';'] := by
          simp only [reserved, forall_mem_cons]
          exact ⟨⟨"lt".toList, by decide⟩, ⟨"gt".toList, by decide⟩, ⟨"amp".toList, by decide⟩,
            ⟨"quot".toList, by decide⟩, ⟨"apos".toList, by decide⟩, by simp⟩
        obtain ⟨body, hbody, hwritten⟩ := hall c hreserved
        rw [hwritten, append_assoc, singleton_append]
        exact .reference hbody ih
      · have hplain : escapeChar c = [c] := by
          unfold escapeChar
          split <;> first | rfl | exact absurd (by decide) hreserved
        rw [hplain]
        exact .plain hreserved ih

theorem writesAttributes_write (attributes : List (Text × Text)) :
    WritesAttributes attributes (writeAttributes attributes) := by
  induction attributes with
  | nil => exact .nil
  | cons first attributes ih =>
      obtain ⟨name, value⟩ := first
      have hcons : WritesAttributes ((name, value) :: attributes) _ :=
        .cons (escapes_escape value) ih
      rw [writeAttributes, flatMap_cons]
      simpa [writeAttributes] using hcons

theorem writes_sections {parts : List Text} (hne : parts ≠ []) {afterData : Bool}
    {events : List Event} {rest : Text} (h : Writes true events rest) :
    Writes afterData (parts.map .cdata ++ events) (parts.flatMap writeSection ++ rest) := by
  induction parts generalizing afterData with
  | nil => exact absurd rfl hne
  | cons part parts ih =>
      have hrest : Writes true (parts.map .cdata ++ events)
          (parts.flatMap writeSection ++ rest) := by
        cases parts with
        | nil => exact h
        | cons next parts => exact ih (cons_ne_nil _ _)
      rw [map_cons, cons_append, flatMap_cons, append_assoc]
      exact .cdata hrest

theorem writes_lineBreak {event : Event} {t rest : Text} {events : List Event}
    (htag : WritesTag event t) (h : Writes false events rest) (indent depth : Nat)
    (afterData : Bool) :
    Writes afterData (event :: events) (lineBreak indent depth afterData ++ (t ++ rest)) := by
  cases afterData with
  | true =>
      show Writes true _ (t ++ rest)
      exact .tag htag h
  | false =>
      rw [← append_assoc]
      exact .line (indent * depth) htag h

mutual

theorem writes_write (indent depth : Nat) (afterData : Bool) {evs : List Event} {rest : Text} :
    (x : Xml) → Writes (isData x) evs rest →
      Writes afterData (events x ++ evs) (write indent depth afterData x ++ rest)
  | .text s, h => .text (escapes_escape s) h
  | .cdata s, h => writes_sections (sections_ne_nil s) h
  | .element name attributes [], h => by
    have htag : WritesTag (.empty name attributes) _ := .empty (writesAttributes_write attributes)
    have hwritten := writes_lineBreak htag h indent depth afterData
    simpa [write, events] using hwritten
  | .element name attributes (x :: xs), h => by
    have hstart : WritesTag (.start name attributes) _ := .start (writesAttributes_write attributes)
    have hclose : WritesTag (.close name) _ := .close
    have hbehind := writes_lineBreak hclose h indent depth (endsInData (x :: xs))
    rw [← endsAfterData_cons false] at hbehind
    have hinside := writes_writeAll indent (depth + 1) false (x :: xs) hbehind
    have hwritten := writes_lineBreak hstart hinside indent depth afterData
    have hmark : "</".toList = ['<', '/'] := rfl
    rw [endsAfterData_cons] at hwritten
    simpa only [write, events, hmark, cons_append, append_assoc, nil_append] using hwritten

theorem writes_writeAll (indent depth : Nat) (afterData : Bool) {evs : List Event} {rest : Text} :
    (xs : List Xml) → Writes (endsAfterData afterData xs) evs rest →
      Writes afterData (eventsAll xs ++ evs) (writeAll indent depth afterData xs ++ rest)
  | [], h => h
  | x :: xs, h => by
    rw [eventsAll, writeAll, append_assoc, append_assoc]
    exact writes_write indent depth afterData x (writes_writeAll indent depth (isData x) xs h)

end

end Creole.Xml

namespace Creole.XmlElement

open Xml

/-- An element and how it may be written as a document. -/
def Writes (e : XmlElement) (s : Text) : Prop :=
  ∃ body, Xml.Writes false e.toXml.events body ∧ s = declaration ++ body

/-- The writer of this library does no more than a writer may. -/
theorem writes_write (e : XmlElement) (indent : Nat) : e.Writes (e.write indent) := by
  have hbody := Xml.writes_write indent 0 false e.toXml (.nil : Xml.Writes _ [] [])
  rw [List.append_nil, List.append_nil] at hbody
  exact ⟨_, hbody, rfl⟩

end Creole.XmlElement
