import Creole.Proofs.Text.Cut
import Creole.Toml.Number
import Creole.Xml.Written

/-!
# Reading XML

A reader for documents of elements, attributes and character data, such as are written
here.  It takes a text apart into tags and the character data between them (`tokens?`) and
puts the elements together again (`build`).  References are read as what they stand for, and
CDATA as it is; character data that stands side by side is joined.  Nothing else is
normalized: white space stays where it is, in content as in attribute values.

Comments and document types, which begin with `<!`, and instructions, which begin with `<?`,
are no part of such documents.  But for the declaration in front of a document and for CDATA
sections, a text that holds one is not read (`tokens?_of_opensMarkup`).
-/

namespace Creole.Xml

open List Text

/-! ## Characters -/

/-- White space between the parts of a tag. -/
def isSpace (c : Char) : Bool := [' ', '\t', '\n', '\r'].contains c

/-- Whether a character may stand in the name of an element or of an attribute. -/
def isNameChar (c : Char) : Bool :=
  !(isSpace c || ['<', '>', '&', '"', '\'', '/', '='].contains c)

/-- The predefined entities, and what they stand for. -/
def entities : List (Text × Char) :=
  [("amp".toList, '&'), ("lt".toList, '<'), ("gt".toList, '>'), ("quot".toList, '"'),
    ("apos".toList, '\'')]

/-- The character of a number that digits write in some base. -/
def numbered? (base : Nat) (digits : Text) : Option Char :=
  let n := digitsToNat base Toml.hexValue digits
  if !digits.isEmpty && digits.all (Toml.isDigitIn base) && n.isValidChar then some (Char.ofNat n)
  else none

/-- The character that a reference stands for, given what is between its `&` and its `;`. -/
def referent? (body : Text) : Option Char :=
  match body with
  | '#' :: 'x' :: digits => numbered? 16 digits
  | '#' :: digits => numbered? 10 digits
  | name => entities.lookup name

/-- The first character of character data, written as it is or as a reference, and what
follows it. -/
def readChar? : Text → Option (Char × Text)
  | [] => none
  | c :: s =>
    if c = '<' then none
    else if c = '&' then
      match cut? [';'] s with
      | some (body, behind) => (referent? body).map fun d => (d, behind)
      | none => none
    else some (c, s)

theorem length_lt_of_readChar? {s behind : Text} {c : Char} (h : readChar? s = some (c, behind)) :
    behind.length < s.length := by
  unfold readChar? at h
  split at h
  · cases h
  · next d s =>
    split at h
    · cases h
    · split at h
      · split at h
        · next body rest hcut =>
          obtain ⟨d, -, heq⟩ := Option.map_eq_some_iff.mp h
          obtain ⟨rfl, rfl⟩ : d = c ∧ rest = behind := by simpa using heq
          have hlength := length_lt_of_cut? (cons_ne_nil _ _) hcut
          rw [length_cons]
          omega
        · cases h
      · obtain ⟨rfl, rfl⟩ : d = c ∧ s = behind := by simpa using h
        rw [length_cons]
        omega

/-! ## Tags -/

/-- A tag, or the character data between two tags.  A tag that is an element of its own
counts as two. -/
inductive Token where
  | open (name : Text) (attributes : List (Text × Text))
  | close (name : Text)
  | data (s : Text)
  deriving DecidableEq

/-- An attribute value up to its quotation mark, and what follows the mark. -/
def value? (quote : Char) (s : Text) : Option (Text × Text) :=
  match s with
  | [] => none
  | c :: rest =>
    if c = quote then some ([], rest)
    else
      match _ : readChar? (c :: rest) with
      | some (d, behind) => (value? quote behind).map fun (value, rest) => (d :: value, rest)
      | none => none
termination_by s.length
decreasing_by exact length_lt_of_readChar? (by assumption)

theorem length_lt_of_value? {quote : Char} {s value behind : Text}
    (h : value? quote s = some (value, behind)) : behind.length < s.length := by
  fun_induction value? quote s generalizing value with
  | case1 => cases h
  | case2 rest =>
      obtain ⟨rfl, rfl⟩ : [] = value ∧ rest = behind := by simpa using h
      exact Nat.lt_succ_self _
  | case3 c rest hquote d rest' hchar ih =>
      obtain ⟨⟨value', behind'⟩, hvalue, heq⟩ := Option.map_eq_some_iff.mp h
      obtain ⟨rfl, rfl⟩ : d :: value' = value ∧ behind' = behind := by simpa using heq
      exact Nat.lt_trans (ih hvalue) (length_lt_of_readChar? hchar)
  | case4 => cases h

/-- An attribute behind any white space, and what follows it. -/
def attribute? (s : Text) : Option ((Text × Text) × Text) :=
  let inside := s.dropWhile isSpace
  let name := inside.takeWhile isNameChar
  match after? ['='] (inside.dropWhile isNameChar) with
  | some (quote :: rest) =>
    if name ≠ [] ∧ quote ∈ ['"', '\''] then
      (value? quote rest).map fun (value, behind) => ((name, value), behind)
    else none
  | _ => none

theorem length_lt_of_attribute? {s behind : Text} {found : Text × Text}
    (h : attribute? s = some (found, behind)) : behind.length < s.length := by
  have hspace := (dropWhile_sublist (l := s) isSpace).length_le
  have hinside := (dropWhile_sublist (l := s.dropWhile isSpace) isNameChar).length_le
  simp only [attribute?] at h
  split at h
  · next quote rest hrest =>
    split at h
    · obtain ⟨⟨value, behind'⟩, hvalue, heq⟩ := Option.map_eq_some_iff.mp h
      obtain ⟨-, rfl⟩ : _ ∧ behind' = behind := by simpa using heq
      have hbehind := length_lt_of_value? hvalue
      rw [after?_eq_some_iff.mp hrest, length_append] at hinside
      simp only [length_cons] at hinside
      omega
    · cases h
  · cases h

/-- The attributes of a tag, and what follows the last of them. -/
def readAttributes (s : Text) : List (Text × Text) × Text :=
  match _ : attribute? s with
  | some (first, behind) => (first :: (readAttributes behind).1, (readAttributes behind).2)
  | none => ([], s)
termination_by s.length
decreasing_by all_goals exact length_lt_of_attribute? (by assumption)

theorem length_readAttributes_le (s : Text) : (readAttributes s).2.length ≤ s.length := by
  fun_induction readAttributes s with
  | case1 s first behind hfirst ih =>
      exact Nat.le_trans ih (Nat.le_of_lt (length_lt_of_attribute? hfirst))
  | case2 s hnone => exact Nat.le_refl _

/-- The tag of an element, given how it ends, and what follows it. -/
def tagEnd? (name : Text) (attributes : List (Text × Text)) (s : Text) :
    Option (List Token × Text) :=
  match after? ['>'] s with
  | some behind => some ([.open name attributes], behind)
  | none => (after? ['/', '>'] s).map fun behind =>
      ([.open name attributes, .close name], behind)

theorem length_lt_of_tagEnd? {name s behind : Text} {attributes : List (Text × Text)}
    {tag : List Token} (h : tagEnd? name attributes s = some (tag, behind)) :
    behind.length < s.length := by
  unfold tagEnd? at h
  split at h
  · next rest hrest =>
    obtain ⟨-, rfl⟩ : _ ∧ rest = behind := by simpa using h
    exact length_lt_of_after? (cons_ne_nil _ _) hrest
  · obtain ⟨rest, hrest, heq⟩ := Option.map_eq_some_iff.mp h
    obtain ⟨-, rfl⟩ : _ ∧ rest = behind := by simpa using heq
    exact length_lt_of_after? (cons_ne_nil _ _) hrest

/-- Whether what follows a `<` is no tag, but a section, a comment, a document type or an
instruction. -/
def opensMarkup (s : Text) : Bool := s.head?.any ['!', '?'].contains

theorem opensMarkup_eq_false {s : Text} (hmark : s.head? ≠ some '!')
    (hquestion : s.head? ≠ some '?') : opensMarkup s = false := by
  cases s with
  | nil => rfl
  | cons c s => simpa [opensMarkup] using And.intro hmark hquestion

/-- The tag behind a `<`, and what follows it. -/
def tag? (s : Text) : Option (List Token × Text) :=
  match after? ['/'] s with
  | some rest =>
    (after? ['>'] ((rest.dropWhile isNameChar).dropWhile isSpace)).map fun behind =>
      ([.close (rest.takeWhile isNameChar)], behind)
  | none =>
    let name := s.takeWhile isNameChar
    let (attributes, rest) := readAttributes (s.dropWhile isNameChar)
    if name = [] ∨ opensMarkup name then none else tagEnd? name attributes (rest.dropWhile isSpace)

theorem length_lt_of_tag? {s behind : Text} {tag : List Token} (h : tag? s = some (tag, behind)) :
    behind.length < s.length := by
  have hlength : ∀ (p : Char → Bool) (s : Text), (s.dropWhile p).length ≤ s.length := fun p s =>
    (dropWhile_sublist p).length_le
  simp only [tag?] at h
  split at h
  · next rest hrest =>
    obtain ⟨behind', hbehind, heq⟩ := Option.map_eq_some_iff.mp h
    obtain ⟨-, rfl⟩ : _ ∧ behind' = behind := by simpa using heq
    have hname := hlength isNameChar rest
    have hspace := hlength isSpace (rest.dropWhile isNameChar)
    have hfirst := length_lt_of_after? (cons_ne_nil _ _) hrest
    have hlast := length_lt_of_after? (cons_ne_nil _ _) hbehind
    omega
  · split at h
    · cases h
    · have hname := hlength isNameChar s
      have hattributes := length_readAttributes_le (s.dropWhile isNameChar)
      have hspace := hlength isSpace (readAttributes (s.dropWhile isNameChar)).2
      have hlast := length_lt_of_tagEnd? h
      omega

/-- Neither a comment nor an instruction is a tag. -/
theorem tag?_of_opensMarkup {s : Text} (h : opensMarkup s = true) : tag? s = none := by
  cases s with
  | nil => cases h
  | cons c s =>
      have hc : c = '!' ∨ c = '?' := by simpa [opensMarkup] using h
      have hslash : after? ['/'] (c :: s) = none := by rcases hc with rfl | rfl <;> rfl
      have hname : opensMarkup ((c :: s).takeWhile isNameChar) = true := by
        rcases hc with rfl | rfl <;> rfl
      simp only [tag?, hslash, hname, or_true, if_true]

/-! ## Tokens -/

/-- Character data in front of tokens, joined with what is character data there. -/
def prependData (s : Text) (tokens : List Token) : List Token :=
  match tokens with
  | .data t :: rest => .data (s ++ t) :: rest
  | _ => if s = [] then tokens else .data s :: tokens

/-- The tags of a text and the character data between them. -/
def tokens? (s : Text) : Option (List Token) :=
  match s with
  | [] => some []
  | c :: rest =>
    match _ : after? cdataStart (c :: rest) with
    | some inside =>
      match _ : cut? cdataEnd inside with
      | some (data, behind) => (tokens? behind).map (prependData data)
      | none => none
    | none =>
      if c = '<' then
        match _ : tag? rest with
        | some (tag, behind) => (tokens? behind).map (tag ++ ·)
        | none => none
      else
        match _ : readChar? (c :: rest) with
        | some (d, behind) => (tokens? behind).map (prependData [d])
        | none => none
termination_by s.length
decreasing_by
  · have hinside := length_lt_of_after? (by decide) ‹after? cdataStart (c :: rest) = some inside›
    have hbehind := length_lt_of_cut? (by decide) ‹cut? cdataEnd inside = some (data, behind)›
    omega
  · have htag := length_lt_of_tag? (by assumption)
    rw [length_cons]
    omega
  · exact length_lt_of_readChar? (by assumption)

/-- A text is not read past the beginning of a comment, a document type or an instruction. -/
theorem tokens?_of_opensMarkup {s : Text} (h : opensMarkup s = true)
    (hsection : after? cdataStart ('<' :: s) = none) : tokens? ('<' :: s) = none := by
  have htag := tag?_of_opensMarkup h
  rw [tokens?]
  split
  · next inside hinside => rw [hsection] at hinside; cases hinside
  · rw [if_pos rfl]
    split
    · next tag behind h' => rw [htag] at h'; cases h'
    · rfl

example : tokens? "<!-->x</!-->".toList = none ∧ tokens? "<a><?b/></a>".toList = none := by
  decide +kernel

/-! ## Documents -/

/-- An element whose end has not been read yet: its start tag, and what stands before it. -/
structure OpenElement where
  name : Text
  attributes : List (Text × Text)
  before : List Xml

/-- Puts elements together.  `outer` are the elements that are open, the innermost first, and
`content` is what has been read of the innermost, or of the whole where none is open. -/
def build : (outer : List OpenElement) → (content : List Xml) → List Token → Option (List Xml)
  | [], content, [] => some content
  | _ :: _, _, [] => none
  | outer, content, .data s :: tokens => build outer (content ++ [.text s]) tokens
  | outer, content, .open name attributes :: tokens =>
    build (⟨name, attributes, content⟩ :: outer) [] tokens
  | [], _, .close _ :: _ => none
  | first :: outer, content, .close name :: tokens =>
    if first.name = name then
      build outer (first.before ++ [.element name first.attributes content]) tokens
    else none

/-- What follows the declaration, if there is one. -/
def afterDeclaration? (s : Text) : Option Text :=
  match after? "<?xml ".toList s with
  | some rest => (cut? "?>".toList rest).map Prod.snd
  | none => some s

/-- Whether a part is nothing but white space. -/
def isSpaceText : Xml → Bool
  | .text s => s.all isSpace
  | _ => false

/-- Reads a document: an element, with nothing but white space before and behind it. -/
def read (s : Text) : Option XmlElement := do
  let body ← afterDeclaration? s
  let tokens ← tokens? body
  let parts ← build [] [] tokens
  match parts.filter (!isSpaceText ·) with
  | [part] => part.asElement?
  | _ => none

end Creole.Xml
