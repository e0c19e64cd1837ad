import Creole.Toml.Scalar

/-!
# TOML documents

A document is read as a list of lines, each a header or a key with its value, and
the table is then put together from them in order.  Arrays and tables in braces may
hold one another down to a fixed depth.

`Toml.read?` gives no reason where it fails; a document that cannot be read is
of no use, whatever the reason.
-/

namespace Creole.Toml

/-- Arrays and tables in braces nest at most this deep. -/
def maxNesting : Nat := 80

/-! ## Values -/

/-- The values of an array, read behind its opening bracket or a comma, where a value
or the closing bracket may follow. -/
def elements? (value? : (s : Text) → Option (Value × Shorter s)) (s : Text) :
    Option (List Value × Shorter s) :=
  match behindMark? ']' s with
  | some rest => some ([], rest)
  | none => do
    let ⟨start, hstart⟩ ← (skipLines? s).attach
    let (first, behind) ← value? start
    have hbehind : behind.val.length ≤ s.length :=
      Nat.le_trans (Nat.le_of_lt behind.property) (length_skipLines?_le hstart)
    match behindMark? ',' behind.val with
    | some rest => do
      let (more, final) ← elements? value? rest.val
      some (first :: more, widen (Nat.le_trans (Nat.le_of_lt rest.property) hbehind) final)
    | none => do
      let rest ← behindMark? ']' behind.val
      some ([first], widen hbehind rest)
termination_by s.length
decreasing_by exact Nat.lt_of_lt_of_le rest.property hbehind

/-- A dotted key, an equals sign and a value, all on the line where the value begins. -/
def pair? (value? : (s : Text) → Option (Value × Shorter s)) (s : Text) :
    Option ((List Text × Text × Value) × Shorter s) := do
  let ((path, key), behind) ← dottedKey? s
  let ⟨rest, hrest⟩ ← (Text.after? ['='] (skipSpaces behind.val)).attach
  let (value, final) ← value? (skipSpaces rest)
  some ((path, key, value), widen (Nat.le_of_lt (length_skipSpaces_lt behind hrest)) final)

/-- A dotted key, an equals sign and a value between braces, where line ends may stand
around the equals sign. -/
def field? (value? : (s : Text) → Option (Value × Shorter s)) (s : Text) :
    Option ((List Text × Text × Value) × Shorter s) := do
  let ((path, key), behind) ← dottedKey? s
  let rest ← behindMark? '=' behind.val
  let ⟨start, hstart⟩ ← (skipLines? rest.val).attach
  let (value, final) ← value? start
  have hrest : rest.val.length ≤ s.length :=
    Nat.le_of_lt (Nat.lt_trans rest.property behind.property)
  some ((path, key, value), widen (Nat.le_trans (length_skipLines?_le hstart) hrest) final)

/-- The entries of a table in braces, read behind its opening brace or a comma, where
an entry or the closing brace may follow. -/
def fields? (value? : (s : Text) → Option (Value × Shorter s)) (entries : Entries) (s : Text) :
    Option (Entries × Shorter s) :=
  match behindMark? '\x7d' s with
  | some rest => some (entries, rest)
  | none => do
    let ⟨start, hstart⟩ ← (skipLines? s).attach
    let ((path, key, value), behind) ← field? value? start
    have hbehind : behind.val.length ≤ s.length :=
      Nat.le_trans (Nat.le_of_lt behind.property) (length_skipLines?_le hstart)
    let entries ← entries.assign value path key
    match behindMark? ',' behind.val with
    | some rest => do
      let (all, final) ← fields? value? entries rest.val
      some (all, widen (Nat.le_trans (Nat.le_of_lt rest.property) hbehind) final)
    | none => do
      let rest ← behindMark? '\x7d' behind.val
      some (entries, widen hbehind rest)
termination_by s.length
decreasing_by exact Nat.lt_of_lt_of_le rest.property hbehind

/-- What follows a text of several lines is shorter than the text behind its opening
quotes. -/
def behindQuotes {q : Char} {rest : Text} (final : Shorter (skipLineEnd rest)) :
    Shorter (q :: q :: q :: rest) :=
  widenCons (widenCons (widenCons (widen (length_skipLineEnd_le rest) final)))

/-- A string, of any of the four kinds. -/
def string? (s : Text) : Option (Text × Shorter s) :=
  match s with
  | '"' :: '"' :: '"' :: rest =>
    (quotedLines? (skipLineEnd rest)).map fun (body, final) => (body, behindQuotes final)
  | '\'' :: '\'' :: '\'' :: rest =>
    (literalLines? (skipLineEnd rest)).map fun (body, final) => (body, behindQuotes final)
  | '"' :: rest => (quoted? rest).map fun (body, final) => (body, widenCons final)
  | '\'' :: rest => (literal? rest).map fun (body, final) => (body, widenCons final)
  | _ => none

/-- A value that is no array and no table in braces. -/
def atom? (s : Text) : Option (Value × Shorter s) :=
  match s with
  | [] => none
  | c :: rest =>
    if c = '"' || c = '\'' then (string? (c :: rest)).map fun (body, final) => (.string body, final)
    else
      let written := run (c :: rest)
      if h : written = [] then none
      else
        (scalar? written).map fun value => (value, ⟨(c :: rest).drop written.length, by
          have := List.length_pos_iff.2 h
          simp only [List.length_drop, List.length_cons]
          omega⟩)

/-- A value in which arrays and tables in braces nest to the given depth. -/
def value? : (depth : Nat) → (s : Text) → Option (Value × Shorter s)
  | 0, s => atom? s
  | depth + 1, s =>
    match s with
    | '[' :: rest =>
      (elements? (value? depth) rest).map fun (elements, final) =>
        (.array elements false, widenCons final)
    | '\x7b' :: rest =>
      (fields? (value? depth) [] rest).map fun (entries, final) =>
        (.table entries .inline, widenCons final)
    | s => atom? s

/-! ## Lines -/

/-- What a line of a document holds, unless it is blank. -/
inductive Line where
  | pair (path : List Text) (key : Text) (value : Value)
  | header (path : List Text) (key : Text) (extensible : Bool)
  deriving Repr

/-- The brackets that close a header. -/
def headerEnd (extensible : Bool) : Text := if extensible then [']', ']'] else [']']

/-- The key of a header and its closing brackets, behind the opening brackets. -/
def header? (extensible : Bool) (s : Text) : Option (Line × Shorter s) := do
  let ((path, key), behind) ← dottedKey? (skipSpaces s)
  let ⟨rest, hrest⟩ ← (Text.after? (headerEnd extensible) (skipSpaces behind.val)).attach
  some (.header path key extensible, ⟨rest, by
    have hend := congrArg List.length (Text.after?_eq_some_iff.1 hrest)
    have hbehind := behind.property
    have := length_skipSpaces_le s
    have := length_skipSpaces_le behind.val
    rw [List.length_append] at hend
    omega⟩)

/-- The line at the start of a text that does not begin with a space. -/
def line? (s : Text) : Option (Line × Shorter s) :=
  match s with
  | '[' :: '[' :: rest =>
    (header? true rest).map fun (line, final) => (line, widenCons (widenCons final))
  | '[' :: rest => (header? false rest).map fun (line, final) => (line, widenCons final)
  | s =>
    (pair? (value? maxNesting) s).map fun ((path, key, value), final) =>
      (.pair path key value, final)

/-- The lines of a document, without those that are blank or hold a comment only. -/
def documentLines? (s : Text) : Option (List Line) := do
  let ⟨start, _⟩ ← (skipLines? s).attach
  if start.isEmpty then some []
  else
    let (line, behind) ← line? start
    let ⟨rest, _⟩ ← (restOfLine? behind.val).attach
    let lines ← documentLines? rest
    some (line :: lines)
termination_by s.length
decreasing_by
  exact Nat.lt_of_le_of_lt (length_restOfLine?_le ‹_ = some rest›)
    (Nat.lt_of_lt_of_le behind.property (length_skipLines?_le ‹_ = some start›))

/-! ## Documents -/

/-- Puts together a document from lines: a pair belongs to the table of the last
header before it, or to the document itself. -/
def build (entries : Entries) (current : List Text) : List Line → Option Entries
  | [] => some entries
  | .pair path key value :: lines =>
    match entries.within (·.assign value path key) current with
    | some entries => build entries current lines
    | none => none
  | .header path key extensible :: lines =>
    match entries.define extensible path key with
    | some entries => build entries (path ++ [key]) lines
    | none => none

/-- The entries of a document.  A byte order mark at its start is no part of it. -/
def read? (s : Text) : Option Entries :=
  let s := (Text.after? ['\uFEFF'] s).getD s
  (documentLines? s).bind (build [] [])

end Creole.Toml
