import Creole.Text.Digit

/-!
# TOML: spaces, strings and keys

The parts of a document that are read character by character.  What reads from the
front of a text gives back the rest together with the fact that it is shorter, so
that readers of sequences end.
-/

namespace Creole.Toml

/-- A text that is shorter than `s`. -/
abbrev Shorter (s : Text) := { rest : Text // rest.length < s.length }

/-- What is shorter than a text is shorter than any text that is as long. -/
def widen {s t : Text} (h : t.length ≤ s.length) (rest : Shorter t) : Shorter s :=
  ⟨rest.val, Nat.lt_of_lt_of_le rest.property h⟩

/-- What is shorter than a text is shorter than it is behind one more character. -/
def widenCons {c : Char} {s : Text} (rest : Shorter s) : Shorter (c :: s) :=
  widen (Nat.le_succ _) rest

/-! ## Spaces and comments -/

/-- Spaces within a line. -/
def isSpace (c : Char) : Bool := c == ' ' || c == '\t'

/-- Whether a character may stand in a comment or a string: no control character
but the tab. -/
def isPrintable (c : Char) : Bool := c == '\t' || (0x20 ≤ c.toNat && c.toNat != 0x7F)

/-- The text behind spaces. -/
def skipSpaces (s : Text) : Text := s.dropWhile isSpace

theorem length_skipSpaces_le (s : Text) : (skipSpaces s).length ≤ s.length :=
  (List.dropWhile_sublist _).length_le

/-- What follows a mark within a line is shorter than what the line began with. -/
theorem length_skipSpaces_lt {mark : Char} {s rest : Text} (behind : Shorter s)
    (h : Text.after? [mark] (skipSpaces behind.val) = some rest) :
    (skipSpaces rest).length < s.length := by
  have hmark := congrArg List.length (Text.after?_eq_some_iff.1 h)
  have hbehind := behind.property
  have := length_skipSpaces_le behind.val
  have := length_skipSpaces_le rest
  simp only [List.length_append, List.length_singleton] at hmark
  omega

/-- The text behind a line end, which is a line feed, also behind a carriage
return, or the end of the document. -/
def lineEnd? : Text → Option Text
  | [] => some []
  | '\n' :: rest => some rest
  | '\r' :: '\n' :: rest => some rest
  | _ => none

/-- The text behind the spaces and the comment at the end of a line, and behind the
line end. -/
def restOfLine? (s : Text) : Option Text :=
  match skipSpaces s with
  | '#' :: rest => lineEnd? (rest.dropWhile isPrintable)
  | rest => lineEnd? rest

theorem length_lineEnd?_le {s rest : Text} (h : lineEnd? s = some rest) :
    rest.length ≤ s.length := by
  unfold lineEnd? at h
  split at h <;> simp_all
  omega

theorem length_restOfLine?_le {s rest : Text} (h : restOfLine? s = some rest) :
    rest.length ≤ s.length := by
  unfold restOfLine? at h
  have hspaces := length_skipSpaces_le s
  split at h
  · next comment heq =>
    have hcomment := length_lineEnd?_le h
    have := (List.dropWhile_sublist isPrintable (l := comment)).length_le
    rw [heq, List.length_cons] at hspaces
    omega
  · exact Nat.le_trans (length_lineEnd?_le h) hspaces

/-- The text behind spaces, comments and line ends. -/
def skipLines? (s : Text) : Option Text :=
  match _ : skipSpaces s with
  | '#' :: comment =>
    match _ : lineEnd? (comment.dropWhile isPrintable) with
    | some rest => skipLines? rest
    | none => none
  | '\n' :: rest => skipLines? rest
  | '\r' :: '\n' :: rest => skipLines? rest
  | rest => some rest
termination_by s.length
decreasing_by
  all_goals
    have hspaces := length_skipSpaces_le s
    simp_all only [List.length_cons]
  · have := length_lineEnd?_le ‹_›
    have := (List.dropWhile_sublist isPrintable (l := comment)).length_le
    omega
  · omega
  · omega

theorem length_skipLines?_le {s rest : Text} (h : skipLines? s = some rest) :
    rest.length ≤ s.length := by
  have hspaces := length_skipSpaces_le
  fun_induction skipLines? s with
  | case1 s comment hs next hend ih =>
    have := hspaces s
    have := length_lineEnd?_le hend
    have := (List.dropWhile_sublist isPrintable (l := comment)).length_le
    have := ih h
    simp_all only [List.length_cons]
    omega
  | case2 => simp at h
  | case3 s next hs ih =>
    have := hspaces s
    have := ih h
    simp_all only [List.length_cons]
    omega
  | case4 s next hs ih =>
    have := hspaces s
    have := ih h
    simp_all only [List.length_cons]
    omega
  | case5 s _ _ _ =>
    simp only [Option.some.injEq] at h
    exact h ▸ hspaces s

/-- The text behind a mark that spaces, comments and line ends may stand before. -/
def behindMark? (mark : Char) (s : Text) : Option (Shorter s) := do
  let ⟨start, hstart⟩ ← (skipLines? s).attach
  let ⟨rest, hrest⟩ ← (Text.after? [mark] start).attach
  some ⟨rest, by
    have hmark := congrArg List.length (Text.after?_eq_some_iff.1 hrest)
    have := length_skipLines?_le hstart
    simp only [List.length_append, List.length_singleton] at hmark
    omega⟩

/-! ## Strings -/

/-- The value of a hexadecimal digit. -/
def hexValue (c : Char) : Nat :=
  if c.isDigit then c.toNat - '0'.toNat
  else if 'a' ≤ c then c.toNat - 'a'.toNat + 10
  else c.toNat - 'A'.toNat + 10

/-- Whether a character is a hexadecimal digit. -/
def isHexDigit (c : Char) : Bool :=
  c.isDigit || ('a' ≤ c && c ≤ 'f') || ('A' ≤ c && c ≤ 'F')

/-- The character that the given number of hexadecimal digits stand for, at the
start of a text. -/
def codePoint? (digits : Nat) (s : Text) : Option (Char × Text) :=
  let written := s.take digits
  let n := Text.digitsToNat 16 hexValue written
  let valid := n < 0xD800 || (0xDFFF < n && n < 0x110000)
  if written.length = digits && written.all isHexDigit && valid then
    some (Char.ofNat n, s.drop digits)
  else none

/-- The character that an escape stands for, read behind its backslash. -/
def escaped? (s : Text) : Option (Char × Shorter s) :=
  match s with
  | [] => none
  | c :: rest =>
    match c with
    | 'b' => some ('\x08', ⟨rest, by simp⟩)
    | 't' => some ('\t', ⟨rest, by simp⟩)
    | 'n' => some ('\n', ⟨rest, by simp⟩)
    | 'f' => some ('\x0c', ⟨rest, by simp⟩)
    | 'r' => some ('\r', ⟨rest, by simp⟩)
    | 'e' => some ('\x1b', ⟨rest, by simp⟩)
    | '"' => some ('"', ⟨rest, by simp⟩)
    | '\\' => some ('\\', ⟨rest, by simp⟩)
    | 'x' => coded 2 rest
    | 'u' => coded 4 rest
    | 'U' => coded 8 rest
    | _ => none
where
  /-- The character of a code point, behind the letter of its escape. -/
  coded {letter : Char} (digits : Nat) (rest : Text) : Option (Char × Shorter (letter :: rest)) :=
    match h : codePoint? digits rest with
    | some (c, behind) =>
      some (c, ⟨behind, by
        simp only [codePoint?] at h
        split at h
        · simp only [Option.some.injEq, Prod.mk.injEq] at h
          rw [← h.2, List.length_drop, List.length_cons]
          omega
        · simp at h⟩)
    | none => none

/-- The text of a string within double quotes, read behind the first of them. -/
def quoted? (s : Text) : Option (Text × Shorter s) :=
  match s with
  | [] => none
  | '"' :: rest => some ([], ⟨rest, by simp⟩)
  | '\\' :: rest => do
    let (c, behind) ← escaped? rest
    let (body, final) ← quoted? behind.val
    some (c :: body, widen (Nat.le_succ_of_le (Nat.le_of_lt behind.property)) final)
  | c :: rest =>
    if isPrintable c then do
      let (body, final) ← quoted? rest
      some (c :: body, widenCons final)
    else none
termination_by s.length
decreasing_by
  · exact Nat.lt_succ_of_lt behind.property
  · simp

/-- The text of a string within single quotes, read behind the first of them. -/
def literal? : (s : Text) → Option (Text × Shorter s)
  | [] => none
  | c :: rest =>
    if c = '\'' then some ([], ⟨rest, by simp⟩)
    else if isPrintable c then do
      let (body, final) ← literal? rest
      some (c :: body, widenCons final)
    else none

/-- The quotes that end a string over several lines: three of them, and up to two
before them that belong to the string. -/
def closingQuotes? (quote : Char) (s : Text) : Option (Text × Shorter s) :=
  let count := (s.takeWhile (· = quote)).length
  if h : 3 ≤ count then
    some (List.replicate (min 2 (count - 3)) quote, ⟨s.drop (min 5 count), by
      have := (List.takeWhile_sublist (fun c => decide (c = quote)) (l := s)).length_le
      rw [List.length_drop]
      omega⟩)
  else none

/-- Whether a backslash before the given text ends its line: nothing but spaces
stands before the line end. -/
def endsLine (s : Text) : Bool :=
  match skipSpaces s with
  | '\n' :: _ => true
  | '\r' :: '\n' :: _ => true
  | _ => false

/-- The text behind spaces and line ends. -/
def skipWhite : Text → Text
  | '\r' :: '\n' :: rest => skipWhite rest
  | c :: rest => if isSpace c || c = '\n' then skipWhite rest else c :: rest
  | [] => []

theorem length_skipWhite_le (s : Text) : (skipWhite s).length ≤ s.length := by
  fun_induction skipWhite s with
  | case1 rest ih => simp only [List.length_cons]; omega
  | case2 c rest _ _ ih => simp only [List.length_cons]; omega
  | case3 => simp
  | case4 => simp

/-- Whether a character stands for itself in a string over several lines. -/
def isLinesChar (c : Char) (rest : Text) : Bool :=
  isPrintable c || c = '\n' || (c = '\r' && rest.head? = some '\n')

/-- The text of a string over several lines within double quotes.  A backslash at
the end of a line takes the white space up to the next character with it. -/
def quotedLines? (s : Text) : Option (Text × Shorter s) :=
  match closingQuotes? '"' s with
  | some result => some result
  | none =>
    match s with
    | [] => none
    | '\\' :: rest =>
      if endsLine rest then do
        let (body, final) ← quotedLines? (skipWhite rest)
        some (body, widen (Nat.le_succ_of_le (length_skipWhite_le rest)) final)
      else do
        let (c, behind) ← escaped? rest
        let (body, final) ← quotedLines? behind.val
        some (c :: body, widen (Nat.le_succ_of_le (Nat.le_of_lt behind.property)) final)
    | c :: rest =>
      if isLinesChar c rest then do
        let (body, final) ← quotedLines? rest
        some (c :: body, widenCons final)
      else none
termination_by s.length
decreasing_by
  · exact Nat.lt_succ_of_le (length_skipWhite_le rest)
  · exact Nat.lt_succ_of_lt behind.property
  · simp

/-- The text of a string over several lines within single quotes. -/
def literalLines? (s : Text) : Option (Text × Shorter s) :=
  match closingQuotes? '\'' s with
  | some result => some result
  | none =>
    match s with
    | [] => none
    | c :: rest =>
      if isLinesChar c rest then do
        let (body, final) ← literalLines? rest
        some (c :: body, widenCons final)
      else none
termination_by s.length
decreasing_by simp

/-- The text behind the line end that may follow the opening quotes of a string over
several lines. -/
def skipLineEnd : Text → Text
  | '\n' :: rest => rest
  | '\r' :: '\n' :: rest => rest
  | s => s

theorem length_skipLineEnd_le (s : Text) : (skipLineEnd s).length ≤ s.length := by
  unfold skipLineEnd
  split <;> simp
  omega

/-! ## Keys -/

/-- Whether a character may stand in a key without quotes. -/
def isBareKeyChar (c : Char) : Bool := c.isAlphanum || c == '_' || c == '-'

/-- One key, bare or in quotes. -/
def simpleKey? (s : Text) : Option (Text × Shorter s) :=
  match s with
  | [] => none
  | c :: rest =>
    if c = '"' then (quoted? rest).map fun (key, behind) => (key, widenCons behind)
    else if c = '\'' then (literal? rest).map fun (key, behind) => (key, widenCons behind)
    else if isBareKeyChar c then
      some (c :: rest.takeWhile isBareKeyChar,
        ⟨rest.dropWhile isBareKeyChar, Nat.lt_succ_of_le (List.dropWhile_sublist _).length_le⟩)
    else none

/-- Keys joined by dots: all but the last, and the last. -/
def keys? (s : Text) : Option ((List Text × Text) × Shorter s) :=
  match simpleKey? s with
  | none => none
  | some (key, behind) =>
    match hdot : Text.after? ['.'] (skipSpaces behind.val) with
    | some rest => do
      let ((path, last), final) ← keys? (skipSpaces rest)
      some ((key :: path, last), widen (Nat.le_of_lt (length_skipSpaces_lt behind hdot)) final)
    | none => some (([], key), behind)
termination_by s.length
decreasing_by exact length_skipSpaces_lt behind hdot

/-- A dotted key joins at most this many keys. -/
def maxKeys : Nat := 80

/-- A key with or without dots in it: the keys in front of the last dot, and the
last key. -/
def dottedKey? (s : Text) : Option ((List Text × Text) × Shorter s) :=
  (keys? s).filter fun ((path, _), _) => path.length < maxKeys

end Creole.Toml
