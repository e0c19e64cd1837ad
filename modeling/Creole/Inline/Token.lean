import Creole.Inline.Mark

/-!
# Tokens

Scanning a text from the left yields tokens: characters kept as they are, nodes
that are finished, and emphasis around a text that is still to be read.  `scan`
gives the token at one position and its length in the text.  A mark whose markup
is incomplete or invalid is kept as its characters.

The main statements are that a token is not empty (`one_le_scan_length`) and that
the text inside emphasis is shorter than the text it is found in
(`length_lt_of_scan_span`).
-/

namespace Creole.Inline

/-- What a position in a text holds. -/
inductive Token where
  /-- Characters that are kept. -/
  | literal (content : Text)
  /-- A node without children. -/
  | leaf (kind : Kind)
  /-- Emphasis around a text. -/
  | span (style : Style) (content : Text)
  deriving DecidableEq, Repr

/-! ## Bodies of links, images and macro uses -/

/-- A target and the title behind the first `|`, without the white space around
them.  An empty title counts as none. -/
def splitTitle (body : Text) : Text × Option Text :=
  match Text.cut? ['|'] body with
  | some (target, title) =>
    let title := Text.trim title
    (Text.trim target, if title.isEmpty then none else some title)
  | none => (Text.trim body, none)

/-- The link or image of a target on a page, shown as `title`. -/
def linkTo (handler : HandlerName) (page : PageRef) (source title : Text) : Link :=
  { source, title, target := .read source title, page, handler }

/-- The link or image that a body describes, unless its target is empty.  Without
a title the target is shown. -/
def linkOf? (handler : HandlerName) (page : PageRef) (body : Text) : Option Link :=
  let (source, title) := splitTitle body
  if source.isEmpty then none else some (linkTo handler page source (title.getD source))

/-- The anchor or image between image marks: a body that begins with `#` is the
name of an anchor. -/
def imageKind? (page : PageRef) (body : Text) : Option Kind :=
  match body with
  | '#' :: id =>
    let id := Text.trim id
    if id.isEmpty then none else some (.anchor id)
  | _ => (linkOf? .image page body).map .image

/-- Whether a character may stand in the name of a macro or directive behind its
first letter. -/
def isNameChar (c : Char) : Bool := c.isAlphanum || c == '_' || c == '.' || c == '-'

/-- Whether a text is the name of a macro or directive. -/
def isName : Text → Bool
  | [] => false
  | c :: cs => c.isAlpha && cs.all isNameChar

/-- The sign before the name of a directive: on or off.  A macro has none. -/
def splitSign : Text → Option Bool × Text
  | '+' :: body => (some true, body)
  | '-' :: body => (some false, body)
  | body => (none, body)

/-- The macro use or directive between call marks: a name, and arguments behind
its first colon. -/
def callKind? (body : Text) : Option Kind :=
  let (sign, body) := splitSign body
  let (name, args) :=
    match Text.cut? [':'] body with
    | some (name, args) => (name, some args)
    | none => (body, none)
  if isName name then
    some <|
      match sign with
      | some enabled => .directive (.ofArgs name enabled args)
      | none => .invocation { name, args := Text.trim (args.getD []) }
  else none

/-! ## Scanning -/

/-- The token for the text that a mark encloses, if it is valid there. -/
def Mark.token? (page : PageRef) : Mark → (body : Text) → Option Token
  | escape, body => some (.literal body)
  | verbatim, body => some (.leaf (.inlineNowiki body))
  | image, body => (imageKind? page body).map .leaf
  | link, body => (linkOf? .link page body).map (.leaf <| .link ·)
  | call, body => (callKind? body).map .leaf
  | lineBreak, _ | style _, _ => none

/-- The token of emphasis that `rest` follows, with its length.  There is none
around nothing. -/
def spanToken? (emphasis : Style) (rest : Text) : Option (Token × Nat) :=
  let mark := (Mark.style emphasis).text
  match closing? mark mark.getLast? rest with
  | some (n + 1) => some (.span emphasis (rest.take (n + 1)), 2 * mark.length + (n + 1))
  | _ => none

/-- The token that a mark begins, with its length, if its markup is complete. -/
def Mark.scan? (page : PageRef) (mark : Mark) (rest : Text) : Option (Token × Nat) :=
  match mark with
  | lineBreak => some (.leaf .linebreak, lineBreak.text.length)
  | style emphasis => spanToken? emphasis rest
  | _ =>
    match mark.body? rest with
    | some body => (mark.token? page body).map (·, mark.reach body)
    | none => none

/-- The token at the start of the text `c :: cs`, with its length. -/
def scan (page : PageRef) (previous : Option Char) (c : Char) (cs : Text) : Token × Nat :=
  match rawUrl? previous (c :: cs) with
  | some url => (.leaf (.link (linkTo .link page url url)), url.length)
  | none =>
    match codeSpan? (c :: cs) with
    | some (language, code) =>
      (.leaf (.inlineCode code (some language)), codeLength language code)
    | none =>
      match Mark.of? (c :: cs) with
      | some mark =>
        (mark.scan? page ((c :: cs).drop mark.text.length)).getD
          (.literal mark.text, mark.text.length)
      | none => (.literal [c], 1)

/-! ## Lengths -/

theorem length_of_spanToken? {emphasis style : Style} {rest content : Text} {n : Nat}
    (h : spanToken? emphasis rest = some (.span style content, n)) :
    content.length ≤ rest.length ∧ 1 ≤ n := by
  unfold spanToken? at h
  simp only at h
  split at h
  · simp only [Option.some.injEq, Prod.mk.injEq, Token.span.injEq] at h
    obtain ⟨⟨-, rfl⟩, rfl⟩ := h
    exact ⟨by simp only [List.length_take]; omega, by omega⟩
  · simp at h

theorem one_le_of_scan? {page : PageRef} {mark : Mark} {rest : Text} {token : Token} {n : Nat}
    (h : mark.scan? page rest = some (token, n)) : 1 ≤ n := by
  have hmark := mark.one_le_length_text
  unfold Mark.scan? at h
  split at h
  · simp only [Option.some.injEq, Prod.mk.injEq] at h
    exact h.2 ▸ hmark
  · unfold spanToken? at h
    simp only at h
    split at h
    · simp only [Option.some.injEq, Prod.mk.injEq] at h
      omega
    · simp at h
  · split at h
    · obtain ⟨_, _, heq⟩ := Option.map_eq_some_iff.1 h
      simp only [Prod.mk.injEq] at heq
      rw [← heq.2, Mark.reach]
      omega
    · simp at h

theorem one_le_scan_length (page : PageRef) (previous : Option Char) (c : Char) (cs : Text) :
    1 ≤ (scan page previous c cs).2 := by
  unfold scan
  split
  · next url hurl => exact List.length_pos_iff.2 (ne_nil_of_rawUrl? hurl)
  · split
    · simp only [codeLength]; omega
    · split
      · next mark _ =>
        rcases h : mark.scan? page ((c :: cs).drop mark.text.length) with _ | ⟨token, n⟩
        · exact mark.one_le_length_text
        · exact one_le_of_scan? h
      · simp

theorem length_lt_of_scan_span {page : PageRef} {previous : Option Char} {c : Char} {cs : Text}
    {style : Style} {content : Text} {n : Nat}
    (h : scan page previous c cs = (.span style content, n)) :
    content.length < (c :: cs).length := by
  unfold scan at h
  split at h
  · simp at h
  · split at h
    · simp at h
    · split at h
      · next mark _ =>
        have hmark := mark.one_le_length_text
        cases hscan : mark.scan? page ((c :: cs).drop mark.text.length) with
        | none => simp [hscan] at h
        | some result =>
          simp only [hscan, Option.getD_some] at h
          subst h
          unfold Mark.scan? at hscan
          split at hscan
          · simp at hscan
          · have hlength := (length_of_spanToken? hscan).1
            simp only [List.length_drop] at hlength
            simp only [List.length_cons] at hlength ⊢
            omega
          · split at hscan
            · next body _ =>
              obtain ⟨token, htoken, heq⟩ := Option.map_eq_some_iff.1 hscan
              simp only [Prod.mk.injEq] at heq
              obtain ⟨rfl, -⟩ := heq
              cases mark <;> simp [Mark.token?] at htoken
            · simp at hscan
      · simp at h

end Creole.Inline
