import Creole.Inline.Parse
import Creole.Proofs.Inline.Marks

/-!
# Reading token by token

The nodes of a text are those of its first token in front of those of the text
behind it (`nodesFrom_cons`).  `Begins` lists all that a text can begin with, so that nothing
else needs to look into `scan`; and what is to be proved of the nodes of every text is
proved one token at a time (`nodesFrom_induction`): a token is followed by a shorter
text, and one that is an emphasis is around a shorter text.
-/

namespace Creole.Inline

variable {page : PageRef}

/-- The nodes of a token in front of those of the text behind it. -/
def Token.nodes (page : PageRef) (following : List Node) : Token → List Node
  | .literal content => (Node.text content).prepend following
  | .leaf kind => .leaf kind :: following
  | .span style content => .mk (.emphasis style) (nodesFrom page none content) :: following

theorem nodesFrom_cons {previous : Option Char} {c : Char} {cs : Text} {token : Token} {n : Nat}
    (h : scan page previous c cs = (token, n)) :
    nodesFrom page previous (c :: cs) =
      token.nodes page (nodesFrom page (c :: cs)[n - 1]? ((c :: cs).drop n)) := by
  rw [nodesFrom]
  split
  next token' m heq =>
    obtain ⟨rfl, rfl⟩ : token = token' ∧ n = m := by simpa using h.symm.trans heq
    cases token <;> rfl

/-! ### What a token can be -/

/-- What a mark embeds in a line by name or by target, without a text of its own.  A
macro use that stands in a line is not a block. -/
inductive Embedded : Kind → Prop
  | anchor (id : Text) : Embedded (.anchor id)
  | link (link : Link) : Embedded (.link link)
  | image (link : Link) : Embedded (.image link)
  | directive (directive : Directive) : Embedded (.directive directive)
  | invocation {call : Invocation} : call.block = false → Embedded (.invocation call)

theorem embedded_of_imageKind? {body : Text} {kind : Kind}
    (h : imageKind? page body = some kind) : Embedded kind := by
  unfold imageKind? at h
  split at h
  · next id =>
    simp only at h
    split at h
    · simp at h
    · obtain rfl : Kind.anchor (Text.trim id) = kind := by simpa using h
      exact .anchor _
  · obtain ⟨image, -, rfl⟩ := Option.map_eq_some_iff.mp h
    exact .image image

theorem embedded_of_callKind? {body : Text} {kind : Kind} (h : callKind? body = some kind) :
    Embedded kind := by
  simp only [callKind?] at h
  generalize (splitSign body).1 = sign at h
  split at h
  all_goals
    rw [Option.ite_none_right_eq_some, Option.some.injEq] at h
    obtain ⟨-, rfl⟩ := h
    cases sign with
    | some enabled => exact .directive _
    | none => exact .invocation rfl

/-- The token for a text that a mark encloses keeps the text, or embeds something else. -/
theorem eq_of_token? {mark : Mark} {body : Text} {token : Token}
    (h : mark.token? page body = some token) :
    (mark = .escape ∧ token = .literal body) ∨ token = .leaf (.inlineNowiki body) ∨
      ∃ kind, token = .leaf kind ∧ Embedded kind := by
  cases mark with
  | escape => exact Or.inl ⟨rfl, by simpa [Mark.token?, eq_comm] using h⟩
  | verbatim => exact Or.inr (Or.inl (by simpa [Mark.token?, eq_comm] using h))
  | image =>
      obtain ⟨kind, hkind, rfl⟩ := Option.map_eq_some_iff.mp h
      exact Or.inr (Or.inr ⟨kind, rfl, embedded_of_imageKind? hkind⟩)
  | link =>
      obtain ⟨link, -, rfl⟩ := Option.map_eq_some_iff.mp h
      exact Or.inr (Or.inr ⟨_, rfl, .link link⟩)
  | call =>
      obtain ⟨kind, hkind, rfl⟩ := Option.map_eq_some_iff.mp h
      exact Or.inr (Or.inr ⟨kind, rfl, embedded_of_callKind? hkind⟩)
  | lineBreak | style => simp [Mark.token?] at h

/-- What a text begins with: a token, and the number of characters that it covers. -/
inductive Begins (page : PageRef) : Text → Token → Nat → Prop
  | url (s url : Text) : Begins page s (.leaf (.link (linkTo .link page url url))) url.length
  | code {s language code : Text} :
      codeSpan? s = some (language, code) →
      Begins page s (.leaf (.inlineCode code (some language))) (codeLength language code)
  | char (c : Char) (cs : Text) : Begins page (c :: cs) (.literal [c]) 1
  /-- A mark that begins nothing. -/
  | mark (mark : Mark) (rest : Text) :
      Begins page (mark.text ++ rest) (.literal mark.text) mark.text.length
  | lineBreak (rest : Text) :
      Begins page (Mark.lineBreak.text ++ rest) (.leaf .linebreak) Mark.lineBreak.text.length
  | span (style : Style) {rest : Text} (n : Nat) :
      rest ≠ [] →
      Begins page ((Mark.style style).text ++ rest) (.span style (rest.take (n + 1)))
        (2 * (Mark.style style).text.length + (n + 1))
  | enclosed {mark : Mark} {rest body : Text} {token : Token} :
      mark.body? rest = some body → mark.token? page body = some token →
      Begins page (mark.text ++ rest) token (mark.reach body)

theorem begins_of_scan? {mark : Mark} {rest : Text} {token : Token} {n : Nat}
    (h : mark.scan? page rest = some (token, n)) : Begins page (mark.text ++ rest) token n := by
  unfold Mark.scan? at h
  split at h
  · obtain ⟨rfl, rfl⟩ : _ = token ∧ Mark.lineBreak.text.length = n := by simpa using h
    exact .lineBreak rest
  · next emphasis =>
    simp only [spanToken?] at h
    split at h
    · next m hclosing =>
      obtain ⟨rfl, rfl⟩ : _ = token ∧ 2 * (Mark.style emphasis).text.length + (m + 1) = n := by
        simpa using h
      refine .span emphasis m ?_
      -- nothing closes behind the end of a text
      rintro rfl
      simp [closing?] at hclosing
    · simp at h
  · split at h
    · next body hbody =>
      obtain ⟨found, htoken, heq⟩ := Option.map_eq_some_iff.mp h
      obtain ⟨rfl, rfl⟩ : found = token ∧ mark.reach body = n := by simpa using heq
      exact .enclosed hbody htoken
    · simp at h

theorem begins_of_scan {previous : Option Char} {c : Char} {cs : Text} {token : Token} {n : Nat}
    (h : scan page previous c cs = (token, n)) : Begins page (c :: cs) token n := by
  unfold scan at h
  split at h
  · next url _ =>
    obtain ⟨rfl, rfl⟩ : _ = token ∧ url.length = n := by simpa using h
    exact .url _ url
  · split at h
    · next language code hcode =>
      obtain ⟨rfl, rfl⟩ : _ = token ∧ codeLength language code = n := by simpa using h
      exact .code hcode
    · split at h
      · next mark hmark =>
        obtain ⟨rest, heq⟩ := eq_of_of? hmark
        rw [heq, List.drop_left] at h
        rw [heq]
        cases hscan : mark.scan? page rest with
        | none =>
            obtain ⟨rfl, rfl⟩ : Token.literal mark.text = token ∧ mark.text.length = n := by
              simpa [hscan] using h
            exact .mark mark rest
        | some result =>
            obtain rfl : result = (token, n) := by simpa [hscan] using h
            exact begins_of_scan? hscan
      · obtain ⟨rfl, rfl⟩ : Token.literal [c] = token ∧ 1 = n := by simpa using h
        exact .char c cs

/-! ### Induction -/

/-- What holds of no nodes, and of the nodes of a token where it holds of those behind
it and of those inside it, holds of the nodes of every text. -/
@[elab_as_elim]
theorem nodesFrom_induction {motive : Text → List Node → Prop} (nil : motive [] [])
    (token : ∀ c cs token n following, Begins page (c :: cs) token n →
      (∀ style content, token = .span style content →
        motive content (nodesFrom page none content)) →
      motive ((c :: cs).drop n) following → motive (c :: cs) (token.nodes page following))
    (previous : Option Char) (s : Text) : motive s (nodesFrom page previous s) := by
  match s with
  | [] =>
      rw [nodesFrom]
      exact nil
  | c :: cs =>
      rcases hscan : scan page previous c cs with ⟨found, n⟩
      rw [nodesFrom_cons hscan]
      refine token c cs found n _ (begins_of_scan hscan) ?_ (nodesFrom_induction nil token _ _)
      intro style content hspan
      exact nodesFrom_induction nil token none content
termination_by s.length
decreasing_by
  · exact length_lt_of_scan_span (hspan ▸ hscan)
  · have hlength := one_le_scan_length page previous c cs
    simp only [hscan] at hlength
    simp only [List.length_drop, List.length_cons]
    omega

end Creole.Inline
