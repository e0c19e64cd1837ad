import Creole.Proofs.Inline.Tokens
import Creole.Proofs.Node.Joined
import Creole.Proofs.Text.Kept

/-!
# Inline markup keeps its text

The texts of the nodes that a text is read as are found in it, in their order and
without overlap (`nodesFrom_sublist`).

## Strategy

A token comes from the characters that it covers: the text that it keeps is a sublist
of them (`text_sublist_of_begins`).  Tokens stand side by side, so the rest is an
induction over them.  The only construct whose text is not simply cut out is
verbatim text, where braces behind the first closing mark change places with it
(`prefix_of_body?`).
-/

namespace Creole.Inline

open List

variable {page : PageRef} {mark : Mark} {rest body : Text}

/-! ### Bodies and code spans -/

/-- The text that a mark encloses stands at the start of what follows the mark, with
its end behind it. -/
theorem prefix_of_body? (h : mark.body? rest = some body) : body ++ mark.closing <+: rest := by
  have hcut {closing : Text} (h : (Text.cut? closing rest).map (·.1) = some body) :
      body ++ closing <+: rest := by
    obtain ⟨⟨before, behind⟩, hfound, rfl⟩ := Option.map_eq_some_iff.mp h
    exact ⟨behind, (Text.eq_of_cut? hfound).symm⟩
  unfold Mark.body? at h
  split at h
  · next c more =>
    split at h
    · simp at h
    · obtain rfl : [c] = body := by simpa using h
      exact ⟨more, rfl⟩
  · obtain ⟨⟨before, more⟩, hfound, rfl⟩ := Option.map_eq_some_iff.mp h
    have hbraces : ∀ c ∈ more.takeWhile (· = '}'), c = '}' := by
      intro c hc
      simpa using all_eq_true.mp all_takeWhile c hc
    -- the braces behind the first closing mark change places with it
    refine ⟨more.dropWhile (· = '}'), ?_⟩
    rw [append_assoc before, append_closing_verbatim hbraces, append_assoc, append_assoc,
      takeWhile_append_dropWhile, Text.eq_of_cut? hfound, append_assoc]
  · exact hcut h
  · exact hcut h
  · exact hcut h
  · simp at h

/-- A mark with the text that it encloses is as long as `Mark.reach` says. -/
theorem enclosed_eq_take (h : mark.body? rest = some body) :
    mark.text ++ body ++ mark.closing = (mark.text ++ rest).take (mark.reach body) := by
  have hprefix : mark.text ++ body ++ mark.closing <+: mark.text ++ rest := by
    rw [append_assoc]
    exact (prefix_append_right_inj mark.text).mpr (prefix_of_body? h)
  rw [prefix_iff_eq_take] at hprefix
  simpa [Mark.reach, Nat.add_assoc] using hprefix

/-- A code span names its language in a tag, behind which the code goes up to the end tag. -/
theorem cut?_of_codeSpan? {s language code : Text} (h : codeSpan? s = some (language, code)) :
    ∃ inside behind, s = "[<".toList ++ language ++ ">]".toList ++ inside ∧
      language ≠ [] ∧ language.all isLanguageChar = true ∧
      Text.cut? (codeEnd language) inside = some (code, behind) := by
  unfold codeSpan? at h
  simp only [Option.bind_eq_bind, Option.bind_eq_some_iff] at h
  obtain ⟨rest, htag, h⟩ := h
  split at h
  · cases h
  · next hlanguage =>
    obtain ⟨inside, hinside, h⟩ := Option.bind_eq_some_iff.mp h
    obtain ⟨⟨found, behind⟩, hcut, hparts⟩ := Option.bind_eq_some_iff.mp h
    obtain ⟨rfl, rfl⟩ : rest.takeWhile isLanguageChar = language ∧ found = code := by
      simpa using hparts
    refine ⟨inside, behind, ?_, by simpa using hlanguage, all_takeWhile, hcut⟩
    have hrest := takeWhile_append_dropWhile (p := isLanguageChar) (l := rest)
    rw [Text.after?_eq_some_iff.mp hinside] at hrest
    rw [Text.after?_eq_some_iff.mp htag]
    simpa only [append_assoc, append_cancel_left_eq] using hrest.symm

theorem eq_of_codeSpan? {s language code : Text} (h : codeSpan? s = some (language, code)) :
    ∃ behind, s = "[<".toList ++ language ++ ">]".toList ++ code ++
      (codeEnd language ++ behind) := by
  obtain ⟨inside, behind, rfl, -, -, hcut⟩ := cut?_of_codeSpan? h
  refine ⟨behind, ?_⟩
  rw [Text.eq_of_cut? hcut]
  simp only [append_assoc]

/-! ### Tokens -/

/-- The text that a token keeps: what it writes itself, or what is still to be read. -/
def Token.text : Token → Text
  | .literal content => content
  | .leaf kind => kind.content?.getD []
  | .span _ content => content

theorem text_of_token? {token : Token} (h : mark.token? page body = some token) :
    token.text <+ body := by
  obtain ⟨-, rfl⟩ | rfl | ⟨kind, rfl, hkind⟩ := eq_of_token? h
  · exact Sublist.refl body
  · exact Sublist.refl body
  · cases hkind <;> exact nil_sublist body

/-- A token keeps a part of what it covers. -/
theorem text_sublist_of_begins {s : Text} {token : Token} {n : Nat} (h : Begins page s token n) :
    token.text <+ s.take n := by
  cases h with
  | url | lineBreak => exact nil_sublist _
  | char c cs => exact Sublist.refl [c]
  | mark mark rest =>
      rw [take_left]
      exact Sublist.refl mark.text
  | @code _ language code hcode =>
      obtain ⟨behind, rfl⟩ := eq_of_codeSpan? hcode
      have hlength : codeLength language code =
          ("[<".toList ++ language ++ ">]".toList ++ code ++ codeEnd language).length := by
        simp [codeLength]
        omega
      rw [← append_assoc, hlength, take_left]
      exact (sublist_append_right _ code).trans (sublist_append_left _ _)
  | @span style rest m _ =>
      have hreach : m + 1 ≤ 2 * (Mark.style style).text.length + (m + 1) -
          (Mark.style style).text.length := by omega
      rw [take_append]
      exact (take_prefix_take_left hreach).sublist.trans (sublist_append_right _ _)
  | @enclosed mark rest body _ hbody htoken =>
      rw [← enclosed_eq_take hbody]
      calc token.text <+ body := text_of_token? htoken
        _ <+ mark.text ++ body := sublist_append_right _ body
        _ <+ mark.text ++ body ++ mark.closing := sublist_append_left _ _

/-! ### Texts -/

/-- The nodes of a token, if what is inside it keeps its text, keep the text of the token. -/
theorem nodes_sublist (token : Token) (following : List Node)
    (hspan : ∀ style content, token = .span style content →
      (nodesFrom page none content).flatMap Node.plainText <+ content) :
    (token.nodes page following).flatMap Node.plainText <+
      token.text ++ following.flatMap Node.plainText := by
  cases token with
  | literal content =>
      have hprepend := Node.plainText_prepend_sublist (.text content) following
      have htext : (Node.text content).plainText = content := by
        simp [Node.text, Node.leaf, Kind.content?]
      rwa [htext] at hprepend
  | leaf kind => simp [Token.nodes, Token.text, Node.leaf]
  | span style content =>
      simpa [Token.nodes, Token.text, Kind.content?] using hspan style content rfl

/-- The nodes of a text keep no more than the text, wherever it stands. -/
theorem nodesFrom_sublist (page : PageRef) (previous : Option Char) (s : Text) :
    (nodesFrom page previous s).flatMap Node.plainText <+ s := by
  refine nodesFrom_induction ?_ ?_ previous s
  · exact Sublist.refl _
  · intro c cs token n following hbegins hspan hfollowing
    calc (token.nodes page following).flatMap Node.plainText
        <+ token.text ++ following.flatMap Node.plainText := nodes_sublist token following hspan
      _ <+ (c :: cs).take n ++ (c :: cs).drop n :=
        (text_sublist_of_begins hbegins).append hfollowing
      _ = c :: cs := take_append_drop n _

theorem parse_sublist (page : PageRef) (s : Text) :
    (parse page s).flatMap Node.plainText <+ s :=
  nodesFrom_sublist page none s

end Creole.Inline
