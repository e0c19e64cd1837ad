import Creole.Proofs.Inline.Kept
import Creole.Proofs.Inline.Leaves
import Creole.Proofs.Text.Occurrences

/-!
# Looking ahead in a part of a text

The text inside an emphasis is read again without the text behind it.  The look-ahead takes the
same strides there (`atomicLength_append`): more text may make a construct longer and may
complete one, but never undoes one (`exists_atomicLength_append`), and a construct that ends
where the part ends, or before, stands in the part as well (`atomicLength_of_append`).

For the second fact it matters that an emphasis ends with a mark.  The characters of the mark
could continue a URL, and would not be dropped from its end, so that a URL which ends before the
mark does not end because of it.

## Strategy

The look-ahead steps over a URL, a code span, or a mark with what it encloses
(`atomicLength_eq_some_iff`).  Both facts are proved for each of the three.
-/

namespace Creole.Inline

open List Text

variable {s t : Text} {previous : Option Char} {n : Nat}

/-! ## Marks of emphasis -/

/-- A mark of emphasis begins with a character of URLs, at which no URL ends. -/
theorem exists_cons_of_opens_style {style : Style} (h : opens (Mark.style style).text t = true) :
    ∃ c more, t = c :: more ∧ isUrlChar c = true ∧ isUrlTrailing c = false ∧ c ≠ '{' := by
  obtain ⟨more, rfl⟩ := opens_iff.mp h
  cases style <;> exact ⟨_, _, rfl, by decide +kernel, by decide +kernel, by decide⟩

/-! ## URLs -/

/-- What a URL has behind its scheme. -/
def urlTail (rest : Text) : Text := dropTrailing isUrlTrailing (rest.takeWhile isUrlChar)

/-- No scheme begins with another. -/
theorem find?_urlSchemes {scheme : Text} (h : scheme ∈ urlSchemes) (rest : Text) :
    urlSchemes.find? (opens · (scheme ++ rest)) = some scheme := by
  simp only [urlSchemes, mem_cons, not_mem_nil, or_false] at h
  rcases h with rfl | rfl | rfl | rfl <;> rfl

theorem rawUrl?_eq_some_iff {url : Text} :
    rawUrl? previous s = some url ↔
      ∃ scheme ∈ urlSchemes, ∃ rest, s = scheme ++ rest ∧ urlTail rest ≠ [] ∧
        previous.any isAlphanumeric = false ∧ url = scheme ++ urlTail rest := by
  constructor
  · intro h
    unfold rawUrl? at h
    split at h
    · cases h
    · next scheme hfind =>
      have hopens := find?_some hfind
      obtain ⟨rest, rfl⟩ := opens_iff.mp hopens
      rw [drop_left] at h
      simp only [Option.ite_none_left_eq_some, Bool.or_eq_true, not_or, List.isEmpty_iff,
        Bool.not_eq_true, Option.some.injEq] at h
      obtain ⟨⟨htail, hprevious⟩, rfl⟩ := h
      exact ⟨scheme, mem_of_find?_eq_some hfind, rest, rfl, htail, hprevious, rfl⟩
  · rintro ⟨scheme, hscheme, rest, rfl, htail, hprevious, rfl⟩
    unfold rawUrl?
    unfold urlTail at htail ⊢
    rw [find?_urlSchemes hscheme]
    simp [htail, hprevious]

theorem urlTail_eq_nil_iff :
    urlTail s = [] ↔ ∀ c ∈ s.takeWhile isUrlChar, isUrlTrailing c = true := by
  simp [urlTail, dropTrailing]

theorem urlTail_append_ne_nil (h : urlTail s ≠ []) (t : Text) : urlTail (s ++ t) ≠ [] := by
  intro hnil
  rw [urlTail_eq_nil_iff] at hnil
  refine h (urlTail_eq_nil_iff.mpr fun c hc => hnil c ?_)
  rw [takeWhile_append]
  split
  · exact mem_append_left _ ((takeWhile_sublist isUrlChar).subset hc)
  · exact hc

/-- A URL that does not reach the mark of emphasis behind it ends without the mark. -/
theorem urlTail_of_append {style : Style} (ht : opens (Mark.style style).text t = true)
    (hlength : (urlTail (s ++ t)).length ≤ s.length) : urlTail s = urlTail (s ++ t) := by
  obtain ⟨c, more, rfl, hurl, htrailing, -⟩ := exists_cons_of_opens_style ht
  unfold urlTail at hlength ⊢
  rw [takeWhile_append] at hlength ⊢
  by_cases hwhole : (s.takeWhile isUrlChar).length = s.length
  · -- the run goes on into the mark, and keeps at least the first character of it
    rw [if_pos hwhole, takeWhile_cons_of_pos hurl, dropTrailing_append_cons htrailing,
      length_append, length_cons] at hlength
    omega
  · rw [if_neg hwhole]

theorem exists_rawUrl?_append {url : Text} (h : rawUrl? previous s = some url) (t : Text) :
    ∃ longer, rawUrl? previous (s ++ t) = some longer := by
  obtain ⟨scheme, hscheme, rest, rfl, htail, hprevious, rfl⟩ := rawUrl?_eq_some_iff.mp h
  exact ⟨_, rawUrl?_eq_some_iff.mpr ⟨scheme, hscheme, rest ++ t, append_assoc _ _ _,
    urlTail_append_ne_nil htail t, hprevious, rfl⟩⟩

theorem rawUrl?_of_append {style : Style} (ht : opens (Mark.style style).text t = true)
    {url : Text} (h : rawUrl? previous (s ++ t) = some url) (hlength : url.length ≤ s.length) :
    rawUrl? previous s = some url := by
  obtain ⟨scheme, hscheme, rest, heq, htail, hprevious, rfl⟩ := rawUrl?_eq_some_iff.mp h
  rw [length_append] at hlength
  obtain ⟨behind, rfl⟩ : scheme <+: s :=
    prefix_of_prefix_length_le ⟨rest, heq.symm⟩ (prefix_append s t) (by omega)
  obtain rfl : behind ++ t = rest := by simpa using heq
  have hsame : urlTail behind = urlTail (behind ++ t) := by
    refine urlTail_of_append ht ?_
    rw [length_append] at hlength
    omega
  rw [← hsame] at htail ⊢
  exact rawUrl?_eq_some_iff.mpr ⟨scheme, hscheme, behind, rfl, htail, hprevious, rfl⟩

/-! ## Code spans -/

/-- What is cut off at a mark does not hold the mark. -/
theorem closes_of_cut? {closing body rest : Text} (h : cut? closing s = some (body, rest)) :
    Closes closing body := by
  have heq := eq_of_cut? h
  induction body generalizing s with
  | nil =>
      have hself := cut?_append_self closing []
      rwa [append_nil] at hself
  | cons c body ih =>
      subst heq
      rw [cons_append, cons_append] at h
      cases hopens : opens closing (c :: (body ++ closing ++ rest)) with
      | true =>
          obtain ⟨behind, heq⟩ := opens_iff.mp hopens
          rw [heq, cut?_append_self] at h
          simp at h
      | false =>
          have hshorter : opens closing (c :: (body ++ closing)) = false :=
            Bool.eq_false_iff.mpr fun hopens' =>
              Bool.eq_false_iff.mp hopens (opens_append_of_opens hopens' rest)
          rw [cut?_cons_of_opens hopens] at h
          obtain ⟨⟨before, behind⟩, hcut, hparts⟩ := Option.map_eq_some_iff.mp h
          obtain ⟨rfl, rfl⟩ : before = body ∧ behind = rest := by simpa using hparts
          rw [Closes, cons_append, cut?_cons_of_opens hshorter, ih hcut rfl]
          rfl

theorem isPrefix_of_codeSpan? {language code : Text} (h : codeSpan? s = some (language, code)) :
    printCode code language <+: s := by
  obtain ⟨behind, rfl⟩ := eq_of_codeSpan? h
  refine ⟨behind, ?_⟩
  rw [printCode]
  simp only [append_assoc]

theorem closes_of_codeSpan? {language code : Text} (h : codeSpan? s = some (language, code)) :
    language ≠ [] ∧ language.all isLanguageChar = true ∧ Closes (codeEnd language) code := by
  obtain ⟨inside, behind, -, hlanguage, hchars, hcut⟩ := cut?_of_codeSpan? h
  exact ⟨hlanguage, hchars, closes_of_cut? hcut⟩

theorem codeSpan?_of_isPrefix {language code : Text} (h : codeSpan? s = some (language, code))
    (ht : printCode code language <+: t) : codeSpan? t = some (language, code) := by
  obtain ⟨hlanguage, hchars, hcode⟩ := closes_of_codeSpan? h
  obtain ⟨tail, rfl⟩ := ht
  exact codeSpan?_printCode hlanguage hchars hcode tail

/-! ## Marks and what they enclose -/

section Mark

variable {mark : Mark} {body rest : Text}

/-- A brace behind an image mark would make a verbatim mark of it. -/
theorem head?_ne_of_of? (h : Mark.of? (Mark.image.text ++ rest) = some .image) :
    rest.head? ≠ some '{' := by
  intro hhead
  obtain ⟨more, rfl⟩ := head?_eq_some_iff.mp hhead
  have hverbatim : Mark.of? (Mark.verbatim.text ++ more) = some .verbatim :=
    of?_append .verbatim (by simp)
  exact absurd (h.symm.trans hverbatim) (by simp)

/-- A mark stays what it is, unless it stands alone and a brace makes another mark of it. -/
theorem of?_append_of_head (h : Mark.of? (mark.text ++ rest) = some mark)
    (ht : mark = .image → rest = [] → t.head? ≠ some '{') :
    Mark.of? (mark.text ++ rest ++ t) = some mark := by
  rw [append_assoc]
  refine of?_append mark fun himage => ?_
  subst himage
  cases rest with
  | nil => exact ht rfl rfl
  | cons c rest =>
      have hhead := head?_ne_of_of? h
      exact hhead

theorem of?_append_of_body? (h : Mark.of? (mark.text ++ rest) = some mark)
    (hbody : mark.body? rest = some body) (t : Text) :
    Mark.of? (mark.text ++ rest ++ t) = some mark := by
  refine of?_append_of_head h fun himage hrest => ?_
  subst himage hrest
  cases hbody

theorem of?_of_append (h : Mark.of? (s ++ t) = some mark)
    (hlength : mark.text.length ≤ s.length) : Mark.of? s = some mark := by
  obtain ⟨rest, heq⟩ := eq_of_of? h
  obtain ⟨behind, rfl⟩ : mark.text <+: s :=
    prefix_of_prefix_length_le ⟨rest, heq.symm⟩ (prefix_append s t) hlength
  refine of?_append mark fun himage => ?_
  subst himage
  rw [append_assoc] at h
  have hhead := head?_ne_of_of? h
  cases behind with
  | nil => simp
  | cons c behind => exact hhead

theorem body?_eq_cut? (h : mark ∈ [.image, .link, .call]) :
    mark.body? rest = (cut? mark.closing rest).map (·.1) := by
  simp only [mem_cons, not_mem_nil, or_false] at h
  rcases h with rfl | rfl | rfl <;> rfl

/-- What is cut off in a longer text is cut off in a part that reaches as far. -/
theorem exists_cut?_of_append {closing before : Text}
    (h : cut? closing (s ++ t) = some (before, rest))
    (hlength : before.length + closing.length ≤ s.length) :
    ∃ behind, rest = behind ++ t ∧ cut? closing s = some (before, behind) := by
  have heq := eq_of_cut? h
  obtain ⟨behind, rfl⟩ : before ++ closing <+: s :=
    prefix_of_prefix_length_le ⟨rest, heq.symm⟩ (prefix_append s t) (by simpa using hlength)
  refine ⟨behind, by simpa using heq.symm, ?_⟩
  rw [append_assoc]
  exact cut?_of_closes (closes_of_cut? h) behind

theorem exists_body?_append (h : mark.body? s = some body) (t : Text) :
    ∃ longer, mark.body? (s ++ t) = some longer := by
  have hcut {closing before behind : Text} (h : cut? closing s = some (before, behind)) :=
    cut?_append h t
  cases mark with
  | escape =>
      cases s with
      | nil => cases h
      | cons c s => exact ⟨body, h⟩
  | verbatim =>
      obtain ⟨⟨before, behind⟩, hfound, -⟩ := Option.map_eq_some_iff.mp h
      exact ⟨_, by rw [Mark.body?, hcut hfound]; rfl⟩
  | lineBreak | style => cases h
  | _ =>
      rw [body?_eq_cut? (by simp)] at h ⊢
      obtain ⟨⟨before, behind⟩, hfound, -⟩ := Option.map_eq_some_iff.mp h
      exact ⟨_, by rw [hcut hfound]; rfl⟩

theorem body?_of_append (h : mark.body? (s ++ t) = some body)
    (hlength : body.length + mark.closing.length ≤ s.length) : mark.body? s = some body := by
  cases mark with
  | escape =>
      cases s with
      | nil =>
          -- the character that is escaped is not in the part
          cases t with
          | nil => cases h
          | cons c t =>
              obtain ⟨-, rfl⟩ : isBlank c = false ∧ [c] = body := by simpa [Mark.body?] using h
              simp at hlength
      | cons c s => exact h
  | verbatim =>
      obtain ⟨⟨before, more⟩, hfound, rfl⟩ := Option.map_eq_some_iff.mp h
      rw [length_append] at hlength
      obtain ⟨behind, rfl, hcut⟩ := exists_cut?_of_append hfound (by omega)
      have hpart := length_of_cut? hcut
      have hbraces : behind.takeWhile (· = '}') = (behind ++ t).takeWhile (· = '}') := by
        calc behind.takeWhile (· = '}')
            = ((behind ++ t).take behind.length).takeWhile (· = '}') := by rw [take_left]
          _ = ((behind ++ t).takeWhile (· = '}')).take behind.length := take_takeWhile.symm
          _ = (behind ++ t).takeWhile (· = '}') := take_of_length_le (by omega)
      simp only [Mark.body?, hcut, Option.map_some, hbraces]
  | lineBreak | style => cases h
  | _ =>
      rw [body?_eq_cut? (by simp)] at h ⊢
      obtain ⟨⟨before, more⟩, hfound, rfl⟩ := Option.map_eq_some_iff.mp h
      obtain ⟨behind, -, hcut⟩ := exists_cut?_of_append hfound hlength
      rw [hcut]
      rfl

end Mark

/-! ## Strides -/

/-- The look-ahead steps over a URL, over a code span, or over a mark with what it encloses. -/
theorem atomicLength_eq_some_iff :
    atomicLength previous s = some n ↔
      (∃ url ∈ rawUrl? previous s, url.length = n) ∨
        (∃ language code, codeSpan? s = some (language, code) ∧ codeLength language code = n) ∨
          ∃ mark ∈ Mark.of? s, ∃ body ∈ mark.body? (s.drop mark.text.length),
            mark.reach body = n := by
  constructor
  · intro h
    unfold atomicLength at h
    split at h
    · next url hurl => exact Or.inl ⟨url, hurl, Option.some.inj h⟩
    · split at h
      · next language code hcode => exact Or.inr (Or.inl ⟨language, code, hcode, Option.some.inj h⟩)
      · split at h
        · next mark hmark =>
          obtain ⟨body, hbody, hreach⟩ := Option.map_eq_some_iff.mp h
          exact Or.inr (Or.inr ⟨mark, hmark, body, hbody, hreach⟩)
        · cases h
  · rintro (⟨url, hurl, rfl⟩ | ⟨language, code, hcode, rfl⟩ | ⟨mark, hmark, body, hbody, rfl⟩)
    · rw [atomicLength, Option.mem_def.mp hurl]
    · obtain ⟨behind, rfl⟩ := isPrefix_of_codeSpan? hcode
      have hurl : rawUrl? previous (printCode code language ++ behind) = none :=
        rawUrl?_eq_none (by decide) previous _
      rw [atomicLength, hurl, hcode]
    · rw [atomicLength_of_mark hmark, Option.mem_def.mp hbody]
      rfl

/-- More text does not undo a construct that the look-ahead steps over. -/
theorem exists_atomicLength_append (h : atomicLength previous s = some n) (t : Text) :
    ∃ m, atomicLength previous (s ++ t) = some m := by
  rcases atomicLength_eq_some_iff.mp h with
    ⟨url, hurl, -⟩ | ⟨language, code, hcode, -⟩ | ⟨mark, hmark, body, hbody, -⟩
  · obtain ⟨longer, hlonger⟩ := exists_rawUrl?_append hurl t
    exact ⟨_, atomicLength_eq_some_iff.mpr (Or.inl ⟨longer, hlonger, rfl⟩)⟩
  · have hprefix := (isPrefix_of_codeSpan? hcode).trans (prefix_append s t)
    exact ⟨_, atomicLength_eq_some_iff.mpr
      (Or.inr (Or.inl ⟨language, code, codeSpan?_of_isPrefix hcode hprefix, rfl⟩))⟩
  · obtain ⟨rest, rfl⟩ := eq_of_of? hmark
    rw [drop_left] at hbody
    obtain ⟨longer, hlonger⟩ := exists_body?_append hbody t
    have hfound := of?_append_of_body? hmark hbody t
    refine ⟨mark.reach longer, atomicLength_eq_some_iff.mpr
      (Or.inr (Or.inr ⟨mark, hfound, longer, ?_, rfl⟩))⟩
    rw [append_assoc, drop_left]
    exact hlonger

theorem atomicLength_of_append {style : Style} (ht : opens (Mark.style style).text t = true)
    (h : atomicLength previous (s ++ t) = some n) (hlength : n ≤ s.length) :
    atomicLength previous s = some n := by
  rcases atomicLength_eq_some_iff.mp h with
    ⟨url, hurl, rfl⟩ | ⟨language, code, hcode, rfl⟩ | ⟨mark, hmark, body, hbody, rfl⟩
  · exact atomicLength_eq_some_iff.mpr (Or.inl ⟨url, rawUrl?_of_append ht hurl hlength, rfl⟩)
  · have hprefix : printCode code language <+: s :=
      prefix_of_prefix_length_le (isPrefix_of_codeSpan? hcode) (prefix_append s t)
        (length_printCode code language ▸ hlength)
    exact atomicLength_eq_some_iff.mpr
      (Or.inr (Or.inl ⟨language, code, codeSpan?_of_isPrefix hcode hprefix, rfl⟩))
  · rw [Mark.reach] at hlength
    have hmark' : Mark.of? s = some mark := of?_of_append hmark (by omega)
    obtain ⟨rest, rfl⟩ := eq_of_of? hmark'
    rw [append_assoc, drop_left] at hbody
    rw [length_append] at hlength
    refine atomicLength_eq_some_iff.mpr (Or.inr (Or.inr ⟨mark, hmark', body, ?_, rfl⟩))
    rw [drop_left]
    exact body?_of_append hbody (by omega)

/-- In front of a mark of emphasis, the look-ahead takes the strides that it takes without what
follows, as long as they do not reach the mark. -/
theorem atomicLength_append {style : Style} (ht : opens (Mark.style style).text t = true)
    (hstride : stride previous (s ++ t) ≤ s.length) :
    atomicLength previous (s ++ t) = atomicLength previous s := by
  cases hlonger : atomicLength previous (s ++ t) with
  | some n =>
      rw [stride, hlonger] at hstride
      exact (atomicLength_of_append ht hlonger hstride).symm
  | none =>
      cases hpart : atomicLength previous s with
      | none => rfl
      | some m =>
          obtain ⟨n, hn⟩ := exists_atomicLength_append hpart t
          exact absurd (hlonger.symm.trans hn) (by simp)

end Creole.Inline
