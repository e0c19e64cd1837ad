import Creole.Proofs.Inline.Agreement
import Creole.Proofs.Inline.Shape
import Creole.Proofs.Inline.Stops
import Creole.Proofs.Node.Path
import Mathlib.Data.Fintype.Card

/-!
# Emphasis inside emphasis

An emphasis ends at the first mark of its style that the look-ahead stops at, so that there
should be no emphasis of that style inside it, and no more than one of each style around any
text.  This holds of a text if the tokens of the scanner end where the look-ahead stops, that is
if nothing at its stops is hollow or overlapped (`unrepeated_of_inStep`).  Elsewhere the scanner
reads on inside of what the look-ahead stepped over, and finds marks there that the search has
not seen (`not_unrepeated_outOfStep`).

## Strategy

Inside emphasis, no mark of a style that is open stands at a stop.  This is part of `Readable`,
which holds at the stops behind a token if it holds at those in front of it
(`atStops_following`), and at the stops inside an emphasis with its style among those that are
open (`atStops_content`).  The rest is an induction over the text.
-/

namespace Creole

open List

/-- Whether a kind is emphasis. -/
def Kind.isEmphasis : Kind → Bool
  | .emphasis _ => true
  | _ => false

instance : Fintype Style where
  elems := {.bold, .italic, .strikethrough}
  complete style := by cases style <;> decide

namespace Node

/-! ## Emphasis in trees -/

/-- An emphasis has no emphasis of its own style below it. -/
def Unrepeated (node : Node) : Prop :=
  ∀ style, node.kind = .emphasis style → ∀ child ∈ node.children, .emphasis style ∉ child.kinds

/-- The styles of the emphasis in a tree. -/
def styles (node : Node) : Finset Style := {style | .emphasis style ∈ node.kinds}

theorem mem_styles {node : Node} {style : Style} :
    style ∈ node.styles ↔ .emphasis style ∈ node.kinds := by
  simp [styles]

/-- Where no emphasis repeats a style, there are at most as many around a node as there are
styles. -/
theorem nested_card_styles {node : Node} (h : node.Everywhere Unrepeated) :
    Nested Kind.isEmphasis node.styles.card node := by
  induction h with
  | @mk kind children hself _ ih =>
      have hsubset : ∀ child ∈ children, child.styles ⊆ (mk kind children).styles := by
        intro child hchild style hstyle
        exact mem_styles.mpr (mem_kinds_of_mem_children hchild (mem_styles.mp hstyle))
      cases hkind : kind.isEmphasis with
      | false =>
          refine nested_mk hkind fun child hchild => ?_
          exact (ih child hchild).mono (Finset.card_le_card (hsubset child hchild))
      | true =>
          obtain ⟨style, rfl⟩ : ∃ style, kind = .emphasis style := by
            cases kind <;> simp_all [Kind.isEmphasis]
          have hmem : style ∈ (mk (.emphasis style) children).styles := by
            rw [mem_styles, kinds_mk]
            exact mem_cons_self
          -- the style of the emphasis is missing below it
          have hbelow : ∀ child ∈ children,
              child.styles ⊆ (mk (.emphasis style) children).styles.erase style := by
            intro child hchild
            refine Finset.subset_erase.mpr ⟨hsubset child hchild, fun hrepeated => ?_⟩
            exact hself style rfl child hchild (mem_styles.mp hrepeated)
          rw [← Finset.card_erase_add_one hmem]
          refine nested_mk_succ fun child hchild => ?_
          exact (ih child hchild).mono (Finset.card_le_card (hbelow child hchild))

theorem card_styles_le (node : Node) : node.styles.card ≤ 3 := Finset.card_le_univ node.styles

end Node

namespace Inline

open Text Node

/-! ## Texts at the stops of the look-ahead -/

/-- A text begins with a mark that encloses nothing, and within the mark, behind its first
character, with something that the look-ahead steps over. -/
def Overlapped (s : Text) : Prop :=
  ∃ mark ∈ Mark.of? s, mark.body? (s.drop mark.text.length) = none ∧
    ∃ k < mark.text.length - 1, atomicLength s[k]? (s.drop (k + 1)) ≠ none

instance : DecidablePred Overlapped := fun s =>
  inferInstanceAs (Decidable (∃ mark ∈ Mark.of? s, _))

/-- Nothing that the look-ahead stops at is hollow or overlapped, so that each token of the
scanner ends where the look-ahead stops. -/
def InStep (page : PageRef) (s : Text) : Prop :=
  AtStops (fun t => ¬ Hollow page t ∧ ¬ Overlapped t) none s

instance (page : PageRef) : DecidablePred (InStep page) := fun s =>
  inferInstanceAs (Decidable (AtStops _ none s))

/-- What can be read at a stop inside emphasis of some styles: no mark that would end one of
them, and a token that ends where the look-ahead stops. -/
structure Readable (page : PageRef) (outer : List Style) (s : Text) : Prop where
  solid : ¬ Hollow page s
  apart : ¬ Overlapped s
  unmarked : ∀ style ∈ outer, opens (Mark.style style).text s = false

variable {page : PageRef} {outer : List Style} {previous : Option Char} {c : Char}
  {cs s t : Text} {token : Token} {style : Style} {n : Nat}

/-! ## Parts of a text -/

theorem not_hollow_of_append (hstride : stride previous (s ++ t) ≤ s.length)
    (h : ¬ Hollow page (s ++ t)) : ¬ Hollow page s := by
  rintro ⟨mark, hmark, body, hbody, htoken⟩
  obtain ⟨rest, rfl⟩ := eq_of_of? hmark
  rw [drop_left] at hbody
  obtain ⟨longer, hlonger⟩ := exists_body?_append hbody t
  have hfound := of?_append_of_body? hmark hbody t
  -- what the mark encloses in the longer text lies in the part
  have hsame : mark.body? rest = some longer := by
    refine body?_of_append hlonger ?_
    rw [stride, atomicLength_of_mark hfound, append_assoc, drop_left, hlonger] at hstride
    simp only [Option.map_some, Option.getD_some, Mark.reach, length_append] at hstride
    omega
  obtain rfl : body = longer := Option.some.inj (hbody.symm.trans hsame)
  refine h ⟨mark, hfound, body, ?_, htoken⟩
  rw [append_assoc, drop_left]
  exact hlonger

theorem not_overlapped_of_append (ht : opens (Mark.style style).text t = true)
    (hstride : stride previous (s ++ t) ≤ s.length) (h : ¬ Overlapped (s ++ t)) :
    ¬ Overlapped s := by
  rintro ⟨mark, hmark, hbody, k, hk, hinside⟩
  obtain ⟨rest, rfl⟩ := eq_of_of? hmark
  rw [drop_left] at hbody
  have hfound : Mark.of? (mark.text ++ rest ++ t) = some mark := by
    refine of?_append_of_head hmark fun _ _ => ?_
    obtain ⟨c, more, rfl, -, -, hc⟩ := exists_cons_of_opens_style ht
    simpa using hc
  have hlength := atomicLength_append ht hstride
  rw [atomicLength_of_mark hfound, atomicLength_of_mark hmark, append_assoc, drop_left, drop_left,
    hbody, Option.map_none, Option.map_eq_none_iff] at hlength
  refine h ⟨mark, hfound, ?_, k, hk, ?_⟩
  · rw [append_assoc, drop_left]
    exact hlength
  · obtain ⟨m, hm⟩ := Option.ne_none_iff_exists'.mp hinside
    obtain ⟨m', hm'⟩ := exists_atomicLength_append hm t
    have hkept : k + 1 ≤ (mark.text ++ rest).length := by
      rw [length_append]
      omega
    rw [getElem?_append_left (by omega), drop_append_of_le_length hkept, hm']
    simp

/-- What can be read in front of the mark that ends an emphasis can be read inside it, where the
style of the emphasis is open as well. -/
theorem Readable.of_append (h : Readable page outer (s ++ t))
    (hunmarked : opens (Mark.style style).text (s ++ t) = false)
    (ht : opens (Mark.style style).text t = true) (hstride : stride previous (s ++ t) ≤ s.length) :
    Readable page (style :: outer) s where
  solid := not_hollow_of_append hstride h.solid
  apart := not_overlapped_of_append ht hstride h.apart
  unmarked := by
    have hopen : ∀ other ∈ style :: outer, opens (Mark.style other).text (s ++ t) = false :=
      forall_mem_cons.mpr ⟨hunmarked, h.unmarked⟩
    intro other hother
    refine Bool.eq_false_iff.mpr fun hopens => ?_
    exact Bool.eq_false_iff.mp (hopen other hother) (opens_append_of_opens hopens t)

/-! ## Tokens -/

theorem getElem?_mark (mark : Mark) (rest : Text) :
    (mark.text ++ rest)[mark.text.length - 1]? = mark.text.getLast? := by
  have hmark := mark.one_le_length_text
  rw [getElem?_append_left (by omega), getLast?_eq_getElem?]

/-- A mark that encloses nothing is passed character by character. -/
theorem atStops_behind_mark {mark : Mark} {rest : Text}
    (h : AtStops (Readable page outer) previous (mark.text ++ rest))
    (hmark : Mark.of? (mark.text ++ rest) = some mark) (hbody : mark.body? rest = none) :
    AtStops (Readable page outer) mark.text.getLast? rest := by
  have hone := mark.one_le_length_text
  have hfirst : atomicLength previous (mark.text ++ rest) = none := by
    rw [atomicLength_of_mark hmark, drop_left, hbody, Option.map_none]
  have hapart : ¬ Overlapped (mark.text ++ rest) :=
    (h.here (append_ne_nil_of_left_ne_nil (text_ne_nil mark) rest)).apart
  have hsingles : ∀ k < mark.text.length - 1,
      atomicLength (mark.text ++ rest)[k]? ((mark.text ++ rest).drop (k + 1)) = none := by
    intro k hk
    by_contra hinside
    refine hapart ⟨mark, hmark, ?_, k, hk, hinside⟩
    rw [drop_left]
    exact hbody
  have hbehind := h.drop_singles hfirst hsingles
  rwa [Nat.sub_add_cancel hone, drop_left, getElem?_mark] at hbehind

/-- From a mark that encloses nothing, the look-ahead passes to the next one and behind it. -/
theorem atStops_behind_closing {mark : Mark} {rest : Text}
    (hmark : ∀ t, Mark.of? (mark.text ++ t) = some mark) (hbody : ∀ t, mark.body? t = none)
    (h : AtStops (Readable page outer) previous (mark.text ++ rest))
    (hclosing : closing? mark.text mark.text.getLast? rest = some (n + 1)) :
    AtStops (Readable page outer)
      (mark.text ++ rest)[2 * mark.text.length + (n + 1) - 1]?
      ((mark.text ++ rest).drop (2 * mark.text.length + (n + 1))) := by
  have hinside := atStops_behind_mark h (hmark rest) (hbody rest)
  have hend := hinside.drop_closing? hclosing
  obtain ⟨more, hmore⟩ := opens_iff.mp (opens_of_closing? hclosing)
  rw [hmore] at hend
  have hbehind := atStops_behind_mark hend (hmark more) (hbody more)
  have hone := mark.one_le_length_text
  have hlast : (mark.text ++ rest)[2 * mark.text.length + (n + 1) - 1]? = mark.text.getLast? := by
    calc (mark.text ++ rest)[2 * mark.text.length + (n + 1) - 1]?
        = (((mark.text ++ rest).drop mark.text.length).drop (n + 1))[mark.text.length - 1]? := by
          rw [getElem?_drop, getElem?_drop]
          congr 1
          omega
      _ = mark.text.getLast? := by rw [drop_left, hmore, getElem?_mark]
  have hdrop : (mark.text ++ rest).drop (2 * mark.text.length + (n + 1)) = more := by
    calc (mark.text ++ rest).drop (2 * mark.text.length + (n + 1))
        = (((mark.text ++ rest).drop mark.text.length).drop (n + 1)).drop mark.text.length := by
          rw [drop_drop, drop_drop]
          congr 1
          omega
      _ = more := by rw [drop_left, hmore, drop_left]
  rwa [hlast, hdrop]

/-- Where something can be read at the stops in front of a token, it can be read at those behind
the token. -/
theorem atStops_following (h : AtStops (Readable page outer) previous (c :: cs))
    (hscan : scan page previous c cs = (token, n)) :
    AtStops (Readable page outer) (c :: cs)[n - 1]? ((c :: cs).drop n) := by
  cases hlength : atomicLength previous (c :: cs) with
  | some m =>
      obtain ⟨found, hfound, -⟩ := exists_atomic hlength (h.here (by simp)).solid
      obtain ⟨-, rfl⟩ : found = token ∧ m = n := by simpa using hfound.symm.trans hscan
      have hbehind := h.drop_stride
      rwa [stride, hlength, Option.getD_some] at hbehind
  | none =>
      have hloose := loose_of_scan hlength hscan
      clear hscan
      generalize c :: cs = s at h hlength hloose ⊢
      cases hloose with
      | char hmark => exact h.drop_one hlength
      | mark hmark hbody =>
          rw [drop_left, getElem?_mark]
          exact atStops_behind_mark h hmark hbody
      | lineBreak rest =>
          rw [drop_left, getElem?_mark]
          exact atStops_behind_mark h (of?_append .lineBreak (by simp)) rfl
      | @span style _ _ hclosing =>
          exact atStops_behind_closing (fun _ => of?_append (.style style) (by simp))
            (fun _ => rfl) h hclosing

/-- Inside an emphasis its style is open, which was not open in front of it. -/
theorem atStops_content {content : Text} (h : AtStops (Readable page outer) previous (c :: cs))
    (hscan : scan page previous c cs = (.span style content, n)) :
    style ∉ outer ∧ AtStops (Readable page (style :: outer)) none content := by
  cases hlength : atomicLength previous (c :: cs) with
  | some m =>
      obtain ⟨found, hfound, hatomic⟩ := exists_atomic hlength (h.here (by simp)).solid
      obtain ⟨rfl, -⟩ : found = .span style content ∧ m = n := by
        simpa using hfound.symm.trans hscan
      cases hatomic
  | none =>
      have hloose := loose_of_scan hlength hscan
      have hunmarked := (h.here (by simp)).unmarked
      clear hscan
      generalize c :: cs = s at h hunmarked hloose
      cases hloose with
      | @span _ rest k hclosing =>
          have hstart := atStops_behind_mark h (of?_append (.style style) (by simp)) rfl
          refine ⟨fun hopen => ?_, ?_⟩
          · have hopens := opens_append (Mark.style style).text rest
            exact absurd (hunmarked style hopen) (by rw [hopens]; simp)
          · have hinside := hstart.take Readable.of_append hclosing
            -- no mark of emphasis is a letter or a number
            exact hinside.congr (by cases style <;> decide +kernel)

/-! ## Reading -/

theorem not_isEmphasis_of_begins {kind : Kind} (h : Begins page s (.leaf kind) n) :
    kind.isEmphasis = false := by
  have hholds := (leafKind_of_begins h).holds
  cases kind with
  | emphasis style => exact absurd rfl hholds.1
  | _ => rfl

/-- A tree in which no emphasis repeats the style of another around it, within the tree or
outside. -/
structure Fresh (outer : List Style) (node : Node) : Prop where
  unrepeated : node.Everywhere Unrepeated
  unopened : ∀ style ∈ outer, style ∉ node.styles

theorem fresh_leaf {kind : Kind} (h : kind.isEmphasis = false) : Fresh outer (.leaf kind) where
  unrepeated := everywhere_mk.mpr ⟨fun _ _ _ hchild => (not_mem_nil hchild).elim, by simp⟩
  unopened := by
    intro style _ hstyle
    obtain rfl : Kind.emphasis style = kind := by simpa [mem_styles] using hstyle
    cases h

theorem fresh_emphasis {children : List Node} (hnew : style ∉ outer)
    (h : ∀ child ∈ children, Fresh (style :: outer) child) :
    Fresh outer (.mk (.emphasis style) children) where
  unrepeated := by
    refine everywhere_mk.mpr ⟨?_, fun child hchild => (h child hchild).unrepeated⟩
    intro other heq child hchild hrepeated
    obtain rfl : style = other := by simpa using heq
    exact (h child hchild).unopened style mem_cons_self (mem_styles.mpr hrepeated)
  unopened := by
    intro other hother hstyle
    rw [mem_styles, kinds_mk] at hstyle
    rcases mem_cons.mp hstyle with heq | hbelow
    · obtain rfl : other = style := by simpa using heq
      exact hnew hother
    · obtain ⟨child, hchild, hkind⟩ := mem_flatMap.mp hbelow
      exact (h child hchild).unopened other (mem_cons_of_mem _ hother) (mem_styles.mpr hkind)

theorem fresh_nodesFrom {outer : List Style} {previous : Option Char} {s : Text}
    (h : AtStops (Readable page outer) previous s) :
    ∀ node ∈ nodesFrom page previous s, Fresh outer node := by
  match s with
  | [] => simp [nodesFrom]
  | c :: cs =>
      rcases hscan : scan page previous c cs with ⟨token, n⟩
      have hn : 1 ≤ n := by simpa [hscan] using one_le_scan_length page previous c cs
      have hfollowing := fresh_nodesFrom (atStops_following h hscan)
      rw [nodesFrom_cons hscan]
      intro node hnode
      cases token with
      | literal content =>
          have hmember : node ∈ (Node.text content).prepend _ := hnode
          rcases mem_of_mem_prepend hmember with rfl | hrest | ⟨_, _, rfl⟩
          · exact fresh_leaf rfl
          · exact hfollowing node hrest
          · exact fresh_leaf rfl
      | leaf kind =>
          rcases mem_cons.mp hnode with rfl | hrest
          · exact fresh_leaf (not_isEmphasis_of_begins (begins_of_scan hscan))
          · exact hfollowing node hrest
      | span style content =>
          obtain ⟨hnew, hcontent⟩ := atStops_content h hscan
          have hlt := length_lt_of_scan_span hscan
          have hinside := fresh_nodesFrom hcontent
          rcases mem_cons.mp hnode with rfl | hrest
          · exact fresh_emphasis hnew hinside
          · exact hfollowing node hrest
termination_by s.length
decreasing_by
  · simp only [length_drop, length_cons]
    omega
  · exact hlt

/-- Where the tokens of a text end at the stops of the look-ahead, no emphasis repeats the style
of another around it, so that there are three around any text at most. -/
theorem unrepeated_of_inStep (h : InStep page s) :
    ∀ node ∈ parse page s, node.Everywhere Unrepeated ∧
      ∀ path ∈ node.paths, path.countP Kind.isEmphasis ≤ 3 := by
  have hreadable : AtStops (Readable page []) none s :=
    h.imp fun t ht => ⟨ht.1, ht.2, by simp⟩
  intro node hnode
  have hfresh := fresh_nodesFrom hreadable node hnode
  refine ⟨hfresh.unrepeated, ?_⟩
  have hnested := nested_card_styles hfresh.unrepeated
  exact hnested.mono (card_styles_le node)

/-- A line with three emphases inside one another, and with marks that are escaped and marks that
are part of a link. -/
def sampleLine : Text := "**a //b --c-- [[d|**]]// ~** <<toc>>** e".toList

theorem unrepeated_of_inStep_sampleLine :
    InStep default sampleLine ∧
      (∃ node ∈ parse default sampleLine, ∃ path ∈ node.paths, path.countP Kind.isEmphasis = 3) ∧
      ∀ node ∈ parse default sampleLine, node.Everywhere Unrepeated ∧
        ∀ path ∈ node.paths, path.countP Kind.isEmphasis ≤ 3 := by
  have hstep : InStep default sampleLine := by decide +kernel
  exact ⟨hstep, by decide +kernel, unrepeated_of_inStep hstep⟩

/-- Out of step, an emphasis may have another inside that repeats its style.  The look-ahead steps
over a macro use without a name, or over code that begins within a mark, and the scanner reads
what is in it.  More than three emphases are around a text in this way. -/
theorem not_unrepeated_outOfStep :
    parse default "**<<**a**>>**".toList =
        [.mk (.emphasis .bold) [.text "<<".toList, .mk (.emphasis .bold) [.text "a".toList],
          .text ">>".toList]] ∧
      parse default "**[[<c>]**a**[</c>]**".toList =
        [.mk (.emphasis .bold) [.text "[[<c>]".toList, .mk (.emphasis .bold) [.text "a".toList],
          .text "[</c>]".toList]] ∧
      ∃ node ∈ parse default "**<<**[[|**\x7b\x7b|**x**\x7d\x7d**]]**>>**".toList,
        ∃ path ∈ node.paths, path.countP Kind.isEmphasis = 4 := by
  refine ⟨?_, ?_, ?_⟩
  · decide +kernel
  · decide +kernel
  · decide +kernel

end Inline

end Creole
