import Creole.Proofs.Inline.Marks
import Creole.Proofs.Inline.Print

/-!
# Printed leaves

Behind the markup of a printable kind the rest of a line may begin with anything but
a closing brace, which a verbatim text would take for its own (`Unbraced`).  With
such a rest, the scanner reads the kind back from its markup, and the look-ahead
steps over the markup as a whole.  This is `Whole`, which holds of every printable
kind but texts and line breaks (`whole_of_printable`).

## Strategy

What is enclosed by marks is found by `Mark.body?`, and is read by `Mark.token?`.
The first is a matter of where the closing mark stands (`Found`); the second undoes, part
by part, how the body was put together.  Code in a language has a mark of its own, and
is done on its own (`codeSpan?_printCode`).

What is shown of markup by going through it from the left, as both the look-ahead and the
cutting of table rows do, is shown of the leaves and put together (`Sequential.print`).
-/

namespace Creole.Inline

/-- A text that does not continue the braces that end a verbatim text. -/
def Unbraced (s : Text) : Prop := s.head? ≠ some '}'

/-! ## Bodies of links and images -/

section Titled

variable {closing source title : Text}

theorem splitTitle_titledBody (h : Titled closing source title) :
    splitTitle (titledBody source title) = (source, some title) := by
  rw [splitTitle, titledBody, Text.cut?_singleton h.bar]
  simp [h.trim_source, h.trim_title, h.title_ne_nil]

theorem linkOf?_titledBody (h : Titled closing source title) (handler : HandlerName)
    (page : PageRef) :
    linkOf? handler page (titledBody source title) = some (linkTo handler page source title) := by
  rw [linkOf?, splitTitle_titledBody h]
  simp [h.source_ne_nil]

theorem imageKind?_titledBody (h : Titled closing source title) (hhash : source.head? ≠ some '#')
    (page : PageRef) :
    imageKind? page (titledBody source title) =
      some (.image (linkTo .image page source title)) := by
  have hlink := linkOf?_titledBody h .image page
  obtain ⟨c, source, rfl⟩ := List.exists_cons_of_ne_nil h.source_ne_nil
  have hc : c ≠ '#' := by simpa using hhash
  unfold imageKind?
  split
  · next id heq =>
    injection heq with heq
    exact absurd heq hc
  · rw [hlink]
    rfl

end Titled

/-! ## Bodies of macro uses and directives -/

theorem isNameChar_of_isName {name : Text} (h : isName name = true) :
    ∀ c ∈ name, isNameChar c = true := by
  cases name with
  | nil => simp
  | cons c name =>
      rw [isName, Bool.and_eq_true, List.all_eq_true] at h
      refine List.forall_mem_cons.mpr ⟨?_, h.2⟩
      simp [isNameChar, Char.isAlphanum, h.1]

theorem isAlpha_of_isName {c : Char} {name : Text} (h : isName (c :: name) = true) :
    c.isAlpha = true := by
  rw [isName, Bool.and_eq_true] at h
  exact h.1

/-- What is used under a name: a directive if there is a sign, else a macro. -/
def callOf (name : Text) (args : Option Text) : (sign : Option Bool) → Kind
  | some enabled => .directive (.ofArgs name enabled args)
  | none => .invocation { name, args := Text.trim (args.getD []) }

/-- A call is taken apart at its first colon, since its name holds none. -/
theorem callKind?_of_splitSign {body name : Text} {sign : Option Bool} {args : Option Text}
    (hsign : splitSign body = (sign, callBody name args)) (hname : isName name = true) :
    callKind? body = some (callOf name args sign) := by
  have hcolon : ':' ∉ name :=
    fun hmem => absurd (isNameChar_of_isName hname ':' hmem) (by decide)
  unfold callKind?
  rw [hsign]
  cases args with
  | none =>
      simp only [callBody, Text.cut?_singleton_eq_none hcolon, hname, if_true]
      cases sign <;> rfl
  | some args =>
      simp only [callBody, Text.cut?_singleton hcolon, hname, if_true]
      cases sign <;> rfl

theorem splitSign_callBody {name : Text} (h : isName name = true) (args : Option Text) :
    splitSign (callBody name args) = (none, callBody name args) := by
  obtain ⟨c, name, rfl⟩ : ∃ c rest, name = c :: rest := by
    cases name with
    | nil => cases h
    | cons c name => exact ⟨c, name, rfl⟩
  have halpha := isAlpha_of_isName h
  have hplus : c ≠ '+' := by
    rintro rfl
    exact absurd halpha (by decide)
  have hminus : c ≠ '-' := by
    rintro rfl
    exact absurd halpha (by decide)
  obtain ⟨body, hbody⟩ : ∃ body, callBody (c :: name) args = c :: body := by
    cases args <;> exact ⟨_, rfl⟩
  rw [hbody]
  unfold splitSign
  split
  · next heq =>
    injection heq with heq
    exact absurd heq hplus
  · next heq =>
    injection heq with heq
    exact absurd heq hminus
  · rfl

theorem callKind?_invocationBody {name args : Text} (hname : isName name = true)
    (hargs : Text.trim args = args) :
    callKind? (invocationBody { name, args }) = some (.invocation { name, args }) := by
  rw [invocationBody, callKind?_of_splitSign (splitSign_callBody hname _) hname, callOf]
  by_cases hnil : args = []
  · subst hnil
    rfl
  · simp [hnil, hargs]

theorem ofArgs_intercalate {directive : Directive}
    (hargs : ∀ arg ∈ directive.args, Text.trim arg = arg ∧ ',' ∉ arg) :
    Directive.ofArgs directive.name directive.enabled
        (if directive.args = [] then none else some (List.intercalate [','] directive.args)) =
      directive := by
  obtain ⟨name, enabled, args⟩ := directive
  by_cases hnil : args = []
  · subst hnil
    rfl
  · have htrim : args.map Text.trim = args :=
      (List.map_congr_left fun arg harg => (hargs arg harg).1).trans (List.map_id args)
    simp only [hnil, if_false, Directive.ofArgs,
      List.splitOn_intercalate ',' (fun arg harg => (hargs arg harg).2) hnil, htrim]

theorem callKind?_directiveBody {directive : Directive} (hname : isName directive.name = true)
    (hargs : ∀ arg ∈ directive.args, Text.trim arg = arg ∧ ',' ∉ arg) :
    callKind? (directiveBody directive) = some (.directive directive) := by
  have hsign : ∀ body, splitSign ((if directive.enabled then '+' else '-') :: body) =
      (some directive.enabled, body) := by
    intro body
    cases directive.enabled <;> rfl
  rw [directiveBody, callKind?_of_splitSign (hsign _) hname, callOf,
    ofArgs_intercalate hargs]

/-! ## Bodies behind their marks -/

theorem cut?_of_closes {closing body : Text} (h : Closes closing body) (tail : Text) :
    Text.cut? closing (body ++ (closing ++ tail)) = some (body, tail) := by
  rw [← List.append_assoc]
  exact Text.cut?_append h tail

theorem body?_of_closes {mark : Mark} {body : Text} (hmark : mark ∈ [.image, .link, .call])
    (h : Closes mark.closing body) (tail : Text) :
    mark.body? (body ++ (mark.closing ++ tail)) = some body := by
  have hcut := cut?_of_closes h tail
  simp only [List.mem_cons, List.not_mem_nil, or_false] at hmark
  rcases hmark with rfl | rfl | rfl <;> rw [Mark.body?, hcut] <;> rfl

section Verbatim

variable {stem : Text}

theorem not_opens_verbatim {c : Char} (hlast : (c :: stem).getLast? ≠ some '}')
    (hincludes : Text.includes Mark.verbatim.closing (c :: stem) = false) (t : Text) :
    Text.opens Mark.verbatim.closing (c :: (stem ++ t)) = false := by
  refine Bool.eq_false_iff.mpr fun hopens => ?_
  obtain ⟨rest, heq⟩ := Text.opens_iff.mp hopens
  -- a stem shorter than the mark would end in a brace, a longer one would hold the mark
  match stem, hlast, hincludes, heq with
  | [], hlast, _, heq =>
      injection heq with hc
      exact hlast (congrArg some hc)
  | [d], hlast, _, heq =>
      injection heq with _ heq
      injection heq with hd
      exact hlast (congrArg some hd)
  | d :: e :: stem, _, hincludes, heq =>
      injection heq with hc heq
      injection heq with hd heq
      injection heq with he heq
      subst hc hd he
      exact absurd hincludes (by simp [Text.includes, Text.cut?, Text.after?, Mark.closing])

/-- A stem that neither holds three braces nor ends in one is cut off by three braces. -/
theorem cut?_verbatim (hlast : stem.getLast? ≠ some '}')
    (hincludes : Text.includes Mark.verbatim.closing stem = false) (t : Text) :
    Text.cut? Mark.verbatim.closing (stem ++ (Mark.verbatim.closing ++ t)) = some (stem, t) := by
  induction stem with
  | nil => exact Text.cut?_append_self _ t
  | cons c stem ih =>
      have hopens := not_opens_verbatim hlast hincludes
      have hopensStem : Text.opens Mark.verbatim.closing (c :: stem) = false := by
        simpa using hopens []
      have hincludesStem : Text.includes Mark.verbatim.closing stem = false := by
        simpa [Text.includes, Text.cut?_cons_of_opens hopensStem] using hincludes
      have hlastStem : stem.getLast? ≠ some '}' := by
        intro heq
        refine hlast ?_
        rw [List.getLast?_cons, heq]
        rfl
      rw [List.cons_append, Text.cut?_cons_of_opens (hopens _), ih hlastStem hincludesStem]
      rfl

end Verbatim

theorem body?_verbatim {content tail : Text}
    (h : Text.includes Mark.verbatim.closing (Text.dropTrailing (· = '}') content) = false)
    (htail : Unbraced tail) :
    Mark.verbatim.body? (content ++ (Mark.verbatim.closing ++ tail)) = some content := by
  have hsplit := Text.dropTrailing_append_trailing (· = '}') content
  generalize hrun : (content.reverse.takeWhile (· = '}')).reverse = run at hsplit
  have hbraces : ∀ c ∈ run, c = '}' := by
    intro c hc
    rw [← hrun, List.mem_reverse] at hc
    simpa using List.all_eq_true.mp List.all_takeWhile c hc
  have hlast : (Text.dropTrailing (· = '}') content).getLast? ≠ some '}' := by
    rw [Text.dropTrailing, List.getLast?_reverse]
    intro heq
    have hhead := List.head?_dropWhile_not (· = '}') content.reverse
    rw [heq] at hhead
    simp at hhead
  -- the run of braces is closed by its own first three, and as many are left behind it
  have hcommute : run ++ (Mark.verbatim.closing ++ tail) =
      Mark.verbatim.closing ++ (run ++ tail) := by
    rw [← List.append_assoc, append_closing_verbatim hbraces, List.append_assoc]
  have hend : tail.takeWhile (· = '}') = [] := by
    cases tail with
    | nil => rfl
    | cons c tail =>
        have hc : c ≠ '}' := by simpa [Unbraced] using htail
        simp [hc]
  have htaken : (run ++ tail).takeWhile (· = '}') = run := by
    rw [List.takeWhile_append_of_pos (by simpa using hbraces), hend, List.append_nil]
  rw [Mark.body?, ← hsplit, List.append_assoc, hcommute, cut?_verbatim hlast h]
  simp only [Option.map_some, htaken]

/-! ## Markup as a whole -/

/-- Markup that is scanned as one token, and stepped over by the look-ahead. -/
structure Whole (page : PageRef) (token : Token) (markup : Text) : Prop where
  scan : ∀ {tail cs : Text} {c : Char}, Unbraced tail → markup ++ tail = c :: cs →
    ∀ previous, scan page previous c cs = (token, markup.length)
  atomicLength : ∀ {tail : Text}, Unbraced tail →
    ∀ previous, atomicLength previous (markup ++ tail) = some markup.length
  style : ∀ {tail : Text}, Unbraced tail →
    ∀ style, Text.opens (Mark.style style).text (markup ++ tail) = false

theorem length_enclosed (mark : Mark) (body : Text) :
    (enclosed mark body).length = mark.reach body := by
  simp [enclosed, Mark.reach, Nat.add_assoc]

theorem scan?_of_body? {mark : Mark} {rest body : Text} (h : mark.body? rest = some body)
    (page : PageRef) :
    mark.scan? page rest = (mark.token? page body).map (·, mark.reach body) := by
  cases mark with
  | lineBreak | style style => cases h
  | _ => simp only [Mark.scan?, h, Option.map]

/-- A body that is found between a mark and what ends it, whatever follows but a closing brace. -/
structure Found (mark : Mark) (body : Text) : Prop where
  head : mark = .image → (body ++ mark.closing).head? ≠ some '{'
  body : ∀ {tail : Text}, Unbraced tail →
    mark.body? (body ++ (mark.closing ++ tail)) = some body

theorem enclosed_append (mark : Mark) (body tail : Text) :
    enclosed mark body ++ tail = mark.text ++ (body ++ (mark.closing ++ tail)) := by
  simp [enclosed]

theorem Found.of? {mark : Mark} {body : Text} (h : Found mark body) (tail : Text) :
    Mark.of? (enclosed mark body ++ tail) = some mark := by
  rw [enclosed_append]
  refine of?_append mark fun himage => ?_
  have hhead := h.head himage
  subst himage
  cases body with
  | nil => simp [Mark.closing]
  | cons c body => simpa using hhead

/-- What is enclosed by marks is whole if its body is found. -/
theorem whole_enclosed {mark : Mark} {body : Text} {page : PageRef} {token : Token}
    (h : Found mark body) (htoken : mark.token? page body = some token) :
    Whole page token (enclosed mark body) := by
  refine ⟨?_, ?_, ?_⟩
  · intro tail cs c htail heq previous
    rw [scan_of_mark (heq ▸ h.of? tail), ← heq, enclosed_append, List.drop_left,
      scan?_of_body? (h.body htail), htoken, length_enclosed]
    rfl
  · intro tail htail previous
    rw [atomicLength_of_mark (h.of? tail), enclosed_append, List.drop_left, h.body htail,
      length_enclosed]
    rfl
  · intro tail htail style
    refine opens_style_eq_false (h.of? tail) ?_
    -- the mark of a style encloses nothing, so it is not the one that was found
    rintro rfl
    cases h.body htail

theorem found_escape {c : Char} (h : isBlank c = false) : Found .escape [c] :=
  ⟨by simp, fun _ => by simp [Mark.body?, h]⟩

theorem whole_escape {page : PageRef} {c : Char} (h : isBlank c = false) :
    Whole page (.literal [c]) ['~', c] := by
  have hwhole : Whole page (.literal [c]) (enclosed .escape [c]) :=
    whole_enclosed (found_escape h) rfl
  exact hwhole

/-! ## Code -/

section Code

variable {language code : Text}

theorem codeSpan?_printCode (hlanguage : language ≠ [])
    (hchars : language.all isLanguageChar = true) (hcode : Closes (codeEnd language) code)
    (tail : Text) : codeSpan? (printCode code language ++ tail) = some (language, code) := by
  have hshape : printCode code language ++ tail =
      "[<".toList ++ (language ++ (">]".toList ++ (code ++ (codeEnd language ++ tail)))) := by
    simp [printCode]
  rw [hshape]
  unfold codeSpan?
  simp only [Text.after?_append, takeWhile_language hchars, dropWhile_language hchars,
    cut?_of_closes hcode, Option.bind_eq_bind, Option.bind_some, List.isEmpty_iff, hlanguage,
    if_false]

theorem length_printCode (code language : Text) :
    (printCode code language).length = codeLength language code := by
  simp [printCode, codeLength]
  omega

theorem whole_printCode {page : PageRef} (hlanguage : language ≠ [])
    (hchars : language.all isLanguageChar = true) (hcode : Closes (codeEnd language) code) :
    Whole page (.leaf (.inlineCode code (some language))) (printCode code language) := by
  have hspan := codeSpan?_printCode hlanguage hchars hcode
  have hurl : ∀ previous tail, rawUrl? previous (printCode code language ++ tail) = none :=
    fun previous tail => rawUrl?_eq_none (by decide) previous _
  refine ⟨?_, ?_, ?_⟩
  · intro tail cs c _ heq previous
    rw [scan, ← heq, hurl, hspan, length_printCode]
  · intro tail _ previous
    rw [atomicLength, hurl, hspan, length_printCode]
  · intro tail _ style
    cases style <;> rfl

end Code

/-! ## Printable leaves -/

theorem closes_anchor {id : Text} (h : Closes Mark.image.closing id) :
    Closes Mark.image.closing ('#' :: id) := by
  rw [Closes, List.cons_append, Text.cut?_cons_of_opens rfl, h]
  rfl

theorem imageKind?_anchor {id : Text} (hid : id ≠ []) (htrim : Text.trim id = id)
    (page : PageRef) : imageKind? page ('#' :: id) = some (.anchor id) := by
  simp [imageKind?, htrim, hid]

theorem head?_titledBody_append {closing source title : Text} (h : Titled closing source title)
    {c : Char} (hc : source.head? ≠ some c) (s : Text) :
    (titledBody source title ++ s).head? ≠ some c := by
  obtain ⟨d, source, rfl⟩ := List.exists_cons_of_ne_nil h.source_ne_nil
  exact hc

/-- What a printable kind has between marks is found there. -/
theorem found_of_enclosure {page : PageRef} {kind : Kind} {mark : Mark} {body : Text}
    (h : PrintableKind page kind) (henclosure : enclosure? kind = some (mark, body)) :
    Found mark body := by
  cases h with
  | text | linebreak | inlineCode => cases henclosure
  | inlineNowiki hcontent =>
      cases henclosure
      exact ⟨by simp, fun htail => body?_verbatim hcontent htail⟩
  | anchor hid htrim hcloses =>
      cases henclosure
      exact ⟨by simp, fun _ => body?_of_closes (by simp) (closes_anchor hcloses) _⟩
  | link htitled =>
      cases henclosure
      exact ⟨by simp, fun _ => body?_of_closes (by simp) htitled.closes _⟩
  | image htitled hhash hbrace =>
      cases henclosure
      exact ⟨fun _ => head?_titledBody_append htitled hbrace _,
        fun _ => body?_of_closes (by simp) htitled.closes _⟩
  | invocation hname hargs hcloses =>
      cases henclosure
      exact ⟨by simp, fun _ => body?_of_closes (by simp) hcloses _⟩
  | directive hname hargs hcloses =>
      cases henclosure
      exact ⟨by simp, fun _ => body?_of_closes (by simp) hcloses _⟩

/-- The printable kinds, but for texts and line breaks, are read back as a whole. -/
theorem whole_of_printable {page : PageRef} {kind : Kind} (h : PrintableKind page kind)
    (htext : ∀ content escaped, kind ≠ .text content escaped) (hbreak : kind ≠ .linebreak) :
    Whole page (.leaf kind) (printKind kind []) := by
  have hfound {mark : Mark} {body : Text} (henclosure : enclosure? kind = some (mark, body)) :=
    found_of_enclosure h henclosure
  cases h with
  | text hcontent => exact absurd rfl (htext _ _)
  | linebreak => exact absurd rfl hbreak
  | inlineNowiki hcontent => exact whole_enclosed (hfound rfl) rfl
  | inlineCode hlanguage hchars hcode => exact whole_printCode hlanguage hchars hcode
  | @anchor id hid htrim hcloses =>
      have htoken : Mark.image.token? page ('#' :: id) = some (.leaf (.anchor id)) := by
        rw [Mark.token?, imageKind?_anchor hid htrim]
        rfl
      exact whole_enclosed (hfound rfl) htoken
  | @link source title htitled =>
      have htoken : Mark.link.token? page (titledBody source title) =
          some (.leaf (.link (linkTo .link page source title))) := by
        rw [Mark.token?, linkOf?_titledBody htitled]
        rfl
      exact whole_enclosed (hfound rfl) htoken
  | @image source title htitled hhash hbrace =>
      have htoken : Mark.image.token? page (titledBody source title) =
          some (.leaf (.image (linkTo .image page source title))) := by
        rw [Mark.token?, imageKind?_titledBody htitled hhash]
        rfl
      exact whole_enclosed (hfound rfl) htoken
  | @invocation name args hname hargs hcloses =>
      have htoken : Mark.call.token? page (invocationBody { name, args }) =
          some (.leaf (.invocation { name, args })) := by
        rw [Mark.token?, callKind?_invocationBody hname hargs]
        rfl
      exact whole_enclosed (hfound rfl) htoken
  | @directive directive hname hargs hcloses =>
      have htoken : Mark.call.token? page (directiveBody directive) =
          some (.leaf (.directive directive)) := by
        rw [Mark.token?, callKind?_directiveBody hname hargs]
        rfl
      exact whole_enclosed (hfound rfl) htoken

/-! ## What printed nodes begin with -/

section Head

variable {a : Char}

theorem head?_append_ne {s t : Text} (hs : s.head? ≠ some a) (ht : t.head? ≠ some a) :
    (s ++ t).head? ≠ some a := by
  cases s with
  | nil => exact ht
  | cons c s => exact hs

theorem head?_flatMap_ne {α : Type} {write : α → Text} {members : List α}
    (h : ∀ member ∈ members, (write member).head? ≠ some a) :
    (members.flatMap write).head? ≠ some a := by
  induction members with
  | nil => simp
  | cons member members ih =>
      rw [List.forall_mem_cons] at h
      rw [List.flatMap_cons]
      exact head?_append_ne h.1 (ih h.2)

/-- The characters that markup begins with, but for white space. -/
def markupHeads : Text := ['~', '{', '[', '<', '\\', '*', '/', '-']

theorem head?_enclosed_ne (ha : a ∉ markupHeads) (mark : Mark) (body : Text) :
    (enclosed mark body).head? ≠ some a := by
  have hhead : ∃ c ∈ markupHeads, mark.text.head? = some c := by
    cases mark with
    | style s => cases s <;> exact ⟨_, by decide, rfl⟩
    | _ => exact ⟨_, by decide, rfl⟩
  obtain ⟨c, hc, hhead⟩ := hhead
  obtain ⟨rest, htext⟩ := List.head?_eq_some_iff.mp hhead
  rw [enclosed, htext]
  rintro heq
  obtain rfl : c = a := by simpa using heq
  exact ha hc

theorem head?_printChar_ne (ha : a ∉ markupHeads) (hblank : isBlank a = false) (c : Char) :
    (printChar c).head? ≠ some a := by
  rw [printChar]
  split
  · next hc =>
    rintro heq
    obtain rfl : c = a := by simpa using heq
    exact absurd hc (Bool.eq_false_iff.mp hblank)
  · exact head?_enclosed_ne ha .escape [c]

/-- Printed nodes begin with white space or with a mark. -/
theorem head?_print_ne {page : PageRef} {node : Node} (h : Printable page node)
    (ha : a ∉ markupHeads) (hblank : isBlank a = false) : (print node).head? ≠ some a := by
  cases h with
  | leaf hkind =>
      rw [Node.leaf, print_mk]
      cases hkind with
      | text => exact head?_flatMap_ne fun c _ => head?_printChar_ne ha hblank c
      | linebreak => exact head?_enclosed_ne ha .lineBreak []
      | inlineCode =>
          rintro heq
          obtain rfl : '[' = a := by simpa [printKind, printCode] using heq
          exact ha (by decide)
      | _ => exact head?_enclosed_ne ha _ _
  | emphasis =>
      rw [print_mk]
      exact head?_enclosed_ne ha _ _

end Head

theorem Unbraced.append {s t : Text} (hs : Unbraced s) (ht : Unbraced t) : Unbraced (s ++ t) :=
  head?_append_ne hs ht

theorem unbraced_flatMap {α : Type} {write : α → Text} {members : List α}
    (h : ∀ member ∈ members, Unbraced (write member)) : Unbraced (members.flatMap write) :=
  head?_flatMap_ne h

theorem unbraced_text (content : Text) : Unbraced (content.flatMap printChar) :=
  unbraced_flatMap fun c _ => head?_printChar_ne (by decide) (by decide) c

theorem unbraced_print {page : PageRef} {node : Node} (h : Printable page node) :
    Unbraced (print node) := head?_print_ne h (by decide) (by decide)

theorem unbraced_mark_append (style : Style) (tail : Text) :
    Unbraced ((Mark.style style).text ++ tail) := by
  cases style <;> exact fun heq => absurd (Option.some.inj heq) (by decide)

/-! ## Markup part by part -/

/-- A relation of some markup to what follows it that holds of two texts in a row if it holds
of each. -/
structure Sequential (P : (markup tail : Text) → Prop) : Prop where
  nil : ∀ {tail : Text}, P [] tail
  append : ∀ {a b tail : Text}, P a (b ++ tail) → P b tail → P (a ++ b) tail

namespace Sequential

variable {P : (markup tail : Text) → Prop} {tail : Text}

theorem of_singleton (hP : Sequential P) {markup : Text}
    (h : ∀ c ∈ markup, ∀ {tail}, P [c] tail) : P markup tail := by
  induction markup with
  | nil => exact hP.nil
  | cons c markup ih =>
      rw [List.forall_mem_cons] at h
      exact hP.append h.1 (ih h.2)

theorem flatMap (hP : Sequential P) {α : Type} {write : α → Text} {members : List α}
    (hunbraced : ∀ member ∈ members, Unbraced (write member))
    (h : ∀ member ∈ members, ∀ {tail}, Unbraced tail → P (write member) tail)
    (htail : Unbraced tail) : P (members.flatMap write) tail := by
  induction members with
  | nil => exact hP.nil
  | cons member members ih =>
      rw [List.forall_mem_cons] at h hunbraced
      have hbehind : Unbraced (members.flatMap write ++ tail) :=
        (unbraced_flatMap hunbraced.2).append htail
      exact hP.append (h.1 hbehind) (ih hunbraced.2 h.2)

theorem text (hP : Sequential P)
    (h : ∀ c, ∀ {tail}, Unbraced tail → P (printChar c) tail) (content : Text)
    (htail : Unbraced tail) : P (content.flatMap printChar) tail :=
  hP.flatMap (fun c _ => head?_printChar_ne (by decide) (by decide) c) (fun c _ => h c) htail

/-- What holds of printable leaves and of the marks of styles, if it holds of two texts in a
row, holds of printable nodes. -/
theorem print (hP : Sequential P) {page : PageRef} {node : Node} (h : Printable page node)
    (hleaf : ∀ kind ∈ node.kinds, PrintableKind page kind →
      ∀ {tail}, Unbraced tail → P (printKind kind []) tail)
    (hstyle : ∀ style, Kind.emphasis style ∈ node.kinds →
      ∀ {tail}, P (Mark.style style).text tail)
    (htail : Unbraced tail) : P (Inline.print node) tail := by
  induction h generalizing tail with
  | leaf hkind =>
      rw [Node.leaf, print_mk]
      exact hleaf _ (by simp) hkind htail
  | @emphasis style children _ hprintable _ _ ih =>
      have hin {child : Node} (hchild : child ∈ children) {kind : Kind}
          (hkind : kind ∈ child.kinds) :
          kind ∈ (Node.mk (.emphasis style) children).kinds :=
        Node.mem_kinds_of_mem_children hchild hkind
      have hmark {tail : Text} : P (Mark.style style).text tail := hstyle style (by simp)
      have hbelow : P (children.flatMap Inline.print) ((Mark.style style).text ++ tail) :=
        hP.flatMap (fun child hchild => unbraced_print (hprintable child hchild))
          (fun child hchild _ => ih child hchild
            (fun kind hkind => hleaf kind (hin hchild hkind))
            fun other hother => hstyle other (hin hchild hother))
          (unbraced_mark_append style tail)
      rw [print_mk]
      exact hP.append (hP.append hmark hbelow) hmark

end Sequential

end Creole.Inline
