import Creole.Proofs.Inline.Literal
import Creole.Proofs.Inline.RawUrl
import Creole.Proofs.Text.Slice

/-!
# Looking ahead by offsets

Inline markup can be looked for by offsets into the whole text, instead of at the start of what is
left of it.  The scans of this module do so: for URLs (`urlSize?`), for code (`codeBounds?`), for
what marks enclose (`Mark.bounds?`), and for the mark that ends emphasis (`closingAt?`).  They take
slices of the text and count its bytes, and may run into a fault.

They do not.  At the offset where a text `front` ends, each of them finds in `front ++ rest` what
is found at the start of `rest` behind the last character of `front`, with the number of bytes for
the number of characters.

## Strategy

There is one lemma for each scan, on texts of the form `front ++ rest`.  The two loops go by
induction on the steps that are left to them: the steps are enough if they are more than the
characters in `rest`, and one step moves characters from `rest` to `front`
(`closingAt?_of_not_opens`).  What is stepped over is a part of `rest`, so that it has as many
bytes as the characters that are counted (`size_take_of_isPrefix`).
-/

namespace Creole.Inline

open List

/-! ## The scans -/

/-- Where the content of a construct begins and ends, and where what is behind the construct
begins. -/
structure Bounds where
  start : Nat
  stop : Nat
  next : Nat
  deriving DecidableEq

/-- The bounds of a content at an offset, between what opens and what closes it. -/
def Bounds.of (offset : Nat) (opening content closing : Text) : Bounds where
  start := offset + opening.size
  stop := offset + opening.size + content.size
  next := offset + opening.size + content.size + closing.size

/-- The number of bytes of the URL at an offset. -/
def urlSize? (text : Text) (offset : Nat) : Sliced (Option Nat) := do
  let before ← text.upTo offset
  let rest ← text.behind offset
  return (rawUrl? before.getLast? rest).map Text.size

/-- The language that a text names in a tag in front of code. -/
def codeLanguage? (s : Text) : Option Text := do
  let rest ← Text.after? "[<".toList s
  let language := rest.takeWhile isLanguageChar
  if language.isEmpty || !Text.opens ">]".toList (rest.dropWhile isLanguageChar) then none
  else some language

/-- The language and the bounds of the code at an offset. -/
def codeBounds? (text : Text) (offset : Nat) : Sliced (Option (Text × Bounds)) := do
  let rest ← text.behind offset
  match codeLanguage? rest with
  | none => return none
  | some language =>
    let start := (codeStart language).size
    let inside ← rest.behind start
    return (Text.offset? (codeEnd language) inside).map fun n =>
      (language, ⟨offset + start, offset + start + n, offset + start + n + (codeEnd language).size⟩)

/-- Where the braces at an offset end. -/
def bracesEnd (text : Text) : (steps offset : Nat) → Sliced Nat
  | 0, _ => throw .steps
  | steps + 1, offset => do
    let rest ← text.behind offset
    if Text.opens ['}'] rest then bracesEnd text steps (offset + 1) else return offset

/-- The bounds of what a mark at an offset encloses. -/
def Mark.bounds? (mark : Mark) (text : Text) (offset : Nat) : Sliced (Option Bounds) :=
  match mark with
  | .escape => do
    match ← text.behind (offset + 1) with
    | c :: _ => return if isBlank c then none else some (.of offset mark.text [c] [])
    | [] => return none
  | .verbatim => do
    let inside ← text.behind (offset + 3)
    match Text.offset? mark.closing inside with
    | some n =>
      let next ← bracesEnd text (text.size + 1) (offset + 3 + n + 3)
      return some ⟨offset + 3, next - 3, next⟩
    | none => return none
  | .image | .link | .call => do
    let rest ← text.behind offset
    return (← Text.closedSize? mark.text mark.closing rest).map fun n =>
      ⟨offset + 2, offset + (n - 2), offset + n⟩
  | .lineBreak | .style _ => return none

/-- Where the construct at an offset ends that no emphasis ends in. -/
def atomicEnd? (text : Text) (offset : Nat) : Sliced (Option Nat) := do
  match ← urlSize? text offset with
  | some n => return some (offset + n)
  | none =>
    match ← codeBounds? text offset with
    | some (_, bounds) => return some bounds.next
    | none =>
      match Mark.of? (← text.behind offset) with
      | some mark => return (← mark.bounds? text offset).map (·.next)
      | none => return none

/-- Where the first mark is, from an offset on, that is in no such construct. -/
def closingAt? (mark text : Text) : (steps offset : Nat) → Sliced (Option Nat)
  | 0, _ => throw .steps
  | steps + 1, offset =>
    if offset < text.size then do
      let rest ← text.behind offset
      if Text.opens mark rest then return some offset
      else
        match ← atomicEnd? text offset with
        | some next => closingAt? mark text steps next
        | none => closingAt? mark text steps (offset + rest.headSize?.getD 1)
    else return none

/-! ## What they find -/

variable {front rest : Text} {mark : Mark}

theorem urlSize?_append (front rest : Text) :
    urlSize? (front ++ rest) front.size = .ok ((rawUrl? front.getLast? rest).map Text.size) := by
  simp [urlSize?]

/-! ### Code -/

theorem codeSpan?_of_codeLanguage? {s language : Text} (h : codeLanguage? s = some language) :
    ∃ inside, s = codeStart language ++ inside ∧
      codeSpan? s = (Text.cut? (codeEnd language) inside).map fun parts => (language, parts.1) := by
  simp only [codeLanguage?, Option.bind_eq_bind, Option.bind_eq_some_iff,
    Option.ite_none_left_eq_some, Bool.or_eq_true, Bool.not_eq_true', not_or,
    Bool.not_eq_false, Option.some.injEq] at h
  obtain ⟨rest, htag, ⟨hnonempty, hopens⟩, rfl⟩ := h
  obtain ⟨inside, hinside⟩ := Text.opens_iff.mp hopens
  refine ⟨inside, ?_, ?_⟩
  · have hrest := takeWhile_append_dropWhile (p := isLanguageChar) (l := rest)
    rw [hinside] at hrest
    rw [Text.after?_eq_some_iff.mp htag, codeStart, append_assoc, append_assoc, hrest]
  · rw [codeSpan?, htag]
    simp only [Option.bind_eq_bind, Option.bind_some, if_neg hnonempty, hinside,
      Text.after?_append]
    cases Text.cut? (codeEnd (rest.takeWhile isLanguageChar)) inside <;> rfl

theorem codeSpan?_of_codeLanguage?_eq_none {s : Text} (h : codeLanguage? s = none) :
    codeSpan? s = none := by
  rw [codeLanguage?] at h
  rw [codeSpan?]
  cases htag : Text.after? "[<".toList s with
  | none => rfl
  | some rest =>
      simp only [htag, Option.bind_eq_bind, Option.bind_some] at h ⊢
      by_cases hempty : (rest.takeWhile isLanguageChar).isEmpty = true
      · rw [if_pos hempty]
      · have hopens : Text.opens ">]".toList (rest.dropWhile isLanguageChar) = false := by
          simpa [hempty] using h
        rw [if_neg hempty, Text.after?_eq_none_iff.mpr hopens]
        rfl

theorem codeLength_eq (language code : Text) :
    codeLength language code =
      (codeStart language).length + code.length + (codeEnd language).length := by
  simp [codeLength, codeStart]

theorem codeBounds?_append (front rest : Text) :
    codeBounds? (front ++ rest) front.size = .ok ((codeSpan? rest).map fun (language, code) =>
      (language, .of front.size (codeStart language) code (codeEnd language))) := by
  cases hlanguage : codeLanguage? rest with
  | none => simp [codeBounds?, hlanguage, codeSpan?_of_codeLanguage?_eq_none hlanguage]
  | some language =>
      obtain ⟨inside, rfl, hcode⟩ := codeSpan?_of_codeLanguage? hlanguage
      rw [hcode]
      simp only [codeBounds?, Text.behind_append, Sliced.ok_bind, hlanguage, Text.offset?]
      cases Text.cut? (codeEnd language) inside <;> rfl

/-! ### Marks -/

theorem bracesEnd_append {steps : Nat} (hsteps : rest.length < steps) (front : Text) :
    bracesEnd (front ++ rest) steps front.size =
      .ok (front.size + (rest.takeWhile (· = '}')).length) := by
  induction steps generalizing front rest with
  | zero => exact absurd hsteps (Nat.not_lt_zero _)
  | succ steps ih =>
      simp only [bracesEnd, Text.behind_append, Sliced.ok_bind]
      cases rest with
      | nil => rfl
      | cons c rest =>
          by_cases hc : c = '}'
          · subst hc
            have hopens : Text.opens ['}'] ('}' :: rest) = true := Text.opens_append ['}'] rest
            have hrest := ih (Nat.lt_of_succ_lt_succ hsteps) (front ++ ['}'])
            rw [append_assoc, singleton_append, Text.size_append] at hrest
            rw [if_pos hopens, takeWhile_cons_of_pos (by simp), length_cons,
              Nat.add_comm (length _) 1, ← Nat.add_assoc]
            exact hrest
          · have hopens : Text.opens ['}'] (c :: rest) = false := by
              simpa [Text.opens, Text.after?] using Ne.symm hc
            rw [hopens, takeWhile_cons_of_neg (by simpa using hc)]
            rfl

theorem size_braces {run : Text} (h : ∀ c ∈ run, c = '}') : Text.size run = run.length := by
  induction run with
  | nil => rfl
  | cons c run ih =>
      rw [forall_mem_cons] at h
      obtain ⟨rfl, hrun⟩ := h
      rw [Text.size_cons, ih hrun, length_cons, Nat.add_comm]
      rfl

/-- Braces behind a mark that closes verbatim text are found behind it. -/
theorem bracesEnd_closing (front body more : Text) :
    bracesEnd (front ++ (Mark.verbatim.text ++ (body ++ Mark.verbatim.closing ++ more)))
      (Text.size (front ++ (Mark.verbatim.text ++ (body ++ Mark.verbatim.closing ++ more))) + 1)
      (front.size + 3 + body.size + 3) =
      .ok (front.size + 3 + body.size + 3 + (more.takeWhile (· = '}')).length) := by
  have hshape : front ++ (Mark.verbatim.text ++ (body ++ Mark.verbatim.closing ++ more)) =
      front ++ Mark.verbatim.text ++ body ++ Mark.verbatim.closing ++ more := by
    simp only [append_assoc]
  have hsize : Text.size (front ++ Mark.verbatim.text ++ body ++ Mark.verbatim.closing) =
      front.size + 3 + body.size + 3 := by
    simp only [Text.size_append]
    rfl
  rw [hshape, ← hsize]
  refine bracesEnd_append ?_ _
  have hlength := Text.length_le_size more
  rw [Text.size_append]
  omega

/-- The braces behind a verbatim text end where the last three of them are left to close it. -/
theorem bounds?_verbatim (front rest : Text) :
    Mark.verbatim.bounds? (front ++ (Mark.verbatim.text ++ rest)) front.size =
      .ok ((Mark.verbatim.body? rest).map fun body =>
        .of front.size Mark.verbatim.text body Mark.verbatim.closing) := by
  have hbehind : (front ++ (Mark.verbatim.text ++ rest)).behind (front.size + 3) = .ok rest :=
    Text.behind_eq_ok_iff.mpr ⟨front ++ Mark.verbatim.text, (append_assoc _ _ _).symm,
      Text.size_append _ _⟩
  simp only [Mark.bounds?, hbehind, Sliced.ok_bind, Text.offset?, Mark.body?]
  cases hcut : Text.cut? Mark.verbatim.closing rest with
  | none => rfl
  | some parts =>
      obtain ⟨body, more⟩ := parts
      obtain rfl := Text.eq_of_cut? hcut
      have hrun : ∀ c ∈ more.takeWhile (· = '}'), c = '}' := by
        intro c hc
        simpa using all_eq_true.mp all_takeWhile c hc
      have hmark : Mark.verbatim.text.size = 3 ∧ Mark.verbatim.closing.size = 3 := ⟨rfl, rfl⟩
      simp only [Option.map_some, bracesEnd_closing, Sliced.ok_bind, Sliced.pure_eq]
      simp only [Except.ok.injEq, Option.some.injEq, Bounds.of, Bounds.mk.injEq, Text.size_append,
        size_braces hrun, hmark, true_and]
      omega

theorem bounds?_append (mark : Mark) (front rest : Text) :
    mark.bounds? (front ++ (mark.text ++ rest)) front.size =
      .ok ((mark.body? rest).map fun body => .of front.size mark.text body mark.closing) := by
  cases mark with
  | escape =>
      have hbehind : (front ++ (Mark.escape.text ++ rest)).behind (front.size + 1) = .ok rest :=
        Text.behind_eq_ok_iff.mpr ⟨front ++ ['~'], (append_assoc _ _ _).symm, Text.size_append _ _⟩
      simp only [Mark.bounds?, hbehind, Sliced.ok_bind]
      cases rest with
      | nil => rfl
      | cons c rest =>
          simp only [Mark.body?]
          split <;> rfl
  | verbatim => exact bounds?_verbatim front rest
  | image | link | call =>
      simp only [Mark.bounds?, Text.behind_append, Sliced.ok_bind, Text.closedSize?_append,
        Text.offset?, Mark.body?]
      cases Text.cut? _ rest with
      | none => rfl
      | some parts =>
          simp [Bounds.of, Mark.text, Mark.closing, Nat.add_assoc, Char.utf8Size]
          omega
  | lineBreak | style => rfl

/-! ### Atomic constructs -/

/-- Counting the characters of what a text begins with comes to as much as counting its bytes. -/
theorem size_take_of_isPrefix {s t : Text} (h : s <+: t) :
    Text.size (t.take s.length) = s.size := by
  rw [← prefix_iff_eq_take.mp h]

theorem isPrefix_of_rawUrl? {previous : Option Char} {s url : Text}
    (h : rawUrl? previous s = some url) : url <+: s := by
  obtain ⟨scheme, -, rest, rfl, -, -, rfl⟩ := rawUrl?_eq_some_iff.mp h
  exact (prefix_append_right_inj scheme).mpr (urlTail_isPrefix rest)

theorem size_take_code {s language code : Text} (h : codeSpan? s = some (language, code)) :
    Text.size (s.take (codeLength language code)) =
      (codeStart language).size + code.size + (codeEnd language).size := by
  rw [← length_printCode, size_take_of_isPrefix (isPrefix_of_codeSpan? h), printCode,
    ← Text.size_append, ← Text.size_append, codeStart]

theorem size_take_enclosed {body : Text} (h : mark.body? rest = some body) :
    Text.size ((mark.text ++ rest).take (mark.reach body)) =
      mark.text.size + body.size + mark.closing.size := by
  rw [← enclosed_eq_take h, Text.size_append, Text.size_append]

/-- What the look-ahead steps over ends where it is counted to end. -/
theorem atomicEnd?_append (front rest : Text) :
    atomicEnd? (front ++ rest) front.size =
      .ok ((atomicLength front.getLast? rest).map fun n => Text.size (front ++ rest.take n)) := by
  simp only [atomicEnd?, urlSize?_append, codeBounds?_append, Text.behind_append, Sliced.ok_bind,
    atomicLength, Text.size_append]
  cases hurl : rawUrl? front.getLast? rest with
  | some url =>
      simp only [Option.map_some, size_take_of_isPrefix (isPrefix_of_rawUrl? hurl)]
      rfl
  | none =>
      cases hcode : codeSpan? rest with
      | some parts =>
          obtain ⟨language, code⟩ := parts
          simp only [Option.map_none, Option.map_some, size_take_code hcode, ← Nat.add_assoc]
          rfl
      | none =>
          cases hmark : Mark.of? rest with
          | none => rfl
          | some mark =>
              obtain ⟨rest, rfl⟩ := eq_of_of? hmark
              simp only [Option.map_none, bounds?_append, Sliced.ok_bind, drop_left]
              cases hbody : mark.body? rest with
              | none => rfl
              | some body =>
                  simp only [Option.map_some, size_take_enclosed hbody, ← Nat.add_assoc]
                  rfl

/-! ### The look-ahead -/

theorem stride_le_length (previous : Option Char) (c : Char) (cs : Text) :
    stride previous (c :: cs) ≤ (c :: cs).length := by
  cases hlength : atomicLength previous (c :: cs) with
  | none => simp [stride, hlength]
  | some n =>
      rw [stride, hlength, Option.getD_some]
      rcases atomicLength_eq_some_iff.mp hlength with
        ⟨url, hurl, rfl⟩ | ⟨language, code, hcode, rfl⟩ | ⟨mark, hmark, body, hbody, rfl⟩
      · exact (isPrefix_of_rawUrl? hurl).length_le
      · rw [← length_printCode]
        exact (isPrefix_of_codeSpan? hcode).length_le
      · obtain ⟨rest, heq⟩ := eq_of_of? hmark
        rw [heq, drop_left] at hbody
        have hreach := congrArg length (enclosed_eq_take hbody)
        rw [heq, ← length_enclosed, enclosed, hreach]
        exact length_take_le' _ _

/-- The last character in front of a place in a text. -/
theorem getLast?_append_take {s : Text} {n : Nat} (hpos : 1 ≤ n) (hle : n ≤ s.length)
    (front : Text) : (front ++ s.take n).getLast? = s[n - 1]? := by
  have hlength : (s.take n).length = n := length_take_of_le hle
  have hlast : (s.take n).getLast? = s[n - 1]? := by
    rw [getLast?_eq_getElem?, hlength, getElem?_take_of_lt (by omega)]
  rw [getLast?_append, hlast]
  have hlt : n - 1 < s.length := by omega
  simp [hlt]

section
variable {steps : Nat} {c : Char} {cs : Text}

theorem size_lt_size_append_cons (front : Text) (c : Char) (cs : Text) :
    front.size < (front ++ c :: cs).size := by
  have hpos := c.utf8Size_pos
  rw [Text.size_append, Text.size_cons]
  omega

theorem closingAt?_of_opens {mark : Text} (h : Text.opens mark (c :: cs) = true) (front : Text) :
    closingAt? mark (front ++ c :: cs) (steps + 1) front.size = .ok (some front.size) := by
  simp only [closingAt?, if_pos (size_lt_size_append_cons front c cs), Text.behind_append,
    Sliced.ok_bind, h, if_true]
  rfl

/-- The search for a mark takes the strides of the look-ahead. -/
theorem closingAt?_of_not_opens {mark : Text} (h : Text.opens mark (c :: cs) = false)
    (front : Text) :
    closingAt? mark (front ++ c :: cs) (steps + 1) front.size =
      closingAt? mark (front ++ c :: cs) steps
        (Text.size (front ++ (c :: cs).take (stride front.getLast? (c :: cs)))) := by
  simp only [closingAt?, if_pos (size_lt_size_append_cons front c cs), Text.behind_append,
    Sliced.ok_bind, h, Bool.false_eq_true, if_false, atomicEnd?_append, stride]
  cases atomicLength front.getLast? (c :: cs) with
  | some n => rfl
  | none =>
      have hhead : (Text.headSize? (c :: cs)).getD 1 = Text.size [c] := rfl
      simp only [Option.map_none, Option.getD_none, take_succ_cons, take_zero, Text.size_append,
        hhead]

theorem closingAt?_append {steps : Nat} (hsteps : rest.length < steps) (mark front : Text) :
    closingAt? mark (front ++ rest) steps front.size =
      .ok ((closing? mark front.getLast? rest).map fun n => Text.size (front ++ rest.take n)) := by
  induction steps generalizing front rest with
  | zero => exact absurd hsteps (Nat.not_lt_zero _)
  | succ steps ih =>
      cases rest with
      | nil => simp [closingAt?, closing?]
      | cons c cs =>
          rw [closing?]
          cases hopens : Text.opens mark (c :: cs) with
          | true => simp [closingAt?_of_opens hopens]
          | false =>
              rw [closingAt?_of_not_opens hopens]
              have hpos := one_le_stride front.getLast? (c :: cs)
              have hle := stride_le_length front.getLast? c cs
              generalize stride front.getLast? (c :: cs) = n at hpos hle ⊢
              have hlength : ((c :: cs).drop n).length < steps := by
                rw [length_drop]
                omega
              have hbehind := ih hlength (front ++ (c :: cs).take n)
              rw [getLast?_append_take hpos hle, append_assoc, take_append_drop] at hbehind
              simp only [hbehind, Bool.false_eq_true, if_false, Option.map_map, Function.comp_def,
                take_add, append_assoc]

end

theorem closingAt?_behind_mark (mark : Mark) (front rest : Text) :
    closingAt? mark.text (front ++ (mark.text ++ rest))
      (Text.size (front ++ (mark.text ++ rest)) + 1) (front.size + mark.text.size) =
      .ok ((closing? mark.text mark.text.getLast? rest).map fun n =>
        Text.size (front ++ mark.text ++ rest.take n)) := by
  have hsteps : rest.length < Text.size (front ++ (mark.text ++ rest)) + 1 := by
    have hlength := Text.length_le_size rest
    simp only [Text.size_append]
    omega
  have hlast : (front ++ mark.text).getLast? = mark.text.getLast? :=
    getLast?_append_of_ne_nil front (text_ne_nil mark)
  have hstart : Text.size (front ++ mark.text) = front.size + mark.text.size :=
    Text.size_append front mark.text
  have hclosing := closingAt?_append hsteps mark.text (front ++ mark.text)
  rwa [hlast, hstart, append_assoc] at hclosing

end Creole.Inline
