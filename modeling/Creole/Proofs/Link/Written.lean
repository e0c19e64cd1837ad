import Creole.Link.Site
import Creole.Proofs.Text.Cut
import Mathlib.Tactic.Set

/-!
# Writing targets

A target is written from its pieces, each behind the mark that sets it off (`Target.write`).
What is written from pieces that no mark can be mistaken in is read as these pieces
(`read_write`).

In the other direction, a target that is no URI is written by the pieces that were read from
it, around what stands for the page and its revision, but for a number sign with nothing
behind it (`pieces_of_read`).

## Strategy

Reading makes four cuts, in an order that is not the order of the pieces.  For each there
are two lemmas: what is cut is put together by writing (`eq_of_splitWiki` and so on), and
the cut falls between the two parts that were put together, as long as its mark does not
occur elsewhere (`splitWiki_append` and so on).
-/

namespace Creole

open Text

/-! ### Numbers -/

/-- Whether a text writes the number `n` in decimal digits. -/
def Text.Spells (digits : Text) (n : Nat) : Prop :=
  digits ≠ [] ∧ (∀ c ∈ digits, c.isDigit = true) ∧ Nat.ofDigitChars 10 digits 0 = n

theorem Text.toNatBelow?_eq_some_iff {bound n : Nat} {digits : Text} :
    toNatBelow? bound digits = some n ↔ Spells digits n ∧ n < bound := by
  have hvalue : digitsToNat 10 (fun c => c.toNat - '0'.toNat) digits =
      Nat.ofDigitChars 10 digits 0 := by
    rw [digitsToNat, Nat.ofDigitChars_eq_foldl]
    simp only [Nat.mul_comm]
  unfold toNatBelow? Spells
  simp only [hvalue]
  grind

/-- Digits are no number of a revision if none is read from them. -/
theorem Text.toNatBelow?_eq_none_iff {bound : Nat} {digits : Text} :
    toNatBelow? bound digits = none ↔ ∀ n, Spells digits n → bound ≤ n := by
  rw [Option.eq_none_iff_forall_ne_some]
  refine forall_congr' fun n => ?_
  rw [ne_eq, toNatBelow?_eq_some_iff, not_and, Nat.not_lt]

theorem Text.spells_ofNat (n : Nat) : Spells (ofNat n) n := by
  refine ⟨?_, fun c hc => Nat.isDigit_of_mem_toDigits (by decide) (by decide) hc, ?_⟩
  · exact List.ne_nil_of_length_pos Nat.length_toDigits_pos
  · exact Nat.ofDigitChars_ten_toDigits

theorem isDecimalDigit_of_isDigit {c : Char} (h : c.isDigit = true) :
    isDecimalDigit c = true := by
  have hbounds : '0'.val ≤ c.val ∧ c.val ≤ '9'.val := by
    have hboth := Bool.and_eq_true_iff.mp h
    exact ⟨of_decide_eq_true hboth.1, of_decide_eq_true hboth.2⟩
  have hrange : 0x30 ≤ c.toNat ∧ c.toNat ≤ 0x39 := hbounds
  exact List.any_eq_true.mpr ⟨(0x30, 0x39), List.mem_cons_self, by simpa using hrange⟩

namespace Target

/-! ### The written form -/

/-- A piece behind the mark that sets it off, if there is one. -/
def marked (mark : Char) : Option Text → Text
  | some piece => mark :: piece
  | none => []

/-- The name of a wiki before the colon that sets it off, if there is one. -/
def wikiPart : Option Text → Text
  | some name => name ++ [':']
  | none => []

/-- The pieces of a target around its page and revision, which are written as `part`. -/
def writeAround (target : Target) (part : Text) : Text :=
  wikiPart target.wiki ++ part ++ marked '/' target.attachment ++ marked '#' target.fragment

/-- The written form of a target that is no URI. -/
def write (target : Target) : Text :=
  target.writeAround (target.page.getD [] ++ marked '@' (target.revision.map ofNat))

/-- Whether a text ends in an at sign and digits. -/
def Numbered (s : Text) : Prop :=
  ∃ name digits, s = name ++ '@' :: digits ∧ digits ≠ [] ∧ ∀ c ∈ digits, isDecimalDigit c = true

/-- A page with an at sign and digits behind it, if something on a single line stands before
them. -/
structure Suffixed (part name digits : Text) : Prop where
  eq : part = name ++ '@' :: digits
  name_ne_nil : name ≠ []
  line : '\n' ∉ name
  digits_ne_nil : digits ≠ []
  decimal : ∀ c ∈ digits, isDecimalDigit c = true

/-- Whether the last segment of a path, behind a slash, has a file extension. -/
def Extended (s : Text) : Prop :=
  ∃ front last, s = front ++ '/' :: last ∧ '/' ∉ last ∧ '.' ∈ last

/-- A word can be the name of a wiki. -/
def IsWord (name : Text) : Prop :=
  ∃ c cs, name = c :: cs ∧ c.isAlpha = true ∧ ∀ d ∈ cs, d.isAlphanum = true

/-- The pieces of a target that is no URI, of which no mark in one piece can be mistaken for
the mark of another. -/
structure Writable (target : Target) (page : Text) : Prop where
  uri : target.uri = none
  page_eq : target.page = some page
  page_ne_nil : page ≠ []
  wiki : ∀ name, target.wiki = some name → IsWord name
  revision : ∀ n, target.revision = some n → n < revisionBound
  attachment : ∀ file, target.attachment = some file → '.' ∈ file ∧ '/' ∉ file
  fragment : target.fragment ≠ some []
  plain : ∀ piece, piece = page ∨ target.attachment = some piece → '#' ∉ piece ∧ '\n' ∉ piece
  /-- Without a wiki, no colon sets one off. -/
  colon : target.wiki = none → ':' ∉ page
  /-- Without a revision, the page does not end like one that has it. -/
  unnumbered : target.revision = none → ¬ Numbered page
  /-- Without an attachment, the page does not end like one. -/
  unextended : target.attachment = none → ¬ Extended page
  trimmed : trim target.write = target.write
  relative : isAbsolute target.write = false

/-! ### Cuts between pieces -/

variable {path page name digits : Text} {wiki attachment fragment : Option Text}
  {revision : Option Nat}

theorem splitFragment_append (hpath : '#' ∉ path) (hfragment : fragment ≠ some []) :
    splitFragment (path ++ marked '#' fragment) = (path, fragment) := by
  unfold splitFragment
  cases fragment with
  | none => simp [marked, cut?_singleton_eq_none hpath]
  | some piece =>
      have hpiece : piece ≠ [] := fun hnil => hfragment (by rw [hnil])
      simp [marked, cut?_singleton hpath, hpiece]

/-- The wiki of a path is set off by the first colon, behind a word and in front of something. -/
theorem splitWiki_eq_none
    (h : ∀ word rest, path = word ++ ':' :: rest → IsWord word → rest = []) :
    splitWiki path = (none, path) := by
  unfold splitWiki
  split
  · rfl
  · next c cs =>
    split
    · next rest hrest =>
      have hsplit := List.takeWhile_append_dropWhile (p := Char.isAlphanum) (l := cs)
      rw [hrest] at hsplit
      refine if_neg fun hwiki => ?_
      rw [Bool.and_eq_true, Bool.and_eq_true] at hwiki
      have hword : IsWord (c :: cs.takeWhile Char.isAlphanum) :=
        ⟨c, _, rfl, hwiki.1.1, fun d hd => List.all_eq_true.mp List.all_takeWhile d hd⟩
      simp [h _ rest (by simp [hsplit]) hword] at hwiki
    · rfl

theorem splitWiki_append (hwiki : ∀ name, wiki = some name → IsWord name) (hpath : path ≠ [])
    (hline : '\n' ∉ path)
    (hnone : wiki = none → ∀ word rest, path = word ++ ':' :: rest → ¬ IsWord word) :
    splitWiki (wikiPart wiki ++ path) = (wiki, path) := by
  cases wiki with
  | none =>
      refine splitWiki_eq_none fun word rest hword h => ?_
      exact absurd h (hnone rfl word rest hword)
  | some name =>
      obtain ⟨c, cs, rfl, hc, hcs⟩ := hwiki name rfl
      have hhead : ∀ d ∈ (':' :: path).head?, d.isAlphanum = false := by simp
      have htake := takeWhile_append_of_head hcs hhead
      have hdrop := dropWhile_append_of_head hcs hhead
      simp [splitWiki, wikiPart, htake, hdrop, hc, hpath, hline]

theorem splitAttachment_append
    (hattachment : ∀ file, attachment = some file → '.' ∈ file ∧ '/' ∉ file)
    (hnone : attachment = none → ¬ Extended path) :
    splitAttachment (path ++ marked '/' attachment) = (path, attachment) := by
  unfold splitAttachment
  cases attachment with
  | none =>
      rw [marked, List.append_nil]
      split
      · next front last hcut =>
        obtain ⟨hpath, hlast⟩ := cutLast?_eq_some_iff.mp hcut
        have hdot : '.' ∉ last := fun hdot => hnone rfl ⟨front, last, hpath, hlast, hdot⟩
        simp [hdot]
      · rfl
  | some file =>
      obtain ⟨hdot, hslash⟩ := hattachment file rfl
      simp [marked, cutLast?_append hslash, hdot]

theorem splitRevision_of_suffixed (h : Suffixed path name digits) :
    splitRevision path = (name, toNatBelow? revisionBound digits) := by
  have hat : '@' ∉ digits := fun hmem => absurd (h.decimal '@' hmem) (by decide)
  unfold splitRevision
  rw [cutLast?_eq_some_iff.mpr ⟨h.eq, hat⟩]
  exact if_pos (by simpa [h.name_ne_nil, h.line, h.digits_ne_nil] using h.decimal)

theorem splitRevision_of_not_suffixed (h : ∀ name digits, ¬ Suffixed path name digits) :
    splitRevision path = (path, none) := by
  unfold splitRevision
  split
  · next name digits hcut =>
    refine if_neg fun hsuffix => h name digits ?_
    obtain ⟨⟨⟨hname, hline⟩, hne⟩, hdigits⟩ :
        ((name ≠ [] ∧ '\n' ∉ name) ∧ digits ≠ []) ∧ ∀ c ∈ digits, isDecimalDigit c = true := by
      simpa using hsuffix
    exact ⟨(cutLast?_eq_some_iff.mp hcut).1, hname, hline, hne, hdigits⟩
  · rfl

theorem splitRevision_append (hpage : page ≠ []) (hline : '\n' ∉ page)
    (hrevision : ∀ n, revision = some n → n < revisionBound)
    (hnone : revision = none → ¬ Numbered page) :
    splitRevision (page ++ marked '@' (revision.map ofNat)) = (page, revision) := by
  cases revision with
  | none =>
      rw [Option.map_none, marked, List.append_nil]
      refine splitRevision_of_not_suffixed fun name digits hsuffix => hnone rfl ?_
      exact ⟨name, digits, hsuffix.eq, hsuffix.digits_ne_nil, hsuffix.decimal⟩
  | some n =>
      obtain ⟨hne, hdigits, -⟩ := spells_ofNat n
      have hsuffix : Suffixed (page ++ '@' :: ofNat n) page (ofNat n) :=
        ⟨rfl, hpage, hline, hne, fun c hc => isDecimalDigit_of_isDigit (hdigits c hc)⟩
      have hread : toNatBelow? revisionBound (ofNat n) = some n :=
        toNatBelow?_eq_some_iff.mpr ⟨spells_ofNat n, hrevision n rfl⟩
      rw [Option.map_some, marked, splitRevision_of_suffixed hsuffix, hread]

theorem IsWord.isAlphanum {word : Text} (h : IsWord word) : ∀ c ∈ word, c.isAlphanum = true := by
  obtain ⟨c, cs, rfl, hc, hcs⟩ := h
  exact List.forall_mem_cons.mpr ⟨Bool.or_eq_true_iff.mpr (Or.inl hc), hcs⟩

/-- No colon sets off the beginning of a page that holds none, whatever stands behind it. -/
theorem not_isWord_of_append {word rest : Text} (hcolon : ':' ∉ page)
    (hpath : ∀ c ∈ path.head?, c = '@' ∨ c = '/') (h : page ++ path = word ++ ':' :: rest) :
    ¬ IsWord word := by
  intro hword
  have hne : ∀ c ∈ path.head?, c.isAlphanum = false ∧ c ≠ ':' := by
    intro c hc
    rcases hpath c hc with rfl | rfl <;> decide
  rcases List.append_eq_append_iff.mp h with ⟨more, rfl, rfl⟩ | ⟨more, rfl, hmore⟩
  · cases more with
    | nil => exact (hne ':' rfl).2 rfl
    | cons c more =>
        have hc := hword.isAlphanum c (by simp)
        exact Bool.eq_false_iff.mp (hne c rfl).1 hc
  · cases more with
    | nil =>
        rw [List.nil_append] at hmore
        exact (hne ':' (by rw [← hmore]; rfl)).2 rfl
    | cons c more =>
        obtain rfl : ':' = c := (List.cons.inj hmore).1
        exact hcolon (by simp)

theorem notMem_marked {c mark : Char} {piece : Option Text} (hmark : c ≠ mark)
    (h : ∀ s, piece = some s → c ∉ s) : c ∉ marked mark piece := by
  cases piece with
  | none => simp [marked]
  | some s => simp [marked, hmark, h s rfl]

theorem notMem_marked_revision {c : Char} (hat : c ≠ '@') (hdigit : c.isDigit = false) :
    c ∉ marked '@' (revision.map ofNat) := by
  refine notMem_marked hat fun s hs hmem => ?_
  obtain ⟨n, -, rfl⟩ := Option.map_eq_some_iff.mp hs
  exact Bool.eq_false_iff.mp hdigit ((spells_ofNat n).2.1 c hmem)

theorem head?_marked {c mark : Char} {piece : Option Text} (h : c ∈ (marked mark piece).head?) :
    c = mark := by
  cases piece <;> simp_all [marked]

/-- A mark that stands in no piece of a path stands in none of its marks. -/
theorem Writable.notMem_path {target : Target} (h : target.Writable page) {c : Char}
    (hc : c = '#' ∨ c = '\n') :
    c ∉ page ++ marked '@' (target.revision.map ofNat) ++ marked '/' target.attachment := by
  have hpieces : ∀ piece, piece = page ∨ target.attachment = some piece → c ∉ piece := by
    intro piece hpiece
    rcases hc with rfl | rfl
    · exact (h.plain piece hpiece).1
    · exact (h.plain piece hpiece).2
  have hmarks : c ≠ '@' ∧ c ≠ '/' ∧ c.isDigit = false := by
    rcases hc with rfl | rfl <;> decide
  simp only [List.mem_append, not_or]
  exact ⟨⟨hpieces page (Or.inl rfl), notMem_marked_revision hmarks.1 hmarks.2.2⟩,
    notMem_marked hmarks.2.1 fun file hfile => hpieces file (Or.inr hfile)⟩

/-- What holds neither a slash nor a dot brings no file extension to the end of a path. -/
theorem not_extended_append {s t : Text} (h : ¬ Extended s) (hslash : '/' ∉ t) (hdot : '.' ∉ t) :
    ¬ Extended (s ++ t) := by
  rintro ⟨front, last, heq, hlast, hmem⟩
  rcases List.append_eq_append_iff.mp heq with ⟨more, -, rfl⟩ | ⟨more, rfl, hmore⟩
  · exact hslash (by simp)
  · cases more with
    | nil =>
        rw [List.nil_append] at hmore
        exact hslash (by simp [← hmore])
    | cons c more =>
        obtain ⟨rfl, rfl⟩ : '/' = c ∧ last = more ++ t := by simpa using hmore
        rw [List.mem_append, not_or] at hlast
        refine h ⟨front, more, rfl, hlast.1, ?_⟩
        exact (List.mem_append.mp hmem).resolve_right hdot

/-- A number sign stands in no name of a wiki. -/
theorem notMem_wikiPart (hwiki : ∀ name, wiki = some name → IsWord name) : '#' ∉ wikiPart wiki := by
  cases wiki with
  | none => simp [wikiPart]
  | some name =>
      have hname : '#' ∉ name := by
        intro hmem
        exact absurd ((hwiki name rfl).isAlphanum '#' hmem) (by decide)
      simp [wikiPart, hname]

/-- What is written from pieces that no mark can be mistaken in is read as these pieces. -/
theorem read_write {target : Target} (h : target.Writable page) :
    read target.write target.text = target := by
  set name := page ++ marked '@' (target.revision.map ofNat) with hname
  set path := name ++ marked '/' target.attachment with hpath
  have hwrite : target.write =
      (wikiPart target.wiki ++ path) ++ marked '#' target.fragment := by
    simp [write, writeAround, h.page_eq, hname, hpath]
  have hfragment : splitFragment target.write =
      (wikiPart target.wiki ++ path, target.fragment) := by
    rw [hwrite]
    refine splitFragment_append ?_ h.fragment
    rw [List.mem_append, not_or]
    exact ⟨notMem_wikiPart h.wiki, h.notMem_path (Or.inl rfl)⟩
  have hwiki : splitWiki (wikiPart target.wiki ++ path) = (target.wiki, path) := by
    refine splitWiki_append h.wiki (by simp [hpath, hname, h.page_ne_nil])
      (h.notMem_path (Or.inr rfl)) fun hnone word rest hword => ?_
    rw [hpath, hname, List.append_assoc] at hword
    refine not_isWord_of_append (h.colon hnone) (fun c hc => ?_) hword
    rw [List.head?_append] at hc
    rcases Option.or_eq_some_iff.mp hc with hc | ⟨-, hc⟩
    · exact Or.inl (head?_marked hc)
    · exact Or.inr (head?_marked hc)
  have hattachment : splitAttachment path = (name, target.attachment) := by
    refine splitAttachment_append h.attachment fun hnone => ?_
    exact not_extended_append (h.unextended hnone)
      (notMem_marked_revision (by decide) (by decide))
      (notMem_marked_revision (by decide) (by decide))
  have hrevision : splitRevision name = (page, target.revision) :=
    splitRevision_append h.page_ne_nil (h.plain page (Or.inl rfl)).2 h.revision h.unnumbered
  have hnamed : (if page.isEmpty then none else some page) = target.page := by
    simp [h.page_ne_nil, h.page_eq]
  unfold read
  simp only [h.trimmed, h.relative, hfragment, hwiki, hattachment, hrevision, hnamed]
  rw [if_neg Bool.false_ne_true, ← h.uri]

/-- A target with most marks in more than one place. -/
def sampleTarget : Target where
  text := "Plan".toList
  page := some "Team/Q1@7".toList
  revision := some 18446744073709551615
  fragment := some "a:b#c/d.e".toList

theorem read_write_sampleTarget :
    sampleTarget.Writable "Team/Q1@7".toList ∧
      sampleTarget.write = "Team/Q1@7@18446744073709551615#a:b#c/d.e".toList ∧
      read "Team/Q1@7@18446744073709551615#a:b#c/d.e".toList "Plan".toList = sampleTarget := by
  have hwrite : sampleTarget.write = "Team/Q1@7@18446744073709551615#a:b#c/d.e".toList := by
    decide +kernel
  have hunextended : ¬ Extended "Team/Q1@7".toList := by
    rintro ⟨front, last, heq, hslash, hdot⟩
    have hcut := cutLast?_eq_some_iff.mpr ⟨heq, hslash⟩
    have hlast : cutLast? '/' "Team/Q1@7".toList = some ("Team".toList, "Q1@7".toList) := by
      decide +kernel
    obtain ⟨-, rfl⟩ : "Team".toList = front ∧ "Q1@7".toList = last := by
      simpa using hlast.symm.trans hcut
    exact absurd hdot (by decide)
  have hwritable : sampleTarget.Writable "Team/Q1@7".toList := {
    uri := rfl
    page_eq := rfl
    page_ne_nil := by decide
    wiki := fun name hname => by cases hname
    revision := fun n hn => by
      obtain rfl : 18446744073709551615 = n := by simpa [sampleTarget] using hn
      decide
    attachment := fun file hfile => by cases hfile
    fragment := by decide
    plain := fun piece hpiece => by
      rcases hpiece with rfl | hfile
      · decide
      · cases hfile
    colon := fun _ => by decide
    unnumbered := fun hnone => by cases hnone
    unextended := fun _ => hunextended
    trimmed := by decide +kernel
    relative := by decide +kernel }
  refine ⟨hwritable, hwrite, ?_⟩
  have hread := read_write hwritable
  rwa [hwrite] at hread

/-! ### Read targets are written -/

variable {source text : Text}

theorem eq_of_splitFragment (h : splitFragment source = (path, fragment)) :
    source = path ++ marked '#' fragment ∨
      fragment = none ∧ source = path ++ marked '#' fragment ++ ['#'] := by
  unfold splitFragment at h
  split at h
  · next path' fragment' hcut =>
    obtain ⟨rfl, rfl⟩ := Prod.mk.inj h
    have heq := eq_of_cut? hcut
    split
    · next hempty =>
      rw [List.isEmpty_iff.mp hempty, List.append_nil] at heq
      exact Or.inr ⟨rfl, by simpa [marked] using heq⟩
    · exact Or.inl (by simpa [marked] using heq)
  · obtain ⟨rfl, rfl⟩ := Prod.mk.inj h
    exact Or.inl (List.append_nil source).symm

theorem eq_of_splitWiki (h : splitWiki source = (wiki, path)) : source = wikiPart wiki ++ path := by
  have hwhole : (none, source) = (wiki, path) → source = wikiPart wiki ++ path := by
    rintro ⟨⟩
    rfl
  unfold splitWiki at h
  split at h
  · exact hwhole h
  · next c cs =>
    split at h
    · next rest hrest =>
      split at h
      · obtain ⟨rfl, rfl⟩ := Prod.mk.inj h
        have hsplit := List.takeWhile_append_dropWhile (p := Char.isAlphanum) (l := cs)
        rw [hrest] at hsplit
        simp [wikiPart, hsplit]
      · exact hwhole h
    · exact hwhole h

theorem eq_of_splitAttachment (h : splitAttachment source = (path, attachment)) :
    source = path ++ marked '/' attachment := by
  have hwhole : (source, none) = (path, attachment) → source = path ++ marked '/' attachment := by
    rintro ⟨⟩
    exact (List.append_nil path).symm
  unfold splitAttachment at h
  split at h
  · next page file hcut =>
    split at h
    · obtain ⟨rfl, rfl⟩ := Prod.mk.inj h
      exact (cutLast?_eq_some_iff.mp hcut).1
    · exact hwhole h
  · exact hwhole h

/-- The page of a target that is no URI, with its revision, as they are written. -/
def pagePart (source : Text) : Text :=
  (splitAttachment (splitWiki (splitFragment (trim source)).1).2).1

theorem pieces_of_read (h : isAbsolute (trim source) = false) (text : Text) :
    (read source text).uri = none ∧
      (trim source = (read source text).writeAround (pagePart source) ∨
        (read source text).fragment = none ∧
          trim source = (read source text).writeAround (pagePart source) ++ ['#']) ∧
      (read source text).page =
        (if (splitRevision (pagePart source)).1 = [] then none
          else some (splitRevision (pagePart source)).1) ∧
      (read source text).revision = (splitRevision (pagePart source)).2 := by
  unfold read pagePart writeAround
  simp only [h, Bool.false_eq_true, if_false, List.isEmpty_iff, and_true, true_and]
  rcases hfragment : splitFragment (trim source) with ⟨path, fragment⟩
  rcases hwiki : splitWiki path with ⟨wiki, inside⟩
  rcases hattachment : splitAttachment inside with ⟨part, attachment⟩
  have hpath : path = wikiPart wiki ++ part ++ marked '/' attachment := by
    rw [eq_of_splitWiki hwiki, eq_of_splitAttachment hattachment, List.append_assoc]
  simp only [← hpath]
  exact eq_of_splitFragment hfragment

end Target

end Creole
