import Creole.Proofs.Xml.Writer

/-!
# Written tags and character data are read

Whatever a writer makes of a text, an attribute or a tag is read as this again, in front of
whatever follows it.  An escaped text is read character by character, each joined to what is
read behind it (`tokens?_escaped`); a CDATA section ends where it was ended, since no section
holds the end of one (`tokens?_section`); and a tag is told from a CDATA section by the first
character of the name in it (`tokens?_of_writesTag`).
-/

namespace Creole.Xml

open List Text

/-! ## References -/

theorem semicolon_notMem_of_numbered? {base : Nat} {digits : Text} {c : Char}
    (h : numbered? base digits = some c) : ';' ∉ digits := by
  intro hmem
  have hdigit : Toml.isDigitIn base ';' = false := by
    have hhex : Toml.isHexDigit ';' = false := by decide
    rw [Toml.isDigitIn, hhex, Bool.false_and]
  have hall : digits.all (Toml.isDigitIn base) = true := by
    unfold numbered? at h
    grind
  exact Bool.false_ne_true (hdigit ▸ all_eq_true.mp hall ';' hmem)

theorem semicolon_notMem_of_referent? {body : Text} {c : Char} (h : referent? body = some c) :
    ';' ∉ body := by
  unfold referent? at h
  split at h
  · next digits =>
    have hdigits := semicolon_notMem_of_numbered? h
    simpa using hdigits
  · next digits _ =>
    have hdigits := semicolon_notMem_of_numbered? h
    simpa using hdigits
  · have hentities : ∀ entity ∈ entities, ';' ∉ entity.1 := by decide
    obtain ⟨before, behind, heq, -⟩ := lookup_eq_some_iff.mp h
    have hmem : (body, c) ∈ entities := heq ▸ mem_append_right before mem_cons_self
    exact hentities _ hmem

theorem readChar?_plain {c : Char} (h : c ∉ reserved) (s : Text) :
    readChar? (c :: s) = some (c, s) := by
  have hopen : c ≠ '<' := fun heq => h (by simp [heq, reserved])
  have hreference : c ≠ '&' := fun heq => h (by simp [heq, reserved])
  rw [readChar?, if_neg hopen, if_neg hreference]

theorem readChar?_reference {body : Text} {c : Char} (h : referent? body = some c) (s : Text) :
    readChar? ('&' :: (body ++ ';' :: s)) = some (c, s) := by
  have hcut := cut?_singleton (semicolon_notMem_of_referent? h) s
  rw [readChar?, if_neg (by decide), if_pos rfl, hcut]
  simp only [h, Option.map_some]

/-! ## Attributes -/

theorem value?_append {value s : Text} (h : Escapes value s) (rest : Text) :
    value? '"' (s ++ '"' :: rest) = some (value, rest) := by
  induction h with
  | nil => rw [nil_append, value?, if_pos rfl]
  | @plain c value s hc _ ih =>
      have hquote : c ≠ '"' := fun heq => hc (by simp [heq, reserved])
      rw [cons_append, value?, if_neg hquote, readChar?_plain hc]
      simp only [ih, Option.map_some]
  | @reference c body value s hbody _ ih =>
      have hchar := readChar?_reference hbody (s ++ '"' :: rest)
      rw [append_assoc, cons_append, cons_append, value?, if_neg (by decide), hchar]
      simp only [ih, Option.map_some]

/-- A name of an element or an attribute. -/
def IsName (name : Text) : Prop := name ≠ [] ∧ ∀ c ∈ name, isNameChar c = true

instance (name : Text) : Decidable (IsName name) :=
  decidable_of_decidable_of_iff (p := name ≠ [] ∧ name.all isNameChar = true)
    (and_congr_right fun _ => all_eq_true)

theorem isSpace_of_isNameChar {c : Char} (h : isNameChar c = true) : isSpace c = false := by
  rw [isNameChar, Bool.not_eq_true', Bool.or_eq_false_iff] at h
  exact h.1

theorem attribute?_append {name value s : Text} (hname : IsName name) (h : Escapes value s)
    (rest : Text) :
    attribute? (' ' :: name ++ ['=', '"'] ++ s ++ '"' :: rest) = some ((name, value), rest) := by
  obtain ⟨hne, hchars⟩ := hname
  have hspace : (' ' :: name ++ ['=', '"'] ++ s ++ '"' :: rest).dropWhile isSpace =
      name ++ ('=' :: '"' :: (s ++ '"' :: rest)) := by
    obtain ⟨c, cs, rfl⟩ := exists_cons_of_ne_nil hne
    have hc := isSpace_of_isNameChar (hchars c mem_cons_self)
    have hblank : isSpace ' ' = true := by decide
    simp [hc, hblank]
  have hend : ∀ c ∈ ('=' :: '"' :: (s ++ '"' :: rest)).head?, isNameChar c = false := by
    rintro c ⟨rfl⟩
    decide
  have hequals : after? ['='] ('=' :: '"' :: (s ++ '"' :: rest)) =
      some ('"' :: (s ++ '"' :: rest)) :=
    after?_append ['='] _
  unfold attribute?
  simp only [hspace, takeWhile_append_of_head hchars hend, dropWhile_append_of_head hchars hend,
    hequals]
  rw [if_pos ⟨hne, mem_cons_self⟩, value?_append h]
  rfl

/-- Where a tag ends there is no attribute. -/
theorem attribute?_eq_none {s : Text}
    (h : ∀ c ∈ s.head?, isSpace c = false ∧ isNameChar c = false) : attribute? s = none := by
  have hspace : s.dropWhile isSpace = s := by
    simpa using dropWhile_append_of_head (s := []) (by simp) fun c hc => (h c hc).1
  have hname : s.takeWhile isNameChar = [] := by
    simpa using takeWhile_append_of_head (s := []) (by simp) fun c hc => (h c hc).2
  unfold attribute?
  simp only [hspace, hname]
  split
  · rfl
  · rfl

theorem readAttributes_of_some {s behind : Text} {first : Text × Text}
    (h : attribute? s = some (first, behind)) :
    readAttributes s = (first :: (readAttributes behind).1, (readAttributes behind).2) := by
  rw [readAttributes]
  split
  · next first' behind' h' =>
    obtain ⟨rfl, rfl⟩ : first = first' ∧ behind = behind' := by simpa [h] using h'
    rfl
  · next hnone => rw [h] at hnone; cases hnone

theorem readAttributes_of_none {s : Text} (h : attribute? s = none) :
    readAttributes s = ([], s) := by
  rw [readAttributes]
  split
  · next first behind h' => rw [h] at h'; cases h'
  · rfl

theorem readAttributes_append {attributes : List (Text × Text)} {s rest : Text}
    (h : WritesAttributes attributes s) (hnames : ∀ first ∈ attributes, IsName first.1)
    (hrest : ∀ c ∈ rest.head?, isSpace c = false ∧ isNameChar c = false) :
    readAttributes (s ++ rest) = (attributes, rest) := by
  induction h with
  | nil => rw [nil_append, readAttributes_of_none (attribute?_eq_none hrest)]
  | @cons name value s t attributes hvalue _ ih =>
      rw [forall_mem_cons] at hnames
      have hfirst := attribute?_append hnames.1 hvalue (t ++ rest)
      rw [append_assoc]
      refine (readAttributes_of_some hfirst).trans ?_
      rw [ih hnames.2]

/-! ## Tags -/

theorem not_isNameChar_of_isEnd {c : Char} (h : c ∈ ['/', '>']) :
    isSpace c = false ∧ isNameChar c = false := by
  simp only [mem_cons, not_mem_nil, or_false] at h
  rcases h with rfl | rfl <;> decide

theorem head?_of_writesAttributes {attributes : List (Text × Text)} {s rest : Text}
    (h : WritesAttributes attributes s) (hrest : ∀ c ∈ rest.head?, isNameChar c = false) :
    ∀ c ∈ (s ++ rest).head?, isNameChar c = false := by
  cases h with
  | nil => exact hrest
  | cons =>
      rintro c ⟨rfl⟩
      decide

/-- What the tag of an element holds is read up to its end. -/
theorem tag?_append {name s rest : Text} {attributes : List (Text × Text)} (hname : IsName name)
    (hmarkup : opensMarkup name = false) (h : WritesAttributes attributes s)
    (hnames : ∀ first ∈ attributes, IsName first.1) (hrest : ∀ c ∈ rest.head?, c ∈ ['/', '>']) :
    tag? (name ++ (s ++ rest)) = tagEnd? name attributes rest := by
  have hclosing : after? ['/'] (name ++ (s ++ rest)) = none := by
    obtain ⟨hne, hchars⟩ := hname
    obtain ⟨c, cs, rfl⟩ := exists_cons_of_ne_nil hne
    have hc : '/' ≠ c := by
      rintro rfl
      exact absurd (hchars _ mem_cons_self) (by decide)
    simp [after?, hc]
  have hhead := head?_of_writesAttributes h fun c hc => (not_isNameChar_of_isEnd (hrest c hc)).2
  have hattributes := readAttributes_append h hnames fun c hc =>
    not_isNameChar_of_isEnd (hrest c hc)
  have hspace : rest.dropWhile isSpace = rest := by
    simpa using dropWhile_append_of_head (s := []) (by simp) fun c hc =>
      (not_isNameChar_of_isEnd (hrest c hc)).1
  unfold tag?
  rw [hclosing]
  simp only [takeWhile_append_of_head hname.2 hhead, dropWhile_append_of_head hname.2 hhead,
    hattributes, hspace, hmarkup, Bool.false_eq_true, or_false, if_neg hname.1]

theorem tag?_close {name : Text} (h : ∀ c ∈ name, isNameChar c = true) (rest : Text) :
    tag? ('/' :: name ++ '>' :: rest) = some ([.close name], rest) := by
  have hslash : after? ['/'] ('/' :: name ++ '>' :: rest) = some (name ++ '>' :: rest) :=
    after?_append ['/'] _
  have hend : after? ['>'] ('>' :: rest) = some rest := after?_append ['>'] _
  have hhead : ∀ c ∈ ('>' :: rest).head?, isNameChar c = false := by
    rintro c ⟨rfl⟩
    decide
  have hspace : ('>' :: rest).dropWhile isSpace = '>' :: rest := dropWhile_cons_of_neg (by decide)
  unfold tag?
  rw [hslash]
  simp only [takeWhile_append_of_head h hhead, dropWhile_append_of_head h hhead, hspace, hend,
    Option.map_some]

/-! ## Tokens -/

theorem prependData_nil (tokens : List Token) : prependData [] tokens = tokens := by
  unfold prependData
  split
  · rfl
  · exact if_pos rfl

theorem prependData_prependData (s t : Text) (tokens : List Token) :
    prependData s (prependData t tokens) = prependData (s ++ t) tokens := by
  cases tokens with
  | nil => cases t <;> cases s <;> simp [prependData]
  | cons token tokens => cases token <;> cases t <;> cases s <;> simp [prependData]

theorem tokens?_of_readChar? {c d : Char} {s behind : Text} (hopen : c ≠ '<')
    (h : readChar? (c :: s) = some (d, behind)) :
    tokens? (c :: s) = (tokens? behind).map (prependData [d]) := by
  have hsection : after? cdataStart (c :: s) = none := if_neg (Ne.symm hopen)
  rw [tokens?]
  split
  · next inside hinside => rw [hsection] at hinside; cases hinside
  · rw [if_neg hopen]
    split
    · next d' behind' h' =>
      obtain ⟨rfl, rfl⟩ : d = d' ∧ behind = behind' := by simpa [h] using h'
      rfl
    · next hnone => rw [h] at hnone; cases hnone

/-- Escaped text is read as the text, in front of what follows it. -/
theorem tokens?_escaped {s t : Text} (h : Escapes s t) (rest : Text) :
    tokens? (t ++ rest) = (tokens? rest).map (prependData s) := by
  induction h with
  | nil =>
      have hid : prependData [] = id := funext prependData_nil
      rw [nil_append, hid, Option.map_id_fun, id]
  | @plain c s t hc _ ih =>
      have hopen : c ≠ '<' := fun heq => hc (by simp [heq, reserved])
      rw [cons_append, tokens?_of_readChar? hopen (readChar?_plain hc _), ih, Option.map_map]
      refine congrArg (Option.map · (tokens? rest)) (funext fun tokens => ?_)
      exact prependData_prependData [c] s tokens
  | @reference c body s t hbody _ ih =>
      have hchar := readChar?_reference hbody (t ++ rest)
      rw [append_assoc, cons_append, cons_append, tokens?_of_readChar? (by decide) hchar, ih,
        Option.map_map]
      refine congrArg (Option.map · (tokens? rest)) (funext fun tokens => ?_)
      exact prependData_prependData [c] s tokens

theorem escapes_lineStart (n : Nat) : Escapes (lineStart n) (lineStart n) := by
  have hspaces : Escapes (replicate n ' ') (replicate n ' ') := by
    induction n with
    | zero => exact .nil
    | succ n ih => exact .plain (by decide) ih
  exact .plain (by decide) hspaces

/-- A section ends at the first mark behind it, if it holds none. -/
theorem cut?_cdataEnd_append {s : Text} (h : cut? cdataEnd s = none) (rest : Text) :
    cut? cdataEnd (s ++ cdataEnd ++ rest) = some (s, rest) := by
  induction s with
  | nil => exact cut?_append_self cdataEnd rest
  | cons c s ih =>
      have hinside : opens cdataEnd (c :: s) = false := by
        refine Bool.eq_false_iff.mpr fun hopens => ?_
        obtain ⟨behind, heq⟩ := opens_iff.mp hopens
        rw [heq, cut?_append_self] at h
        cases h
      -- the mark behind the section does not complete one that begins in the section
      have hopens : opens cdataEnd (c :: (s ++ cdataEnd ++ rest)) = false := by
        match s, hinside with
        | [], _ => simp [opens, after?, cdataEnd]
        | [d], _ => simp [opens, after?, cdataEnd]
        | d :: e :: s, hinside =>
            refine Bool.eq_false_iff.mpr fun hopens => Bool.eq_false_iff.mp hinside ?_
            rw [append_assoc, ← cons_append] at hopens
            exact opens_of_append (by simp [cdataEnd]) hopens
      rw [cut?_cons_of_opens hinside, Option.map_eq_none_iff] at h
      rw [cons_append, cons_append, cut?_cons_of_opens hopens, ih h]
      rfl

theorem tokens?_section {s : Text} (h : cut? cdataEnd s = none) (rest : Text) :
    tokens? (writeSection s ++ rest) = (tokens? rest).map (prependData s) := by
  have hstart : after? cdataStart (writeSection s ++ rest) = some (s ++ cdataEnd ++ rest) := by
    rw [writeSection, append_assoc cdataStart, append_assoc cdataStart]
    exact after?_append cdataStart _
  have hcut := cut?_cdataEnd_append h rest
  have hcons : writeSection s ++ rest = '<' :: (cdataStart.tail ++ s ++ cdataEnd ++ rest) := rfl
  rw [hcons] at hstart ⊢
  rw [tokens?]
  split
  · next inside hinside =>
    cases hstart.symm.trans hinside
    split
    · next data behind hdata =>
      cases hcut.symm.trans hdata
      rfl
    · next hnone => rw [hcut] at hnone; cases hnone
  · next hnone => rw [hstart] at hnone; cases hnone

/-- A section begins with an exclamation mark behind its `<`. -/
theorem after?_cdataStart {s : Text} (h : opensMarkup s = false) :
    after? cdataStart ('<' :: s) = none := by
  rw [after?_eq_none_iff]
  refine Bool.eq_false_iff.mpr fun hopens => Bool.eq_false_iff.mp h ?_
  obtain ⟨rest, hrest⟩ := opens_iff.mp hopens
  obtain rfl : s = cdataStart.tail ++ rest := (cons.inj hrest).2
  rfl

theorem tokens?_tag {s behind : Text} {tag : List Token} (hmarkup : opensMarkup s = false)
    (h : tag? s = some (tag, behind)) :
    tokens? ('<' :: s) = (tokens? behind).map (tag ++ ·) := by
  have hsection := after?_cdataStart hmarkup
  rw [tokens?]
  split
  · next inside hinside => rw [hsection] at hinside; cases hinside
  · rw [if_pos rfl]
    split
    · next tag' behind' h' =>
      cases h.symm.trans h'
      rfl
    · next hnone => rw [h] at hnone; cases hnone

/-- The tokens of an event that asks for a tag. -/
def Event.tag : Event → List Token
  | .start name attributes => [.open name attributes]
  | .empty name attributes => [.open name attributes, .close name]
  | .close name => [.close name]
  | _ => []

/-- The names in a tag are names, and that of the element begins with neither `!` nor `?`. -/
def Event.Named : Event → Prop
  | .start name attributes | .empty name attributes =>
    IsName name ∧ opensMarkup name = false ∧ ∀ first ∈ attributes, IsName first.1
  | .close name => IsName name
  | _ => True

/-- The tag of an element is read as such. -/
theorem tokens?_of_tagEnd? {name s rest behind : Text} {attributes : List (Text × Text)}
    {tag : List Token} (hname : IsName name) (hmarkup : opensMarkup name = false)
    (h : WritesAttributes attributes s) (hnames : ∀ first ∈ attributes, IsName first.1)
    (hrest : ∀ c ∈ rest.head?, c ∈ ['/', '>'])
    (hend : tagEnd? name attributes rest = some (tag, behind)) :
    tokens? ('<' :: (name ++ (s ++ rest))) = (tokens? behind).map (tag ++ ·) := by
  have htag := (tag?_append hname hmarkup h hnames hrest).trans hend
  refine tokens?_tag ?_ htag
  rwa [opensMarkup, head?_append, head?_eq_some_head hname.1, Option.some_or,
    ← head?_eq_some_head hname.1]

theorem tokens?_of_writesTag {event : Event} {t : Text} (h : WritesTag event t)
    (hnamed : event.Named) (rest : Text) :
    tokens? (t ++ rest) = (tokens? rest).map (event.tag ++ ·) := by
  cases h with
  | @start name s attributes hs =>
      obtain ⟨hname, hmarkup, hnames⟩ := hnamed
      have hend : tagEnd? name attributes ('>' :: rest) = some ([.open name attributes], rest) := by
        rw [tagEnd?, show after? ['>'] ('>' :: rest) = some rest from after?_append ['>'] rest]
      have hread := tokens?_of_tagEnd? hname hmarkup hs hnames (by simp) hend
      simpa [Event.tag] using hread
  | @empty name s attributes hs =>
      obtain ⟨hname, hmarkup, hnames⟩ := hnamed
      have hopen : after? ['>'] ('/' :: '>' :: rest) = none := rfl
      have hslash : after? ['/', '>'] ('/' :: '>' :: rest) = some rest :=
        after?_append ['/', '>'] rest
      have hend : tagEnd? name attributes ('/' :: '>' :: rest) =
          some ([.open name attributes, .close name], rest) := by
        rw [tagEnd?, hopen, hslash, Option.map_some]
      have hread := tokens?_of_tagEnd? hname hmarkup hs hnames (by simp) hend
      simpa [Event.tag] using hread
  | @close name =>
      have hmarkup : opensMarkup ('/' :: name ++ '>' :: rest) = false := rfl
      have hread := tokens?_tag hmarkup (tag?_close hnamed.2 rest)
      simpa [Event.tag] using hread

/-! ## Other markup -/

theorem tokens?_of_opensMarkup_name {name s : Text} {attributes : List (Text × Text)} {c : Char}
    (hmarkup : opensMarkup name = true) (hsection : opens cdataStart.tail name = false)
    (h : WritesAttributes attributes s) (hc : c ∈ ['/', '>']) (rest : Text) :
    tokens? ('<' :: (name ++ (s ++ c :: rest))) = none := by
  -- what stands behind the name does not complete the beginning of a section
  obtain ⟨d, more, hd, hmore⟩ : ∃ d more, d ∉ cdataStart.tail ∧ s ++ c :: rest = d :: more := by
    cases h with
    | nil =>
        simp only [mem_cons, not_mem_nil, or_false] at hc
        rcases hc with rfl | rfl
        · exact ⟨'/', rest, by decide, rfl⟩
        · exact ⟨'>', rest, by decide, rfl⟩
    | cons => exact ⟨' ', _, by decide, rfl⟩
  rw [hmore]
  refine tokens?_of_opensMarkup ?_ ?_
  · cases name with
    | nil => cases hmarkup
    | cons => exact hmarkup
  · exact after?_eq_none_iff.mpr (opens_append_cons_eq_false hd hsection more)

/-- What is written of an element is not read as a tag where its name begins with `!` or `?`
and does not open a section. -/
theorem tokens?_of_writesTag_opensMarkup {event : Event} {name t : Text}
    {attributes : List (Text × Text)}
    (hevent : event = .start name attributes ∨ event = .empty name attributes)
    (hmarkup : opensMarkup name = true) (hsection : opens cdataStart.tail name = false)
    (h : WritesTag event t) (rest : Text) : tokens? (t ++ rest) = none := by
  rcases hevent with rfl | rfl
  · cases h with
    | start hs => simpa using tokens?_of_opensMarkup_name hmarkup hsection hs (by simp) rest
  · cases h with
    | empty hs => simpa using tokens?_of_opensMarkup_name hmarkup hsection hs (by simp) ('>' :: rest)

end Creole.Xml
