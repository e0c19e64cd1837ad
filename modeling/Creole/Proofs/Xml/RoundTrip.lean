import Creole.Proofs.Xml.Spaced
import Creole.Proofs.Xml.Tokens

/-!
# Written documents read back

An element that was written is read as it was, but for joined character data and white space
between tags (`XmlElement.exists_read_of_writes`).

## Strategy

Reading is the writing of events backwards.  What was written of the first event is read as
its tokens in front of those of the rest (`tokens?_of_writes_tag` and its siblings), with a
run of white space before a tag if the writer put one there.  By induction on content in
front of its end tag (`ReadsBack`), the tokens of a document are those of its tree with runs
added (`readsBack`).  From these tokens the tree is built again, which joins what stands side
by side (`build_tokensOfAll`).

The name of an element is all that tells its tag from other markup.  A name that begins with
`!` or `?` makes it a CDATA section, a comment, a document type or an instruction, which is
not read as an element (`read_of_writes_opensMarkup`).  Where it makes it a section, no reader
can tell what was written (`not_exists_read_of_tagNamed`).
-/

namespace Creole.Xml

open List Text

/-! ## Trees -/

mutual

/-- The tokens of a part in front of others, character data joined. -/
def tokensOf : Xml → List Token → List Token
  | element name attributes content, rest =>
    .open name attributes :: tokensOfAll content (.close name :: rest)
  | text s, rest | cdata s, rest => prependData s rest

/-- The tokens of parts in a row in front of others, character data joined. -/
def tokensOfAll : List Xml → List Token → List Token
  | [], rest => rest
  | x :: xs, rest => tokensOf x (tokensOfAll xs rest)

end

mutual

/-- The tags of a part of a document, in document order: the names of its elements, with
their attributes. -/
def tags : Xml → List (Text × List (Text × Text))
  | element name attributes content => (name, attributes) :: tagsAll content
  | text _ | cdata _ => []

/-- The tags of parts in a row. -/
def tagsAll : List Xml → List (Text × List (Text × Text))
  | [] => []
  | x :: xs => tags x ++ tagsAll xs

end

/-- The names in a tag are names. -/
def TagNamed (tag : Text × List (Text × Text)) : Prop :=
  IsName tag.1 ∧ ∀ first ∈ tag.2, IsName first.1

instance (tag : Text × List (Text × Text)) : Decidable (TagNamed tag) :=
  inferInstanceAs (Decidable (_ ∧ _))

/-! ### Inversion -/

variable {afterData : Bool} {evs : List Event} {written : Text}

theorem tokens?_of_writes_text {s : Text} (h : Writes afterData (.text s :: evs) written) :
    ∃ rest, Writes true evs rest ∧ tokens? written = (tokens? rest).map (prependData s) := by
  cases h with
  | @text _ _ _ rest _ hs hrest => exact ⟨rest, hrest, tokens?_escaped hs rest⟩
  | tag htag => cases htag
  | line n htag => cases htag

theorem tokens?_of_writes_cdata {parts : List Text} (hne : parts ≠ [])
    (hparts : ∀ part ∈ parts, cut? cdataEnd part = none)
    (h : Writes afterData (parts.map .cdata ++ evs) written) :
    ∃ rest, Writes true evs rest ∧
      tokens? written = (tokens? rest).map (prependData parts.flatten) := by
  induction parts generalizing afterData written with
  | nil => exact absurd rfl hne
  | cons part parts ih =>
      rw [forall_mem_cons] at hparts
      cases h with
      | tag htag => cases htag
      | line n htag => cases htag
      | @cdata _ _ behind _ hbehind =>
          rw [tokens?_section hparts.1, flatten_cons]
          by_cases hlast : parts = []
          · subst hlast
            rw [flatten_nil, append_nil]
            exact ⟨behind, hbehind, rfl⟩
          · obtain ⟨rest, hrest, htokens⟩ := ih hlast hparts.2 hbehind
            refine ⟨rest, hrest, ?_⟩
            rw [htokens, Option.map_map]
            refine congrArg (Option.map · (tokens? rest)) (funext fun tokens => ?_)
            exact prependData_prependData part parts.flatten tokens

theorem tokens?_of_writes_tag {event : Event} (htag : event.tag ≠ []) (hnamed : event.Named)
    (h : Writes afterData (event :: evs) written) :
    ∃ run rest, Run afterData run ∧ Writes false evs rest ∧
      tokens? written = (tokens? rest).map fun tokens => prependData run (event.tag ++ tokens) := by
  cases h with
  | text | cdata => exact absurd rfl htag
  | @tag _ _ t rest _ ht hrest =>
      refine ⟨[], rest, .none, hrest, ?_⟩
      rw [tokens?_of_writesTag ht hnamed]
      simp only [prependData_nil]
  | @line _ t rest _ n ht hrest =>
      refine ⟨lineStart n, rest, .line n, hrest, ?_⟩
      rw [append_assoc, tokens?_escaped (escapes_lineStart n), tokens?_of_writesTag ht hnamed,
        Option.map_map]
      rfl

/-- Content in front of the end tag of its element is read with white space added. -/
def ReadsBack (xs : List Xml) : Prop :=
  ∀ {afterData : Bool} {name : Text} {evs : List Event} {written : Text}, IsName name →
    Writes afterData (eventsAll xs ++ .close name :: evs) written →
    ∃ ys rest, Spaced afterData xs ys ∧ Writes false evs rest ∧
      tokens? written = (tokens? rest).map fun tokens => tokensOfAll ys (.close name :: tokens)

/-- An element reads back if its content does. -/
theorem ReadsBack.element {content : List Xml} (h : ReadsBack content) {name : Text}
    {attributes : List (Text × Text)} (hnamed : TagNamed (name, attributes))
    (hmarkup : opensMarkup name = false)
    (hwrites : Writes afterData (events (.element name attributes content) ++ evs) written) :
    ∃ run inside rest, Run afterData run ∧ SpacedWithin content inside ∧ Writes false evs rest ∧
      tokens? written = (tokens? rest).map fun tokens =>
        prependData run (tokensOf (.element name attributes inside) tokens) := by
  obtain ⟨hname, hnames⟩ := hnamed
  cases content with
  | nil =>
      have htag : (Event.empty name attributes).tag ≠ [] := cons_ne_nil _ _
      obtain ⟨run, rest, hrun, hrest, htokens⟩ :=
        tokens?_of_writes_tag htag ⟨hname, hmarkup, hnames⟩ hwrites
      exact ⟨run, [], rest, hrun, .empty, hrest, htokens⟩
  | cons x xs =>
      have htag : (Event.start name attributes).tag ≠ [] := cons_ne_nil _ _
      rw [events, cons_append, append_assoc, singleton_append] at hwrites
      obtain ⟨run, behind, hrun, hbehind, htokens⟩ :=
        tokens?_of_writes_tag htag ⟨hname, hmarkup, hnames⟩ hwrites
      obtain ⟨inside, rest, hinside, hrest, hcontent⟩ := h hname hbehind
      refine ⟨run, inside, rest, hrun, .content (cons_ne_nil _ _) hinside, hrest, ?_⟩
      rw [htokens, hcontent, Option.map_map]
      rfl

theorem readsBack (xs : List Xml)
    (h : ∀ tag ∈ tagsAll xs, TagNamed tag ∧ opensMarkup tag.1 = false) : ReadsBack xs := by
  intro afterData name evs written hname hwrites
  match xs with
  | [] =>
      have htag : (Event.close name).tag ≠ [] := cons_ne_nil _ _
      obtain ⟨run, rest, hrun, hrest, htokens⟩ := tokens?_of_writes_tag htag hname hwrites
      exact ⟨[.text run], rest, .nil hrun, hrest, htokens⟩
  | .text s :: xs =>
      obtain ⟨behind, hbehind, htokens⟩ := tokens?_of_writes_text hwrites
      obtain ⟨ys, rest, hys, hrest, hmore⟩ := readsBack xs h hname hbehind
      refine ⟨.text s :: ys, rest, .text hys, hrest, ?_⟩
      rw [htokens, hmore, Option.map_map]
      rfl
  | .cdata s :: xs =>
      rw [eventsAll, append_assoc] at hwrites
      obtain ⟨behind, hbehind, htokens⟩ :=
        tokens?_of_writes_cdata (sections_ne_nil s) (fun _ => cut?_of_mem_sections) hwrites
      obtain ⟨ys, rest, hys, hrest, hmore⟩ := readsBack xs h hname hbehind
      refine ⟨.cdata s :: ys, rest, .cdata hys, hrest, ?_⟩
      rw [htokens, hmore, Option.map_map, flatten_sections]
      rfl
  | .element inner attributes content :: xs =>
      rw [tagsAll, tags, forall_mem_append, forall_mem_cons] at h
      obtain ⟨⟨⟨hinner, hmarkup⟩, hcontent⟩, hxs⟩ := h
      rw [eventsAll, append_assoc] at hwrites
      have hback : ReadsBack content := readsBack content hcontent
      obtain ⟨run, inside, behind, hrun, hinside, hbehind, htokens⟩ :=
        hback.element hinner hmarkup hwrites
      obtain ⟨ys, rest, hys, hrest, hmore⟩ := readsBack xs hxs hname hbehind
      refine ⟨.text run :: .element inner attributes inside :: ys, rest,
        .cons_element hrun hinside hys, hrest, ?_⟩
      rw [htokens, hmore, Option.map_map]
      rfl
termination_by sizeOf xs

/-! ### Building -/

theorem build_data (outer : List OpenElement) (content : List Xml) (s : Text)
    (tokens : List Token) :
    build outer content (.data s :: tokens) = build outer (content ++ [.text s]) tokens := by
  cases outer <;> rfl

theorem build_open (outer : List OpenElement) (content : List Xml) (name : Text)
    (attributes : List (Text × Text)) (tokens : List Token) :
    build outer content (.open name attributes :: tokens) =
      build (⟨name, attributes, content⟩ :: outer) [] tokens := by
  cases outer <;> rfl

/-- Character data is a part of its own in front of anything but character data. -/
theorem build_prependData {outer : List OpenElement} {content : List Xml} {tokens : List Token}
    (h : ∀ s rest, tokens ≠ .data s :: rest) (s : Text) :
    build outer content (prependData s tokens) =
      build outer (content ++ prependText s []) tokens := by
  unfold prependData prependText
  split
  · next t rest => exact absurd rfl (h t rest)
  · split
    · rw [append_nil]
    · rw [build_data]

/-- Joined tokens are put together to joined parts. -/
theorem build_tokensOfAll (xs : List Xml) (s : Text) (outer : List OpenElement)
    (content : List Xml) {rest : List Token} (h : ∀ t behind, rest ≠ .data t :: behind) :
    build outer content (prependData s (tokensOfAll xs rest)) =
      build outer (content ++ prependText s (joined xs)) rest := by
  match xs with
  | [] => exact build_prependData h s
  | .text t :: xs | .cdata t :: xs =>
      rw [tokensOfAll, tokensOf, prependData_prependData, build_tokensOfAll xs _ outer content h,
        joined, prepend, prependText_prependText]
  | .element name attributes inside :: xs =>
      have hclose : ∀ t behind, Token.close name :: tokensOfAll xs rest ≠ .data t :: behind := by
        simp
      have hinside := build_tokensOfAll inside []
        (⟨name, attributes, content ++ prependText s []⟩ :: outer) [] hclose
      have hbehind := build_tokensOfAll xs [] outer
        (content ++ prependText s [] ++ [.element name attributes (joined inside)]) h
      rw [prependData_nil, prependText_nil, nil_append] at hinside
      rw [prependData_nil, prependText_nil] at hbehind
      rw [tokensOfAll, tokensOf, build_prependData (by simp), build_open, hinside, build,
        if_pos rfl, hbehind, joined, prepend, prependText_element s]
      simp only [append_assoc, singleton_append]
termination_by sizeOf xs

/-! ### Whole documents -/

theorem afterDeclaration?_declaration (s : Text) :
    afterDeclaration? (declaration ++ s) = some s := by
  have hstart : declaration = "<?xml ".toList ++ "version=\"1.0\" encoding=\"UTF-8\"?>".toList := by
    decide
  have hcut : cut? "?>".toList "version=\"1.0\" encoding=\"UTF-8\"?>".toList =
      some ("version=\"1.0\" encoding=\"UTF-8\"".toList, []) := by decide
  unfold afterDeclaration?
  rw [hstart, append_assoc, after?_append]
  simp only [cut?_append hcut s, Option.map_some, nil_append]

/-- Outside the element of a document, white space is passed over. -/
theorem filter_prependText {afterData : Bool} {run : Text} (h : Run afterData run) (name : Text)
    (attributes : List (Text × Text)) (content : List Xml) :
    (prependText run [.element name attributes content]).filter (!isSpaceText ·) =
      [.element name attributes content] := by
  cases h with
  | none => rfl
  | line n =>
      have hspace : (lineStart n).all isSpace = true := by
        have hline : isSpace '\n' = true := by decide
        have hblank : isSpace ' ' = true := by decide
        simp [lineStart, hline, hblank]
      have hfirst : isSpaceText (.text (lineStart n)) = true := hspace
      have helement : isSpaceText (.element name attributes content) = false := rfl
      have hparts : prependText (lineStart n) [.element name attributes content] =
          [.text (lineStart n), .element name attributes content] := rfl
      simp [hparts, hfirst, helement]

theorem read_of_tokens? {afterData : Bool} {body run name : Text}
    {attributes : List (Text × Text)} {inside : List Xml} (hrun : Run afterData run)
    (h : tokens? body = some (prependData run (tokensOf (.element name attributes inside) []))) :
    read (declaration ++ body) = some ⟨name, attributes, joined inside⟩ := by
  have hnone : ∀ (t : Text) (behind : List Token), [] ≠ Token.data t :: behind := by simp
  have hbuild := build_tokensOfAll [.element name attributes inside] run [] [] hnone
  have hfilter := filter_prependText hrun name attributes (joined inside)
  rw [tokensOfAll, tokensOfAll, joined, joined, prepend, nil_append, build] at hbuild
  unfold read
  rw [afterDeclaration?_declaration, Option.bind_eq_bind, Option.bind_some, h]
  simp only [Option.bind_eq_bind, Option.bind_some, hbuild, hfilter]
  rfl

end Creole.Xml

namespace Creole.XmlElement

open Xml

/-- The tags of a document, in document order. -/
def tags (e : XmlElement) : List (Text × List (Text × Text)) := e.toXml.tags

/-- Whatever a writer makes of an element reads back as the element, if all names in it are
names and no element has one that begins with `!` or `?`: the same elements with the same
names and attributes, and the same character data at the same places, but for line ends and
indentation between tags with no character data between them.  So what an element of
character data alone holds reads back exactly.  The writer of this library is such a writer
for every indentation. -/
theorem exists_read_of_writes {e : XmlElement} (hnamed : ∀ tag ∈ e.tags, TagNamed tag)
    (hmarkup : ∀ tag ∈ e.tags, tag.1.head? ≠ some '!' ∧ tag.1.head? ≠ some '?') :
    (∀ s, e.Writes s → ∃ root, Xml.read s = some root ∧ e.ReadsAs root ∧
        root.listings = e.listings) ∧
      ∀ indent, e.Writes (e.write indent) := by
  refine ⟨fun s hwrites => ?_, e.writes_write⟩
  obtain ⟨body, hbody, rfl⟩ := hwrites
  obtain ⟨name, attributes, content⟩ := e
  have hplain : ∀ tag ∈ (name, attributes) :: tagsAll content,
      TagNamed tag ∧ opensMarkup tag.1 = false := by
    intro tag htag
    obtain ⟨hmark, hquestion⟩ := hmarkup tag htag
    exact ⟨hnamed tag htag, opensMarkup_eq_false hmark hquestion⟩
  rw [List.forall_mem_cons] at hplain
  obtain ⟨⟨hself, hselfMarkup⟩, hcontent⟩ := hplain
  have hback : ReadsBack content := readsBack content hcontent
  rw [← List.append_nil (events _)] at hbody
  obtain ⟨run, inside, rest, hrun, hinside, hrest, htokens⟩ :=
    hback.element hself hselfMarkup hbody
  have hreads : ReadsAs ⟨name, attributes, content⟩ ⟨name, attributes, joined inside⟩ :=
    ⟨rfl, rfl, inside, hinside, rfl⟩
  refine ⟨⟨name, attributes, joined inside⟩, ?_, hreads, hreads.listings⟩
  cases hrest
  exact read_of_tokens? hrun (htokens.trans (by rw [tokens?]; rfl))

/-- A listing that holds the end of a section, tags and references, between elements with
reserved characters in texts and attributes. -/
def sampleArticle : XmlElement where
  name := "article".toList
  attributes := [("xml:lang".toList, "\"'<\n".toList)]
  content :=
    [.element "para".toList []
        [.text "a & b".toList, .element "sbr".toList [] [], .text "]]>".toList],
      .element "programlisting".toList [] [.cdata "]]>]]></a>&lt;".toList, .text "<".toList]]

theorem exists_read_of_writes_sampleArticle :
    (∀ tag ∈ sampleArticle.tags, TagNamed tag) ∧
      (∀ tag ∈ sampleArticle.tags, tag.1.head? ≠ some '!' ∧ tag.1.head? ≠ some '?') ∧
      ∃ root, Xml.read (sampleArticle.write 2) = some root ∧ sampleArticle.ReadsAs root ∧
        root.listings =
          [("sbr".toList, [], []), ("programlisting".toList, [], "]]>]]></a>&lt;<".toList)] := by
  have hnamed : ∀ tag ∈ sampleArticle.tags, TagNamed tag := by decide +kernel
  have hmarkup : ∀ tag ∈ sampleArticle.tags,
      tag.1.head? ≠ some '!' ∧ tag.1.head? ≠ some '?' := by decide +kernel
  obtain ⟨hread, hwrites⟩ := exists_read_of_writes hnamed hmarkup
  obtain ⟨root, hroot, hreads, hlistings⟩ := hread _ (hwrites 2)
  exact ⟨hnamed, hmarkup, root, hroot, hreads, hlistings.trans (by decide +kernel)⟩

/-! ### Other names -/

/-- The condition on the names of elements is needed: an element whose name begins with `!` or
`?`, and does not open a section, is not read from anything that may be written of it. -/
theorem read_of_writes_opensMarkup {e : XmlElement} (hmarkup : opensMarkup e.name = true)
    (hsection : Text.opens cdataStart.tail e.name = false) {s : Text} (h : e.Writes s) :
    Xml.read s = none := by
  obtain ⟨body, hbody, rfl⟩ := h
  obtain ⟨name, attributes, content⟩ := e
  obtain ⟨event, evs, hevents, hevent⟩ :
      ∃ event evs, events (.element name attributes content) = event :: evs ∧
        (event = .start name attributes ∨ event = .empty name attributes) := by
    cases content with
    | nil => exact ⟨_, _, rfl, Or.inr rfl⟩
    | cons x xs => exact ⟨_, _, rfl, Or.inl rfl⟩
  have htag : event.tag ≠ [] := by
    rcases hevent with rfl | rfl <;> exact List.cons_ne_nil _ _
  have htokens : tokens? body = none := by
    rw [toXml, hevents] at hbody
    cases hbody with
    | text | cdata => exact absurd rfl htag
    | tag ht => exact tokens?_of_writesTag_opensMarkup hevent hmarkup hsection ht _
    | line n ht =>
        rw [List.append_assoc, tokens?_escaped (escapes_lineStart n),
          tokens?_of_writesTag_opensMarkup hevent hmarkup hsection ht, Option.map_none]
  unfold Xml.read
  rw [afterDeclaration?_declaration, Option.bind_eq_bind, Option.bind_some, htokens]
  rfl

/-- An element whose tag looks like the start of a CDATA section, in front of a section. -/
def sampleHidden : XmlElement where
  name := ['a']
  content := [.element "![CDATA[".toList [] [], .cdata ['x']]

/-- A section that looks like the tag of an element in front of a section. -/
def sampleHiding : XmlElement where
  name := ['a']
  content := [.text (lineStart 2), .cdata "/><![CDATA[x".toList]

/-- No reader reads back all elements whose names are names, whatever the indentation: of
two of them the same is written. -/
theorem not_exists_read_of_tagNamed :
    ¬ ∃ read : Text → Option XmlElement, ∀ e : XmlElement, (∀ tag ∈ e.tags, TagNamed tag) →
      ∀ indent, ∃ root, read (e.write indent) = some root ∧ e.ReadsAs root := by
  rintro ⟨read, hread⟩
  have hwritten : sampleHidden.write 2 = sampleHiding.write 2 := by decide +kernel
  obtain ⟨root, hroot, hreads⟩ := hread sampleHidden (by decide +kernel) 2
  obtain ⟨root', hroot', hreads'⟩ := hread sampleHiding (by decide +kernel) 2
  rw [hwritten] at hroot
  obtain rfl : root = root' := Option.some.inj (hroot.symm.trans hroot')
  have hlistings : sampleHidden.listings = sampleHiding.listings :=
    hreads.listings.symm.trans hreads'.listings
  exact absurd hlistings (by decide +kernel)

end Creole.XmlElement
