import Creole.Link.Handler
import Creole.Proofs.Inline.Truncated

/-!
# URLs in running text lead to themselves

Running text is searched for URLs in one way, and the target of a link is found to be a URI in
another.  They agree on every URL that is found in a text, after the punctuation behind it has
been dropped: the link that is made of it has the URL as its whole target, and an anchor leads
there, on every site (`anchor_of_rawUrl?`).

What connects the two is that a URL in running text is a scheme with something behind it, and
holds no white space (`solid_urlTail`).
-/

namespace Creole.Inline

open List Text

variable {previous : Option Char} {scheme rest s url : Text}

/-! ### What a URL holds -/

/-- What is found as a URL in running text: it does not end in punctuation, and holds neither
white space nor a character that markup needs. -/
structure PlainUrl (url : Text) : Prop where
  ne_nil : url ≠ []
  last : ∀ c ∈ url.getLast?, c ∉ ".,;:!?)".toList
  visible : ∀ c ∈ url, isBlank c = false
  plain : ∀ c ∈ url, c ∉ "<>\"|[]\x7b\x7d".toList

theorem isUrlChar_of_mem_scheme (hscheme : scheme ∈ urlSchemes) :
    ∀ c ∈ scheme, isUrlChar c = true := by
  simp only [urlSchemes, mem_cons, not_mem_nil, or_false] at hscheme
  rcases hscheme with rfl | rfl | rfl | rfl <;> exact all_eq_true.mp (by decide +kernel)

theorem urlTail_isPrefix (rest : Text) : urlTail rest <+: rest := by
  have hrun : urlTail rest <+: rest.takeWhile isUrlChar :=
    ⟨_, dropTrailing_append_trailing isUrlTrailing _⟩
  exact hrun.trans <| takeWhile_prefix isUrlChar

theorem isUrlChar_of_mem_urlTail {c : Char} (hc : c ∈ urlTail rest) : isUrlChar c = true := by
  have hrun : c ∈ rest.takeWhile isUrlChar := (dropTrailing_sublist isUrlTrailing _).subset hc
  exact all_eq_true.mp all_takeWhile c hrun

theorem isUrlTrailing_of_getLast? {c : Char} (hc : c ∈ (urlTail rest).getLast?) :
    isUrlTrailing c = false := by
  have hhead := head?_dropWhile_not isUrlTrailing (rest.takeWhile isUrlChar).reverse
  rw [urlTail, dropTrailing, getLast?_reverse] at hc
  simpa [Option.mem_def.mp hc] using hhead

theorem visible_and_plain_of_isUrlChar {c : Char} (h : isUrlChar c = true) :
    isBlank c = false ∧ c ∉ "<>\"|[]\x7b\x7d".toList := by
  simpa only [isUrlChar, Bool.and_eq_true, Bool.not_eq_true', List.contains_eq_mem,
    decide_eq_false_iff_not] using h

theorem plainUrl_of_rawUrl? (h : rawUrl? previous s = some url) : PlainUrl url := by
  obtain ⟨scheme, hscheme, rest, -, htail, -, rfl⟩ := rawUrl?_eq_some_iff.mp h
  have hchars : ∀ c ∈ scheme ++ urlTail rest, isUrlChar c = true := by
    rw [forall_mem_append]
    exact ⟨isUrlChar_of_mem_scheme hscheme, fun c => isUrlChar_of_mem_urlTail⟩
  refine ⟨append_ne_nil_of_right_ne_nil _ htail, fun c hc => ?_,
    fun c hc => (visible_and_plain_of_isUrlChar (hchars c hc)).1,
    fun c hc => (visible_and_plain_of_isUrlChar (hchars c hc)).2⟩
  rw [getLast?_append_of_ne_nil _ htail] at hc
  simpa [isUrlTrailing] using isUrlTrailing_of_getLast? hc

/-! ### The target of a URL -/

theorem solid_urlTail (htail : urlTail rest ≠ []) : Target.solid (urlTail rest) = true := by
  have hvisible : ∀ c ∈ urlTail rest, isBlank c = false := fun c hc =>
    (visible_and_plain_of_isUrlChar (isUrlChar_of_mem_urlTail hc)).1
  simpa [Target.solid, htail] using hvisible

/-- Each scheme that running text is searched for makes a URI of what it stands before. -/
theorem isAbsolute_append (hscheme : scheme ∈ urlSchemes) (hrest : Target.solid rest = true) :
    Target.isAbsolute (scheme ++ rest) = true := by
  simp only [urlSchemes, mem_cons, not_mem_nil, or_false] at hscheme
  rw [Target.isAbsolute, Bool.or_eq_true]
  rcases hscheme with rfl | rfl | rfl | rfl
  · exact Or.inl hrest
  · exact Or.inl hrest
  · exact Or.inl hrest
  · exact Or.inr hrest

theorem read_of_rawUrl? (h : rawUrl? previous s = some url) (text : Text) :
    Target.read url text = { text, uri := some url } := by
  have htrim : trim url = url := trim_of_visible (plainUrl_of_rawUrl? h).visible
  obtain ⟨scheme, hscheme, rest, -, htail, -, rfl⟩ := rawUrl?_eq_some_iff.mp h
  simp [Target.read, htrim, isAbsolute_append hscheme (solid_urlTail htail)]

/-! ### The link of a URL -/

/-- The link that a URL is made into on a page: the URL is its target and its title, and as a
URI it has no other pieces. -/
def urlLink (page : PageRef) (url : Text) : Link where
  source := url
  title := url
  target := { text := url, uri := some url }
  page := page
  handler := .link

theorem scan_of_rawUrl? {c : Char} {cs : Text} (h : rawUrl? previous (c :: cs) = some url)
    (page : PageRef) :
    scan page previous c cs = (.leaf (.link (urlLink page url)), url.length) := by
  have hlink : linkTo .link page url url = urlLink page url := by
    simp [linkTo, urlLink, read_of_rawUrl? h]
  rw [scan, h, ← hlink]

/-- A URL that is found anywhere in a text, in front of what may follow it there, begins a word
and is plain.  It is read as a link to itself; as an anchor, on every site and with every filter,
this link is marked as external and leads to the filtered URL. -/
theorem anchor_of_rawUrl? (page : PageRef) {before : Text}
    (h : rawUrl? before.getLast? s = some url) :
    (url <+: s ∧ PlainUrl url ∧ ∀ c ∈ before.getLast?, isAlphanumeric c = false) ∧
    (∃ c cs, s = c :: cs ∧
      scan page before.getLast? c cs = (.leaf (.link (urlLink page url)), url.length)) ∧
    ∀ (site : Site) (here : PageRef) (content : Text) (filter : UrlFilter),
      (Handler.anchors site).resolve here (urlLink page url).target filter = .ok (filter url) ∧
      (Handler.anchors site).render here content (urlLink page url).target filter =
        .ok ("<a class='external' href='".toList ++ escape (filter url) ++ "'>".toList ++
          content ++ "</a>".toList) := by
  obtain ⟨scheme, hscheme, rest, rfl, htail, hprevious, rfl⟩ := rawUrl?_eq_some_iff.mp h
  refine ⟨⟨?_, plainUrl_of_rawUrl? h, ?_⟩, ?_, fun site here content filter => ⟨rfl, rfl⟩⟩
  · exact (prefix_append_right_inj scheme).mpr (urlTail_isPrefix rest)
  · intro c hc
    rw [Option.mem_def.mp hc] at hprevious
    exact hprevious
  · obtain ⟨c, cs, hcons⟩ := exists_cons_of_ne_nil (ne_nil_of_mem_urlSchemes hscheme)
    rw [hcons, cons_append] at h ⊢
    exact ⟨c, cs ++ rest, rfl, scan_of_rawUrl? h page⟩

/-- A text with a URL in parentheses, in front of which a word ends. -/
def sampleSentence : Text × Text :=
  ("seen (".toList, "https://example.com/?a=1&b=2).), \u00e9".toList)

/-- The URL in it. -/
def sampleUrl : Text := "https://example.com/?a=1&b=2".toList

theorem anchor_of_rawUrl?_sampleSentence :
    rawUrl? sampleSentence.1.getLast? sampleSentence.2 = some sampleUrl ∧
    PlainUrl sampleUrl ∧
    (∃ c cs, sampleSentence.2 = c :: cs ∧
      scan (.onLocal []) sampleSentence.1.getLast? c cs =
        (.leaf (.link (urlLink (.onLocal []) sampleUrl)), sampleUrl.length)) ∧
    (Handler.anchors { store := ⟨fun _ _ => .error { failure := .unavailable }⟩ }).render
        (.onLocal []) "b".toList (urlLink (.onLocal []) sampleUrl).target (· ++ "#s".toList) =
      .ok "<a class='external' href='https://example.com/?a=1&amp;b=2#s'>b</a>".toList := by
  have hurl : rawUrl? sampleSentence.1.getLast? sampleSentence.2 = some sampleUrl := by
    decide +kernel
  obtain ⟨⟨-, hplain, -⟩, hscan, hanchor⟩ := anchor_of_rawUrl? (.onLocal []) hurl
  exact ⟨hurl, hplain, hscan, (hanchor _ _ _ _).2⟩

end Creole.Inline
