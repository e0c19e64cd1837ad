import Creole.Text.Alphanumeric

/-!
# URLs in running text

A URL needs no brackets where it begins a word: a scheme and the run of URL
characters behind it are a link to themselves.  Punctuation at the end of the run
belongs to the sentence and not to the URL.
-/

namespace Creole.Inline

/-- The schemes that running text is searched for. -/
def urlSchemes : List Text :=
  ["http://".toList, "https://".toList, "ftp://".toList, "mailto:".toList]

/-- Whether a character may stand in a URL behind its scheme. -/
def isUrlChar (c : Char) : Bool := !isBlank c && !"<>\"|[]\x7b\x7d".toList.contains c

/-- Whether a character does not belong to a URL that it ends. -/
def isUrlTrailing (c : Char) : Bool := ".,;:!?)".toList.contains c

/-- The URL at the start of a text.  None begins behind a letter or a number. -/
def rawUrl? (previous : Option Char) (s : Text) : Option Text :=
  match urlSchemes.find? (Text.opens · s) with
  | none => none
  | some scheme =>
    let rest := Text.dropTrailing isUrlTrailing ((s.drop scheme.length).takeWhile isUrlChar)
    if rest.isEmpty || previous.any isAlphanumeric then none else some (scheme ++ rest)

theorem ne_nil_of_mem_urlSchemes {scheme : Text} (h : scheme ∈ urlSchemes) : scheme ≠ [] := by
  simp only [urlSchemes, List.mem_cons, List.not_mem_nil, or_false] at h
  rcases h with rfl | rfl | rfl | rfl <;> decide

theorem ne_nil_of_rawUrl? {previous : Option Char} {s url : Text}
    (h : rawUrl? previous s = some url) : url ≠ [] := by
  unfold rawUrl? at h
  split at h
  · simp at h
  · next scheme hfind =>
    have hscheme := ne_nil_of_mem_urlSchemes (List.mem_of_find?_eq_some hfind)
    simp only at h
    split at h
    · simp at h
    · simp only [Option.some.injEq] at h
      subst h
      simp [hscheme]

end Creole.Inline
