import Creole.Link.Site
import Creole.Proofs.Link.Target
import Creole.Proofs.Text.Percent

/-!
# Different resources have different URLs

A target that leads to a place on the site itself names a `Resource`: the path of a page,
an attachment, a revision and a fragment.  Two targets whose URLs are the same name the
same resource, from whatever pages they are followed (`Site.resource_eq_of_url_eq`).

A URL is the place of a resource, encoded, with a query and a fragment behind it
(`url_resolveLocal`).  The encoding keeps slashes, so that the place of an attachment might
be taken for a page; but then the page would end in a file, and a target that names it would
name an attachment (`Resource.Clear`).
-/

namespace Creole

open Text

/-- What a target on the site itself names. -/
@[ext]
structure Resource where
  /-- The path of the page, which is the one that the target stands on unless it names one. -/
  path : Text
  attachment : Option Text
  revision : Option Nat
  fragment : Option Text
  deriving DecidableEq, Repr

/-- The resource that a target names, from a page. -/
def Target.resource (target : Target) (page : PageRef) : Resource where
  path := target.page.getD page.path
  attachment := target.attachment
  revision := target.revision
  fragment := target.fragment

/-- Whether a URL leads to a page of the site, or to an attachment of one. -/
def Destination.isOnSite : Destination → Bool
  | localPage _ | attachment => true
  | external | interWiki | fragment => false

namespace Resource

/-- The directory of a page in which its attachments stand. -/
def directory : Text := "/attachments".toList

/-- Where the resource is found on the site. -/
def place (r : Resource) : Text :=
  match r.attachment with
  | some file => r.path ++ directory ++ '/' :: file
  | none => r.path

/-- The revision as the query of a URL. -/
def query : Option Nat → Text
  | some number => '?' :: ("revision=".toList ++ Text.ofNat number)
  | none => []

/-- A resource is clear if its attachment is a file, and if its page is none where it has no
attachment. -/
structure Clear (r : Resource) : Prop where
  file : ∀ file, r.attachment = some file → '/' ∉ file ∧ '.' ∈ file
  page : r.attachment = none →
    ∀ before last, r.path = before ++ '/' :: last → '/' ∉ last → '.' ∉ last

end Resource

/-! ### The URL of a resource -/

theorem Site.url_resolveLocal (site : Site) (page : PageRef) (target : Target) :
    (site.resolveLocal page target).url =
      dropTrailing (· == '/') site.baseUrl ++ '/' :: (Percent.encode (target.resource page).place ++
        (Resource.query target.revision ++ fragmentSuffix target.fragment)) := by
  have hfile : ∀ file, Percent.encode (Resource.directory ++ '/' :: file) =
      "/attachments/".toList ++ Percent.encode file := fun _ => rfl
  unfold resolveLocal pageUrl Target.resource Resource.place Resource.query
  cases target.attachment with
  | none =>
      simp only [List.append_nil, List.append_assoc, List.cons_append]
      rfl
  | some file =>
      simp only [List.append_assoc, List.cons_append, Percent.encode_append, ← hfile]
      rfl

/-- What leads to a place on the site is resolved there, and names a page or an
attachment. -/
theorem Site.eq_resolveLocal_of_resolve {site : Site} {page : PageRef} {target : Target}
    {resolved : Resolved} (h : site.resolve page target = .ok resolved)
    (hlocal : resolved.destination.isOnSite = true) :
    target.uri = none ∧ (target.attachment = none → target.page.isSome = true) ∧
      resolved = site.resolveLocal page target := by
  unfold resolve at h
  split at h
  · obtain rfl : _ = resolved := by simpa using h
    cases hlocal
  · next huri =>
    split at h
    · split at h
      · obtain rfl : _ = resolved := by simpa using h
        cases hlocal
      · cases h
    · next hnames =>
      have hpage : target.attachment = none → target.page.isSome = true := by
        intro hnone
        simpa [hnone, Option.isSome_iff_ne_none] using hnames
      split at h
      · cases h
      · split at h
        · exact ⟨huri, hpage, by simpa using h.symm⟩
        · unfold resolveForeign at h
          simp only at h
          split at h
          · cases h
          · obtain rfl : _ = resolved := by simpa using h
            cases hlocal

/-! ### Resources are told apart -/

namespace Resource

theorem fragmentSuffix_injective {fragment fragment' : Option Text}
    (h : Site.fragmentSuffix fragment = Site.fragmentSuffix fragment') : fragment = fragment' := by
  cases fragment <;> cases fragment' <;> simp_all [Site.fragmentSuffix]

theorem isDigit_of_mem_ofNat {number : Nat} {c : Char} (h : c ∈ Text.ofNat number) :
    c.isDigit = true :=
  Nat.isDigit_of_mem_toDigits (by decide) (by decide) h

theorem ofNat_injective : Function.Injective Text.ofNat := by
  intro number number' h
  have hread : ∀ n, Nat.ofDigitChars 10 (Text.ofNat n) 0 = n := fun n =>
    Nat.ofDigitChars_toDigits (by decide) (by decide)
  rw [← hread number, h, hread number']

/-- A fragment begins with no digit. -/
theorem head?_fragmentSuffix (fragment : Option Text) :
    ∀ c ∈ (Site.fragmentSuffix fragment).head?, c = '#' := by
  cases fragment <;> simp [Site.fragmentSuffix]

theorem fragmentSuffix_ne_query_append (fragment fragment' : Option Text) (number : Nat) :
    Site.fragmentSuffix fragment ≠ query (some number) ++ Site.fragmentSuffix fragment' := by
  intro h
  have hhead := head?_fragmentSuffix fragment '?' (by simp [h, query])
  exact absurd hhead (by decide)

/-- What ends the place of a resource in a URL. -/
def isDelimiter (c : Char) : Bool := c == '?' || c == '#'

theorem plain_encode (s : Text) : ∀ c ∈ Percent.encode s, (!isDelimiter c) = true := by
  intro c hc
  have hquestion : '?' ∉ Percent.encode s := Percent.notMem_encode (by decide) (by decide) s
  have hnumber : '#' ∉ Percent.encode s := Percent.notMem_encode (by decide) (by decide) s
  have hne : c ≠ '?' ∧ c ≠ '#' :=
    ⟨ne_of_mem_of_not_mem hc hquestion, ne_of_mem_of_not_mem hc hnumber⟩
  simp [isDelimiter, hne]

theorem head?_query_append (revision : Option Nat) (fragment : Option Text) :
    ∀ c ∈ (query revision ++ Site.fragmentSuffix fragment).head?, (!isDelimiter c) = false := by
  intro c hc
  cases revision with
  | none =>
      rw [head?_fragmentSuffix fragment c hc]
      rfl
  | some number =>
      obtain rfl : '?' = c := by simpa [query] using hc
      rfl

/-- A query and a fragment behind it can be told apart. -/
theorem query_append_injective {revision revision' : Option Nat} {fragment fragment' : Option Text}
    (h : query revision ++ Site.fragmentSuffix fragment =
      query revision' ++ Site.fragmentSuffix fragment') :
    revision = revision' ∧ fragment = fragment' := by
  cases revision with
  | none =>
      cases revision' with
      | none => exact ⟨rfl, fragmentSuffix_injective h⟩
      | some number => exact absurd h (fragmentSuffix_ne_query_append _ _ _)
  | some number =>
      cases revision' with
      | none => exact absurd h.symm (fragmentSuffix_ne_query_append _ _ _)
      | some number' =>
          have hdigits : Text.ofNat number ++ Site.fragmentSuffix fragment =
              Text.ofNat number' ++ Site.fragmentSuffix fragment' := by
            simpa [query] using h
          have hbehind : ∀ fragment, ∀ c ∈ (Site.fragmentSuffix fragment).head?,
              c.isDigit = false := by
            intro fragment c hc
            rw [head?_fragmentSuffix fragment c hc]
            rfl
          obtain ⟨hnumber, hfragment⟩ := append_inj_of_head (fun _ => isDigit_of_mem_ofNat)
            (fun _ => isDigit_of_mem_ofNat) (hbehind fragment) (hbehind fragment') hdigits
          exact ⟨congrArg some (ofNat_injective hnumber), fragmentSuffix_injective hfragment⟩

theorem place_of_attachment {r : Resource} {file : Text} (h : r.attachment = some file) :
    r.place = r.path ++ directory ++ '/' :: file := by
  rw [place, h]

theorem place_of_page {r : Resource} (h : r.attachment = none) : r.place = r.path := by
  rw [place, h]

/-- The place of an attachment is not that of a page. -/
theorem Clear.place_ne_of_page {r r' : Resource} {file : Text} (h : r.Clear) (h' : r'.Clear)
    (hnone : r.attachment = none) (hfile : r'.attachment = some file) : r.place ≠ r'.place := by
  intro heq
  obtain ⟨hslash, hextension⟩ := h'.file file hfile
  rw [place_of_page hnone, place_of_attachment hfile] at heq
  exact h.page hnone _ file heq hslash hextension

/-- A place is that of one clear resource only. -/
theorem Clear.eq_of_place_eq {r r' : Resource} (h : r.Clear) (h' : r'.Clear)
    (hplace : r.place = r'.place) : r.path = r'.path ∧ r.attachment = r'.attachment := by
  cases hfile : r.attachment with
  | none =>
      cases hfile' : r'.attachment with
      | none =>
          rw [place_of_page hfile, place_of_page hfile'] at hplace
          exact ⟨hplace, rfl⟩
      | some file' => exact absurd hplace (h.place_ne_of_page h' hfile hfile')
  | some file =>
      cases hfile' : r'.attachment with
      | none => exact absurd hplace.symm (h'.place_ne_of_page h hfile' hfile)
      | some file' =>
          -- both are cut at their last slash
          have hcut := cutLast?_append (h.file file hfile).1 (r.path ++ directory)
          rw [← place_of_attachment hfile, hplace, place_of_attachment hfile',
            cutLast?_append (h'.file file' hfile').1] at hcut
          obtain ⟨hpath, rfl⟩ : r'.path ++ directory = r.path ++ directory ∧ file' = file := by
            simpa using hcut
          exact ⟨(List.append_cancel_right hpath).symm, rfl⟩

end Resource

/-- What a target names on the site is clear. -/
theorem Target.clear_resource {source text : Text} (huri : (read source text).uri = none)
    (hpage : (read source text).attachment = none → (read source text).page.isSome = true)
    (page : PageRef) : ((read source text).resource page).Clear where
  file _ hfile := attachment_of_read hfile
  page hnone before last hpath hlast := by
    obtain ⟨name, hname⟩ := Option.isSome_iff_exists.mp (hpage hnone)
    have hnamed : (read source text).page = some (before ++ '/' :: last) := by
      rw [← hpath, Target.resource, hname, Option.getD_some]
    exact page_of_read huri hnone hnamed hlast

/-- Targets that lead to places on a site, and to the same URL, name the same page,
attachment, revision and fragment. -/
theorem Site.resource_eq_of_url_eq {site : Site} {source source' text text' : Text}
    {page page' : PageRef} {resolved resolved' : Resolved}
    (h : site.resolve page (.read source text) = .ok resolved)
    (h' : site.resolve page' (.read source' text') = .ok resolved')
    (hlocal : resolved.destination.isOnSite = true)
    (hlocal' : resolved'.destination.isOnSite = true) (hurl : resolved.url = resolved'.url) :
    (Target.read source text).resource page = (Target.read source' text').resource page' := by
  obtain ⟨huri, hpage, rfl⟩ := eq_resolveLocal_of_resolve h hlocal
  obtain ⟨huri', hpage', rfl⟩ := eq_resolveLocal_of_resolve h' hlocal'
  have hclear := Target.clear_resource huri hpage page
  have hclear' := Target.clear_resource huri' hpage' page'
  rw [url_resolveLocal, url_resolveLocal] at hurl
  have hbehind := List.cons.inj (List.append_cancel_left hurl)
  obtain ⟨hencoded, htail⟩ := append_inj_of_head (Resource.plain_encode _)
    (Resource.plain_encode _) (Resource.head?_query_append _ _) (Resource.head?_query_append _ _)
    hbehind.2
  obtain ⟨hpath, hattachment⟩ :=
    hclear.eq_of_place_eq hclear' (Percent.encode_injective hencoded)
  obtain ⟨hrevision, hfragment⟩ := Resource.query_append_injective htail
  exact Resource.ext hpath hattachment hrevision hfragment

/-! ### An example -/

/-- A site that may be addressed by its name. -/
def sampleSite : Site where
  store := ({} : Archive).toStore
  baseUrl := "/wiki/pages/".toList
  localWiki := some "main".toList

/-- Two ways to write one resource. -/
def samplePlans : Text × Text :=
  ("main:Team Notes@7/plan v1.2.txt#top".toList, " Team Notes@07/plan v1.2.txt#top".toList)

/-- Where both lead. -/
def samplePlan : Resolved where
  url := "/wiki/pages/Team%20Notes/attachments/plan%20v1.2.txt?revision=7#top".toList
  destination := .attachment

theorem Site.resource_eq_of_url_eq_samplePlans :
    sampleSite.resolve (.onLocal "Here".toList) (.read samplePlans.1 []) = .ok samplePlan ∧
      sampleSite.resolve (.onLocal "There".toList) (.read samplePlans.2 []) = .ok samplePlan ∧
      samplePlan.destination.isOnSite = true ∧
      (Target.read samplePlans.1 []).resource (.onLocal "Here".toList) =
        (Target.read samplePlans.2 []).resource (.onLocal "There".toList) := by
  have hfirst : sampleSite.resolve (.onLocal "Here".toList) (.read samplePlans.1 []) =
      .ok samplePlan := by decide +kernel
  have hsecond : sampleSite.resolve (.onLocal "There".toList) (.read samplePlans.2 []) =
      .ok samplePlan := by decide +kernel
  exact ⟨hfirst, hsecond, rfl, resource_eq_of_url_eq hfirst hsecond rfl rfl rfl⟩

end Creole
