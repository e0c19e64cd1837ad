import Creole.Proofs.Link.Foreign
import Creole.Renderer
import Creole.Settings.Read

/-!
# Settings that load

Settings pass the check if and only if they keep all rules (`check_eq_ok_iff`), and what is
checked is what variables were expanded to.  So the rules hold of the values that pages are
rendered with: no environment can lead a link to another wiki off the web
(`leadsAway_of_read`).
-/

namespace Creole.Settings

/-- Settings that keep all rules. -/
structure Valid (s : Settings) : Prop where
  cssClass : s.render.cssClass ≠ []
  maxMacroDepth : 1 ≤ s.render.maxMacroDepth ∧ s.render.maxMacroDepth ≤ 100
  baseUrl : s.links.baseUrl ≠ []
  localWiki : ∀ name, s.links.localWiki = some name → name ≠ []
  interwiki : ∀ wiki ∈ s.links.interwiki.entries, WebTemplate wiki.2
  language : s.docbook.language ≠ []
  indent : s.docbook.indent ≤ 8

/-! ## Checks -/

section Checks

variable {ε α : Type} {condition : Bool} {problem : SettingsProblem}

theorem bind_eq_ok {first second : Except ε Unit} :
    (first >>= fun _ => second) = .ok () ↔ first = .ok () ∧ second = .ok () := by
  cases first <;> simp [bind, Except.bind]

theorem forM_eq_ok {members : List α} {check : α → Except ε Unit} :
    members.forM check = .ok () ↔ ∀ member ∈ members, check member = .ok () := by
  induction members with
  | nil => simp [List.forM, pure, Except.pure]
  | cons member members ih => rw [List.forM, bind_eq_ok, ih, List.forall_mem_cons]

theorem require_eq_ok : require condition problem = .ok () ↔ condition = true := by
  cases condition <;> simp [require]

theorem isHttp_iff {url : Text} : isHttp url = true ↔ OnWeb url := by
  rw [isHttp, Bool.or_eq_true, Text.opens_iff_isPrefix, Text.opens_iff_isPrefix, OnWeb]

theorem checkTemplate_eq_ok_iff {name template : Text} :
    checkTemplate name template = .ok () ↔ WebTemplate template := by
  rw [checkTemplate, bind_eq_ok, require_eq_ok, require_eq_ok, isHttp_iff, Text.includes_iff]
  exact ⟨fun ⟨honWeb, hplaceholder⟩ => ⟨honWeb, hplaceholder⟩,
    fun h => ⟨h.onWeb, h.placeholder⟩⟩

end Checks

variable {s : Settings}

theorem check_eq_ok_iff : s.check = .ok () ↔ s.Valid := by
  have hlocal : decide (s.links.localWiki ≠ some []) = true ↔
      ∀ name, s.links.localWiki = some name → name ≠ [] := by
    cases s.links.localWiki <;> simp
  unfold check
  simp only [bind_eq_ok, forM_eq_ok, require_eq_ok, checkTemplate_eq_ok_iff, hlocal,
    Bool.and_eq_true, decide_eq_true_eq, Bool.not_eq_true', List.isEmpty_eq_false_iff]
  constructor
  · rintro ⟨hclass, hdepth, hbase, hwiki, htemplates, hlanguage, hindent⟩
    exact ⟨hclass, hdepth, hbase, hwiki, htemplates, hlanguage, hindent⟩
  · intro h
    exact ⟨h.cssClass, h.maxMacroDepth, h.baseUrl, h.localWiki, h.interwiki, h.language, h.indent⟩

/-! ## Loading -/

section Read

variable {env : Environment} {document : Text}

/-- Settings that load are written ones, first expanded and then checked. -/
theorem exists_written_of_read (h : read env document = .ok s) :
    ∃ written, (Toml.read? document).bind ofEntries = some written ∧
      written.expand env = .ok s ∧ s.check = .ok () := by
  unfold read at h
  split at h
  · cases h
  · next written hwritten =>
    refine ⟨written, hwritten, ?_⟩
    cases hexpand : written.expand env with
    | error e => simp [hexpand, bind, Except.bind] at h
    | ok expanded =>
        cases hcheck : expanded.check with
        | error problem => simp [hexpand, hcheck, bind, Except.bind] at h
        | ok done =>
            obtain rfl : expanded = s := by
              simpa [hexpand, hcheck, bind, Except.bind, pure, Except.pure] using h
            exact ⟨rfl, hcheck⟩

/-- The template of a wiki in settings that keep the rules is one of the web. -/
theorem Valid.template {wiki template : Text} (h : s.Valid)
    (hget : s.links.interwiki.get? wiki = some template) : WebTemplate template := by
  obtain ⟨before, behind, hentries, -⟩ := List.lookup_eq_some_iff.mp hget
  refine h.interwiki (wiki, template) ?_
  rw [hentries]
  simp

/-- Where settings keep the rules, a link to another wiki that leads anywhere leads to the
web. -/
theorem Valid.onWeb {target : Target} {resolved : Resolved} (h : s.Valid)
    (haway : LeadsAway s.links.interwiki target (.ok resolved)) :
    OnWeb resolved.url ∧ resolved.destination = .interWiki := by
  cases haway with
  | found hwiki hget hfree =>
      obtain ⟨rest, hrest⟩ | ⟨rest, hrest⟩ := onWeb_intercalate (h.template hget).onWeb
        (Percent.encode (target.page.getD [] ++ target.attachment.elim [] ('/' :: ·)))
      · exact ⟨Or.inl ⟨_, by rw [← hrest, List.append_assoc]⟩, rfl⟩
      · exact ⟨Or.inr ⟨_, by rw [← hrest, List.append_assoc]⟩, rfl⟩

/-- Settings that load are what the written ones expand to, and keep all rules.  A renderer
for them serves links and images on a site where a target on another wiki that names a page
or an attachment leads away, and if it leads anywhere then to the web. -/
theorem leadsAway_of_read (h : read env document = .ok s) :
    (∃ written, (Toml.read? document).bind ofEntries = some written ∧
        written.expand env = .ok s) ∧
      s.Valid ∧
      ∀ (store : PageStore) (custom : Nat → Handler),
        (Renderer.ofSettings s store custom).handlers =
            .ofSite (.ofSettings s.links store) s.render.cssClass custom ∧
          ∀ (page : PageRef) (target : Target) (wiki : Text), target.uri = none →
            target.wiki = some wiki → s.links.localWiki ≠ some wiki →
            target.page.isSome = true ∨ target.attachment.isSome = true →
            LeadsAway s.links.interwiki target
                ((Site.ofSettings s.links store).resolve page target) ∧
              ∀ resolved, (Site.ofSettings s.links store).resolve page target = .ok resolved →
                OnWeb resolved.url ∧ resolved.destination = .interWiki := by
  obtain ⟨written, hwritten, hexpand, hcheck⟩ := exists_written_of_read h
  have hvalid := check_eq_ok_iff.mp hcheck
  refine ⟨⟨written, hwritten, hexpand⟩, hvalid, fun store custom => ⟨rfl, ?_⟩⟩
  intro page target wiki huri hwiki haway hnames
  have hleads := (Site.ofSettings s.links store).leadsAway_resolve huri hwiki haway hnames page
  refine ⟨hleads, fun resolved hresolved => ?_⟩
  rw [hresolved] at hleads
  exact hvalid.onWeb hleads

end Read

/-! ### An example -/

/-- Settings with a wiki whose address is a variable. -/
def sampleDocument : Text :=
  "[links]\nlocal_wiki = 'main'\ninterwiki = \x7bc2 = '$\x7bC2\x7d/%s?as=%s'\x7d".toList

/-- An environment in which the variable is set. -/
def sampleEnvironment : Environment := fun name =>
  if name = "C2".toList then some "https://c2.com".toList else none

/-- The settings that it loads. -/
def sampleSettings : Settings where
  links := {
    localWiki := some "main".toList
    interwiki := ⟨[("c2".toList, "https://c2.com/%s?as=%s".toList)]⟩ }

/-- The site of a wiki with these settings and no pages. -/
def sampleWikis : Site := .ofSettings sampleSettings.links ({} : Archive).toStore

/-- A file of a page on the other wiki. -/
def sampleTarget : Target where
  wiki := some "c2".toList
  page := some "Wiki".toList
  attachment := some "a b.txt".toList
  fragment := some "top".toList

/-- Where the file is found. -/
def sampleFile : Resolved where
  url := "https://c2.com/Wiki/a%20b.txt?as=Wiki/a%20b.txt#top".toList
  destination := .interWiki

theorem leadsAway_of_read_sampleDocument :
    read sampleEnvironment sampleDocument = .ok sampleSettings ∧
      sampleWikis.resolve (.onLocal "Home".toList) sampleTarget = .ok sampleFile ∧
      sampleSettings.Valid ∧ OnWeb sampleFile.url := by
  have hread : read sampleEnvironment sampleDocument = .ok sampleSettings := by decide +kernel
  have hresolve : sampleWikis.resolve (.onLocal "Home".toList) sampleTarget = .ok sampleFile := by
    decide +kernel
  obtain ⟨-, hvalid, hlinks⟩ := leadsAway_of_read hread
  have haway := (hlinks ({} : Archive).toStore fun _ => .anchors sampleWikis).2
    (.onLocal "Home".toList) sampleTarget "c2".toList rfl rfl (by decide) (Or.inl rfl)
  exact ⟨hread, hresolve, hvalid, (haway.2 sampleFile hresolve).1⟩

end Creole.Settings
