import Creole.Link.Site
import Creole.Proofs.Text.Replace

/-!
# Targets on other wikis

What becomes of a target on another wiki that names a page or an attachment is settled by
the templates of all wikis (`LeadsAway`): the page cannot exist, the wiki is not known, or
the target leads to the template of the wiki, with the path in place of every placeholder
and the fragment behind it (`Site.leadsAway_resolve`).  A URL that is made of a web template
is one of the web (`onWeb_intercalate`).
-/

namespace Creole

open List

/-- A text that begins like a URL of the web. -/
def OnWeb (url : Text) : Prop := "http://".toList <+: url ∨ "https://".toList <+: url

/-- The URL template of a wiki on the web, with a place for the path of a page. -/
structure WebTemplate (template : Text) : Prop where
  onWeb : OnWeb template
  placeholder : "%s".toList <:+: template

/-- What becomes of a target on another wiki that names a page or an attachment. -/
inductive LeadsAway (interwiki : Dictionary Text) (target : Target) :
    Except LinkError Resolved → Prop
  /-- No page has this name. -/
  | malformed {name : Text} :
      target.page = some name → Site.validName name = false →
      LeadsAway interwiki target (.error (.malformedTarget name))
  /-- The wiki has no template. -/
  | unknown {wiki : Text} :
      target.wiki = some wiki → interwiki.get? wiki = none →
      LeadsAway interwiki target (.error (.unknownWiki wiki))
  /-- The template of the wiki falls into pieces between its placeholders, and the URL has
  the encoded path between the same pieces. -/
  | found {wiki : Text} {pieces : List Text} :
      target.wiki = some wiki →
      interwiki.get? wiki = some (intercalate "%s".toList pieces) →
      (∀ piece ∈ pieces, ¬ "%s".toList <:+: piece) →
      LeadsAway interwiki target (.ok {
        url := intercalate
            (Percent.encode (target.page.getD [] ++ target.attachment.elim [] ('/' :: ·))) pieces ++
          target.fragment.elim [] ('#' :: ·)
        destination := .interWiki })

/-- What is put in the place of the placeholders is not what a URL begins with. -/
theorem onWeb_intercalate {pieces : List Text} (h : OnWeb (intercalate "%s".toList pieces))
    (value : Text) : OnWeb (intercalate value pieces) :=
  h.imp (fun hstart => Text.isPrefix_intercalate (by decide) hstart value)
    fun hstart => Text.isPrefix_intercalate (by decide) hstart value

namespace Site

variable {site : Site} {target : Target} {wiki : Text}

theorem leadsAway_resolveForeign (hwiki : target.wiki = some wiki) :
    LeadsAway site.interwiki target (site.resolveForeign target) := by
  simp only [resolveForeign, hwiki, Option.getD_some]
  split
  · next hget => exact .unknown hwiki hget
  · next template hget =>
    obtain ⟨pieces, rfl, hfree, hreplaced⟩ :=
      Text.exists_pieces (show "%s".toList ≠ [] by decide) template
    have hpath : foreignPath target =
        target.page.getD [] ++ target.attachment.elim [] ('/' :: ·) := by
      unfold foreignPath
      cases target.attachment <;> rfl
    have hfragment : fragmentSuffix target.fragment = target.fragment.elim [] ('#' :: ·) := by
      cases target.fragment <;> rfl
    rw [hreplaced, hpath, hfragment]
    exact .found hwiki hget hfree

/-- A target that is on another wiki than the local one, and names a page or an attachment,
leads away. -/
theorem leadsAway_resolve (huri : target.uri = none) (hwiki : target.wiki = some wiki)
    (haway : site.localWiki ≠ some wiki)
    (hnames : target.page.isSome = true ∨ target.attachment.isSome = true) (page : PageRef) :
    LeadsAway site.interwiki target (site.resolve page target) := by
  have hnamed : (target.page.isNone && target.attachment.isNone) = false := by
    cases hpage : target.page <;> cases hfile : target.attachment <;> simp_all
  have hforeign : site.isLocal target.wiki = false := by
    rw [hwiki, isLocal]
    exact decide_eq_false haway
  unfold resolve
  simp only [huri, hnamed, hforeign, Bool.false_eq_true, if_false]
  split
  · next name hname =>
    obtain ⟨hpage, hinvalid⟩ := Option.filter_eq_some_iff.mp hname
    exact .malformed hpage (by simpa using hinvalid)
  · exact leadsAway_resolveForeign hwiki

end Site

end Creole
