import Creole.Link.Handler
import Creole.Proofs.Link.Written
import Creole.Proofs.Text.Kept

/-!
# Naming the local wiki

A site may be known by a name, and a target may begin with the name of a wiki.  To begin a target
with the name of the site itself changes nothing: it leads where the target alone leads, or fails
as it fails, whatever pieces the target has and whatever other wikis the site knows
(`Site.resolve_qualify`).

The name is cut off where the other pieces begin, so that the rest of the target is read as it is
without the name (`Target.read_qualify`).  The resolver looks at the name in three places.  It asks
whether the target is on the local wiki, and with or without the name it is; so it never comes to
look for the wiki among those that the site knows.  A target that names neither a page nor an
attachment would fail because of the name, but there is none with something in front of its
fragment (`Target.named_of_read`).
-/

namespace Creole

open Text

namespace Target

variable {name path source start : Text}

/-- A target on the wiki of the given name. -/
def qualify (name source : Text) : Text := name ++ ':' :: source

/-- What stands in front of the fragment of a target. -/
def front (source : Text) : Text := source.takeWhile (· ≠ '#')

/-- A target that is no URI, has something in front of its fragment, on one line, and does not
begin with the name of a wiki: if a word and a colon begin it, nothing stands behind them. -/
structure Unqualified (source : Text) : Prop where
  trimmed : trim source = source
  front_ne_nil : front source ≠ []
  line : '\n' ∉ front source
  unnamed : ∀ word rest, front source = word ++ ':' :: rest → IsWord word → rest = []
  relative : isAbsolute source = false

/-! ### Reading behind the name -/

theorem notMem_front (source : Text) : '#' ∉ front source := by
  intro hmem
  have hne := List.all_eq_true.mp List.all_takeWhile '#' hmem
  simp at hne

/-- A target is its front, and what stands behind the first number sign. -/
theorem eq_front_or_append (source : Text) :
    source = front source ∨ ∃ behind, source = front source ++ '#' :: behind := by
  have hsplit := List.takeWhile_append_dropWhile (p := (· ≠ '#')) (l := source)
  cases hbehind : source.dropWhile (· ≠ '#') with
  | nil =>
      rw [hbehind, List.append_nil] at hsplit
      exact Or.inl hsplit.symm
  | cons c behind =>
      have hhead := List.head?_dropWhile_not (· ≠ '#') source
      rw [hbehind] at hsplit hhead
      obtain rfl : c = '#' := by simpa using hhead
      exact Or.inr ⟨behind, hsplit.symm⟩

/-- The fragment of a target does not depend on what is written in front of the target. -/
theorem splitFragment_append_front (hstart : '#' ∉ start) (source : Text) :
    splitFragment (start ++ source) = (start ++ front source, (splitFragment source).2) := by
  have hfront := notMem_front source
  have hboth : '#' ∉ start ++ front source := by simp [hstart, hfront]
  rcases eq_front_or_append source with heq | ⟨behind, heq⟩
  · have hnone : cut? ['#'] source = none := by
      rw [heq]
      exact cut?_singleton_eq_none hfront
    have hnone' : cut? ['#'] (start ++ source) = none := by
      rw [heq]
      exact cut?_singleton_eq_none hboth
    simp only [splitFragment, hnone, hnone', ← heq]
  · have hcut : cut? ['#'] source = some (front source, behind) := by
      have hsome := cut?_singleton hfront behind
      rwa [← heq] at hsome
    have hcut' : cut? ['#'] (start ++ source) = some (start ++ front source, behind) := by
      have hsome := cut?_singleton hboth behind
      rwa [List.append_assoc, ← heq] at hsome
    simp only [splitFragment, hcut, hcut']

theorem splitFragment_eq_front (source : Text) :
    splitFragment source = (front source, (splitFragment source).2) :=
  splitFragment_append_front (List.not_mem_nil : '#' ∉ ([] : Text)) source

theorem Unqualified.splitWiki_front (h : Unqualified source) :
    splitWiki (front source) = (none, front source) :=
  splitWiki_eq_none h.unnamed

theorem trim_qualify (hname : IsWord name) (htrim : trim source = source) :
    trim (qualify name source) = qualify name source := by
  obtain ⟨c, cs, rfl, hc, -⟩ := hname
  have hblank : isBlank c = false := isBlank_of_isAlphanum (Bool.or_eq_true_iff.mpr (Or.inl hc))
  have hstart : trimStart (qualify (c :: cs) source) = qualify (c :: cs) source :=
    List.dropWhile_cons_of_neg (by simp [hblank])
  have hend : dropTrailing isBlank source = source := trimEnd_of_trim htrim
  rw [trim, hstart, qualify, trimEnd, dropTrailing_append_cons (by decide), hend]

/-- Behind the name of a wiki, a target is read as it is without the name. -/
theorem read_qualify (hname : IsWord name) (h : Unqualified source)
    (hrelative : isAbsolute (qualify name source) = false) (text : Text) :
    read (qualify name source) text = { read source text with wiki := some name } ∧
      (read source text).wiki = none := by
  have hwikis : ∀ wiki, some name = some wiki → IsWord wiki := by simpa using hname
  have hsharp : '#' ∉ name ++ [':'] := notMem_wikiPart hwikis
  have hfragment : splitFragment (qualify name source) =
      (name ++ [':'] ++ front source, (splitFragment source).2) := by
    have hcut := splitFragment_append_front hsharp source
    rwa [List.append_assoc] at hcut
  have hwiki : splitWiki (name ++ [':'] ++ front source) = (some name, front source) :=
    splitWiki_append hwikis h.front_ne_nil h.line nofun
  unfold read
  simp only [trim_qualify hname h.trimmed, h.trimmed, hrelative, h.relative, hfragment, hwiki]
  rw [splitFragment_eq_front]
  simp [h.splitWiki_front]

/-! ### What a target names -/

theorem splitRevision_ne_nil (h : path ≠ []) : (splitRevision path).1 ≠ [] := by
  unfold splitRevision
  split
  · split
    · next hsuffix =>
      simp only [Bool.and_eq_true, Bool.not_eq_true', List.isEmpty_eq_false_iff] at hsuffix
      exact hsuffix.1.1.1
    · exact h
  · exact h

/-- Something in front of a fragment names a page or an attachment, if it is not all the name of
a wiki. -/
theorem named_of_read (h : Unqualified source) (text : Text) :
    ((read source text).page.isNone && (read source text).attachment.isNone) = false := by
  unfold read
  simp only [h.trimmed, h.relative, Bool.false_eq_true, if_false]
  rw [splitFragment_eq_front]
  simp only [h.splitWiki_front]
  rcases hattachment : splitAttachment (front source) with ⟨part, attachment⟩
  cases attachment with
  | some file => simp
  | none =>
      have hpart : front source = part := by
        simpa [marked] using eq_of_splitAttachment hattachment
      have hne := splitRevision_ne_nil (hpart ▸ h.front_ne_nil)
      simp [hne]

end Target

/-! ### Resolving -/

/-- On its own site, the name of a wiki does not change where a target leads that names a page or
an attachment. -/
theorem Site.resolve_of_localWiki {site : Site} {name : Text} (hlocal : site.localWiki = some name)
    {target : Target} (hwiki : target.wiki = none)
    (hnamed : (target.page.isNone && target.attachment.isNone) = false) (page : PageRef) :
    site.resolve page { target with wiki := some name } = site.resolve page target := by
  have hthere : site.isLocal (some name) = true := decide_eq_true hlocal
  have hhere : site.isLocal target.wiki = true := by rw [hwiki, isLocal]
  unfold resolve
  simp only [hnamed, hthere, hhere, if_true]
  rfl

/-- A target on the local wiki leads to the same place with and without the name of the wiki, or
fails in the same way, and is shown as the same anchor. -/
theorem Site.resolve_qualify {site : Site} {name source : Text}
    (hlocal : site.localWiki = some name) (hname : Target.IsWord name)
    (h : Target.Unqualified source)
    (hrelative : Target.isAbsolute (Target.qualify name source) = false) (page : PageRef)
    (text : Text) :
    site.resolve page (.read (Target.qualify name source) text) =
        site.resolve page (.read source text) ∧
      ∀ filter : UrlFilter,
        (Handler.anchors site).resolve page (.read (Target.qualify name source) text) filter =
          (Handler.anchors site).resolve page (.read source text) filter ∧
        ∀ content : Text,
          (Handler.anchors site).render page content (.read (Target.qualify name source) text)
              filter =
            (Handler.anchors site).render page content (.read source text) filter := by
  obtain ⟨hread, hwiki⟩ := Target.read_qualify hname h hrelative text
  have hsame : site.resolve page (.read (Target.qualify name source) text) =
      site.resolve page (.read source text) := by
    rw [hread]
    exact resolve_of_localWiki hlocal hwiki (Target.named_of_read h text) page
  refine ⟨hsame, fun filter => ⟨?_, fun content => ?_⟩⟩
  · simp only [Handler.anchors, hsame]
  · simp only [Handler.anchors, hsame]

/-- A site that knows another wiki by its own name. -/
def namesakeSite : Site where
  store := ({} : Archive).toStore
  localWiki := some "main".toList
  interwiki := .ofList [("main".toList, "https://c2.com/cgi/wiki?%s".toList)]

/-- A target with all pieces but a wiki, and with the marks of pieces in places of no account. -/
def sampleAttachment : Text := "Team Notes: a@7/plan:b.txt#c@2/d.e".toList

theorem Site.resolve_qualify_sampleAttachment :
    namesakeSite.localWiki = some "main".toList ∧ Target.IsWord "main".toList ∧
      Target.Unqualified sampleAttachment ∧
      Target.isAbsolute (Target.qualify "main".toList sampleAttachment) = false ∧
      Target.qualify "main".toList sampleAttachment =
        "main:Team Notes: a@7/plan:b.txt#c@2/d.e".toList ∧
      namesakeSite.resolve (.onLocal []) (.read sampleAttachment []) =
        .ok ⟨"/pages/Team%20Notes%3A%20a/attachments/plan%3Ab.txt?revision=7#c@2/d.e".toList,
          .attachment⟩ ∧
      namesakeSite.resolve (.onLocal [])
          (.read (Target.qualify "main".toList sampleAttachment) []) =
        namesakeSite.resolve (.onLocal []) (.read sampleAttachment []) := by
  have hname : Target.IsWord "main".toList := ⟨'m', "ain".toList, rfl, by decide, List.all_eq_true.mp (by decide)⟩
  have hunqualified : Target.Unqualified sampleAttachment := {
    trimmed := by decide +kernel
    front_ne_nil := by decide +kernel
    line := by decide +kernel
    unnamed := by
      intro word rest heq hword
      -- the first word ends at a space
      have htake := takeWhile_append_of_head hword.isAlphanum
        (t := ':' :: rest) (by simp [Char.isAlphanum])
      rw [← heq] at htake
      have hteam : (Target.front sampleAttachment).takeWhile Char.isAlphanum = "Team".toList := by
        decide +kernel
      obtain rfl : "Team".toList = word := hteam.symm.trans htake
      have hfront : Target.front sampleAttachment =
          "Team".toList ++ " Notes: a@7/plan:b.txt".toList := by decide +kernel
      have hspace := (List.cons.inj (List.append_cancel_left (hfront.symm.trans heq))).1
      exact absurd hspace (by decide)
    relative := by decide +kernel }
  have hrelative : Target.isAbsolute (Target.qualify "main".toList sampleAttachment) = false := by
    decide +kernel
  exact ⟨rfl, hname, hunqualified, hrelative, by decide +kernel, by decide +kernel,
    (resolve_qualify rfl hname hunqualified hrelative (.onLocal []) []).1⟩

end Creole
