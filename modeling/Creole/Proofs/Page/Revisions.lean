import Creole.Page.Store
import Mathlib.Data.List.Induction

/-!
# Revisions and their numbers

What an archive holds of a page are the inserts on that page in their order, whatever is put in
between them (`Archive.revisions_ofInserts`).  An insert that has a number keeps it; one that has
none is numbered by its place among the inserts on its page.

A revision is asked for by its number.  The last one is found whatever the numbers are, and other
pages never matter (`Archive.get_latest_ofInserts`, `Archive.get_insertsOn`).  If the numbers that
inserts bring along differ, every revision has a number of its own, and is found by it, just if no
insert without a number stands at a place that another one has for its number
(`Archive.faithful_iff_not_collides`).

## Strategy

One insert adds one revision behind those of its page and leaves all other pages as they are
(`Archive.revisions_insert`); the revisions after any number of inserts follow by induction, from
the last insert to the first.  All that is asked of an archive is then read off the list of the
inserts on one page.
-/

namespace Creole

open List

/-- A page as it is stored behind `count` other revisions. -/
def Page.numbered (count : Nat) (page : Page) : Page :=
  { page with revision := some (page.revision.getD (count + 1)) }

namespace Archive

/-- The archive of some wikis into which pages are put one after the other. -/
def ofInserts (wikis : List Text) (pages : List Page) : Archive := pages.foldl insert { wikis }

/-- What is put in on one page. -/
def insertsOn (ref : PageRef) (pages : List Page) : List Page := pages.filter (·.ref = ref)

variable {wikis : List Text} {pages : List Page} {ref : PageRef}

/-! ### What is stored -/

theorem revisions_insert (a : Archive) (page : Page) (ref : PageRef) :
    (a.insert page).revisions ref =
      a.revisions ref ++
        if page.ref = ref then [page.numbered (a.revisions ref).length] else [] := by
  by_cases h : page.ref = ref
  · subst h
    simp [revisions, insert, revisionNumber, Page.numbered]
  · simp [revisions, insert, h]

theorem ofInserts_concat (wikis : List Text) (pages : List Page) (page : Page) :
    ofInserts wikis (pages ++ [page]) = (ofInserts wikis pages).insert page :=
  foldl_append

/-- The revisions of a page are the inserts on it. -/
theorem revisions_ofInserts (wikis : List Text) (pages : List Page) (ref : PageRef) :
    (ofInserts wikis pages).revisions ref = (insertsOn ref pages).mapIdx Page.numbered := by
  induction pages using List.reverseRecOn with
  | nil => rfl
  | append_singleton pages page ih =>
      rw [ofInserts_concat, revisions_insert, ih, length_mapIdx, insertsOn, insertsOn,
        filter_append]
      by_cases h : page.ref = ref <;> simp [h, mapIdx_append]

theorem wikis_ofInserts (wikis : List Text) (pages : List Page) :
    (ofInserts wikis pages).wikis = wikis := by
  induction pages using List.reverseRecOn with
  | nil => rfl
  | append_singleton pages page ih =>
      rw [ofInserts_concat]
      exact ih

theorem insertsOn_insertsOn (ref : PageRef) (pages : List Page) :
    insertsOn ref (insertsOn ref pages) = insertsOn ref pages := by
  simp [insertsOn, filter_filter]

/-! ### What is found -/

/-- A request depends on nothing but the wikis and the revisions of the page. -/
theorem get_congr {a b : Archive} (hwikis : a.wikis = b.wikis)
    (hrevisions : a.revisions ref = b.revisions ref) (revision : Option Nat) :
    a.get ref revision = b.get ref revision := by
  have hknows : a.knows ref = b.knows ref := by unfold knows; rw [hwikis]
  unfold get
  rw [hknows, hrevisions]

theorem get_number_eq_ok {a : Archive} (hknows : a.knows ref) (number : Nat) (found : Page) :
    a.get ref (some number) = .ok found ↔
      (a.revisions ref).find? (·.revision = some number) = some found := by
  rw [get, if_pos hknows]
  cases (a.revisions ref).find? (·.revision = some number) <;> simp

theorem get_latest_eq_ok {a : Archive} (hknows : a.knows ref) (found : Page) :
    a.get ref none = .ok found ↔ (a.revisions ref).getLast? = some found := by
  rw [get, if_pos hknows]
  cases (a.revisions ref).getLast? <;> simp

/-- Where all numbers differ, the first revision with a number is the only one. -/
theorem find?_revision_of_nodup {stored : List Page} (hstored : (stored.map Page.revision).Nodup)
    (number : Nat) (found : Page) :
    stored.find? (·.revision = some number) = some found ↔
      found ∈ stored ∧ found.revision = some number := by
  induction stored with
  | nil => simp
  | cons page rest ih =>
      obtain ⟨hpage, hrest⟩ := nodup_cons.mp hstored
      by_cases h : page.revision = some number
      · have hothers : ∀ other ∈ rest, other.revision ≠ some number := fun other hother heq =>
          hpage (mem_map.mpr ⟨other, hother, heq.trans h.symm⟩)
        simp only [find?_cons, h, decide_true, mem_cons]
        grind
      · simp only [find?_cons, h, decide_false, ih hrest, mem_cons]
        grind

/-! ### Which numbers meet -/

/-- An insert without a number stands at a place that an insert has for its number. -/
def Collides (inserts : List Page) : Prop :=
  ∃ i, ∃ h : i < inserts.length,
    inserts[i].revision = none ∧ some (i + 1) ∈ inserts.map Page.revision

instance (inserts : List Page) : Decidable (Collides inserts) :=
  inferInstanceAs (Decidable (∃ i, ∃ h : i < inserts.length,
    inserts[i].revision = none ∧ some (i + 1) ∈ inserts.map Page.revision))

variable {inserts : List Page}

theorem nodup_numbered_iff_getD :
    ((inserts.mapIdx Page.numbered).map Page.revision).Nodup ↔
      ∀ i j (hi : i < inserts.length) (hj : j < inserts.length), i < j →
        inserts[i].revision.getD (i + 1) ≠ inserts[j].revision.getD (j + 1) := by
  simp [Nodup, pairwise_iff_getElem, Page.numbered]

/-- If the numbers that inserts bring along differ, all revisions of a page have different numbers
just if none of them meets a place. -/
theorem nodup_numbered_iff (hgiven : (inserts.filterMap Page.revision).Nodup) :
    ((inserts.mapIdx Page.numbered).map Page.revision).Nodup ↔ ¬ Collides inserts := by
  rw [nodup_numbered_iff_getD]
  constructor
  · rintro hdistinct ⟨i, hi, hnone, hmem⟩
    obtain ⟨given, hgivenMem, hnumber⟩ := mem_map.mp hmem
    obtain ⟨j, hj, rfl⟩ := mem_iff_getElem.mp hgivenMem
    have hplace : inserts[i].revision.getD (i + 1) = i + 1 := by rw [hnone]; rfl
    have hown : inserts[j].revision.getD (j + 1) = i + 1 := by rw [hnumber]; rfl
    rcases Nat.lt_trichotomy i j with hij | rfl | hji
    · exact hdistinct i j hi hj hij (hplace.trans hown.symm)
    · simp [hnone] at hnumber
    · exact hdistinct j i hj hi hji (hown.trans hplace.symm)
  · intro hfree i j hi hj hij heq
    cases hfirst : inserts[i].revision with
    | none =>
        cases hsecond : inserts[j].revision with
        | none =>
            rw [hfirst, hsecond] at heq
            simp only [Option.getD_none] at heq
            omega
        | some number =>
            rw [hfirst, hsecond] at heq
            exact hfree ⟨i, hi, hfirst, mem_map.mpr
              ⟨inserts[j], getElem_mem hj, hsecond.trans (congrArg some heq.symm)⟩⟩
    | some number =>
        cases hsecond : inserts[j].revision with
        | none =>
            rw [hfirst, hsecond] at heq
            exact hfree ⟨j, hj, hsecond, mem_map.mpr
              ⟨inserts[i], getElem_mem hi, hfirst.trans (congrArg some heq)⟩⟩
        | some other =>
            rw [hfirst, hsecond] at heq
            exact pairwise_iff_getElem.mp (pairwise_filterMap.mp hgiven) i j hi hj hij
              number hfirst other hsecond heq

/-! ### What an archive keeps -/

theorem mem_revisions_ofInserts (wikis : List Text) (pages : List Page) (ref : PageRef)
    (found : Page) :
    found ∈ (ofInserts wikis pages).revisions ref ↔
      ∃ (i : Nat) (page : Page), (insertsOn ref pages)[i]? = some page ∧
        found = page.numbered i := by
  rw [revisions_ofInserts, mem_mapIdx]
  constructor
  · rintro ⟨i, hi, rfl⟩
    exact ⟨i, _, getElem?_eq_getElem hi, rfl⟩
  · rintro ⟨i, page, hpage, rfl⟩
    obtain ⟨hi, rfl⟩ := List.getElem?_eq_some_iff.mp hpage
    exact ⟨i, hi, rfl⟩

/-- Without a number, the last insert on a page is the answer. -/
theorem get_latest_ofInserts (hknows : (ofInserts wikis pages).knows ref) (found : Page) :
    (ofInserts wikis pages).get ref none = .ok found ↔
      ∃ before page, insertsOn ref pages = before ++ [page] ∧
        found = page.numbered before.length := by
  rw [get_latest_eq_ok hknows, revisions_ofInserts]
  induction insertsOn ref pages using List.reverseRecOn with
  | nil => simp
  | append_singleton before page _ => simp [mapIdx_append, eq_comm]

/-- What is put in on other pages does not matter. -/
theorem get_insertsOn (wikis : List Text) (pages : List Page) (ref : PageRef)
    (revision : Option Nat) :
    (ofInserts wikis (insertsOn ref pages)).get ref revision =
      (ofInserts wikis pages).get ref revision := by
  have hrevisions : (ofInserts wikis (insertsOn ref pages)).revisions ref =
      (ofInserts wikis pages).revisions ref := by
    rw [revisions_ofInserts, revisions_ofInserts, insertsOn_insertsOn]
  refine get_congr ?_ hrevisions revision
  rw [wikis_ofInserts, wikis_ofInserts]

/-- An archive keeps all that was put in on a page, each insert under a number of its own. -/
structure Faithful (wikis : List Text) (pages : List Page) (ref : PageRef) : Prop where
  /-- No two revisions of the page have the same number. -/
  distinct : (((ofInserts wikis pages).revisions ref).map Page.revision).Nodup
  /-- A number is answered with the insert that brought it along or was given it. -/
  byNumber : (ofInserts wikis pages).knows ref → ∀ number found,
    (ofInserts wikis pages).get ref (some number) = .ok found ↔
      ∃ (i : Nat) (page : Page), (insertsOn ref pages)[i]? = some page ∧
        page.revision.getD (i + 1) = number ∧ found = page.numbered i
  /-- Without a number, the last insert on the page is the answer. -/
  latest : (ofInserts wikis pages).knows ref → ∀ found,
    (ofInserts wikis pages).get ref none = .ok found ↔
      ∃ (before : List Page) (page : Page), insertsOn ref pages = before ++ [page] ∧
        found = page.numbered before.length
  /-- What is put in on other pages does not matter. -/
  alone : ∀ revision, (ofInserts wikis (insertsOn ref pages)).get ref revision =
    (ofInserts wikis pages).get ref revision

/-- An archive keeps apart what is put in on a page just if no number meets a place. -/
theorem faithful_iff_not_collides (wikis : List Text) (pages : List Page) (ref : PageRef)
    (hgiven : ((insertsOn ref pages).filterMap Page.revision).Nodup) :
    Faithful wikis pages ref ↔ ¬ Collides (insertsOn ref pages) := by
  have hdistinct := nodup_numbered_iff hgiven
  rw [← revisions_ofInserts wikis] at hdistinct
  refine ⟨fun h => hdistinct.mp h.distinct, fun hfree => ?_⟩
  have hnodup := hdistinct.mpr hfree
  refine ⟨hnodup, fun hknows number found => ?_, get_latest_ofInserts,
    get_insertsOn wikis pages ref⟩
  rw [get_number_eq_ok hknows, find?_revision_of_nodup hnodup, mem_revisions_ofInserts]
  constructor
  · rintro ⟨⟨i, page, hpage, rfl⟩, hnumber⟩
    exact ⟨i, page, hpage, Option.some.inj hnumber, rfl⟩
  · rintro ⟨i, page, hpage, rfl, rfl⟩
    exact ⟨⟨i, page, hpage, rfl⟩, rfl⟩

/-- A page of the local wiki, one of whose revisions has its own number, and a page with its path
on another wiki. -/
def sampleHistory : List Page :=
  [{ ref := .onLocal ['P'], content := ['a'] },
    { ref := ⟨some ['c'], ['P']⟩, content := ['b'] },
    { ref := .onLocal ['P'], revision := some 7, content := ['c'] },
    { ref := ⟨some ['c'], ['P']⟩, content := ['d'] },
    { ref := .onLocal ['P'], content := ['e'] }]

theorem faithful_iff_not_collides_sampleHistory :
    ((insertsOn (.onLocal ['P']) sampleHistory).filterMap Page.revision).Nodup ∧
      Faithful [['c']] sampleHistory (.onLocal ['P']) :=
  ⟨by decide, (faithful_iff_not_collides _ _ _ (by decide)).mpr (by decide)⟩

/-- A page whose first revision has the number of its second place. -/
def sampleClash : List Page :=
  [{ ref := .onLocal ['P'], revision := some 2, content := ['a'] },
    { ref := .onLocal ['P'], content := ['b'] }]

/-- The second insert is given the number that the first one has. -/
theorem not_faithful_sampleClash :
    ((insertsOn (.onLocal ['P']) sampleClash).filterMap Page.revision).Nodup ∧
      ¬ Faithful [] sampleClash (.onLocal ['P']) :=
  ⟨by decide, fun h => absurd h.distinct (by decide)⟩

end Archive
end Creole
