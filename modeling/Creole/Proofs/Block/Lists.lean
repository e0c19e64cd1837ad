import Creole.Block.Outline

/-!
# Reading items into lists

Nesting takes a list of items apart in two ways: the items of one list and those behind
it, and the items nested in an item and those that follow on its level.  What is to be
proved of the nodes of every list of items is proved along these two
(`listNodes_induction_within`).  Mostly it does not matter how the items are told apart, but
for what is nested being deeper (`listNodes_induction`).
-/

namespace Creole.Block

variable {page : PageRef}

/-- The node of an item of a list, with the lists nested in it. -/
def itemNode (page : PageRef) (item : Item) (nested : List Node) : Node :=
  .mk .listItem (Inline.parse page (Text.trim item.text) ++ nested)

theorem itemNodes_of_nil {first : Item} {rest : List Item}
    (h : rest.dropWhile (first.depth < ·.depth) = []) :
    itemNodes page first rest = [itemNode page first (listNodes page rest)] := by
  have hrest := List.takeWhile_append_dropWhile (p := (first.depth < ·.depth)) (l := rest)
  rw [h, List.append_nil] at hrest
  rw [itemNodes, hrest]
  split <;> simp_all [itemNode]

theorem itemNodes_of_cons {first next : Item} {rest more : List Item}
    (h : rest.dropWhile (first.depth < ·.depth) = next :: more) :
    itemNodes page first rest =
      itemNode page first (listNodes page (rest.takeWhile (first.depth < ·.depth))) ::
        itemNodes page next more := by
  rw [itemNodes]
  split <;> simp_all [itemNode]

/-- What is preserved by putting items before those of their list, and lists before those
behind them, holds of the lists of all items.  A list goes on as long as items are within it,
and what is nested in an item ends where an item is no deeper. -/
theorem listNodes_induction_within {lists : List Item → List Node → Prop}
    {members : Item → List Item → List Node → Prop} (nil : lists [] [])
    (list : ∀ first same behind below nodes, (∀ item ∈ same, first.within item = true) →
      (∀ next ∈ behind.head?, first.within next = false) →
      members first same below → lists behind nodes →
      lists (first :: (same ++ behind)) (.mk (.list first.ordered) below :: nodes))
    (last : ∀ item deeper nested, (∀ below ∈ deeper, item.depth < below.depth) →
      lists deeper nested → members item deeper [itemNode page item nested])
    (item : ∀ item deeper next more nested nodes, (∀ below ∈ deeper, item.depth < below.depth) →
      next.depth ≤ item.depth → lists deeper nested → members next more nodes →
      members item (deeper ++ next :: more) (itemNode page item nested :: nodes))
    (is : List Item) : lists is (listNodes page is) := by
  refine listNodes.induct (fun is => lists is (listNodes page is))
    (fun first rest => members first rest (itemNodes page first rest)) ?_ ?_ ?_ is
  · rw [listNodes]
    exact nil
  · intro first rest hmembers hbehind
    have hsplit := List.takeWhile_append_dropWhile (p := first.within) (l := rest)
    have hsame : ∀ item ∈ rest.takeWhile first.within, first.within item = true :=
      List.all_eq_true.mp List.all_takeWhile
    have hnext : ∀ next ∈ (rest.dropWhile first.within).head?, first.within next = false := by
      intro next hmem
      have hnot := List.head?_dropWhile_not first.within rest
      rw [Option.mem_def] at hmem
      simpa [hmem] using hnot
    have hlist := list first _ _ _ _ hsame hnext hmembers hbehind
    rw [hsplit] at hlist
    rwa [listNodes]
  · intro first rest hnested hnext
    have hsplit := List.takeWhile_append_dropWhile (p := (first.depth < ·.depth)) (l := rest)
    have hdeeper : ∀ below ∈ rest.takeWhile (first.depth < ·.depth),
        first.depth < below.depth := by
      intro below hbelow
      simpa using List.all_eq_true.mp List.all_takeWhile below hbelow
    -- nothing follows on the level of the item, or `next` does
    cases hbehind : rest.dropWhile (first.depth < ·.depth) with
    | nil =>
        rw [hbehind, List.append_nil] at hsplit
        rw [hsplit] at hnested hdeeper
        rw [itemNodes_of_nil hbehind]
        exact last first rest _ hdeeper hnested
    | cons next more =>
        have hnot := List.head?_dropWhile_not (first.depth < ·.depth) rest
        have hdepth : next.depth ≤ first.depth := by
          rw [hbehind] at hnot
          simpa using hnot
        have hitem := item first _ next more _ _ hdeeper hdepth hnested (hnext next more hbehind)
        rw [← hbehind, hsplit] at hitem
        rwa [itemNodes_of_cons hbehind]

/-- The same, where nothing is needed of how the items of a list are told apart. -/
theorem listNodes_induction {lists : List Item → List Node → Prop}
    {members : Item → List Item → List Node → Prop} (nil : lists [] [])
    (list : ∀ first same behind below nodes, members first same below → lists behind nodes →
      lists (first :: (same ++ behind)) (.mk (.list first.ordered) below :: nodes))
    (last : ∀ item deeper nested, (∀ below ∈ deeper, item.depth < below.depth) →
      lists deeper nested → members item deeper [itemNode page item nested])
    (item : ∀ item deeper next more nested nodes, (∀ below ∈ deeper, item.depth < below.depth) →
      lists deeper nested → members next more nodes →
      members item (deeper ++ next :: more) (itemNode page item nested :: nodes))
    (is : List Item) : lists is (listNodes page is) := by
  refine listNodes_induction_within nil ?_ last ?_ is
  · intro first same behind below nodes _ _ hmembers hbehind
    exact list first same behind below nodes hmembers hbehind
  · intro this deeper next more nested nodes hdeeper _ hnested hnext
    exact item this deeper next more nested nodes hdeeper hnested hnext

end Creole.Block
