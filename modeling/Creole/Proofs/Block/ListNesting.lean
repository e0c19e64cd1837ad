import Creole.Proofs.Block.Lists
import Creole.Proofs.Inline.Shape
import Creole.Proofs.Node.ListItems

/-!
# Items are nested by depth

The lists that are made of items in a row hold these items and no others, in their order,
and what lies around what is told by the depths alone (`exists_listItems_listNodes`): an item
lies around all that follow it as long as they are deeper.  Two items are in one list if they
are of one depth and kind, and nothing between them ends the list.

## Strategy

Both facts about an item and one behind it speak of the items between the two.  So the
items are taken together with the places where they stand (`Standing`), and `Agreeing` says of
every item in a row and of every item behind it that their places agree with the depths.
Two rows that agree make one if the second begins with an item that ends the lists of all
items in the first, and none of its places has to do with a place in the first
(`Agreeing.append`).  That is how lists stand in a row, and how what is nested in an item
stands before the next item.  The induction is then along `listNodes_induction_within`.
-/

namespace Creole.Block

open Node

variable {page : PageRef}

namespace Item

variable {first item next : Item}

theorem within_iff : first.within item = true ↔
    first.depth < item.depth ∨ first.depth = item.depth ∧ first.ordered = item.ordered := by
  simp [within]

theorem within_self (item : Item) : item.within item = true := within_iff.mpr (Or.inr ⟨rfl, rfl⟩)

theorem within_of_lt (h : first.depth < item.depth) : first.within item = true :=
  within_iff.mpr (Or.inl h)

theorem not_within_of_lt (h : item.depth < first.depth) : first.within item = false := by
  refine Bool.eq_false_iff.mpr fun hwithin => ?_
  rw [within_iff] at hwithin
  omega

theorem within_trans (hitem : first.within item = true) (hnext : item.within next = true) :
    first.within next = true := by
  rw [within_iff] at *
  rcases hitem with hdeeper | ⟨hdepth, hordered⟩
  · left
    omega
  · rwa [hdepth, hordered]

end Item

/-- An item, and where it stands in the document that is made of all items. -/
structure Standing where
  item : Item
  found : ListItem

/-- Where two items stand, the second behind the first with `between` between them, agrees
with their depths and kinds. -/
structure Agree (a : Standing) (between : List Item) (b : Standing) : Prop where
  encloses : a.found.Encloses b.found ↔ ∀ k ∈ between ++ [b.item], a.item.depth < k.depth
  not_enclosed : ¬ b.found.Encloses a.found
  same : a.found.list = b.found.list ↔
    b.item.depth = a.item.depth ∧ ∀ k ∈ between ++ [b.item], a.item.within k = true

/-- Where an item stands agrees with where every item behind it stands. -/
def Agreeing : List Standing → Prop
  | [] => True
  | a :: row =>
    (∀ between b behind, row = between ++ b :: behind → Agree a (between.map Standing.item) b) ∧
      Agreeing row

/-- Behind an item that is not within a list, nothing stands in it or below it. -/
theorem agree_of_apart {a b : Standing} {between : List Item}
    (hapart : a.found.Apart b.found)
    (hends : ∃ k ∈ between ++ [b.item], a.item.within k = false) : Agree a between b := by
  obtain ⟨k, hk, hend⟩ := hends
  have hnot : ¬ a.item.within k = true := by simp [hend]
  constructor
  · apply iff_of_false hapart.not_encloses
    intro hdeeper
    exact hnot (Item.within_of_lt (hdeeper k hk))
  · exact hapart.not_enclosed
  · apply iff_of_false hapart.list_ne
    rintro ⟨-, hwithin⟩
    exact hnot (hwithin k hk)

/-- What is nested in an item stands below it. -/
theorem agree_of_nested {a b : Standing} {between : List Item}
    (hplace : ∃ k, a.found.place ++ [k] <+: b.found.list)
    (hdeeper : ∀ k ∈ between ++ [b.item], a.item.depth < k.depth) : Agree a between b := by
  obtain ⟨k, hk⟩ := hplace
  have hencloses : a.found.Encloses b.found := (List.prefix_append _ _).trans hk
  have hlength := hencloses.length_lt
  constructor
  · exact iff_of_true hencloses hdeeper
  · intro h
    exact Nat.lt_asymm hlength h.length_lt
  · apply iff_of_false
    · intro h
      rw [h] at hlength
      omega
    · rintro ⟨hdepth, -⟩
      have hb := hdeeper b.item (by simp)
      omega

/-- Behind the next member of the list of an item, nothing stands below the item. -/
theorem agree_of_member {a b : Standing} {between : List Item}
    (hplace : ∃ k, a.found.index < k ∧ a.found.list ++ [k] <+: b.found.place)
    (hwithin : ∀ k ∈ between ++ [b.item], a.item.within k = true)
    (hnext : ∃ k ∈ between ++ [b.item], k.depth ≤ a.item.depth)
    (hsame : b.found.list = a.found.list ↔ b.item.depth = a.item.depth) : Agree a between b := by
  obtain ⟨k, hk, hbplace⟩ := hplace
  obtain ⟨next, hmem, hdepth⟩ := hnext
  constructor
  · apply iff_of_false
    · intro h
      have heq := eq_of_isPrefix (h.trans b.found.list_isPrefix_place) hbplace
      omega
    · intro hdeeper
      have hnext := hdeeper next hmem
      omega
  · intro h
    exact Nat.lt_irrefl _ (length_lt_of_isPrefix (hbplace.trans h))
  · rw [eq_comm, hsame]
    exact (and_iff_left hwithin).symm

/-- What is to be said of every member of two rows and of those before it is said of each row. -/
theorem forall_of_append {α : Type} {row more : List α} {P : List α → α → Prop}
    (hrow : ∀ between b behind, row = between ++ b :: behind → P between b)
    (hmore : ∀ between b behind, more = between ++ b :: behind → P (row ++ between) b)
    (between : List α) (b : α) (behind : List α) (h : row ++ more = between ++ b :: behind) :
    P between b := by
  rcases List.append_eq_append_iff.mp h with ⟨front, rfl, hfront⟩ | ⟨front, hfront, hbehind⟩
  · exact hmore front b behind hfront
  · cases front with
    | nil =>
        have hb := hmore [] b behind hbehind.symm
        rwa [List.append_nil, hfront, List.append_nil] at hb
    | cons c front =>
        obtain ⟨rfl, -⟩ := List.cons.inj hbehind
        exact hrow between b front hfront

theorem mem_items_of_mem {row between behind : List Standing} {b : Standing} {k : Item}
    (heq : row = between ++ b :: behind) (hk : k ∈ between.map Standing.item ++ [b.item]) :
    k ∈ row.map Standing.item := by
  have hitems : row.map Standing.item =
      (between.map Standing.item ++ [b.item]) ++ behind.map Standing.item := by simp [heq]
  rw [hitems]
  exact List.mem_append_left _ hk

/-- What holds of the first item of a row is found no later than at a member of the row. -/
theorem exists_of_head? {row between behind : List Standing} {b : Standing} {P : Item → Prop}
    (hhead : ∀ b ∈ row.head?, P b.item) (heq : row = between ++ b :: behind) :
    ∃ k ∈ between.map Standing.item ++ [b.item], P k := by
  cases between with
  | nil => exact ⟨b.item, by simp, hhead b (by simp [heq])⟩
  | cons c between => exact ⟨c.item, by simp, hhead c (by simp [heq])⟩

theorem Agreeing.append {row more : List Standing} (hrow : Agreeing row) (hmore : Agreeing more)
    (hends : ∀ a ∈ row, ∀ b ∈ more.head?, a.item.within b.item = false)
    (hapart : ∀ a ∈ row, ∀ b ∈ more, a.found.Apart b.found) : Agreeing (row ++ more) := by
  induction row with
  | nil => exact hmore
  | cons a row ih =>
      rw [List.forall_mem_cons] at hends hapart
      refine ⟨forall_of_append hrow.1 ?_, ih hrow.2 hends.2 hapart.2⟩
      intro between b behind heq
      obtain ⟨k, hk, hend⟩ := exists_of_head? (P := fun k => a.item.within k = false) hends.1 heq
      apply agree_of_apart (hapart.1 b (by simp [heq]))
      rw [List.map_append, List.append_assoc]
      exact ⟨k, List.mem_append_right _ hk, hend⟩

/-! ### Rows -/

/-- An item stands in a list of its kind, and begins with what its text is read as. -/
def Written (page : PageRef) (a : Standing) : Prop :=
  a.found.parent = .list a.item.ordered ∧
    ∃ nested, a.found.children = Inline.parse page (Text.trim a.item.text) ++ nested ∧
      ∀ node ∈ nested, node.kind.isList = true

/-- Items stand where a row says. -/
structure Row (page : PageRef) (is : List Item) (found : List ListItem) (row : List Standing) :
    Prop where
  items : row.map Standing.item = is
  found : row.map Standing.found = found
  agreeing : Agreeing row
  written : ∀ a ∈ row, Written page a

/-- The nodes are lists that are made of items: wherever the nodes stand, the items stand in a
row below them. -/
def ListsStand (page : PageRef) (is : List Item) (nodes : List Node) : Prop :=
  (∀ node ∈ nodes, node.kind.isList = true) ∧
    ∀ parent place index, ∃ row, Row page is (listItemsAmong parent place index nodes) row ∧
      ∀ a ∈ row, ∃ k, index ≤ k ∧ place ++ [k] <+: a.found.list

/-- The items of a list stand at its place from an index on, and below each other: its
members are the items of one depth. -/
structure Members (page : PageRef) (first : Item) (is : List Item) (place : List Nat) (index : Nat)
    (nodes : List Node) (row : List Standing) : Prop
    extends Row page is (listItemsAmong (.list first.ordered) place index nodes) row where
  places : ∀ a ∈ row, ∃ k, index ≤ k ∧ place ++ [k] <+: a.found.place
  same : ∀ a ∈ row, a.found.list = place ↔ a.item.depth = first.depth

/-- The nodes are the members of a list that is made of items within it. -/
def MembersStand (page : PageRef) (first : Item) (rest : List Item) (nodes : List Node) : Prop :=
  (∀ item ∈ rest, first.within item = true) →
    ∀ place index, ∃ row, Members page first (first :: rest) place index nodes row

theorem Row.item_mem {is : List Item} {found : List ListItem} {row : List Standing}
    (h : Row page is found row) {a : Standing} (ha : a ∈ row) : a.item ∈ is :=
  h.items ▸ List.mem_map_of_mem ha

theorem Row.item_mem_head? {is : List Item} {found : List ListItem} {row : List Standing}
    (h : Row page is found row) {a : Standing} (ha : a ∈ row.head?) : a.item ∈ is.head? := by
  rw [← h.items, List.head?_map]
  exact Option.mem_map_of_mem _ ha

theorem row_nil {parent : Kind} {place : List Nat} {index : Nat} :
    Row page [] (listItemsAmong parent place index []) [] where
  items := rfl
  found := listItemsAmong_nil.symm
  agreeing := trivial
  written := by simp

theorem listsStand_nil : ListsStand page [] [] :=
  ⟨by simp, fun _ _ _ => ⟨[], row_nil, by simp⟩⟩

/-- Lists are put before others if the first item of these is not within them. -/
theorem listsStand_cons {first : Item} {same behind : List Item} {below nodes : List Node}
    (hsame : ∀ item ∈ same, first.within item = true)
    (hends : ∀ next ∈ behind.head?, first.within next = false)
    (hmembers : MembersStand page first same below) (hbehind : ListsStand page behind nodes) :
    ListsStand page (first :: (same ++ behind)) (.mk (.list first.ordered) below :: nodes) := by
  refine ⟨List.forall_mem_cons.mpr ⟨rfl, hbehind.1⟩, fun parent place index => ?_⟩
  obtain ⟨row, hrow⟩ := hmembers hsame (place ++ [index]) 0
  obtain ⟨more, hmore, hmorePlaces⟩ := hbehind.2 parent place (index + 1)
  have hinside : ∀ a ∈ row, place ++ [index] <+: a.found.list := by
    intro a ha
    obtain ⟨k, -, hk⟩ := hrow.places a ha
    exact ListItem.isPrefix_list hk
  refine ⟨row ++ more, ⟨?_, ?_, ?_, ?_⟩, ?_⟩
  · simp [hrow.items, hmore.items]
  · rw [listItemsAmong_cons, if_neg (by simp), List.map_append, hrow.found, hmore.found]
    rfl
  · apply hrow.agreeing.append hmore.agreeing
    · intro a ha b hb
      have hall : ∀ item ∈ first :: same, first.within item = true :=
        List.forall_mem_cons.mpr ⟨first.within_self, hsame⟩
      have hwithin := hall a.item (hrow.item_mem ha)
      have hend := hends b.item (hmore.item_mem_head? hb)
      -- what is within the list of an item is within the list that it is in
      exact Bool.eq_false_iff.mpr fun h => Bool.eq_false_iff.mp hend (Item.within_trans hwithin h)
    · intro a ha b hb
      obtain ⟨k, hk, hbplace⟩ := hmorePlaces b hb
      exact ListItem.apart_of_isPrefix (hinside a ha) (hbplace.trans b.found.list_isPrefix_place)
        (by omega)
  · exact List.forall_mem_append.mpr ⟨hrow.written, hmore.written⟩
  · intro a ha
    rcases List.mem_append.mp ha with ha | ha
    · exact ⟨index, Nat.le_refl _, hinside a ha⟩
    · obtain ⟨k, hk, hplace⟩ := hmorePlaces a ha
      exact ⟨k, by omega, hplace⟩

/-- An item that stands in a list, with what is nested in it. -/
def member (page : PageRef) (item : Item) (nested : List Node) (place : List Nat) (index : Nat) :
    Standing where
  item := item
  found := ⟨place, index, .list item.ordered, Inline.parse page (Text.trim item.text) ++ nested⟩

/-- Inline markup holds no items of lists. -/
theorem listItemsAmong_inline {parent : Kind} {place : List Nat} {index : Nat} (s : Text) :
    listItemsAmong parent place index (Inline.parse page s) = [] := by
  have hline := Inline.line_nodesFrom page none s
  refine listItemsAmong_eq_nil fun node hnode hmem => ?_
  have hrank := (hline.shaped node hnode).rank_le _ hmem
  rw [Kind.rank_of_isInline (hline.inline node hnode)] at hrank
  exact absurd hrank (by decide)

theorem listItemsAmong_itemNode {place : List Nat} {index : Nat} (item : Item)
    (nested nodes : List Node) :
    listItemsAmong (.list item.ordered) place index (itemNode page item nested :: nodes) =
      (member page item nested place index).found ::
        (listItemsAmong .listItem (place ++ [index])
            (Inline.parse page (Text.trim item.text)).length nested ++
          listItemsAmong (.list item.ordered) place (index + 1) nodes) := by
  rw [itemNode, listItemsAmong_cons, if_pos rfl, listItemsAmong_append, listItemsAmong_inline,
    Nat.zero_add]
  rfl

/-- What is nested in an item stands below it, in a row that agrees. -/
theorem exists_row_nested {item : Item} {deeper : List Item} {nested : List Node}
    (hdeeper : ∀ below ∈ deeper, item.depth < below.depth) (hnested : ListsStand page deeper nested)
    (place : List Nat) (index : Nat) :
    ∃ row, Row page deeper (listItemsAmong .listItem (place ++ [index])
        (Inline.parse page (Text.trim item.text)).length nested) row ∧
      (∀ a ∈ row, place ++ [index] <+: a.found.list) ∧
      ∀ between b behind, row = between ++ b :: behind →
        Agree (member page item nested place index) (between.map Standing.item) b := by
  obtain ⟨row, hrow, hplaces⟩ := hnested.2 .listItem (place ++ [index])
    (Inline.parse page (Text.trim item.text)).length
  refine ⟨row, hrow, ?_, ?_⟩
  · intro a ha
    obtain ⟨k, -, hk⟩ := hplaces a ha
    exact (List.prefix_append _ _).trans hk
  · intro between b behind heq
    apply agree_of_nested
    · obtain ⟨k, -, hk⟩ := hplaces b (by simp [heq])
      exact ⟨k, hk⟩
    · intro k hk
      apply hdeeper
      rw [← hrow.items]
      exact mem_items_of_mem heq hk

/-- A list is told by the depth and the kind of any of its members. -/
theorem Members.of_member {item next : Item} {is : List Item} {nodes : List Node}
    {place : List Nat} {index : Nat} {row : List Standing}
    (h : Members page next is place index nodes row) (hdepth : item.depth = next.depth)
    (hordered : item.ordered = next.ordered) : Members page item is place index nodes row where
  toRow := hordered ▸ h.toRow
  places := h.places
  same := hdepth ▸ h.same

theorem Members.nil {item : Item} {place : List Nat} {index : Nat} :
    Members page item [] place index [] [] where
  toRow := row_nil
  places := by simp
  same := by simp

section Cons

variable {item : Item} {deeper is : List Item} {nested nodes : List Node} {place : List Nat}
  {index : Nat} {row more : List Standing}

/-- An item agrees with the members of its list that follow and with what is nested in them. -/
theorem Members.agree (hmore : Members page item is place (index + 1) nodes more)
    (hrow : row.map Standing.item = deeper) (hnext : ∀ next ∈ is.head?, next.depth ≤ item.depth)
    (hwithin : ∀ k ∈ deeper ++ is, item.within k = true) (between : List Standing) (b : Standing)
    (behind : List Standing) (heq : more = between ++ b :: behind) :
    Agree (member page item nested place index) ((row ++ between).map Standing.item) b := by
  have hb : b ∈ more := by simp [heq]
  have hwhole : row ++ more = (row ++ between) ++ b :: behind := by simp [heq]
  apply agree_of_member
  · exact hmore.places b hb
  · intro k hk
    apply hwithin
    rw [← hrow, ← hmore.items, ← List.map_append]
    exact mem_items_of_mem hwhole hk
  · have hhead : ∀ b ∈ more.head?, b.item.depth ≤ item.depth := by
      intro b hb
      exact hnext b.item (hmore.item_mem_head? hb)
    obtain ⟨k, hk, hdepth⟩ := exists_of_head? (P := fun k => k.depth ≤ item.depth) hhead heq
    rw [List.map_append, List.append_assoc]
    exact ⟨k, List.mem_append_right _ hk, hdepth⟩
  · exact hmore.same b hb

/-- An item before the members of its list that follow, with what is nested in it. -/
theorem Members.cons (hmore : Members page item is place (index + 1) nodes more)
    (hdeeper : ∀ below ∈ deeper, item.depth < below.depth) (hnested : ListsStand page deeper nested)
    (hnext : ∀ next ∈ is.head?, next.depth ≤ item.depth)
    (hwithin : ∀ k ∈ deeper ++ is, item.within k = true) :
    ∃ row, Members page item (item :: (deeper ++ is)) place index
      (itemNode page item nested :: nodes) row := by
  obtain ⟨row, hrow, hbelow, hagree⟩ := exists_row_nested hdeeper hnested place index
  refine ⟨member page item nested place index :: (row ++ more), ⟨?_, ?_, ⟨?_, ?_⟩, ?_⟩, ?_, ?_⟩
  · simp [hrow.items, hmore.items, member]
  · rw [listItemsAmong_itemNode, List.map_cons, List.map_append, hrow.found, hmore.found]
  · exact forall_of_append hagree (hmore.agree hrow.items hnext hwithin)
  · apply hrow.agreeing.append hmore.agreeing
    · intro a ha b hb
      have hdepth := hnext b.item (hmore.item_mem_head? hb)
      exact Item.not_within_of_lt (Nat.lt_of_le_of_lt hdepth (hdeeper a.item (hrow.item_mem ha)))
    · intro a ha b hb
      obtain ⟨k, hk, hplace⟩ := hmore.places b hb
      exact ListItem.apart_of_isPrefix (hbelow a ha) hplace (by omega)
  · have hself : Written page (member page item nested place index) :=
      ⟨rfl, nested, rfl, hnested.1⟩
    exact List.forall_mem_cons.mpr
      ⟨hself, List.forall_mem_append.mpr ⟨hrow.written, hmore.written⟩⟩
  · rw [List.forall_mem_cons]
    refine ⟨⟨index, Nat.le_refl _, List.prefix_refl _⟩, ?_⟩
    intro a ha
    rcases List.mem_append.mp ha with ha | ha
    · exact ⟨index, Nat.le_refl _, (hbelow a ha).trans a.found.list_isPrefix_place⟩
    · obtain ⟨k, hk, hplace⟩ := hmore.places a ha
      exact ⟨k, by omega, hplace⟩
  · rw [List.forall_mem_cons]
    refine ⟨iff_of_true rfl rfl, ?_⟩
    intro a ha
    rcases List.mem_append.mp ha with ha | ha
    · -- what is nested is deeper, and stands below
      have hlength := length_lt_of_isPrefix (hbelow a ha)
      have hdeep := hdeeper a.item (hrow.item_mem ha)
      apply iff_of_false
      · intro h
        rw [h] at hlength
        omega
      · omega
    · exact hmore.same a ha

end Cons

theorem membersStand_last {item : Item} {deeper : List Item} {nested : List Node}
    (hdeeper : ∀ below ∈ deeper, item.depth < below.depth)
    (hnested : ListsStand page deeper nested) :
    MembersStand page item deeper [itemNode page item nested] := by
  intro hwithin place index
  rw [← List.append_nil deeper] at hwithin ⊢
  exact Members.nil.cons hdeeper hnested (by simp) hwithin

theorem membersStand_cons {item next : Item} {deeper more : List Item} {nested nodes : List Node}
    (hdeeper : ∀ below ∈ deeper, item.depth < below.depth) (hnext : next.depth ≤ item.depth)
    (hnested : ListsStand page deeper nested) (hmore : MembersStand page next more nodes) :
    MembersStand page item (deeper ++ next :: more) (itemNode page item nested :: nodes) := by
  intro hwithin place index
  have hnextWithin : item.within next = true := hwithin next (by simp)
  obtain ⟨hdepth, hordered⟩ : item.depth = next.depth ∧ item.ordered = next.ordered := by
    rw [Item.within_iff] at hnextWithin
    exact hnextWithin.resolve_left (Nat.not_lt.mpr hnext)
  have hmoreWithin : ∀ k ∈ more, next.within k = true := by
    intro k hk
    rw [Item.within, ← hdepth, ← hordered]
    exact hwithin k (by simp [hk])
  obtain ⟨row, hrow⟩ := hmore hmoreWithin place (index + 1)
  exact (hrow.of_member hdepth hordered).cons hdeeper hnested (by simpa using hnext) hwithin

theorem listsStand_listNodes (page : PageRef) (is : List Item) :
    ListsStand page is (listNodes page is) := by
  refine @listNodes_induction_within page (ListsStand page) (MembersStand page)
    listsStand_nil ?_ ?_ ?_ is
  · intro first same behind below nodes hsame hends hmembers hbehind
    exact listsStand_cons hsame hends hmembers hbehind
  · intro item deeper nested hdeeper hnested
    exact membersStand_last hdeeper hnested
  · intro item deeper next more nested nodes hdeeper hnext hnested hmore
    exact membersStand_cons hdeeper hnext hnested hmore

/-! ### Indices -/

theorem Agreeing.agree_getElem {row : List Standing} (h : Agreeing row) {i j : Nat} (hij : i < j)
    (hj : j < row.length) :
    Agree row[i] (((row.drop (i + 1)).take (j - (i + 1))).map Standing.item) row[j] := by
  induction row generalizing i j with
  | nil => exact absurd hj (Nat.not_lt_zero j)
  | cons a row ih =>
      obtain ⟨j, rfl⟩ : ∃ k, j = k + 1 := ⟨j - 1, by omega⟩
      have hj' : j < row.length := Nat.lt_of_succ_lt_succ hj
      cases i with
      | zero =>
          apply h.1 _ _ (row.drop (j + 1))
          simp
      | succ i =>
          have hagree := ih h.2 (Nat.lt_of_succ_lt_succ hij) hj'
          simpa using hagree

/-- The items behind one, as far as another, are those with an index behind the first and
not behind the second. -/
theorem forall_between_iff {is : List Item} {i j : Fin is.length} (hij : i < j) {P : Item → Prop} :
    (∀ k ∈ (is.drop (i + 1)).take (j - (i + 1)) ++ [is[j]], P k) ↔
      ∀ k, i < k → k ≤ j → P is[k] := by
  have hstep : i + 1 + (j - (i + 1)) = j.val := by omega
  have hlast : j - (i + 1) < (is.drop (i + 1)).length := by
    rw [List.length_drop]
    omega
  have hbetween : (is.drop (i + 1)).take (j - (i + 1)) ++ [is[j]] =
      (is.drop (i + 1)).take (j - (i + 1) + 1) := by
    rw [← List.take_append_getElem hlast]
    simp [hstep]
  rw [hbetween]
  constructor
  · intro h k hik hkj
    apply h
    rw [List.mem_take_iff_getElem]
    have hindex : i + 1 + (k - (i + 1)) = k.val := by omega
    refine ⟨k - (i + 1), ?_, by simp [hindex]⟩
    omega
  · intro h k hk
    obtain ⟨m, hm, rfl⟩ := List.mem_take_iff_getElem.mp hk
    have hlow : i.val < i + 1 + m := by omega
    have hhigh : i + 1 + m ≤ j.val := by omega
    rw [List.getElem_drop]
    exact h ⟨i + 1 + m, Nat.lt_of_le_of_lt hhigh j.isLt⟩ hlow hhigh

/-- What is within the list of an item, up to a member, is told by depths and kinds. -/
theorem forall_within_iff {is : List Item} {i j : Fin is.length} (hij : i < j) :
    (is[j].depth = is[i].depth ∧ ∀ k, i < k → k ≤ j → is[i].within is[k] = true) ↔
      is[i].depth = is[j].depth ∧ is[i].ordered = is[j].ordered ∧
        ∀ k, i < k → k < j → is[i].depth ≤ is[k].depth ∧
          (is[k].depth = is[i].depth → is[k].ordered = is[i].ordered) := by
  constructor
  · rintro ⟨hdepth, hwithin⟩
    have hlast := Item.within_iff.mp (hwithin j hij (Fin.le_refl j))
    have hordered : is[i].ordered = is[j].ordered :=
      (hlast.resolve_left (Nat.not_lt.mpr hdepth.le)).2
    refine ⟨hdepth.symm, hordered, ?_⟩
    intro k hik hkj
    rcases Item.within_iff.mp (hwithin k hik (Fin.le_of_lt hkj)) with hdeeper | ⟨hsame, hkind⟩
    · exact ⟨Nat.le_of_lt hdeeper, fun h => absurd h (Nat.ne_of_gt hdeeper)⟩
    · exact ⟨Nat.le_of_eq hsame, fun _ => hkind.symm⟩
  · rintro ⟨hdepth, hordered, hbetween⟩
    refine ⟨hdepth.symm, ?_⟩
    intro k hik hkj
    rw [Item.within_iff]
    rcases Nat.lt_or_eq_of_le hkj with hlt | heq
    · obtain ⟨hle, hkind⟩ := hbetween k hik hlt
      by_cases hdeeper : is[i].depth < is[k].depth
      · exact Or.inl hdeeper
      · have hsame : is[k].depth = is[i].depth := by omega
        exact Or.inr ⟨hsame.symm, (hkind hsame).symm⟩
    · obtain rfl := Fin.ext heq
      exact Or.inr ⟨hdepth, hordered⟩

/-- Places of items, in their order, that agree with the depths. -/
structure StandByDepth (page : PageRef) (is : List Item) (found : Fin is.length → ListItem) :
    Prop where
  /-- An item stands in a list of its kind. -/
  parent (i : Fin is.length) : (found i).parent = .list is[i].ordered
  /-- It begins with what its text is read as, and has lists behind that. -/
  children (i : Fin is.length) : ∃ nested,
    (found i).children = Inline.parse page (Text.trim is[i].text) ++ nested ∧
      ∀ node ∈ nested, node.kind.isList = true
  /-- It lies around those behind it as long as they are deeper. -/
  encloses (i j : Fin is.length) : (found i).Encloses (found j) ↔
    i < j ∧ ∀ k, i < k → k ≤ j → is[i].depth < is[k].depth
  /-- It is in one list with those of its depth and kind behind it, as long as no item is less
  deep, or of its depth but not of its kind. -/
  same (i j : Fin is.length) : i < j → ((found i).list = (found j).list ↔
    is[i].depth = is[j].depth ∧ is[i].ordered = is[j].ordered ∧
      ∀ k, i < k → k < j → is[i].depth ≤ is[k].depth ∧
        (is[k].depth = is[i].depth → is[k].ordered = is[i].ordered))

theorem Row.standByDepth {is : List Item} {found : List ListItem} {row : List Standing}
    (h : Row page is found row) (hlength : row.length = is.length) :
    StandByDepth page is fun i => row[i].found := by
  have hitem : ∀ i : Fin is.length, row[i].item = is[i] := by
    intro i
    simp [← h.items]
  have hagree : ∀ i j : Fin is.length, i < j →
      Agree row[i] ((is.drop (i + 1)).take (j - (i + 1))) row[j] := by
    intro i j hij
    have hrows := h.agreeing.agree_getElem hij (by omega)
    rwa [List.map_take, List.map_drop, h.items] at hrows
  constructor
  · intro i
    rw [← hitem]
    exact (h.written row[i] (List.getElem_mem _)).1
  · intro i
    rw [← hitem]
    exact (h.written row[i] (List.getElem_mem _)).2
  · intro i j
    by_cases hij : i < j
    · have hencloses := (hagree i j hij).encloses
      rw [hitem, hitem, forall_between_iff hij] at hencloses
      exact hencloses.trans (and_iff_right hij).symm
    · apply iff_of_false _ fun h => hij h.1
      rcases Nat.lt_or_eq_of_le (Nat.not_lt.mp hij) with hji | hji
      · exact (hagree j i hji).not_enclosed
      · obtain rfl := Fin.ext hji
        intro hself
        exact Nat.lt_irrefl _ hself.length_lt
  · intro i j hij
    have hsame := (hagree i j hij).same
    rw [hitem, hitem, forall_between_iff hij] at hsame
    exact hsame.trans (forall_within_iff hij)

/-- The lists of items are made of these items, in their order, and nest them by depth. -/
theorem exists_listItems_listNodes (page : PageRef) (kind : Kind) (place : List Nat)
    (is : List Item) : ∃ found : Fin is.length → ListItem,
      (Node.mk kind (listNodes page is)).listItems place = List.ofFn found ∧
        StandByDepth page is found := by
  obtain ⟨row, hrow, -⟩ := (listsStand_listNodes page is).2 kind place 0
  have hlength : row.length = is.length := by rw [← hrow.items, List.length_map]
  refine ⟨fun i => row[i].found, ?_, hrow.standByDepth hlength⟩
  rw [listItems, ← hrow.found]
  apply List.ext_getElem
  · simp [hlength]
  · simp

end Creole.Block
