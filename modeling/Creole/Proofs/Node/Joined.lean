import Creole.Node.Sequence
import Mathlib.Data.List.Chain

/-!
# Joined sequences

`Node.Joined` is the form that `Node.coalesce` brings sequences of nodes into: no
text in it is empty or has anything below it, and no two texts of the same mode
stand side by side.  The main statements are `joined_coalesce` and
`coalesce_of_joined`: every coalesced sequence is joined, and a joined one is not
changed by coalescing it again.
-/

namespace Creole.Node

/-- A node is solid unless it is a text that is empty or has something below it. -/
def Solid (node : Node) : Prop :=
  ∀ content escaped, node.kind = .text content escaped → content ≠ [] ∧ node.children = []

/-- A node has nothing below it if it is a text. -/
def TextLeaf (node : Node) : Prop :=
  ∀ content escaped, node.kind = .text content escaped → node.children = []

/-- Two nodes are separate unless both are texts of the same mode. -/
def Separate (a b : Node) : Prop :=
  ∀ s t mode mode', a.kind = .text s mode → b.kind = .text t mode' → mode ≠ mode'

/-- A sequence of solid nodes, each separate from the next. -/
structure Joined (nodes : List Node) : Prop where
  solid : ∀ node ∈ nodes, Solid node
  separate : nodes.IsChain Separate

theorem joined_nil : Joined [] := ⟨by simp, .nil⟩

theorem joined_cons {node : Node} {nodes : List Node} :
    Joined (node :: nodes) ↔
      Solid node ∧ (∀ next ∈ nodes.head?, Separate node next) ∧ Joined nodes := by
  constructor
  · rintro ⟨hsolid, hseparate⟩
    rw [List.forall_mem_cons] at hsolid
    rw [List.isChain_cons] at hseparate
    exact ⟨hsolid.1, hseparate.1, hsolid.2, hseparate.2⟩
  · rintro ⟨hnode, hnext, hsolid, hseparate⟩
    exact ⟨List.forall_mem_cons.mpr ⟨hnode, hsolid⟩, List.isChain_cons.mpr ⟨hnext, hseparate⟩⟩

theorem solid_of_not_text {kind : Kind} (h : ∀ content escaped, kind ≠ .text content escaped)
    (children : List Node) : Solid (mk kind children) :=
  fun content escaped hkind => absurd hkind (h content escaped)

theorem textLeaf_of_solid {node : Node} (h : Solid node) : TextLeaf node :=
  fun content escaped hkind => (h content escaped hkind).2

theorem textLeaf_of_not_text {kind : Kind} (h : ∀ content escaped, kind ≠ .text content escaped)
    (children : List Node) : TextLeaf (mk kind children) :=
  fun content escaped hkind => absurd hkind (h content escaped)

theorem separate_of_not_text {kind : Kind} (h : ∀ content escaped, kind ≠ .text content escaped)
    (children : List Node) (next : Node) : Separate (mk kind children) next :=
  fun s _ mode _ hkind => absurd hkind (h s mode)

theorem solid_text {content : Text} {escaped : Bool} (h : content ≠ []) :
    Solid (leaf (.text content escaped)) := by
  intro s mode hkind
  simp only [leaf, kind_mk, Kind.text.injEq] at hkind
  exact ⟨hkind.1 ▸ h, rfl⟩

theorem text_or_not_text (kind : Kind) :
    (∃ content escaped, kind = .text content escaped) ∨
      ∀ content escaped, kind ≠ .text content escaped := by
  cases kind with
  | text content escaped => exact Or.inl ⟨content, escaped, rfl⟩
  | _ =>
      right
      intro content escaped h
      cases h

/-! ## Putting a node before a sequence -/

theorem prepend_of_not_text {kind : Kind} (h : ∀ content escaped, kind ≠ .text content escaped)
    (children rest : List Node) : prepend (mk kind children) rest = mk kind children :: rest := by
  unfold prepend
  split
  · next content escaped hkind => exact absurd hkind (h content escaped)
  · rfl

theorem prepend_of_solid {node : Node} {rest : List Node} (hsolid : Solid node)
    (hseparate : ∀ next ∈ rest.head?, Separate node next) : prepend node rest = node :: rest := by
  obtain ⟨kind, children⟩ := node
  rcases text_or_not_text kind with ⟨content, escaped, rfl⟩ | hnot
  · obtain ⟨hcontent, rfl⟩ : content ≠ [] ∧ children = [] := hsolid content escaped rfl
    unfold prepend
    simp only [kind_mk, List.isEmpty_iff, hcontent, if_false]
    split
    · next next escaped' below more =>
      have hmode : escaped ≠ escaped' :=
        hseparate _ rfl content next escaped escaped' rfl rfl
      rw [if_neg hmode]
      rfl
    · rfl
  · exact prepend_of_not_text hnot children rest

/-- A text before a sequence is joined to the text that the sequence begins with, or
stands before the sequence, which then begins with no text to join it to. -/
theorem prepend_text_cases {content : Text} (h : content ≠ []) (rest : List Node) :
    (∃ next below behind, rest = mk (.text next true) below :: behind ∧
      prepend (text content) rest = text (content ++ next) :: behind) ∨
    (∀ node ∈ rest.head?, ∀ next, node.kind ≠ .text next true) ∧
      prepend (text content) rest = text content :: rest := by
  cases rest with
  | nil => exact Or.inr ⟨by simp, by simp [prepend, text, leaf, h]⟩
  | cons first rest =>
      obtain ⟨kind, below⟩ := first
      by_cases hjoin : ∃ next, kind = .text next true
      · obtain ⟨next, rfl⟩ := hjoin
        exact Or.inl ⟨next, below, rest, rfl, by simp [prepend, text, leaf, h]⟩
      · refine Or.inr ⟨by simpa using fun next heq => hjoin ⟨next, heq⟩, ?_⟩
        cases kind with
        | text next escaped =>
            have hmode : true ≠ escaped := by
              rintro rfl
              exact hjoin ⟨next, rfl⟩
            simp [prepend, text, leaf, h, hmode]
        | _ => simp [prepend, text, leaf, h]

theorem exists_prepend_text {content : Text} (h : content ≠ []) (rest : List Node) :
    ∃ more behind, prepend (text content) rest = text (content ++ more) :: behind := by
  rcases prepend_text_cases h rest with ⟨next, _, behind, -, heq⟩ | ⟨-, heq⟩
  · exact ⟨next, behind, heq⟩
  · exact ⟨[], rest, by rw [heq, List.append_nil]⟩

theorem prepend_text_text {content : Text} (h : content ≠ []) (next : Text) :
    prepend (text content) [text next] = [text (content ++ next)] := by
  simp [prepend, text, leaf, h]

/-- Two texts that are put before a sequence are put before it as one. -/
theorem prepend_text_prepend_text (s t : Text) (rest : List Node) :
    prepend (text s) (prepend (text t) rest) = prepend (text (s ++ t)) rest := by
  cases s with
  | nil => rfl
  | cons c s =>
      cases t with
      | nil => rw [List.append_nil]; rfl
      | cons d t =>
          cases rest with
          | nil => simp [prepend, text, leaf]
          | cons node rest =>
              obtain ⟨kind, children⟩ := node
              cases kind with
              | text next escaped => cases escaped <;> simp [prepend, text, leaf]
              | _ => simp [prepend, text, leaf]

/-- A node before a joined sequence joins it: what is new at its front is solid,
and separate from what follows. -/
theorem joined_prepend (node : Node) {rest : List Node} (hrest : Joined rest) :
    Joined (prepend node rest) := by
  obtain ⟨kind, children⟩ := node
  rcases text_or_not_text kind with ⟨content, escaped, rfl⟩ | hnot
  · unfold prepend
    simp only [kind_mk]
    split
    · exact hrest
    · next hcontent =>
      rw [List.isEmpty_iff] at hcontent
      split
      · next next escaped' below more =>
        obtain ⟨-, hnext, hmore⟩ := joined_cons.mp hrest
        split
        · next hmode =>
          subst hmode
          -- the joined text takes the place of the text that the sequence began with
          refine joined_cons.mpr ⟨solid_text (by simp [hcontent]), ?_, hmore⟩
          intro other hother s t mode mode' hs ht
          refine hnext other hother next t mode mode' ?_ ht
          simp only [leaf, kind_mk, Kind.text.injEq] at hs ⊢
          exact ⟨trivial, hs.2⟩
        · next hmode =>
          refine joined_cons.mpr ⟨solid_text hcontent, ?_, hrest⟩
          intro other hother s t mode mode' hs ht
          simp only [List.head?_cons, Option.mem_def, Option.some.injEq] at hother
          subst hother
          simp only [leaf, kind_mk, Kind.text.injEq] at hs ht
          exact hs.2 ▸ ht.2 ▸ hmode
      · next hnot =>
        refine joined_cons.mpr ⟨solid_text hcontent, ?_, hrest⟩
        intro other hother s t mode mode' _ ht
        obtain ⟨kind', below⟩ := other
        obtain ⟨more, rfl⟩ := List.head?_eq_some_iff.mp hother
        simp only [kind_mk] at ht
        exact absurd rfl (ht ▸ hnot t mode' below more)
  · rw [prepend_of_not_text hnot]
    exact joined_cons.mpr ⟨solid_of_not_text hnot children,
      fun next _ => separate_of_not_text hnot children next, hrest⟩

/-- Joining texts adds nothing to what they say. -/
theorem plainText_prepend_sublist (node : Node) (rest : List Node) :
    List.Sublist ((prepend node rest).flatMap plainText)
      (node.plainText ++ rest.flatMap plainText) := by
  obtain ⟨kind, children⟩ := node
  rcases text_or_not_text kind with ⟨content, escaped, rfl⟩ | hnot
  · have hcontent : List.Sublist (content ++ rest.flatMap plainText)
        ((mk (.text content escaped) children).plainText ++ rest.flatMap plainText) := by
      rw [plainText_mk]
      exact (List.sublist_append_left content _).append_right _
    refine List.Sublist.trans ?_ hcontent
    unfold prepend
    simp only [kind_mk]
    split
    · exact List.sublist_append_right _ _
    · split
      · split <;> simp [leaf, Kind.content?]
      · simp [leaf, Kind.content?]
  · rw [prepend_of_not_text hnot, List.flatMap_cons]

theorem mem_of_mem_prepend {node member : Node} {rest : List Node}
    (h : member ∈ prepend node rest) :
    member = node ∨ member ∈ rest ∨ ∃ content escaped, member = leaf (.text content escaped) := by
  unfold prepend at h
  split at h
  · split at h
    · exact Or.inr (Or.inl h)
    · split at h
      · split at h
        · rcases List.mem_cons.mp h with rfl | hmore
          · exact Or.inr (Or.inr ⟨_, _, rfl⟩)
          · exact Or.inr (Or.inl (List.mem_cons_of_mem _ hmore))
        · rcases List.mem_cons.mp h with rfl | hrest
          · exact Or.inr (Or.inr ⟨_, _, rfl⟩)
          · exact Or.inr (Or.inl hrest)
      · rcases List.mem_cons.mp h with rfl | hrest
        · exact Or.inr (Or.inr ⟨_, _, rfl⟩)
        · exact Or.inr (Or.inl hrest)
  · rcases List.mem_cons.mp h with rfl | hrest
    · exact Or.inl rfl
    · exact Or.inr (Or.inl hrest)

theorem mem_prepend_of_not_text (node : Node) {member : Node} {rest : List Node}
    (h : ∀ content escaped, member.kind ≠ .text content escaped) (hmember : member ∈ rest) :
    member ∈ prepend node rest := by
  unfold prepend
  split
  · split
    · exact hmember
    · split
      · next next escaped' below more =>
        -- the text that is joined is not the member
        have hmore : member ∈ more := by
          refine (List.mem_cons.mp hmember).resolve_left ?_
          rintro rfl
          exact h next escaped' rfl
        split
        · exact List.mem_cons_of_mem _ hmore
        · exact List.mem_cons_of_mem _ hmember
      · exact List.mem_cons_of_mem _ hmember
  · exact List.mem_cons_of_mem _ hmember

/-! ## Coalescing -/

theorem joined_coalesce (nodes : List Node) : Joined (coalesce nodes) := by
  induction nodes with
  | nil => exact joined_nil
  | cons node nodes ih => exact joined_prepend node ih

theorem coalesce_of_joined {nodes : List Node} (h : Joined nodes) : coalesce nodes = nodes := by
  induction nodes with
  | nil => rfl
  | cons node nodes ih =>
      obtain ⟨hsolid, hseparate, hrest⟩ := joined_cons.mp h
      rw [coalesce_cons, ih hrest, prepend_of_solid hsolid hseparate]

theorem coalesce_append (nodes more : List Node) :
    coalesce (nodes ++ more) = nodes.foldr prepend (coalesce more) :=
  List.foldr_append

/-- Rows that are prepended alike are coalesced alike, one behind the other. -/
theorem coalesce_flatMap_congr {f g : Node → List Node} {nodes : List Node}
    (h : ∀ node ∈ nodes, ∀ rest, (f node).foldr prepend rest = (g node).foldr prepend rest) :
    coalesce (nodes.flatMap f) = coalesce (nodes.flatMap g) := by
  induction nodes with
  | nil => rfl
  | cons node nodes ih =>
      rw [List.forall_mem_cons] at h
      rw [List.flatMap_cons, List.flatMap_cons, coalesce_append, coalesce_append, ih h.2, h.1]

/-- What is in a coalesced sequence was there before, or is a text. -/
theorem mem_of_mem_coalesce {nodes : List Node} {member : Node} (h : member ∈ coalesce nodes) :
    member ∈ nodes ∨ ∃ content escaped, member = leaf (.text content escaped) := by
  induction nodes with
  | nil => exact absurd h List.not_mem_nil
  | cons node nodes ih =>
      rcases mem_of_mem_prepend h with rfl | hrest | htext
      · exact Or.inl List.mem_cons_self
      · exact (ih hrest).imp_left (List.mem_cons_of_mem _)
      · exact Or.inr htext

/-- Coalescing leaves everything in place that is no text. -/
theorem mem_coalesce_of_not_text {nodes : List Node} {node : Node} (hnode : node ∈ nodes)
    (h : ∀ content escaped, node.kind ≠ .text content escaped) : node ∈ coalesce nodes := by
  induction nodes with
  | nil => exact absurd hnode List.not_mem_nil
  | cons first nodes ih =>
      rcases List.mem_cons.mp hnode with rfl | hrest
      · obtain ⟨kind, children⟩ := node
        have hnot : ∀ content escaped, kind ≠ .text content escaped := h
        rw [coalesce_cons, prepend_of_not_text hnot]
        exact List.mem_cons_self
      · exact mem_prepend_of_not_text first h (ih hrest)

end Creole.Node
