import Creole.Docbook.Sections
import Creole.Proofs.Forest
import Mathlib.Data.List.FinRange

/-!
# Sections follow the heading hierarchy

A `SectionBuilder` that takes any sequence of steps, headings and content in any
order, ends with the sections nested by level: a section lies in another if and
only if it was begun later and no section in between, itself included, was begun
at the same or a lower level.  What was added while a section was the last one
begun stands in it, before the sections inside it.

## Strategy

The builder attaches a section to its parent only when it closes it, so what it
will return is not to be seen in its state.  `SectionBuilder.complete` says what it
is: given the sections that are still to come, it hands each open section, from the
innermost, the coming ones of a greater level, and leaves the rest to its parent.

* `complete_closeFrom`: closing sections early does not change what is completed,
  as long as the next section to come would have closed them too;
* `complete_start_append`: a section that begins now and gathers content completes
  as one that is still to come does;
* `finish_foldl_step`: hence, by induction on the steps, the builder finishes with
  the completion of its state by all sections that the steps create.

For the empty builder that completion is the forest of `Forest.nest`.
-/

namespace Creole.Docbook

variable {α : Type}

/-! ## Steps and the sections they create -/

/-- What a builder is asked to do: begin a section at a level, or add content. -/
inductive Step (α : Type) where
  | start (level : Nat)
  | append (content : List α)
  deriving Repr

namespace Step

/-- The content that a step adds. -/
def content : Step α → List α
  | start _ => []
  | append content => content

/-- The content that steps add before any of them begins a section. -/
def leading : List (Step α) → List α
  | append content :: steps => content ++ leading steps
  | _ => []

end Step

/-- A section on its own: its level, and the content that was added while it was
the last section begun. -/
structure Division (α : Type) where
  level : Nat
  content : List α
  deriving Repr

/-- The sections that steps begin, in order. -/
def Step.begun : List (Step α) → List (Division α)
  | [] => []
  | start level :: steps => ⟨level, leading steps⟩ :: begun steps
  | append _ :: steps => begun steps

/-- The sections that steps create, in order: if there is content before the first
section begun, it creates one of its own. -/
def Step.created (steps : List (Step α)) : List (Division α) :=
  if leading steps = [] then begun steps
  else ⟨SectionBuilder.implicitLevel, leading steps⟩ :: begun steps

/-- The builder behind one step. -/
def SectionBuilder.step (b : SectionBuilder α) : Step α → SectionBuilder α
  | .start level => b.start level
  | .append content => b.append content

/-- The builder behind steps that were taken from the start. -/
def SectionBuilder.run (steps : List (Step α)) : SectionBuilder α := steps.foldl step {}

/-! ## Sections as a document -/

/-- The entries that a forest of sections stands for.  The content of a section comes
first, then the sections inside it. -/
def outline {β : Type} (division : β → Division α) : Forest β → List (Outline α)
  | .nil => []
  | .cons label inside behind =>
    .division (division label).level
        ((division label).content.map .content ++ outline division inside) ::
      outline division behind

mutual

/-- The content of an entry, in document order. -/
def Outline.contents : Outline α → List α
  | .content a => [a]
  | .division _ entries => Outline.allContents entries

/-- The content of entries in a row, in document order. -/
def Outline.allContents : List (Outline α) → List α
  | [] => []
  | entry :: entries => entry.contents ++ Outline.allContents entries

end

theorem Outline.allContents_append (entries more : List (Outline α)) :
    Outline.allContents (entries ++ more) =
      Outline.allContents entries ++ Outline.allContents more := by
  induction entries with
  | nil => rfl
  | cons entry entries ih => simp [Outline.allContents, ih]

theorem Outline.allContents_map_content (content : List α) :
    Outline.allContents (content.map .content) = content := by
  induction content with
  | nil => rfl
  | cons a content ih => simp [Outline.allContents, Outline.contents, ih]

theorem outline_map {β γ : Type} (division : γ → Division α) (f : β → γ) (forest : Forest β) :
    outline division (forest.map f) = outline (fun i => division (f i)) forest := by
  induction forest with
  | nil => rfl
  | cons label inside behind ihinside ihbehind =>
      rw [Forest.map, outline, outline, ihinside, ihbehind]

/-- Document order is the order of the labels, section by section. -/
theorem allContents_outline {β : Type} (division : β → Division α) (forest : Forest β) :
    Outline.allContents (outline division forest) =
      forest.labels.flatMap fun i => (division i).content := by
  induction forest with
  | nil => rfl
  | cons label inside behind ihinside ihbehind =>
      simp only [outline, Outline.allContents, Outline.contents, Outline.allContents_append,
        Outline.allContents_map_content, ihinside, ihbehind, Forest.labels, List.flatMap_cons,
        List.flatMap_append, List.append_assoc]

/-- The document of sections in a row, nested by level. -/
def nested (sections : List (Division α)) : List (Outline α) :=
  outline id (Forest.nest Division.level sections)

@[simp] theorem nested_nil : nested ([] : List (Division α)) = [] := by
  rw [nested, Forest.nest_nil, outline]

theorem nested_cons (first : Division α) (rest : List (Division α)) :
    nested (first :: rest) =
      .division first.level (first.content.map .content ++
          nested (rest.takeWhile (first.level < ·.level))) ::
        nested (rest.dropWhile (first.level < ·.level)) := by
  rw [nested, Forest.nest_cons, outline]
  rfl

/-! ## What a builder will return -/

/-- The document that open sections become, the innermost first, if `entries` are
added to the innermost and `coming` are the sections still to begin. -/
def completeStack :
    List (OpenSection α) → (entries : List (Outline α)) → (coming : List (Division α)) →
      List (Outline α)
  | [], entries, coming => entries ++ nested coming
  | s :: outer, entries, coming =>
    completeStack outer
      [.division s.level (s.entries ++ entries ++ nested (coming.takeWhile (s.level < ·.level)))]
      (coming.dropWhile (s.level < ·.level))

/-- The document that a builder returns if `coming` are the sections still to begin. -/
def SectionBuilder.complete (b : SectionBuilder α) (coming : List (Division α)) :
    List (Outline α) :=
  b.closed ++ completeStack b.stack [] coming

theorem takeWhile_eq_nil_of_head {level : Nat} {coming : List (Division α)}
    (h : ∀ next ∈ coming.head?, next.level ≤ level) :
    coming.takeWhile (level < ·.level) = [] := by
  cases coming with
  | nil => rfl
  | cons next coming =>
      have hle : next.level ≤ level := h next rfl
      rw [List.takeWhile_cons_of_neg (by simpa using hle)]

theorem dropWhile_eq_self_of_head {level : Nat} {coming : List (Division α)}
    (h : ∀ next ∈ coming.head?, next.level ≤ level) :
    coming.dropWhile (level < ·.level) = coming := by
  cases coming with
  | nil => rfl
  | cons next coming =>
      have hle : next.level ≤ level := h next rfl
      rw [List.dropWhile_cons_of_neg (by simpa using hle)]

/-- A section that takes none of the coming ones may be closed at once. -/
theorem completeStack_add_close {s parent : OpenSection α} {outer : List (OpenSection α)}
    {coming : List (Division α)} (h : ∀ next ∈ coming.head?, next.level ≤ s.level) :
    completeStack (parent.add [s.close] :: outer) [] coming =
      completeStack (s :: parent :: outer) [] coming := by
  rw [completeStack, completeStack, completeStack, takeWhile_eq_nil_of_head h,
    dropWhile_eq_self_of_head h]
  rw [nested_nil, List.append_nil, List.append_nil, List.append_nil]
  rfl

theorem complete_closeFrom {level : Nat} {coming : List (Division α)}
    (h : ∀ next ∈ coming.head?, next.level ≤ level) (b : SectionBuilder α) :
    (b.closeFrom level).complete coming = b.complete coming := by
  induction b using SectionBuilder.closeFrom.induct level with
  | case1 closed => rw [SectionBuilder.closeFrom]
  | case2 outermost closed hle =>
      have htop : ∀ next ∈ coming.head?, next.level ≤ outermost.level :=
        fun next hnext => (h next hnext).trans hle
      rw [SectionBuilder.closeFrom, if_pos hle]
      simp [SectionBuilder.complete, completeStack, takeWhile_eq_nil_of_head htop,
        dropWhile_eq_self_of_head htop, OpenSection.close]
  | case3 outermost closed hle => rw [SectionBuilder.closeFrom, if_neg hle]
  | case4 innermost parent outer closed hle ih =>
      have htop : ∀ next ∈ coming.head?, next.level ≤ innermost.level :=
        fun next hnext => (h next hnext).trans hle
      rw [SectionBuilder.closeFrom, if_pos hle, ih, SectionBuilder.complete,
        SectionBuilder.complete, completeStack_add_close htop]
  | case5 innermost parent outer closed hle => rw [SectionBuilder.closeFrom, if_neg hle]

/-- What stays open is of a lower level than what was closed for. -/
theorem lt_of_mem_head?_stack_closeFrom (level : Nat) (b : SectionBuilder α) :
    ∀ s ∈ (b.closeFrom level).stack.head?, s.level < level := by
  induction b using SectionBuilder.closeFrom.induct level with
  | case1 closed => simp [SectionBuilder.closeFrom]
  | case2 outermost closed hle => simp [SectionBuilder.closeFrom, hle]
  | case3 outermost closed hle =>
      rw [SectionBuilder.closeFrom, if_neg hle]
      simpa using hle
  | case4 innermost parent outer closed hle ih =>
      rw [SectionBuilder.closeFrom, if_pos hle]
      exact ih
  | case5 innermost parent outer closed hle =>
      rw [SectionBuilder.closeFrom, if_neg hle]
      simpa using hle

theorem finish_eq_complete (b : SectionBuilder α) : b.finish = b.complete [] := by
  have hstack : (b.closeFrom 0).stack = [] := by
    cases h : (b.closeFrom 0).stack with
    | nil => rfl
    | cons s outer =>
        exact absurd (lt_of_mem_head?_stack_closeFrom 0 b s (by rw [h]; rfl)) (Nat.not_lt_zero _)
  have hclosed : (b.closeFrom 0).complete [] = b.complete [] :=
    complete_closeFrom (fun next hnext => absurd hnext (by simp)) b
  rw [← hclosed, SectionBuilder.finish, SectionBuilder.complete, hstack]
  simp [completeStack]

/-! ## Steps -/

section Levels

variable {low level : Nat}

/-- What is of a greater level than `level` is of a greater level than `low`. -/
theorem takeWhile_takeWhile_of_le (h : low ≤ level) (coming : List (Division α)) :
    (coming.takeWhile (low < ·.level)).takeWhile (level < ·.level) =
      coming.takeWhile (level < ·.level) := by
  rw [List.takeWhile_takeWhile]
  congr 1
  funext next
  exact decide_eq_decide.mpr ⟨fun hboth => by simpa using hboth.1,
    fun hlevel => ⟨by simpa using hlevel, by simpa using h.trans_lt hlevel⟩⟩

theorem dropWhile_takeWhile_of_le (h : low ≤ level) (coming : List (Division α)) :
    (coming.takeWhile (low < ·.level)).dropWhile (level < ·.level) =
      (coming.dropWhile (level < ·.level)).takeWhile (low < ·.level) := by
  induction coming with
  | nil => rfl
  | cons next coming ih =>
      by_cases hlevel : level < next.level
      · have hlow : low < next.level := h.trans_lt hlevel
        simpa [hlevel, hlow] using ih
      · by_cases hlow : low < next.level
        · simp [hlevel, hlow]
        · simp [hlevel, hlow]

theorem dropWhile_dropWhile_of_le (h : low ≤ level) (coming : List (Division α)) :
    (coming.dropWhile (level < ·.level)).dropWhile (low < ·.level) =
      coming.dropWhile (low < ·.level) := by
  induction coming with
  | nil => rfl
  | cons next coming ih =>
      by_cases hlevel : level < next.level
      · have hlow : low < next.level := h.trans_lt hlevel
        simpa [hlevel, hlow] using ih
      · rw [List.dropWhile_cons_of_neg (by simpa using hlevel)]

end Levels

/-- An open section that holds content completes as a coming one does, inside open
sections of lower levels. -/
theorem completeStack_content {level : Nat} {outer : List (OpenSection α)}
    (houter : ∀ s ∈ outer.head?, s.level < level) (content : List α)
    (coming : List (Division α)) :
    completeStack ({ level, entries := content.map .content } :: outer) [] coming =
      completeStack outer [] (⟨level, content⟩ :: coming) := by
  cases outer with
  | nil => simp [completeStack, nested_cons]
  | cons s outer =>
      have hlow : s.level < level := houter s rfl
      simp [completeStack, hlow, nested_cons, takeWhile_takeWhile_of_le hlow.le,
        dropWhile_takeWhile_of_le hlow.le, dropWhile_dropWhile_of_le hlow.le]

theorem stack_start_append (level : Nat) (content : List α) (b : SectionBuilder α) :
    (b.start level).append content =
      ⟨{ level, entries := content.map .content } :: (b.closeFrom level).stack,
        (b.closeFrom level).closed⟩ := by
  unfold SectionBuilder.append
  split
  · next hempty => simp [SectionBuilder.start, List.isEmpty_iff.mp hempty]
  · simp [SectionBuilder.start, OpenSection.add]

/-- A section that begins now and gathers content completes as a coming one. -/
theorem complete_start_append (level : Nat) (content : List α) (b : SectionBuilder α)
    (coming : List (Division α)) :
    ((b.start level).append content).complete coming =
      b.complete (⟨level, content⟩ :: coming) := by
  rw [stack_start_append, SectionBuilder.complete,
    completeStack_content (lt_of_mem_head?_stack_closeFrom level b)]
  exact complete_closeFrom (by simp) b

theorem append_nil (b : SectionBuilder α) : b.append [] = b := rfl

theorem append_append (content more : List α) (b : SectionBuilder α) :
    (b.append content).append more = b.append (content ++ more) := by
  unfold SectionBuilder.append
  by_cases hcontent : content = []
  · simp [hcontent]
  · by_cases hmore : more = []
    · simp [hmore]
    · cases h : b.stack <;> simp [hcontent, hmore, OpenSection.add]

/-- Whatever the builder holds, after some steps it returns what it would complete
to by the content that leads them and the sections that they begin. -/
theorem finish_foldl_step (steps : List (Step α)) (b : SectionBuilder α) :
    (steps.foldl SectionBuilder.step b).finish =
      (b.append (Step.leading steps)).complete (Step.begun steps) := by
  induction steps generalizing b with
  | nil => exact finish_eq_complete b
  | cons step steps ih =>
      rw [List.foldl_cons, ih]
      cases step with
      | start level => exact complete_start_append level _ b _
      | append content => rw [SectionBuilder.step, append_append, Step.leading, Step.begun]

theorem finish_run (steps : List (Step α)) :
    (SectionBuilder.run steps).finish = nested (Step.created steps) := by
  rw [SectionBuilder.run, finish_foldl_step, Step.created]
  split
  · next hleading => simp [hleading, append_nil, SectionBuilder.complete, completeStack]
  · next hleading =>
    -- content before the first section opens one as beginning it would
    have himplicit : ({} : SectionBuilder α).append (Step.leading steps) =
        (({} : SectionBuilder α).start SectionBuilder.implicitLevel).append
          (Step.leading steps) := by
      simp [SectionBuilder.append, hleading, SectionBuilder.start, SectionBuilder.closeFrom,
        OpenSection.add]
    rw [himplicit, complete_start_append]
    simp [SectionBuilder.complete, completeStack]

theorem flatMap_content_created (steps : List (Step α)) :
    (Step.created steps).flatMap Division.content = steps.flatMap Step.content := by
  have hbegun : Step.leading steps ++ (Step.begun steps).flatMap Division.content =
      steps.flatMap Step.content := by
    induction steps with
    | nil => rfl
    | cons step steps ih =>
        cases step with
        | start level =>
            rw [Step.leading, Step.begun, List.flatMap_cons, List.flatMap_cons, ih, Step.content]
            simp
        | append content =>
            rw [Step.leading, Step.begun, List.flatMap_cons, List.append_assoc, ih, Step.content]
  rw [← hbegun, Step.created]
  split
  · next hleading => rw [hleading, List.nil_append]
  · rw [List.flatMap_cons]

/-- Section nesting is the heading hierarchy.  The sections that steps create,
numbered in order of creation, are the labels of a forest in document order, each
once; the builder returns that forest, with the content of every section before the
sections inside it; section `i` lies around section `j` if and only if every section
behind `i` up to `j` is of a greater level; and in document order the content is
what was added, in order. -/
theorem exists_forest_of_run (steps : List (Step α)) :
    ∃ forest : Forest (Fin (Step.created steps).length),
      (SectionBuilder.run steps).finish = outline (Step.created steps).get forest ∧
      forest.labels = List.finRange (Step.created steps).length ∧
      (∀ i j, forest.Encloses i j ↔
        i < j ∧ ∀ k, i < k → k ≤ j →
          ((Step.created steps).get i).level < ((Step.created steps).get k).level) ∧
      Outline.allContents (SectionBuilder.run steps).finish = steps.flatMap Step.content := by
  set sections := Step.created steps with hsections
  refine ⟨Forest.nest (fun i => (sections.get i).level) (List.finRange sections.length),
    ?_, Forest.labels_nest _ _, fun i j => ?_, ?_⟩
  · rw [finish_run, nested, ← hsections]
    conv_lhs => rw [← List.map_get_finRange sections, ← Forest.map_nest, outline_map]
    rfl
  · rw [Forest.encloses_nest_iff (List.pairwise_lt_finRange _)]
    simp [Forest.Deeper]
  · rw [finish_run, nested, allContents_outline, Forest.labels_nest]
    exact flatMap_content_created steps

end Creole.Docbook
