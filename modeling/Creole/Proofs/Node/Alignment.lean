import Creole.Proofs.Node.View
import Creole.Proofs.Node.Walk
import Mathlib.Data.List.Induction

/-!
# Alignment in force

Which alignment a table cell has is a matter of the directives before it.  A document
is flattened to its directives and cells in document order (`Node.events`); in that
list a cell has the alignment that the last directive of table alignment before it
asks for (`Event.alignmentBehind`).

A renderer does not see that list.  It carries what is in force through a walk from
node to node.  `walk_snd` says what the walk carries: behind a node, what is in force
is what the events of the node make of what was in force before it.  Together with
`tableAlignment?_foldl`, which reads the alignment off the state behind some events,
it connects the two.
-/

namespace Creole

/-- What is met in a document that has to do with the alignment of cells. -/
inductive Event where
  | directive (directive : Directive)
  | cell (header : Bool)
  deriving DecidableEq, Repr

namespace Event

/-- The directive of table alignment that an event is, if it is one. -/
def alignment? : Event → Option Directive
  | directive d => if d.name = Directives.tableAlignmentName then some d else none
  | cell _ => none

/-- Whether a cell is a header, if the event is a cell. -/
def header? : Event → Option Bool
  | directive _ => none
  | cell header => some header

/-- The last directive of table alignment among events. -/
def lastAlignment? (events : List Event) : Option Directive :=
  (events.filterMap alignment?).getLast?

/-- The alignment in force behind events: the first argument of the last directive of
table alignment, if that switches it on and has an argument that is not empty. -/
def alignmentBehind (events : List Event) : Option Text :=
  match lastAlignment? events with
  | some d => if d.enabled then d.args.head?.filter (!·.isEmpty) else none
  | none => none

/-- The cells among events, each with the alignment in force where it stands, if other
events come before the first. -/
def cells : (before events : List Event) → List (Bool × Option Text)
  | _, [] => []
  | before, directive d :: events => cells (before ++ [directive d]) events
  | before, cell header :: events =>
    (header, alignmentBehind before) :: cells (before ++ [cell header]) events

theorem alignmentBehind_eq_some_iff {events : List Event} {value : Text} :
    alignmentBehind events = some value ↔
      ∃ d, lastAlignment? events = some d ∧ d.enabled = true ∧ d.args.head? = some value ∧
        value ≠ [] := by
  unfold alignmentBehind
  cases lastAlignment? events with
  | none => simp
  | some d => cases henabled : d.enabled <;> simp [henabled]

theorem map_fst_cells (before events : List Event) :
    (cells before events).map Prod.fst = events.filterMap header? := by
  induction events generalizing before with
  | nil => rfl
  | cons event events ih =>
      cases event with
      | directive d => exact ih _
      | cell header => exact congr_arg (header :: ·) (ih _)

/-- The cell that stands behind some events has the alignment in force behind them. -/
theorem getElem?_cells (first before : List Event) (header : Bool) (behind : List Event) :
    (cells first (before ++ cell header :: behind))[(before.filterMap header?).length]? =
      some (header, alignmentBehind (first ++ before)) := by
  induction before generalizing first with
  | nil => simp [cells]
  | cons event before ih =>
      cases event with
      | directive d =>
          simpa [cells, header?, List.filterMap_cons] using ih (first ++ [directive d])
      | cell other => simpa [cells, header?] using ih (first ++ [cell other])

/-! ## Events and what is in force -/

/-- What is in force behind an event. -/
def apply (state : Directives) : Event → Directives
  | directive d => state.apply d
  | cell _ => state

/-- The cells among events, each with the alignment in force where it stands, if the
given directives are in force before the first. -/
def cellsUnder : Directives → List Event → List (Bool × Option Text)
  | _, [] => []
  | state, directive d :: events => cellsUnder (state.apply d) events
  | state, cell header :: events => (header, state.tableAlignment?) :: cellsUnder state events

theorem cellsUnder_append (state : Directives) (events more : List Event) :
    cellsUnder state (events ++ more) =
      cellsUnder state events ++ cellsUnder (events.foldl apply state) more := by
  induction events generalizing state with
  | nil => rfl
  | cons event events ih =>
      cases event with
      | directive d => exact ih _
      | cell header => exact congr_arg ((header, state.tableAlignment?) :: ·) (ih _)

/-- Of table alignment, the state behind events knows what the last directive said. -/
theorem args?_foldl_apply (events : List Event) :
    (events.foldl apply .initial).args? Directives.tableAlignmentName =
      (lastAlignment? events).bind fun d => if d.enabled then some d.args else none := by
  induction events using List.reverseRecOn with
  | nil => rfl
  | append_singleton events event ih =>
      rw [List.foldl_append, List.foldl_cons, List.foldl_nil]
      cases event with
      | cell header => simpa [apply, lastAlignment?, alignment?] using ih
      | directive d =>
          rw [apply, Directives.args?_apply]
          by_cases hname : d.name = Directives.tableAlignmentName
          · simp [lastAlignment?, alignment?, hname]
          · rw [if_neg (Ne.symm hname), ih]
            simp [lastAlignment?, alignment?, hname]

theorem tableAlignment?_eq (state : Directives) :
    state.tableAlignment? =
      (state.args? Directives.tableAlignmentName).bind fun args =>
        args.head?.filter (!·.isEmpty) := by
  unfold Directives.tableAlignment? Directives.firstArg
  cases state.args? Directives.tableAlignmentName with
  | none => rfl
  | some args => cases h : args.head?.filter (!·.isEmpty) <;> simp [h]

theorem tableAlignment?_foldl (events : List Event) :
    (events.foldl apply .initial).tableAlignment? = alignmentBehind events := by
  rw [tableAlignment?_eq, args?_foldl_apply, alignmentBehind]
  cases lastAlignment? events with
  | none => rfl
  | some d => cases henabled : d.enabled <;> simp [henabled]

theorem cellsUnder_foldl (before events : List Event) :
    cellsUnder (before.foldl apply .initial) events = cells before events := by
  induction events generalizing before with
  | nil => rfl
  | cons event events ih =>
      have hbehind := ih (before ++ [event])
      rw [List.foldl_append, List.foldl_cons, List.foldl_nil] at hbehind
      cases event with
      | directive d => exact hbehind
      | cell header =>
          rw [cellsUnder, tableAlignment?_foldl, cells, ← hbehind]
          rfl

end Event

namespace Node

/-- The directives and cells of a document in document order.  Children that are not
shown are passed over. -/
def events : Node → List Event :=
  fold fun kind below =>
    match kind with
    | .directive directive => [.directive directive]
    | .cell header => .cell header :: below.flatten
    | kind => if kind.showsChildren then below.flatten else []

theorem events_mk (kind : Kind) (children : List Node) :
    (mk kind children).events =
      match kind with
      | .directive directive => [.directive directive]
      | .cell header => .cell header :: children.flatMap events
      | kind => if kind.showsChildren then children.flatMap events else [] := by
  rw [events, fold_mk, List.flatMap]

/-- The cells of a document in document order, each with the alignment in force where it
stands. -/
def cells (root : Node) : List (Bool × Option Text) := Event.cells [] root.events

end Node

/-! ## Walks carry what is in force -/

namespace Visitor

variable {α : Type}

/-- A visitor threads what is in force if it takes it through the children of the kinds
that are shown as their children, and past the kinds that are not. -/
structure Threads (v : Visitor α) : Prop where
  through : ∀ kind children state, kind.showsChildren = true →
    (v.visit kind children state).2 = (v.children children state).2
  past : ∀ kind children state, kind.showsChildren = false →
    (v.visit kind children state).2 = state

variable {v : Visitor α}

theorem foldl_walk_snd {children : List Node}
    (h : ∀ child ∈ children, ∀ state, (v.walk child state).2 = child.events.foldl Event.apply state)
    (state : Directives) :
    (v.children (children.map v.child) state).2 =
      (children.flatMap Node.events).foldl Event.apply state := by
  rw [Visitor.children, Walk.inOrder_snd]
  induction children generalizing state with
  | nil => rfl
  | cons child children ih =>
      rw [List.forall_mem_cons] at h
      rw [List.map_cons, List.foldl_cons, ih h.2, List.flatMap_cons, List.foldl_append]
      exact congr_arg (List.foldl Event.apply · _) (h.1 state)

/-- Behind a node is in force what its events make of what was in force before it. -/
theorem Threads.walk_snd (hv : v.Threads) (node : Node) (state : Directives) :
    (v.walk node state).2 = node.events.foldl Event.apply state := by
  induction node using Node.induction generalizing state with
  | mk kind children ih =>
      have hchildren := foldl_walk_snd ih state
      cases kind with
      | directive d =>
          rw [walk_directive, Node.events_mk]
          rfl
      | cell header =>
          rw [walk_mk _ _ _ (by simp), hv.through _ _ _ rfl, hchildren, Node.events_mk]
          rfl
      | page | paragraph | heading level | blockquote | emphasis style | list ordered | listItem
      | table | row =>
          rw [walk_mk _ _ _ (by simp), hv.through _ _ _ rfl, hchildren, Node.events_mk]
          rfl
      | _ =>
          rw [walk_mk _ _ _ (by simp), hv.past _ _ _ rfl, Node.events_mk]
          rfl

end Visitor

end Creole
