import Creole.Proofs.Node.Alignment

/-!
# Documents without some directives

`Node.Without` relates nodes to what is left of them when some directives are taken
out, at any depth.  If those have nothing to do with the alignment of cells, what is in
force behind the nodes and behind what is left of them agrees on the alignment
(`sameAlignment_foldl_events`), and so a walk through both stays in agreement
(`Threads.sameAlignment_walk`).
-/

namespace Creole

/-- Nodes in a row, and what is left of them without some of the directives of which `p`
holds. -/
inductive Node.Without (p : Directive → Prop) : (nodes kept : List Node) → Prop
  | nil : Without p [] []
  | keep {kind : Kind} {children keptChildren nodes kept : List Node} :
      Without p children keptChildren → Without p nodes kept →
      Without p (.mk kind children :: nodes) (.mk kind keptChildren :: kept)
  | drop {directive : Directive} {below nodes kept : List Node} :
      p directive → Without p nodes kept →
      Without p (.mk (.directive directive) below :: nodes) kept

theorem Node.Without.refl (p : Directive → Prop) : (nodes : List Node) → Without p nodes nodes
  | [] => .nil
  | .mk _ children :: nodes => .keep (refl p children) (refl p nodes)

/-- A directive that does not set the alignment of cells. -/
def Directive.Other (directive : Directive) : Prop :=
  directive.name ≠ Directives.tableAlignmentName

/-! ## Agreement on the alignment -/

namespace Directives

/-- Two states agree on the alignment of cells. -/
def SameAlignment (state state' : Directives) : Prop :=
  state.args? tableAlignmentName = state'.args? tableAlignmentName

variable {state state' : Directives}

theorem SameAlignment.tableAlignment? (h : SameAlignment state state') :
    state.tableAlignment? = state'.tableAlignment? := by
  rw [Event.tableAlignment?_eq, h, Event.tableAlignment?_eq]

theorem SameAlignment.apply (h : SameAlignment state state') (event : Event) :
    SameAlignment (event.apply state) (event.apply state') := by
  cases event with
  | cell header => exact h
  | directive d =>
      unfold SameAlignment at h ⊢
      rw [Event.apply, Event.apply, args?_apply, args?_apply, h]

theorem SameAlignment.apply_other (h : SameAlignment state state') {directive : Directive}
    (hother : directive.Other) : SameAlignment (state.apply directive) state' := by
  unfold SameAlignment at h ⊢
  rw [args?_apply, if_neg (Ne.symm hother), h]

theorem SameAlignment.foldl (h : SameAlignment state state') (events : List Event) :
    SameAlignment (events.foldl Event.apply state) (events.foldl Event.apply state') := by
  induction events generalizing state state' with
  | nil => exact h
  | cons event events ih => exact ih (h.apply event)

end Directives

open Directives

theorem sameAlignment_foldl_events {nodes kept : List Node}
    (h : Node.Without Directive.Other nodes kept) {state state' : Directives}
    (hstate : SameAlignment state state') :
    SameAlignment ((nodes.flatMap Node.events).foldl Event.apply state)
      ((kept.flatMap Node.events).foldl Event.apply state') := by
  induction h generalizing state state' with
  | nil => exact hstate
  | @keep kind children keptChildren nodes kept _ _ ihchildren ih =>
      rw [List.flatMap_cons, List.flatMap_cons, List.foldl_append, List.foldl_append]
      refine ih ?_
      rw [Node.events_mk, Node.events_mk]
      cases kind with
      | directive d => exact hstate.foldl [.directive d]
      | cell header => exact ihchildren hstate
      | page | paragraph | heading level | blockquote | emphasis style | list ordered | listItem
      | table | row => exact ihchildren hstate
      | _ => exact hstate
  | @drop directive below nodes kept hother _ ih =>
      rw [List.flatMap_cons, Node.events_mk]
      exact ih (hstate.apply_other hother)

/-- Behind a node and behind what is left of it, a walk agrees on the alignment if it did
before. -/
theorem Visitor.Threads.sameAlignment_walk {α : Type} {v : Visitor α} (hv : v.Threads)
    {children kept : List Node} (h : Node.Without Directive.Other children kept) (kind : Kind)
    {state state' : Directives} (hstate : SameAlignment state state') :
    SameAlignment (v.walk (.mk kind children) state).2 (v.walk (.mk kind kept) state').2 := by
  have hrow : Node.Without Directive.Other [.mk kind children] [.mk kind kept] := .keep h .nil
  have hevents := sameAlignment_foldl_events hrow hstate
  rw [hv.walk_snd, hv.walk_snd]
  simpa using hevents

end Creole
