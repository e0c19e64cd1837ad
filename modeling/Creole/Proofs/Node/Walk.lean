import Creole.Node.Walk

/-!
# Walks whose outputs are appended

The output of children in document order is the output of the first in front of that
of the others (`inOrder_cons`), each child seeing the directives behind the one before
it (`inOrder_snd`).  So children in a row may be walked in two parts
(`inOrder_append`).
-/

namespace Creole.Walk

variable {α β : Type}

/-- What is in force behind children does not hang on how their outputs are joined. -/
theorem inOrder_snd (empty : α) (append : α → α → α) (children : List (Child α))
    (state : Directives) :
    (inOrder empty append children state).2 =
      children.foldl (fun state child => (child.walk state).2) state := by
  unfold inOrder
  generalize empty = out
  induction children generalizing out state with
  | nil => rfl
  | cons child children ih => exact ih _ _

/-- What has been put out before some children stays in front of what they put out. -/
theorem foldl_append (children : List (Child (List β))) (out : List β) (state : Directives) :
    children.foldl
        (fun (out, state) child =>
          let (next, state) := child.walk state
          (out ++ next, state))
        (out, state) =
      (out ++ (inOrder [] (· ++ ·) children state).1, (inOrder [] (· ++ ·) children state).2) := by
  induction children generalizing out state with
  | nil => simp [inOrder]
  | cons child children ih =>
      have hfirst : inOrder [] (· ++ ·) (child :: children) state = _ :=
        ih ([] ++ (child.walk state).1) (child.walk state).2
      rw [List.foldl_cons, ih, hfirst, List.nil_append, List.append_assoc]

theorem inOrder_cons (child : Child (List β)) (children : List (Child (List β)))
    (state : Directives) :
    inOrder [] (· ++ ·) (child :: children) state =
      ((child.walk state).1 ++ (inOrder [] (· ++ ·) children (child.walk state).2).1,
        (inOrder [] (· ++ ·) children (child.walk state).2).2) := by
  have hfirst : inOrder [] (· ++ ·) (child :: children) state = _ :=
    foldl_append children ([] ++ (child.walk state).1) (child.walk state).2
  rw [hfirst, List.nil_append]

theorem inOrder_append (children more : List (Child (List β))) (state : Directives) :
    inOrder [] (· ++ ·) (children ++ more) state =
      ((inOrder [] (· ++ ·) children state).1 ++
          (inOrder [] (· ++ ·) more (inOrder [] (· ++ ·) children state).2).1,
        (inOrder [] (· ++ ·) more (inOrder [] (· ++ ·) children state).2).2) := by
  induction children generalizing state with
  | nil => rfl
  | cons child children ih =>
      rw [List.cons_append, inOrder_cons, ih, inOrder_cons, List.append_assoc]

end Creole.Walk
