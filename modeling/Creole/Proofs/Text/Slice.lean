import Creole.Proofs.Text.Cut

/-!
# Slices

A scanner that goes by offsets counts the bytes of a text in UTF-8, and takes parts of the text
between two of its offsets.  Such a slice can be taken only if the first offset is not behind the
second, the second is not behind the text, and a character begins or the text ends at both.  Any
other slice is a fault, and so is a loop that does not end (`Fault`).

A slice that can be taken is the part of the text between what the offsets count
(`slice_eq_ok_iff`).
-/

namespace Creole

/-- What a scanner by offsets must not run into. -/
inductive Fault where
  /-- A slice whose ends are out of order, out of bounds or within a character. -/
  | slice
  /-- A loop that has not ended after as many steps as it was given. -/
  | steps
  deriving DecidableEq

/-- What a scanner by offsets gives, unless it runs into a fault. -/
abbrev Sliced := Except Fault

@[simp] theorem Sliced.ok_bind {α β : Type} (a : α) (f : α → Sliced β) :
    ((.ok a : Sliced α) >>= f) = f a := rfl

@[simp] theorem Sliced.pure_eq {α : Type} (a : α) : (pure a : Sliced α) = .ok a := rfl

namespace Text

/-- The number of bytes of a text. -/
def size : Text → Nat
  | [] => 0
  | c :: s => c.utf8Size + size s

/-- The text behind an offset. -/
def behind : (s : Text) → (offset : Nat) → Sliced Text
  | s, 0 => .ok s
  | [], _ + 1 => .error .slice
  | c :: s, n + 1 => if c.utf8Size ≤ n + 1 then behind s (n + 1 - c.utf8Size) else .error .slice

/-- The text up to an offset. -/
def upTo : (s : Text) → (offset : Nat) → Sliced Text
  | _, 0 => .ok []
  | [], _ + 1 => .error .slice
  | c :: s, n + 1 =>
    if c.utf8Size ≤ n + 1 then (upTo s (n + 1 - c.utf8Size)).map (c :: ·) else .error .slice

/-- The text between two offsets. -/
def slice (s : Text) (start stop : Nat) : Sliced Text :=
  if start ≤ stop then (s.behind start).bind (·.upTo (stop - start)) else .error .slice

/-- The offset of the first occurrence of a mark. -/
def offset? (mark s : Text) : Option Nat := (cut? mark s).map fun (before, _) => size before

/-- The number of bytes of the character that a text begins with. -/
def headSize? (s : Text) : Option Nat := s.head?.map Char.utf8Size

/-- The number of bytes of a mark that a text begins with, of what it encloses, and of the mark
that closes it. -/
def closedSize? (opening closing s : Text) : Sliced (Option Nat) := do
  let inside ← s.behind (size opening)
  return (offset? closing inside).map (size opening + · + size closing)

/-! ### Sizes -/

@[simp] theorem size_nil : size [] = 0 := rfl

@[simp] theorem size_cons (c : Char) (s : Text) : size (c :: s) = c.utf8Size + size s := rfl

@[simp] theorem size_append (s t : Text) : size (s ++ t) = size s + size t := by
  induction s with
  | nil => rw [List.nil_append, size_nil, Nat.zero_add]
  | cons c s ih => rw [List.cons_append, size_cons, size_cons, ih, Nat.add_assoc]

theorem length_le_size (s : Text) : s.length ≤ size s := by
  induction s with
  | nil => exact Nat.le_refl _
  | cons c s ih =>
      have hpos := c.utf8Size_pos
      rw [size_cons, List.length_cons]
      omega

theorem size_pos {s : Text} (h : s ≠ []) : 0 < size s :=
  Nat.lt_of_lt_of_le (List.length_pos_iff.mpr h) (length_le_size s)

/-! ### Taking slices -/

theorem behind_cons (c : Char) (s : Text) (n : Nat) :
    behind (c :: s) (c.utf8Size + n) = s.behind n := by
  obtain ⟨k, hk⟩ := Nat.exists_eq_succ_of_ne_zero (Nat.ne_of_gt c.utf8Size_pos)
  have hoffset : c.utf8Size + n = k + n + 1 := by omega
  have hrest : k + n + 1 - c.utf8Size = n := by omega
  rw [hoffset, behind, if_pos (by omega), hrest]

theorem upTo_cons (c : Char) (s : Text) (n : Nat) :
    upTo (c :: s) (c.utf8Size + n) = (s.upTo n).map (c :: ·) := by
  obtain ⟨k, hk⟩ := Nat.exists_eq_succ_of_ne_zero (Nat.ne_of_gt c.utf8Size_pos)
  have hoffset : c.utf8Size + n = k + n + 1 := by omega
  have hrest : k + n + 1 - c.utf8Size = n := by omega
  rw [hoffset, upTo, if_pos (by omega), hrest]

@[simp] theorem behind_append (front rest : Text) :
    (front ++ rest).behind (size front) = .ok rest := by
  induction front with
  | nil => cases rest <;> rfl
  | cons c front ih => rw [List.cons_append, size_cons, behind_cons, ih]

@[simp] theorem upTo_append (part rest : Text) : (part ++ rest).upTo (size part) = .ok part := by
  induction part with
  | nil => cases rest <;> rfl
  | cons c part ih =>
      rw [List.cons_append, size_cons, upTo_cons, ih]
      rfl

theorem behind_eq_ok_iff {s rest : Text} {n : Nat} :
    s.behind n = .ok rest ↔ ∃ front, s = front ++ rest ∧ size front = n := by
  constructor
  · intro h
    fun_induction behind s n with
    | case1 s => exact ⟨[], by simpa using h, rfl⟩
    | case2 => cases h
    | case3 c s n hle ih =>
        obtain ⟨front, rfl, hfront⟩ := ih h
        exact ⟨c :: front, rfl, by rw [size_cons]; omega⟩
    | case4 => cases h
  · rintro ⟨front, rfl, rfl⟩
    exact behind_append front rest

theorem eq_of_upTo {s part : Text} {n : Nat} (h : s.upTo n = .ok part) :
    ∃ rest, s = part ++ rest ∧ size part = n := by
  fun_induction upTo s n generalizing part with
  | case1 s => exact ⟨s, by cases h; rfl, by cases h; rfl⟩
  | case2 => cases h
  | case3 c s n hle ih =>
      cases hupTo : upTo s (n + 1 - c.utf8Size) with
      | error fault => rw [hupTo] at h; cases h
      | ok part' =>
          rw [hupTo] at h
          obtain rfl := Except.ok.inj h
          obtain ⟨rest, rfl, hpart⟩ := ih hupTo
          exact ⟨rest, rfl, by rw [size_cons]; omega⟩
  | case4 => cases h

/-- A slice is what stands in a text between as many bytes as its ends count; where nothing does,
it is a fault. -/
theorem slice_eq_ok_iff {s part : Text} {start stop : Nat} :
    s.slice start stop = .ok part ↔
      ∃ front rest, s = front ++ (part ++ rest) ∧ size front = start ∧
        size front + size part = stop := by
  constructor
  · intro h
    unfold slice at h
    split at h
    · cases hbehind : s.behind start with
      | error fault => rw [hbehind] at h; cases h
      | ok s' =>
          rw [hbehind] at h
          obtain ⟨front, rfl, rfl⟩ := behind_eq_ok_iff.mp hbehind
          obtain ⟨rest, rfl, hpart⟩ := eq_of_upTo h
          exact ⟨front, rest, rfl, rfl, by omega⟩
    · cases h
  · rintro ⟨front, rest, rfl, rfl, rfl⟩
    have hle : size front ≤ size front + size part := Nat.le_add_right _ _
    rw [slice, if_pos hle, behind_append, Nat.add_sub_cancel_left]
    exact upTo_append part rest

theorem slice_append (front part rest : Text) :
    (front ++ (part ++ rest)).slice (size front) (size front + size part) = .ok part :=
  slice_eq_ok_iff.mpr ⟨front, rest, rfl, rfl, rfl⟩

theorem closedSize?_append (opening closing inside : Text) :
    closedSize? opening closing (opening ++ inside) =
      .ok ((offset? closing inside).map (size opening + · + size closing)) := by
  simp [closedSize?]

end Text
end Creole
