import Creole.Settings.Environment
import Creole.Proofs.Text.Replace

/-!
# References to variables

A value falls into references in braces and characters that stand for themselves (`parts`).  It
is expanded faithfully if, in every environment, each reference is replaced by what it stands for
and every other character is kept (`Faithful`).

A value without any `$` before an opening brace is kept as it is.  In all others, a `$` is read
outside references as well: before a name, it takes the name for that of a variable, and before
another `$`, it swallows it.  So a value is expanded faithfully just if it holds no `$` before an
opening brace, or no such `$` outside its references (`faithful_iff_not_mixed`).

## Strategy

What follows a `$` decides how the expansion reads it (`dollar_cases`), and there is one equation
for each case.  Without a bare `$`, they are those of `substitute`.  With one, the two results
differ where every variable is set to a text that begins without a `$`: at a name at once, and
behind two `$` because the expansion has fewer of them left (`ne_substitute_replicate`).
-/

namespace Creole.Environment

open List Text

/-! ## References -/

/-- A part of a value. -/
inductive Part where
  /-- A character that stands for itself. -/
  | char (c : Char)
  /-- A reference to a variable, with the text that is used if it is not set. -/
  | reference (name : Text) (default : Option Text)
  deriving DecidableEq

namespace Part

/-- How a part is written. -/
def written : Part → Text
  | char c => [c]
  | reference name none => "$\x7b".toList ++ name ++ "\x7d".toList
  | reference name (some default) =>
    "$\x7b".toList ++ name ++ ":-".toList ++ default ++ "\x7d".toList

/-- What a part stands for; the error is the name of the variable. -/
def value (env : Environment) : Part → Except Text Text
  | char c => .ok [c]
  | reference name default =>
    match env name <|> default with
    | some value => .ok value
    | none => .error name

end Part

/-- The reference that a text begins with, and what follows it.  Its braces end at the first
one that closes; a default follows the first `:-`, unless that stands in place of a name. -/
def reference? (s : Text) : Option (Part × Text) := do
  let opened ← after? "$\x7b".toList s
  let (inside, behind) ← cut? "\x7d".toList opened
  match cut? ":-".toList inside with
  | some (c :: name, default) => some (.reference (c :: name) (some default), behind)
  | _ => some (.reference inside none, behind)

theorem eq_of_reference? {s behind : Text} {part : Part} (h : reference? s = some (part, behind)) :
    part.written ++ behind = s := by
  simp only [reference?, Option.bind_eq_bind, Option.bind_eq_some_iff] at h
  obtain ⟨opened, hopened, ⟨inside, rest⟩, hinside, h⟩ := h
  rw [after?_eq_some_iff.mp hopened, eq_of_cut? hinside]
  simp only at h
  split at h
  · next c name default hdefault =>
    obtain ⟨rfl, rfl⟩ : _ = part ∧ rest = behind := by simpa using h
    rw [eq_of_cut? hdefault]
    simp [Part.written]
  · obtain ⟨rfl, rfl⟩ : _ = part ∧ rest = behind := by simpa using h
    simp [Part.written]

theorem exists_eq_of_reference? {s behind : Text} {part : Part}
    (h : reference? s = some (part, behind)) : ∃ opened, s = '$' :: '\x7b' :: opened := by
  simp only [reference?, Option.bind_eq_bind, Option.bind_eq_some_iff] at h
  obtain ⟨opened, hopened, -⟩ := h
  exact ⟨opened, after?_eq_some_iff.mp hopened⟩

theorem reference?_eq_none {s : Text} (h : s.head? ≠ some '\x7b') :
    reference? ('$' :: s) = none := by
  cases href : reference? ('$' :: s) with
  | none => rfl
  | some found =>
      obtain ⟨opened, heq⟩ := exists_eq_of_reference? href
      rw [(cons.inj heq).2] at h
      exact absurd rfl h

theorem written_ne_nil (part : Part) : part.written ≠ [] := by
  rcases part with c | ⟨name, _ | default⟩ <;> simp [Part.written]

theorem length_lt_of_reference? {s behind : Text} {part : Part}
    (h : reference? s = some (part, behind)) : behind.length < s.length := by
  have hpos := length_pos_iff.mpr (written_ne_nil part)
  rw [← eq_of_reference? h, length_append]
  omega

/-- The parts of a value, from the left. -/
def parts (s : Text) : List Part :=
  match s with
  | [] => []
  | c :: rest =>
    match _ : reference? (c :: rest) with
    | some (part, behind) => part :: parts behind
    | none => .char c :: parts rest
termination_by s.length
decreasing_by
  · exact length_lt_of_reference? (by assumption)
  · simp

theorem parts_nil : parts [] = [] := by rw [parts]

theorem parts_of_reference? {s behind : Text} {part : Part}
    (h : reference? s = some (part, behind)) : parts s = part :: parts behind := by
  cases s with
  | nil => cases h
  | cons c s =>
      rw [parts]
      split
      · next part' behind' h' =>
        obtain ⟨rfl, rfl⟩ : part = part' ∧ behind = behind' := by simpa [h] using h'
        rfl
      · next hnone => rw [h] at hnone; cases hnone

theorem parts_cons {c : Char} {s : Text} (h : reference? (c :: s) = none) :
    parts (c :: s) = .char c :: parts s := by
  rw [parts]
  split
  · next h' => rw [h] at h'; cases h'
  · rfl

/-- Reading a value loses nothing of it. -/
theorem flatMap_written_parts (s : Text) : (parts s).flatMap Part.written = s := by
  fun_induction parts s with
  | case1 => rfl
  | case2 c rest part behind h ih => rw [flatMap_cons, ih, eq_of_reference? h]
  | case3 c rest h ih =>
      rw [flatMap_cons, ih]
      rfl

/-! ## What a value should be expanded to -/

/-- A value with each reference replaced by what it stands for, and all else as it is. -/
def substitute (env : Environment) (s : Text) : Except Text Text :=
  ((parts s).mapM (Part.value env)).map flatten

/-- In every environment, a value is expanded to the text with its references replaced, and
fails only where that does. -/
def Faithful (field value : Text) : Prop :=
  ∀ env : Environment,
    env.expand field value = (substitute env value).mapError (.variableNotSet field)

/-- Whether a `$` outside the references among some parts stands before another `$` or before a
name. -/
def Bare (parts : List Part) : Prop :=
  ∃ front behind, parts = front ++ .char '$' :: behind ∧
    ∃ c ∈ (behind.flatMap Part.written).head?, c = '$' ∨ isNameChar c = true

/-- A value is mixed if it holds a `$` before an opening brace, and a bare one elsewhere. -/
def Mixed (value : Text) : Prop := "$\x7b".toList <:+: value ∧ Bare (parts value)

section Substitute

variable {env : Environment} {s behind : Text} {part : Part} {c : Char}

theorem substitute_nil (env : Environment) : substitute env [] = .ok [] := by
  rw [substitute, parts_nil]
  rfl

theorem substitute_of_parts_cons (h : parts s = part :: parts behind) :
    substitute env s =
      (part.value env).bind fun value => (substitute env behind).map (value ++ ·) := by
  rw [substitute, h, mapM_cons, substitute]
  cases part.value env with
  | error name => rfl
  | ok value => cases (parts behind).mapM (Part.value env) <;> rfl

theorem substitute_cons (env : Environment) (h : reference? (c :: s) = none) :
    substitute env (c :: s) = (substitute env s).map (c :: ·) :=
  substitute_of_parts_cons (parts_cons h)

end Substitute

/-! ## How a `$` is read -/

/-- A `$` begins a reference, stands before another one, stands before a name, or stands for
itself. -/
theorem dollar_cases (s : Text) :
    (∃ part behind, reference? ('$' :: s) = some (part, behind)) ∨
      (∃ more, s = '$' :: more) ∨
      (∃ c more, s = c :: more ∧ isNameChar c = true) ∨
      reference? ('$' :: s) = none ∧ ∀ c ∈ s.head?, c ≠ '$' ∧ isNameChar c = false := by
  cases href : reference? ('$' :: s) with
  | some found => exact Or.inl ⟨found.1, found.2, rfl⟩
  | none =>
      cases s with
      | nil => exact Or.inr (Or.inr (Or.inr ⟨rfl, by simp⟩))
      | cons c more =>
          by_cases hdollar : c = '$'
          · exact Or.inr (Or.inl ⟨more, by rw [hdollar]⟩)
          · by_cases hname : isNameChar c = true
            · exact Or.inr (Or.inr (Or.inl ⟨c, more, rfl, hname⟩))
            · refine Or.inr (Or.inr (Or.inr ⟨rfl, ?_⟩))
              simpa [hdollar] using hname

section ReplaceReferences

variable {env : Environment} {s behind : Text} {c : Char} {value name : Text}

theorem replaceReferences_nil (env : Environment) : env.replaceReferences [] = .ok [] := by
  rw [replaceReferences]

theorem replaceReferences_cons (env : Environment) (hc : c ≠ '$') (s : Text) :
    env.replaceReferences (c :: s) = (env.replaceReferences s).map (c :: ·) := by
  rw [replaceReferences, if_neg hc]

theorem replaceReferences_of_reference (env : Environment) (s : Text) :
    env.replaceReferences ('$' :: s) =
      (env.reference s).bind fun (value, behind) =>
        (env.replaceReferences behind).map (value ++ ·) := by
  rw [replaceReferences, if_pos rfl]
  split
  · next value behind h => rw [h]; rfl
  · next name h => rw [h]; rfl

/-- In braces, the expansion reads what `reference?` reads. -/
theorem reference_of_reference? {part : Part} (h : reference? ('$' :: s) = some (part, behind)) :
    env.reference s = (part.value env).map (·, behind) := by
  simp only [reference?, Option.bind_eq_bind, Option.bind_eq_some_iff] at h
  obtain ⟨opened, hopened, ⟨inside, rest⟩, hinside, h⟩ := h
  obtain rfl : s = '\x7b' :: opened := by simpa using after?_eq_some_iff.mp hopened
  have hclose : cut? ['\x7d'] opened = some (inside, rest) := hinside
  simp only [reference, hclose, splitDefault]
  cases hdefault : cut? ":-".toList inside with
  | none =>
      rw [hdefault] at h
      obtain ⟨rfl, rfl⟩ : .reference inside none = part ∧ rest = behind := by simpa using h
      simp only [Part.value, lookup]
      cases env inside <;> rfl
  | some parts =>
      obtain ⟨name, default⟩ := parts
      rw [hdefault] at h
      cases name with
      | nil =>
          obtain ⟨rfl, rfl⟩ : .reference inside none = part ∧ rest = behind := by simpa using h
          simp only [Part.value, lookup, isEmpty_nil, if_true]
          cases env inside <;> rfl
      | cons c name =>
          obtain ⟨rfl, rfl⟩ : .reference (c :: name) (some default) = part ∧ rest = behind := by
            simpa using h
          simp only [Part.value, lookup, isEmpty_cons, Bool.false_eq_true, if_false]
          cases env (c :: name) <;> rfl

theorem replaceReferences_of_reference? (env : Environment) {part : Part}
    (h : reference? ('$' :: s) = some (part, behind)) :
    env.replaceReferences ('$' :: s) =
      (part.value env).bind fun value => (env.replaceReferences behind).map (value ++ ·) := by
  rw [replaceReferences_of_reference, reference_of_reference? h]
  cases part.value env <;> rfl

theorem replaceReferences_dollar (env : Environment) (s : Text) :
    env.replaceReferences ('$' :: '$' :: s) = (env.replaceReferences s).map ('$' :: ·) := by
  rw [replaceReferences_of_reference]
  rfl

theorem brace_not_isNameChar : isNameChar '\x7b' = false := by decide +kernel

theorem dollar_not_isNameChar : isNameChar '$' = false := by decide +kernel

theorem replaceReferences_name (env : Environment) (hc : isNameChar c = true) (s : Text) :
    env.replaceReferences ('$' :: c :: s) =
      (env.lookup ((c :: s).takeWhile isNameChar) none).bind fun value =>
        (env.replaceReferences ((c :: s).dropWhile isNameChar)).map (value ++ ·) := by
  have hbrace : c ≠ '\x7b' := by
    rintro rfl
    simp [brace_not_isNameChar] at hc
  have hdollar : c ≠ '$' := by
    rintro rfl
    simp [dollar_not_isNameChar] at hc
  have hname : ((c :: s).takeWhile isNameChar).isEmpty = false := by
    simp [takeWhile_cons_of_pos hc]
  have hbehind : (c :: s).drop ((c :: s).takeWhile isNameChar).length =
      (c :: s).dropWhile isNameChar := by
    calc (c :: s).drop ((c :: s).takeWhile isNameChar).length
        = ((c :: s).takeWhile isNameChar ++ (c :: s).dropWhile isNameChar).drop
            ((c :: s).takeWhile isNameChar).length := by rw [takeWhile_append_dropWhile]
      _ = (c :: s).dropWhile isNameChar := drop_left
  rw [replaceReferences_of_reference, reference]
  · simp only [hname, hbehind, Bool.false_eq_true, if_false]
    cases env.lookup ((c :: s).takeWhile isNameChar) none <;> rfl
  · simpa using hbrace
  · simpa using hdollar

/-- An opening brace behind a `$` that begins no reference is never closed. -/
theorem cut?_of_reference? (h : reference? ('$' :: '\x7b' :: s) = none) :
    cut? ['\x7d'] s = none := by
  cases hcut : cut? ['\x7d'] s with
  | none => rfl
  | some parts =>
      have hopened : after? "$\x7b".toList ('$' :: '\x7b' :: s) = some s := after?_append _ _
      have hclose : cut? "\x7d".toList s = some parts := hcut
      simp only [reference?, hopened, hclose, Option.bind_eq_bind, Option.bind_some] at h
      split at h <;> cases h

/-- A `$` that begins nothing stands for itself. -/
theorem replaceReferences_plain (env : Environment) (href : reference? ('$' :: s) = none)
    (hs : ∀ c ∈ s.head?, c ≠ '$' ∧ isNameChar c = false) :
    env.replaceReferences ('$' :: s) = (env.replaceReferences s).map ('$' :: ·) := by
  cases s with
  | nil => 
      rw [replaceReferences_of_reference]
      rfl
  | cons c s =>
      obtain ⟨hdollar, hname⟩ := hs c rfl
      by_cases hbrace : c = '\x7b'
      · -- the brace is kept with the `$`, and nothing begins at it
        subst hbrace
        have hopen : cut? ['\x7d'] s = none := cut?_of_reference? href
        have hkept : env.reference ('\x7b' :: s) = .ok (['$', '\x7b'], s) := by
          rw [reference, hopen]
        rw [replaceReferences_of_reference, hkept, replaceReferences_cons env hdollar]
        show (env.replaceReferences s).map (['$', '\x7b'] ++ ·) = _
        cases env.replaceReferences s <;> rfl
      · have hname' : ((c :: s).takeWhile isNameChar).isEmpty = true := by simp [hname]
        rw [replaceReferences_of_reference, reference]
        · simp only [hname', if_true]
          rfl
        · simpa using hbrace
        · simpa using hdollar

end ReplaceReferences

/-! ## Without a bare `$` -/

theorem bare_cons_iff {ps : List Part} {part : Part} :
    Bare (part :: ps) ↔
      (part = .char '$' ∧ ∃ c ∈ (ps.flatMap Part.written).head?, c = '$' ∨ isNameChar c = true) ∨
        Bare ps := by
  constructor
  · rintro ⟨front, behind, heq, hbehind⟩
    cases front with
    | nil =>
        obtain ⟨rfl, rfl⟩ := cons.inj heq
        exact Or.inl ⟨rfl, hbehind⟩
    | cons first front =>
        obtain ⟨rfl, rfl⟩ := cons.inj heq
        exact Or.inr ⟨front, behind, rfl, hbehind⟩
  · rintro (⟨rfl, hbehind⟩ | ⟨front, behind, rfl, hbehind⟩)
    · exact ⟨[], ps, rfl, hbehind⟩
    · exact ⟨part :: front, behind, rfl, hbehind⟩

/-- A value without a bare `$` is expanded as it should be. -/
theorem replaceReferences_of_not_bare (env : Environment) {s : Text} (h : ¬ Bare (parts s)) :
    env.replaceReferences s = substitute env s := by
  fun_induction parts s with
  | case1 => rw [replaceReferences_nil, substitute_nil]
  | case2 c s part behind href ih =>
      obtain ⟨opened, heq⟩ := exists_eq_of_reference? href
      obtain ⟨rfl, rfl⟩ := cons.inj heq
      rw [replaceReferences_of_reference? env href,
        substitute_of_parts_cons (parts_of_reference? href),
        ih fun hbare => h (bare_cons_iff.mpr (Or.inr hbare))]
  | case3 c s href ih =>
      rw [substitute_cons env href, ← ih fun hbare => h (bare_cons_iff.mpr (Or.inr hbare))]
      by_cases hc : c = '$'
      · subst hc
        refine replaceReferences_plain env href fun d hd => ?_
        rw [bare_cons_iff, flatMap_written_parts] at h
        refine ⟨fun hdollar => h (Or.inl ⟨rfl, d, hd, Or.inl hdollar⟩), ?_⟩
        exact Bool.eq_false_iff.mpr fun hname => h (Or.inl ⟨rfl, d, hd, Or.inr hname⟩)
      · exact replaceReferences_cons env hc s

/-! ## With a bare `$` -/

/-- An environment in which every variable is set to the same text. -/
def uniform : Environment := fun _ => some ['x']

/-- There is a result, and it begins with a character. -/
def Begins (c : Char) (result : Except Text Text) : Prop := ∃ t, result = .ok (c :: t)

theorem Begins.unique {c d : Char} {result : Except Text Text} (hc : Begins c result)
    (hd : Begins d result) : c = d := by
  obtain ⟨t, rfl⟩ := hc
  obtain ⟨u, hu⟩ := hd
  exact (cons.inj (Except.ok.inj hu)).1

theorem begins_map_cons (c : Char) {result : Except Text Text} (h : ∃ t, result = .ok t) :
    Begins c (result.map (c :: ·)) := by
  obtain ⟨t, rfl⟩ := h
  exact ⟨t, rfl⟩

theorem map_cons_injective (c : Char) :
    Function.Injective (Except.map (c :: ·) : Except Text Text → Except Text Text) := by
  intro r r' h
  cases r <;> cases r' <;> cases h <;> rfl

theorem value_uniform {part : Part} {s behind : Text} (h : reference? s = some (part, behind)) :
    part.value uniform = .ok ['x'] := by
  simp only [reference?, Option.bind_eq_bind, Option.bind_eq_some_iff] at h
  obtain ⟨opened, -, ⟨inside, rest⟩, -, h⟩ := h
  simp only at h
  split at h <;> cases h <;> rfl

theorem replaceReferences_uniform_reference {s behind : Text} {part : Part}
    (h : reference? ('$' :: s) = some (part, behind)) :
    uniform.replaceReferences ('$' :: s) = (uniform.replaceReferences behind).map ('x' :: ·) := by
  rw [replaceReferences_of_reference? uniform h, value_uniform h]
  rfl

theorem replaceReferences_uniform_name {c : Char} (hc : isNameChar c = true) (s : Text) :
    uniform.replaceReferences ('$' :: c :: s) =
      (uniform.replaceReferences ((c :: s).dropWhile isNameChar)).map ('x' :: ·) := by
  rw [replaceReferences_name uniform hc]
  rfl

theorem exists_replaceReferences_uniform (s : Text) :
    ∃ t, uniform.replaceReferences s = .ok t := by
  induction hlength : s.length using Nat.strong_induction_on generalizing s with
  | _ n ih =>
      subst hlength
      have hmap {c : Char} {behind : Text} (hbehind : behind.length < s.length)
          (h : uniform.replaceReferences s = (uniform.replaceReferences behind).map (c :: ·)) :
          ∃ t, uniform.replaceReferences s = .ok t := by
        obtain ⟨t, ht⟩ := ih _ hbehind behind rfl
        rw [h, ht]
        exact ⟨c :: t, rfl⟩
      cases s with
      | nil => exact ⟨[], replaceReferences_nil uniform⟩
      | cons c s =>
          by_cases hc : c = '$'
          · subst hc
            rcases dollar_cases s with ⟨part, behind, href⟩ | ⟨more, rfl⟩ | ⟨d, more, rfl, hd⟩ |
              ⟨href, hplain⟩
            · exact hmap (length_lt_of_reference? href) (replaceReferences_uniform_reference href)
            · exact hmap (by simp only [length_cons]; omega) (replaceReferences_dollar uniform more)
            · refine hmap ?_ (replaceReferences_uniform_name hd more)
              exact Nat.lt_succ_of_le (dropWhile_sublist _).length_le
            · exact hmap (by simp) (replaceReferences_plain uniform href hplain)
          · exact hmap (by simp) (replaceReferences_cons uniform hc s)

/-- Where a variable stands, no `$` is left. -/
theorem not_begins_reference {s behind : Text} {part : Part}
    (h : reference? ('$' :: s) = some (part, behind)) :
    ¬ Begins '$' (uniform.replaceReferences ('$' :: s)) := by
  intro hkept
  rw [replaceReferences_uniform_reference h] at hkept
  have hvalue := begins_map_cons 'x' (exists_replaceReferences_uniform behind)
  exact absurd (hkept.unique hvalue) (by decide)

theorem not_begins_name {d : Char} (hd : isNameChar d = true) (s : Text) :
    ¬ Begins '$' (uniform.replaceReferences ('$' :: d :: s)) := by
  intro hkept
  rw [replaceReferences_uniform_name hd] at hkept
  have hvalue := begins_map_cons 'x'
    (exists_replaceReferences_uniform ((d :: s).dropWhile isNameChar))
  exact absurd (hkept.unique hvalue) (by decide)

theorem exists_substitute_uniform (s : Text) : ∃ t, substitute uniform s = .ok t := by
  fun_induction parts s with
  | case1 => exact ⟨[], substitute_nil uniform⟩
  | case2 c s part behind href ih =>
      obtain ⟨t, ht⟩ := ih
      rw [substitute_of_parts_cons (parts_of_reference? href), value_uniform href, ht]
      exact ⟨_, rfl⟩
  | case3 c s href ih =>
      obtain ⟨t, ht⟩ := ih
      rw [substitute_cons uniform href, ht]
      exact ⟨_, rfl⟩

/-- A text that does not begin with a `$` is not expanded to what it is with some in front. -/
theorem ne_of_begins {c : Char} {s : Text} {k : Nat} (hc : c ≠ '$')
    (h : uniform.replaceReferences (c :: s) =
      substitute uniform ('$' :: (replicate k '$' ++ c :: s))) : False := by
  have hfirst : Begins c (uniform.replaceReferences (c :: s)) := by
    rw [replaceReferences_cons uniform hc]
    exact begins_map_cons c (exists_replaceReferences_uniform s)
  rw [h] at hfirst
  cases href : reference? ('$' :: (replicate k '$' ++ c :: s)) with
  | none =>
      rw [substitute_cons uniform href] at hfirst
      exact hc (hfirst.unique (begins_map_cons '$' (exists_substitute_uniform _)))
  | some found =>
      -- the reference is written with a brace, and stands for a text without one
      obtain ⟨part, behind⟩ := found
      obtain ⟨opened, hbrace⟩ := exists_eq_of_reference? href
      have hvalue : Begins 'x' (substitute uniform ('$' :: (replicate k '$' ++ c :: s))) := by
        rw [substitute_of_parts_cons (parts_of_reference? href), value_uniform href]
        exact begins_map_cons 'x' (exists_substitute_uniform behind)
      obtain rfl := hfirst.unique hvalue
      cases k <;> simp [replicate_succ] at hbrace

/-- Behind two `$`, the expansion has fewer of them left than there are. -/
theorem ne_substitute_replicate (s : Text) (k : Nat) :
    uniform.replaceReferences s ≠ substitute uniform (replicate (k + 1) '$' ++ s) := by
  induction hlength : s.length using Nat.strong_induction_on generalizing s k with
  | _ n ih =>
      subst hlength
      intro h
      rw [replicate_succ, cons_append] at h
      cases s with
      | nil =>
          have href : reference? ('$' :: (replicate k '$' ++ [])) = none := by
            refine reference?_eq_none ?_
            cases k <;> simp [replicate_succ]
          rw [replaceReferences_nil, substitute_cons uniform href] at h
          obtain ⟨t, ht⟩ := exists_substitute_uniform (replicate k '$' ++ [])
          rw [ht] at h
          cases h
      | cons c s =>
          by_cases hc : c = '$'
          · subst hc
            have hmove (k : Nat) (t : Text) :
                replicate k '$' ++ '$' :: t = replicate (k + 1) '$' ++ t := by
              rw [replicate_succ', append_assoc, singleton_append]
            have href : reference? ('$' :: (replicate k '$' ++ '$' :: s)) = none := by
              refine reference?_eq_none ?_
              rw [hmove, replicate_succ]
              simp
            rw [substitute_cons uniform href, hmove] at h
            have hkept : Begins '$'
                ((substitute uniform (replicate (k + 1) '$' ++ s)).map ('$' :: ·)) :=
              begins_map_cons '$' (exists_substitute_uniform _)
            rw [← h] at hkept
            rcases dollar_cases s with ⟨part, behind, hfound⟩ | ⟨more, rfl⟩ | ⟨d, more, rfl, hd⟩ |
              ⟨hnone, hplain⟩
            · exact not_begins_reference hfound hkept
            · rw [replaceReferences_dollar, hmove] at h
              have hshorter : more.length < ('$' :: '$' :: more).length := by
                simp only [length_cons]
                omega
              exact ih more.length hshorter more (k + 1) rfl (map_cons_injective '$' h)
            · exact not_begins_name hd more hkept
            · rw [replaceReferences_plain uniform hnone hplain] at h
              exact ih s.length (by simp) s k rfl (map_cons_injective '$' h)
          · exact ne_of_begins hc h

/-- A value with a bare `$` is not expanded as it should be. -/
theorem replaceReferences_of_bare {s : Text} (h : Bare (parts s)) :
    uniform.replaceReferences s ≠ substitute uniform s := by
  fun_induction parts s with
  | case1 =>
      obtain ⟨front, behind, heq, -⟩ := h
      simp at heq
  | case2 c s part behind href ih =>
      obtain ⟨opened, heq⟩ := exists_eq_of_reference? href
      obtain ⟨rfl, rfl⟩ := cons.inj heq
      rw [replaceReferences_uniform_reference href,
        substitute_of_parts_cons (parts_of_reference? href), value_uniform href]
      rcases bare_cons_iff.mp h with ⟨rfl, -⟩ | hbehind
      · cases value_uniform href
      · exact fun heq => ih hbehind (map_cons_injective 'x' heq)
  | case3 c s href ih =>
      rw [substitute_cons uniform href]
      rw [bare_cons_iff, flatMap_written_parts] at h
      by_cases hc : c = '$'
      · subst hc
        have hkept : Begins '$' ((substitute uniform s).map ('$' :: ·)) :=
          begins_map_cons '$' (exists_substitute_uniform s)
        intro heq
        rcases dollar_cases s with ⟨part, behind, hfound⟩ | ⟨more, rfl⟩ | ⟨d, more, rfl, hd⟩ |
          ⟨hnone, hplain⟩
        · rw [href] at hfound
          cases hfound
        · rw [replaceReferences_dollar] at heq
          exact ne_substitute_replicate more 0 (map_cons_injective '$' heq)
        · rw [← heq] at hkept
          exact not_begins_name hd more hkept
        · rw [replaceReferences_plain uniform hnone hplain] at heq
          rcases h with ⟨-, d, hd, hbare⟩ | hbehind
          · obtain ⟨hdollar, hname⟩ := hplain d hd
            simp [hdollar, hname] at hbare
          · exact ih hbehind (map_cons_injective '$' heq)
      · rcases h with ⟨hdollar, -⟩ | hbehind
        · exact absurd (Part.char.inj hdollar) hc
        · rw [replaceReferences_cons uniform hc]
          exact fun heq => ih hbehind (map_cons_injective c heq)

/-! ## Values -/

/-- A value without a `$` before an opening brace holds no reference. -/
theorem substitute_of_not_isInfix (env : Environment) {value : Text}
    (h : ¬ "$\x7b".toList <:+: value) : substitute env value = .ok value := by
  induction value with
  | nil => exact substitute_nil env
  | cons c s ih =>
      have href : reference? (c :: s) = none := by
        cases hfound : reference? (c :: s) with
        | none => rfl
        | some found =>
            obtain ⟨opened, hopened⟩ := exists_eq_of_reference? hfound
            exact absurd ⟨[], opened, by simpa using hopened.symm⟩ h
      rw [substitute_cons env href, ih fun hin => h (hin.trans (suffix_cons c s).isInfix)]
      rfl

/-- Every value is expanded faithfully but those in which a bare `$` stands beside a `$` before
an opening brace. -/
theorem faithful_iff_not_mixed (field value : Text) : Faithful field value ↔ ¬ Mixed value := by
  by_cases hmark : "$\x7b".toList <:+: value
  · have hincludes : includes ['$', '\x7b'] value = true := includes_iff.mpr hmark
    have hexpand (env : Environment) : env.expand field value =
        (env.replaceReferences value).mapError (.variableNotSet field) := by
      rw [expand, if_pos hincludes]
      cases env.replaceReferences value <;> rfl
    constructor
    · rintro hfaithful ⟨-, hbare⟩
      have heq := hfaithful uniform
      rw [hexpand] at heq
      obtain ⟨t, ht⟩ := exists_replaceReferences_uniform value
      obtain ⟨u, hu⟩ := exists_substitute_uniform value
      refine replaceReferences_of_bare hbare ?_
      rw [ht, hu] at heq ⊢
      exact congrArg _ (Except.ok.inj heq)
    · intro hmixed env
      rw [hexpand, replaceReferences_of_not_bare env fun hbare => hmixed ⟨hmark, hbare⟩]
  · have hincludes : includes ['$', '\x7b'] value = false :=
      Bool.eq_false_iff.mpr fun h => hmark (includes_iff.mp h)
    refine iff_of_true (fun env => ?_) fun hmixed => hmark hmixed.1
    rw [expand, hincludes, substitute_of_not_isInfix env hmark]
    rfl

/-- The variables of a host and of a user. -/
def sampleVariables : Environment := fun name =>
  [("HOST".toList, "http://h".toList), ("user".toList, "root".toList)].lookup name

/-- Beside a reference, a name behind a `$` is replaced too, or refused if no variable has it. -/
theorem not_faithful_bareName :
    ¬ Faithful "links.base_url".toList "$\x7bHOST\x7d/$user".toList ∧
      sampleVariables.expand "links.base_url".toList "$\x7bHOST\x7d/$user".toList =
        .ok "http://h/root".toList ∧
      substitute sampleVariables "$\x7bHOST\x7d/$user".toList = .ok "http://h/$user".toList := by
  have hexpand : sampleVariables.expand "links.base_url".toList "$\x7bHOST\x7d/$user".toList =
      .ok "http://h/root".toList := by decide +kernel
  have hsubstitute : substitute sampleVariables "$\x7bHOST\x7d/$user".toList =
      .ok "http://h/$user".toList := by decide +kernel
  refine ⟨fun hfaithful => ?_, hexpand, hsubstitute⟩
  have heq := hfaithful sampleVariables
  rw [hexpand, hsubstitute] at heq
  exact absurd (Except.ok.inj heq) (by decide)

end Creole.Environment
