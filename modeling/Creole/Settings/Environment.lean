import Creole.Settings.Basic
import Creole.Text.Alphanumeric

/-!
# Variables in settings

URLs may refer to variables of the environment.  A text is expanded only if it holds
`$` before an opening brace anywhere; then

* a name in braces, with or without a default behind `:-`, stands for the variable of
  that name, and for the default if there is no such variable;
* a name without braces stands for the variable of that name;
* two dollar signs are one, and any other dollar sign stands for itself.

What is inserted is not expanded again.
-/

namespace Creole

/-- The variables that are set. -/
abbrev Environment := Text → Option Text

namespace Environment

/-- Whether a character may stand in the name of a variable without braces. -/
def isNameChar (c : Char) : Bool := c == '_' || isAlphanumeric c

/-- The name and the default of a reference, given what its braces enclose.  A
default is one only behind a name. -/
def splitDefault (inside : Text) : Text × Option Text :=
  match Text.cut? ":-".toList inside with
  | some (name, value) => if name.isEmpty then (inside, none) else (name, some value)
  | none => (inside, none)

/-- What a reference stands for; the error is the name of the variable. -/
def lookup (env : Environment) (name : Text) (default : Option Text) : Except Text Text :=
  match env name with
  | some value => .ok value
  | none =>
    match default with
    | some value => .ok value
    | none => .error name

/-- What the dollar sign before a text stands for, and the text behind it. -/
def reference (env : Environment) (s : Text) : Except Text (Text × Text) :=
  match s with
  | '\x7b' :: rest =>
    match Text.cut? ['\x7d'] rest with
    | some (inside, behind) =>
      let (name, default) := splitDefault inside
      (env.lookup name default).map (·, behind)
    | none => .ok (['$', '\x7b'], rest)
  | '$' :: rest => .ok (['$'], rest)
  | s =>
    let name := s.takeWhile isNameChar
    if name.isEmpty then .ok (['$'], s)
    else (env.lookup name none).map (·, s.drop name.length)

theorem length_reference_le {env : Environment} {s value rest : Text}
    (h : env.reference s = .ok (value, rest)) : rest.length ≤ s.length := by
  unfold reference at h
  split at h
  · split at h
    · next inner inside behind hcut =>
      have hlength := Text.length_of_cut? hcut
      simp only at h
      cases hlookup : env.lookup (splitDefault inside).1 (splitDefault inside).2 with
      | error name => simp [hlookup, Except.map] at h
      | ok found =>
        simp only [hlookup, Except.map, Except.ok.injEq, Prod.mk.injEq] at h
        rw [← h.2, List.length_cons]
        omega
    · simp only [Except.ok.injEq, Prod.mk.injEq] at h
      simp [← h.2]
  · simp only [Except.ok.injEq, Prod.mk.injEq] at h
    simp [← h.2]
  · simp only at h
    split at h
    · simp only [Except.ok.injEq, Prod.mk.injEq] at h
      simp [← h.2]
    · cases hlookup : env.lookup (s.takeWhile isNameChar) none with
      | error name => simp [hlookup, Except.map] at h
      | ok found =>
        simp only [hlookup, Except.map, Except.ok.injEq, Prod.mk.injEq] at h
        rw [← h.2, List.length_drop]
        omega

/-- A text with every reference replaced; the error is the name of the first variable
that is not set. -/
def replaceReferences (env : Environment) (s : Text) : Except Text Text :=
  match s with
  | [] => .ok []
  | c :: rest =>
    if c = '$' then
      match _ : env.reference rest with
      | .ok (value, behind) => (env.replaceReferences behind).map (value ++ ·)
      | .error name => .error name
    else (env.replaceReferences rest).map (c :: ·)
termination_by s.length
decreasing_by
  · exact Nat.lt_succ_of_le (length_reference_le ‹_›)
  · simp

/-- The expanded value of a field. -/
def expand (env : Environment) (field value : Text) : Except SettingsError Text :=
  if Text.includes ['$', '\x7b'] value then
    match env.replaceReferences value with
    | .ok expanded => .ok expanded
    | .error name => .error (.variableNotSet field name)
  else .ok value

end Environment

/-- The settings with the variables in their URLs expanded: first the base URL, then
the templates of foreign wikis in the order of their names. -/
def Settings.expand (env : Environment) (s : Settings) : Except SettingsError Settings := do
  let baseUrl ← env.expand "links.base_url".toList s.links.baseUrl
  let interwiki ← s.links.interwiki.mapM fun name template =>
    env.expand (interwikiField name) template
  pure { s with links := { s.links with baseUrl, interwiki } }

end Creole
