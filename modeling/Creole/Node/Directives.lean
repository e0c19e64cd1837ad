import Creole.Node.Basic

/-!
# Directives in force

A directive holds from where it stands to where another directive of its name
replaces it or switches it off.  `Directives` is what is in force at one point of
a document.  The main statement is `args?_apply`: a directive changes what is in
force under its own name only, and to its own arguments.
-/

namespace Creole

/-- The arguments of every option that is switched on. -/
structure Directives where
  args? : Text → Option (List Text)

/-- Why an option has no first argument. -/
inductive DirectiveError where
  | notEnabled (name : Text)
  | missingArgument (name : Text) (index : Nat)
  deriving DecidableEq, Repr

/-- The text of an error. -/
def DirectiveError.message : DirectiveError → Text
  | .notEnabled name => "directive '".toList ++ name ++ "' is not enabled".toList
  | .missingArgument name index =>
    "directive '".toList ++ name ++ "' has no argument at position ".toList ++ Text.ofNat index

namespace Directives

/-- Nothing is switched on at the start of a document. -/
def initial : Directives := ⟨fun _ => none⟩

instance : Inhabited Directives := ⟨initial⟩

/-- What is in force behind a directive. -/
def apply (state : Directives) (directive : Directive) : Directives :=
  ⟨fun name =>
    if name = directive.name then
      if directive.enabled then some directive.args else none
    else state.args? name⟩

/-- Whether an option is switched on. -/
def isEnabled (state : Directives) (name : Text) : Bool := (state.args? name).isSome

/-- The first argument of an option; an empty one counts as missing. -/
def firstArg (state : Directives) (name : Text) : Except DirectiveError Text :=
  match state.args? name with
  | none => .error (.notEnabled name)
  | some args =>
    match args.head?.filter (!·.isEmpty) with
    | some arg => .ok arg
    | none => .error (.missingArgument name 0)

/-- The option that sets the vertical alignment of table cells. -/
def tableAlignmentName : Text := "table-alignment".toList

/-- The vertical alignment in force, if it can be read. -/
def tableAlignment? (state : Directives) : Option Text :=
  match state.firstArg tableAlignmentName with
  | .ok value => some value
  | .error _ => none

theorem args?_apply (state : Directives) (directive : Directive) (name : Text) :
    (state.apply directive).args? name =
      if name = directive.name then
        if directive.enabled then some directive.args else none
      else state.args? name := rfl

end Directives

end Creole
