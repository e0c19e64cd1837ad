import Creole.Block.Parse
import Creole.Text.Quoted

/-!
# Macros

A macro answers an invocation with nodes, with markup or with text.  Macros are
kept in a list, the first that recognizes an invocation answering it.
-/

namespace Creole

/-- Why a macro gives no answer. -/
inductive MacroError where
  | invalidArguments (name message : Text)
  | failed (name message : Text)
  deriving DecidableEq, Repr

/-- The text of an error. -/
def MacroError.message : MacroError → Text
  | .invalidArguments name message =>
    "invalid arguments for macro '".toList ++ name ++ "': ".toList ++ message
  | .failed name message => "macro '".toList ++ name ++ "' failed: ".toList ++ message

/-- What an invocation becomes. -/
inductive MacroOutput where
  /-- The given nodes. -/
  | nodes (nodes : List Node)
  /-- What the markup reads as: blocks for a block, else inline nodes. -/
  | markup (s : Text)
  /-- HTML, written as it is. -/
  | html (s : Text)
  /-- Text, escaped where it is written. -/
  | text (s : Text)
  deriving DecidableEq, Repr

/-- A named extension of the markup. -/
structure Macro where
  name : Text
  /-- Whether the macro answers an invocation. -/
  recognizes : Invocation → Bool
  /-- The answer, on a page and with arguments. -/
  output : PageRef → (args : Text) → Except MacroError MacroOutput

/-- The macro that answers the invocations of its name. -/
def Macro.named (name : Text) (output : PageRef → Text → Except MacroError MacroOutput) : Macro :=
  { name, recognizes := fun call => call.name = name, output }

/-- The nodes that an output stands for. -/
def MacroOutput.toNodes (page : PageRef) (block : Bool) : MacroOutput → List Node
  | nodes given => given
  | markup s => if block then Block.parse page s else Inline.parse page s
  | html s => [.raw s]
  | text s => [.text s]

/-- Macros in the order in which they are asked. -/
abbrev Registry := List Macro

namespace Registry

/-- The first macro that recognizes an invocation. -/
def find? (registry : Registry) (call : Invocation) : Option Macro :=
  List.find? (·.recognizes call) registry

/-- The nodes that replace an invocation on a page.  One that no macro recognizes,
or whose macro fails, is not replaced. -/
def replacement? (registry : Registry) (page : PageRef) (call : Invocation) : Option (List Node) :=
  match registry.find? call with
  | some found =>
    match found.output page call.args with
    | .ok output => some (output.toNodes page call.block)
    | .error _ => none
  | none => none

/-- The names of the macros, quoted, in brackets. -/
def display (registry : Registry) : Text :=
  '[' :: List.intercalate ", ".toList (registry.map (Text.quote ·.name)) ++ [']']

end Registry

end Creole
