import Creole.Text.Blank
import Creole.Text.Dictionary

/-!
# Settings

The settings of a wiki, their defaults, and what can be wrong with them.
`Settings.check` finds the first of the rules that settings break, in a fixed
order; foreign wikis are checked in the order of their names.
-/

namespace Creole

/-- Settings for all output. -/
structure RenderSettings where
  /-- The class that marks HTML elements. -/
  cssClass : Text := "wiki-content".toList
  /-- How many macro answers may be nested inside one another. -/
  maxMacroDepth : Nat := 10
  deriving DecidableEq, Repr

/-- Settings for links. -/
structure LinkSettings where
  /-- What the URLs of local pages begin with. -/
  baseUrl : Text := "/pages".toList
  /-- The name under which the local wiki may be addressed. -/
  localWiki : Option Text := none
  /-- The URL templates of foreign wikis. -/
  interwiki : Dictionary Text := .empty
  deriving DecidableEq, Repr

/-- Settings for Docbook output. -/
structure DocbookSettings where
  indent : Nat := 2
  language : Text := "en".toList
  deriving DecidableEq, Repr

/-- The settings of a wiki. -/
structure Settings where
  render : RenderSettings := {}
  links : LinkSettings := {}
  docbook : DocbookSettings := {}
  deriving DecidableEq, Repr

instance : Inhabited Settings := ⟨{}⟩

/-- A rule that settings break. -/
inductive SettingsProblem where
  | empty (field : Text)
  | macroDepthOutOfRange
  | notHttp (field : Text)
  | noPlaceholder (field : Text)
  | indentTooLarge
  deriving DecidableEq, Repr

/-- Why there are no settings. -/
inductive SettingsError where
  /-- The settings are not written as they should be. -/
  | unreadable
  /-- A file could not be read. -/
  | inaccessible
  | notFound (path : Text)
  | invalid (problem : SettingsProblem)
  /-- A field refers to a variable that is not set. -/
  | variableNotSet (field name : Text)
  deriving DecidableEq, Repr

namespace Settings

/-- What stands for the page in the URL template of a foreign wiki. -/
def placeholder : Text := "%s".toList

/-- The largest macro depth. -/
def macroDepthLimit : Nat := 100

/-- The largest indentation. -/
def indentLimit : Nat := 8

/-- The field of a foreign wiki. -/
def interwikiField (name : Text) : Text := "links.interwiki.".toList ++ name

end Settings

/-- The text of a problem. -/
def SettingsProblem.message : SettingsProblem → Text
  | .empty field => field ++ " cannot be empty".toList
  | .macroDepthOutOfRange =>
    "render.max_macro_depth must be between 1 and ".toList ++ Text.ofNat Settings.macroDepthLimit
  | .notHttp field => field ++ " must start with http:// or https://".toList
  | .noPlaceholder field => field ++ " must contain ".toList ++ Settings.placeholder
  | .indentTooLarge => "docbook.indent cannot exceed ".toList ++ Text.ofNat Settings.indentLimit

/-- The text of an error, if the cause is one that the library words itself. -/
def SettingsError.message? : SettingsError → Option Text
  | .unreadable | .inaccessible => none
  | .notFound path => some ("Configuration file not found: ".toList ++ path)
  | .invalid problem => some ("Configuration error: ".toList ++ problem.message)
  | .variableNotSet field name =>
    some ("Environment variable error in ".toList ++ field ++ ": $\x7b".toList ++ name ++
      "\x7d not set".toList)

namespace Settings

/-! ## Rules -/

/-- Requires a condition. -/
def require (condition : Bool) (problem : SettingsProblem) : Except SettingsProblem Unit :=
  if condition then .ok () else .error problem

/-- Whether a URL is one of the web. -/
def isHttp (url : Text) : Bool :=
  Text.opens "http://".toList url || Text.opens "https://".toList url

/-- The rules for the URL template of a foreign wiki. -/
def checkTemplate (name template : Text) : Except SettingsProblem Unit := do
  require (isHttp template) (.notHttp (interwikiField name))
  require (Text.includes placeholder template) (.noPlaceholder (interwikiField name))

/-- All rules, in the order in which they are checked. -/
def check (s : Settings) : Except SettingsProblem Unit := do
  require (!s.render.cssClass.isEmpty) (.empty "render.css_class".toList)
  require (1 ≤ s.render.maxMacroDepth && s.render.maxMacroDepth ≤ macroDepthLimit)
    .macroDepthOutOfRange
  require (!s.links.baseUrl.isEmpty) (.empty "links.base_url".toList)
  require (s.links.localWiki ≠ some []) (.empty "links.local_wiki".toList)
  s.links.interwiki.entries.forM fun (name, template) => checkTemplate name template
  require (!s.docbook.language.isEmpty) (.empty "docbook.lang".toList)
  require (s.docbook.indent ≤ indentLimit) .indentTooLarge

end Settings

end Creole
