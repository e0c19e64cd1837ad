import Creole.Settings.Environment
import Creole.Toml.Document

/-!
# Written settings

Settings are written in TOML, in one table for each group.  What is not written has
its default.  What is unknown is ignored, but for numbers that are too large to be
read.  A group may also be written as an array of its fields in order.
-/

namespace Creole.Settings

open Toml

/-- A text field. -/
def text? : Value → Option Text
  | .string s => some s
  | _ => none

/-- A field that counts something, as far as 64 bits go. -/
def count? (value : Value) : Option Nat := do
  let n ← value.int?
  if 0 ≤ n && n < 18446744073709551616 then some n.toNat else none

/-- The texts of a table, by their keys. -/
def texts? (value : Value) : Option (Dictionary Text) := do
  let entries ← value.entries?
  let entries ← entries.mapM fun (key, value) => (text? value).map (key, ·)
  some (.ofList entries)

/-- The values of the fields with the given names.  Other entries are ignored, but
their numbers must be readable. -/
def known? (names : List Text) (entries : Entries) : Option (Text → Option Value) :=
  if entries.all fun (key, value) => names.contains key || value.isReadable then
    some fun name => entries.lookup name
  else none

/-- The values of the fields of a group, whose names are given in their order.  What
an array has behind the last field is ignored, whatever it is. -/
def fields? (names : List Text) : Value → Option (Text → Option Value)
  | .array elements _ => some fun name => (names.zip elements).lookup name
  | value => value.entries?.bind (known? names)

/-- The value of a field that is written, or its default. -/
def field {α : Type} (read : Value → Option α) (default : α) : Option Value → Option α
  | some value => read value
  | none => some default

/-- The settings for all output. -/
def readRender (value : Value) : Option RenderSettings := do
  let get ← fields? ["css_class".toList, "max_macro_depth".toList] value
  let cssClass ← field text? ({} : RenderSettings).cssClass (get "css_class".toList)
  let maxMacroDepth ←
    field count? ({} : RenderSettings).maxMacroDepth (get "max_macro_depth".toList)
  some { cssClass, maxMacroDepth }

/-- The settings for links. -/
def readLinks (value : Value) : Option LinkSettings := do
  let get ← fields? ["base_url".toList, "local_wiki".toList, "interwiki".toList] value
  let baseUrl ← field text? ({} : LinkSettings).baseUrl (get "base_url".toList)
  let localWiki ←
    field (fun value => (text? value).map some) ({} : LinkSettings).localWiki
      (get "local_wiki".toList)
  let interwiki ← field texts? ({} : LinkSettings).interwiki (get "interwiki".toList)
  some { baseUrl, localWiki, interwiki }

/-- The settings for Docbook output. -/
def readDocbook (value : Value) : Option DocbookSettings := do
  let get ← fields? ["indent".toList, "lang".toList] value
  let indent ← field count? ({} : DocbookSettings).indent (get "indent".toList)
  let language ← field text? ({} : DocbookSettings).language (get "lang".toList)
  some { indent, language }

/-- The settings that a document writes. -/
def ofEntries (entries : Entries) : Option Settings := do
  let get ← known? ["render".toList, "links".toList, "docbook".toList] entries
  let render ← field readRender {} (get "render".toList)
  let links ← field readLinks {} (get "links".toList)
  let docbook ← field readDocbook {} (get "docbook".toList)
  some { render, links, docbook }

/-- The settings of a written document: they are expanded and then checked. -/
def read (env : Environment) (document : Text) : Except SettingsError Settings :=
  match (read? document).bind ofEntries with
  | none => .error .unreadable
  | some written => do
    let expanded ← written.expand env
    match expanded.check with
    | .ok () => pure expanded
    | .error problem => .error (.invalid problem)

end Creole.Settings
