import Creole.Toml.Number

/-!
# TOML values

A document is a table of values.  Tables may be put together from several places
of a document; how a table came into being decides what may still be added to it.

`Value.isReadable` says that all numbers in a value have a value themselves, which
a document does not ensure.
-/

namespace Creole.Toml

/-- How a table came into being. -/
inductive Origin where
  /-- Written between braces; nothing may be added. -/
  | inline
  /-- Named by a header of its own. -/
  | header
  /-- Implied by the header of a table inside it. -/
  | implied
  /-- Made by a dotted key, or implied first and then added to by one. -/
  | dotted
  deriving DecidableEq, Repr

/-- A value.  Of numbers and of dates and times the written form is kept, in which
numbers have no underscores. -/
inductive Value where
  | string (s : Text)
  /-- A whole number: its sign, if it is written, and its digits in a base. -/
  | integer (base : Nat) (written : Text)
  | bool (b : Bool)
  | float (written : Text)
  | dateTime (written : Text)
  /-- An array; one that is made of tables with headers of their own is `extensible`. -/
  | array (elements : List Value) (extensible : Bool)
  | table (entries : List (Text × Value)) (origin : Origin)
  deriving Repr, Inhabited

/-- The keys of a table with their values, in the order of their first appearance. -/
abbrev Entries := List (Text × Value)

namespace Value

/-- The key under which a date or time stands where it is taken for a table. -/
def dateTimeKey : Text := "$__toml_private_datetime".toList

/-- The entries of a table.  A date or time counts as a table whose one entry is its
written form. -/
def entries? : Value → Option Entries
  | table entries _ => some entries
  | dateTime written => some [(dateTimeKey, string written)]
  | _ => none

/-- The number that a whole number writes, if what is written are digits of its base. -/
def int? : Value → Option Int
  | integer base written => wholeNumber? base written
  | _ => none

mutual

/-- Whether all numbers in a value can be read. -/
def isReadable : Value → Bool
  | integer base written => (wholeNumber? base written).any isReadableWhole
  | float written => isReadableFloat written
  | array elements _ => allReadable elements
  | table entries _ => entriesReadable entries
  | _ => true

/-- Whether all numbers in a row of values can be read. -/
def allReadable : List Value → Bool
  | [] => true
  | value :: values => isReadable value && allReadable values

/-- Whether all numbers in a row of entries can be read. -/
def entriesReadable : List (Text × Value) → Bool
  | [] => true
  | (_, value) :: entries => isReadable value && entriesReadable entries

end

end Value

namespace Entries

/-- The entries with another value at a key that they have. -/
def replace (key : Text) (value : Value) (entries : Entries) : Entries :=
  entries.map fun entry => if entry.1 = key then (key, value) else entry

/-- The entries with one more. -/
def add (key : Text) (value : Value) (entries : Entries) : Entries := entries ++ [(key, value)]

/-- The entries with a value at the end of a path of dotted keys, whose last key must
be new.  The tables on the path must not have headers of their own, and may not get
them later.  A path through an array of tables goes on inside the last of them. -/
def assign (value : Value) : (path : List Text) → (key : Text) → Entries → Option Entries
  | [], key, entries =>
    match entries.lookup key with
    | none => some (entries.add key value)
    | some _ => none
  | step :: path, key, entries =>
    match entries.lookup step with
    | none => (assign value path key []).map fun inner => entries.add step (.table inner .dotted)
    | some (.table inner origin) =>
      if origin = .dotted || origin = .implied then
        (assign value path key inner).map fun inner => entries.replace step (.table inner .dotted)
      else none
    | some (.array elements true) =>
      match elements.getLast? with
      | some (.table inner origin) =>
        if path.isEmpty then none
        else
          (assign value path key inner).map fun inner =>
            entries.replace step (.array (elements.dropLast ++ [.table inner origin]) true)
      | _ => none
    | some _ => none

/-- Changes the entries of the table at the end of a path.  A path through an array
of tables goes through the last of them. -/
def within (change : Entries → Option Entries) : (path : List Text) → Entries → Option Entries
  | [], entries => change entries
  | step :: path, entries =>
    match entries.lookup step with
    | some (.table inner origin) =>
      (within change path inner).map fun inner => entries.replace step (.table inner origin)
    | some (.array elements true) =>
      match elements.getLast? with
      | some (.table inner origin) =>
        (within change path inner).map fun inner =>
          entries.replace step (.array (elements.dropLast ++ [.table inner origin]) true)
      | _ => none
    | _ => none

/-- What a header makes of the value at its key: a new table, or one more table in
an array of them.  A table that was only implied may get its header once. -/
def underHeader (extensible : Bool) : Option Value → Option Value
  | none =>
    if extensible then some (.array [.table [] .header] true) else some (.table [] .header)
  | some (.table inner .implied) => if extensible then none else some (.table inner .header)
  | some (.array elements true) =>
    if extensible then some (.array (elements ++ [.table [] .header]) true) else none
  | some _ => none

/-- The entries with the table of a header at the end of a path. -/
def define (extensible : Bool) : (path : List Text) → (key : Text) → Entries → Option Entries
  | [], key, entries =>
    match entries.lookup key with
    | none => (underHeader extensible none).map fun value => entries.add key value
    | some old => (underHeader extensible (some old)).map fun value => entries.replace key value
  | step :: path, key, entries =>
    match entries.lookup step with
    | none =>
      (define extensible path key []).map fun inner => entries.add step (.table inner .implied)
    | some (.table inner origin) =>
      if origin = .inline then none
      else
        (define extensible path key inner).map fun inner =>
          entries.replace step (.table inner origin)
    | some (.array elements true) =>
      match elements.getLast? with
      | some (.table inner origin) =>
        (define extensible path key inner).map fun inner =>
          entries.replace step (.array (elements.dropLast ++ [.table inner origin]) true)
      | _ => none
    | some _ => none

end Entries

end Creole.Toml
