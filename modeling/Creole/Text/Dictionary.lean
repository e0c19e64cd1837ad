import Creole.Text.Basic

/-!
# Dictionaries

A dictionary maps texts to values.  Its entries are kept in the code point order
of their keys, which is the order in which settings are checked.  A key has one value:
inserting another replaces it.
-/

namespace Creole

/-- A finite map from texts, its entries in the order of their keys. -/
structure Dictionary (α : Type) where
  entries : List (Text × α) := []
  deriving DecidableEq, Repr

namespace Dictionary

variable {α β : Type}

/-- The dictionary without entries. -/
def empty : Dictionary α := {}

instance : Inhabited (Dictionary α) := ⟨empty⟩

/-- Puts an entry in its place among sorted entries, in place of one with its key. -/
def insertEntry (key : Text) (value : α) : List (Text × α) → List (Text × α)
  | [] => [(key, value)]
  | (k, v) :: rest =>
    if key = k then (key, value) :: rest
    else if key < k then (key, value) :: (k, v) :: rest
    else (k, v) :: insertEntry key value rest

/-- The dictionary in which `key` has the given value. -/
def insert (d : Dictionary α) (key : Text) (value : α) : Dictionary α :=
  ⟨insertEntry key value d.entries⟩

/-- The dictionary of a list of entries; of two with the same key the later counts. -/
def ofList (entries : List (Text × α)) : Dictionary α :=
  entries.foldl (fun d (key, value) => d.insert key value) empty

/-- The value at a key. -/
def get? (d : Dictionary α) (key : Text) : Option α := d.entries.lookup key

/-- Applies a function that may fail to every value, in the order of the keys;
the first failure counts. -/
def mapM {ε : Type} (f : Text → α → Except ε β) (d : Dictionary α) :
    Except ε (Dictionary β) := do
  let entries ← d.entries.mapM fun (key, value) => do
    let result ← f key value
    pure (key, result)
  pure ⟨entries⟩

end Dictionary

end Creole
