import Creole.Settings.Read

/-!
# Settings files

Settings are loaded from a file, the one that is asked for or else the first that is
found on the way from the current directory up to the root.  Without a file the
defaults apply.

The files are those of a `FileTree`, which stands for the part of a file system that
loading looks at.
-/

namespace Creole

/-- A directory by its names from the root, or the place of a file in it. -/
abbrev Location := List Text

/-- A place and all directories above it, up to the root. -/
def Location.upward (place : Location) : List Location :=
  (List.range (place.length + 1)).reverse.map (place.take ·)

/-- What is at a place. -/
inductive FileEntry where
  | directory
  | file (bytes : List UInt8)
  deriving DecidableEq, Repr

/-- Directories and files by their places.  The root is always a directory. -/
structure FileTree where
  entries : List (Location × FileEntry) := []
  deriving Repr

namespace FileTree

/-- What is at a place, if anything is. -/
def at? (tree : FileTree) (place : Location) : Option FileEntry :=
  if place.isEmpty then some .directory else tree.entries.lookup place

/-- The tree with a directory, and with those that lead to it. -/
def addDirectory (tree : FileTree) (place : Location) : FileTree :=
  ⟨(place.upward.map fun above => (above, FileEntry.directory)) ++ tree.entries⟩

/-- The tree with a file, and with the directories that lead to it. -/
def addFile (tree : FileTree) (place : Location) (bytes : List UInt8) : FileTree :=
  ⟨(place, .file bytes) :: (tree.addDirectory place.dropLast).entries⟩

/-- Follows the segments of a path from a directory.  No segment and a dot stay
there, two dots go up, and a name goes to what has it; nothing follows a file. -/
def follow (tree : FileTree) (place : Location) : List Text → Option Location
  | [] => some place
  | segment :: rest =>
    if tree.at? place ≠ some .directory then none
    else if segment = [] || segment = ['.'] then follow tree place rest
    else if segment = ['.', '.'] then follow tree place.dropLast rest
    else
      let next := place ++ [segment]
      if (tree.at? next).isSome then follow tree next rest else none

/-- The place of a path as seen from a directory.  The empty path leads nowhere. -/
def find? (tree : FileTree) (directory : Location) (path : Text) : Option Location :=
  match path with
  | [] => none
  | '/' :: rest => tree.follow [] (rest.splitOn '/')
  | path => tree.follow directory (path.splitOn '/')

end FileTree

namespace Settings

/-- The name of a settings file. -/
def fileName : Text := "wiki.toml".toList

/-- The text of bytes in UTF-8. -/
def decodeBytes? (bytes : List UInt8) : Option Text :=
  (String.fromUTF8? ⟨bytes.toArray⟩).map String.toList

/-- The settings of a file. -/
def readFile (env : Environment) : Option FileEntry → Except SettingsError Settings
  | some (.file bytes) =>
    match decodeBytes? bytes with
    | some document => read env document
    | none => .error .inaccessible
  | _ => .error .inaccessible

/-- The closest settings file at a directory or above it. -/
def discover (tree : FileTree) (directory : Location) : Option Location :=
  (directory.upward.map (· ++ [fileName])).find? fun place => (tree.at? place).isSome

/-- Settings, and the file that they were loaded from. -/
structure Loaded where
  settings : Settings
  path : Option Text
  deriving DecidableEq, Repr

/-- Loads the settings of the file at `path` as seen from a directory or, if none is
asked for, of the closest settings file.  A file that was found is given by its whole
path from the root, one that was asked for by the path that was given. -/
def load (env : Environment) (tree : FileTree) (directory : Location) (path : Option Text) :
    Except SettingsError Loaded :=
  match path with
  | some path =>
    match tree.find? directory path with
    | none => .error (.notFound path)
    | some place => do
      let settings ← readFile env (tree.at? place)
      pure { settings, path := some path }
  | none =>
    match discover tree directory with
    | some place => do
      let settings ← readFile env (tree.at? place)
      pure { settings, path := some (place.flatMap ('/' :: ·)) }
    | none => .ok { settings := {}, path := none }

end Settings

end Creole
