import Std.Data.TreeMap
import TopdownMetrics.Files.Path

/-!
# Trees of files

A tree holds files and directories by their locations, the lists of names that lead to
them from the root.  Paths are followed part by part: every part but the last has to lead
to a directory, also in front of `..`.
-/

namespace TopdownMetrics

/-- What a tree holds at a location. -/
inductive FileEntry where
  | file (content : ByteArray)
  | directory

/-- The kinds of entries. -/
inductive FileKind where
  | file
  | directory
  deriving DecidableEq, Repr, Inhabited

def FileEntry.kind : FileEntry → FileKind
  | .file _ => .file
  | .directory => .directory

/-- The names from the root to a file or directory. -/
abbrev Location := List String

structure FileTree where
  entries : Std.TreeMap Location FileEntry := ∅
  /-- Where relative paths start. -/
  workingDirectory : Location := []

namespace FileTree

/-- What is at a location.  The root is always a directory. -/
def entry? (t : FileTree) (here : Location) : Option FileEntry :=
  if here = [] then some .directory else t.entries[here]?

def isDirectoryAt (t : FileTree) (here : Location) : Bool :=
  (t.entry? here).any (·.kind = .directory)

def follow? (t : FileTree) (here : Location) (part : String) : Option Location :=
  if !t.isDirectoryAt here then none
  else if part = "" ∨ part = "." then some here
  else if part = ".." then some here.dropLast
  else if (t.entry? (here ++ [part])).isSome then some (here ++ [part])
  else none

def start (t : FileTree) (path : String) : Location :=
  if Path.isAbsolute path then [] else t.workingDirectory

/-- The location that a path leads to.  The empty path leads nowhere. -/
def locate? (t : FileTree) (path : String) : Option Location :=
  if path = "" then none else (Path.parts path).foldlM t.follow? (t.start path)

def kind? (t : FileTree) (path : String) : Option FileKind := do
  let here ← t.locate? path
  return (← t.entry? here).kind

def read? (t : FileTree) (path : String) : Option ByteArray := do
  match ← t.entry? (← t.locate? path) with
  | .file content => some content
  | .directory => none

/-- Whether a part of a path may be the name of a new entry. -/
def isName (part : String) : Bool :=
  part != "" && part != "." && part != ".." && part.utf8ByteSize ≤ 255 && !part.toList.contains '\x00'

/-- Writes a file, new or instead of an old one.  Its directory has to be there. -/
def write? (t : FileTree) (path : String) (content : ByteArray) : Option FileTree := do
  let directory ← (Path.parts path).dropLast.foldlM t.follow? (t.start path)
  let name ← (Path.parts path).getLast?
  if !t.isDirectoryAt directory || !isName name || t.isDirectoryAt (directory ++ [name]) then
    none
  else
    some { t with entries := t.entries.insert (directory ++ [name]) (.file content) }

/-- Makes the directories that are missing along the parts of a path, and tells whether
they lead to a directory in the end.  Directories made before a failure stay. -/
def makeFrom (t : FileTree) (here : Location) : List String → FileTree × Bool
  | [] => (t, t.isDirectoryAt here)
  | part :: rest =>
    match t.follow? here part with
    | some next => t.makeFrom next rest
    | none =>
      let next := here ++ [part]
      if t.isDirectoryAt here && isName part && (t.entry? next).isNone then
        { t with entries := t.entries.insert next .directory }.makeFrom next rest
      else
        (t, false)

def makeDirectories (t : FileTree) (path : String) : FileTree × Bool :=
  t.makeFrom (t.start path) (Path.parts path)

/-- The files below a location, by the paths that lead to them from there. -/
def filesBelow (t : FileTree) (here : Location) : List (String × ByteArray) :=
  t.entries.toList.filterMap fun (location, entry) =>
    match entry with
    | .file content =>
      if here.isPrefixOf location then
        some (String.intercalate "/" (location.drop here.length), content)
      else none
    | .directory => none

end FileTree

end TopdownMetrics
