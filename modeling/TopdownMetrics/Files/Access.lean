import TopdownMetrics.Files.Tree

/-!
# Access to files

What the generator does to files goes through four operations.  A tree of files has
them, and so has any other place that files can be kept in.  Computations that may fail
have them too.
-/

namespace TopdownMetrics

/-- The operations on files.  Failures carry no reason. -/
class FileAccess (m : Type → Type) where
  /-- What a path leads to, if anything. -/
  kind? : String → m (Option FileKind)
  /-- The content of the file at a path. -/
  read? : String → m (Option ByteArray)
  /-- Writes a file in a directory that is there, and tells whether it is written. -/
  write : String → ByteArray → m Bool
  /-- Makes the directories along a path, and tells whether they are there. -/
  makeDirectories : String → m Bool

instance {ε : Type} {m : Type → Type} [Monad m] [FileAccess m] : FileAccess (ExceptT ε m) where
  kind? path := ExceptT.lift (FileAccess.kind? path)
  read? path := ExceptT.lift (FileAccess.read? path)
  write path content := ExceptT.lift (FileAccess.write path content)
  makeDirectories path := ExceptT.lift (FileAccess.makeDirectories path)

instance : FileAccess (StateM FileTree) where
  kind? path := return (← get).kind? path
  read? path := return (← get).read? path
  write path content := do
    match (← get).write? path content with
    | some t =>
      set t
      return true
    | none => return false
  makeDirectories path := modifyGet fun t =>
    let (t, made) := t.makeDirectories path
    (made, t)

end TopdownMetrics
