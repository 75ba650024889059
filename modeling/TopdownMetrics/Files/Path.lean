import TopdownMetrics.Text.Substring

/-!
# Paths

A path is a text of parts between slashes.  Empty parts and `.` stay in the directory
that is reached so far and `..` leaves it; what the parts lead to is the business of a
file tree.
-/

namespace TopdownMetrics.Path

def parts (path : String) : List String :=
  Text.split path '/'

def isAbsolute (path : String) : Bool :=
  Text.startsWith path "/"

/-- A path below a directory; an absolute path is not changed. -/
def join (directory path : String) : String :=
  if isAbsolute path || directory == "" then path
  else if directory.toList.getLast? == some '/' then directory ++ path
  else directory ++ "/" ++ path

/-- The parts that lead on, with a leading `.` of a relative path. -/
def names (path : String) : List String :=
  match parts path with
  | "." :: rest => "." :: rest.filter fun part => part != "" && part != "."
  | ps => ps.filter fun part => part != "" && part != "."

/-- The directory that a path leads through last.  The root and the empty path have
none; for a single relative part it is the empty path. -/
def parent? (path : String) : Option String :=
  if names path = [] then none
  else
    some ((if isAbsolute path then "/" else "") ++ String.intercalate "/" (names path).dropLast)

end TopdownMetrics.Path
