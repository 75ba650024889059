import TopdownMetrics.CommandLine.Run

/-!
# The program

The command line, carried out on the files of the machine.
-/

namespace TopdownMetrics

/-- The result of an action, if it succeeds. -/
def attempt {α : Type} (action : IO α) : IO (Option α) := do
  match ← action.toBaseIO with
  | .ok a => return some a
  | .error _ => return none

/-- What a path leads to.  A directory can be opened, but not read. -/
def probe (path : String) : IO (Option FileKind) := do
  match ← attempt (IO.FS.Handle.mk path .read) with
  | none => return none
  | some handle =>
    match ← attempt (handle.read 1) with
    | some _ => return some .file
    | none => return some .directory

/-- The files of the machine. -/
instance : FileAccess IO where
  kind? := probe
  read? path := attempt (IO.FS.readBinFile path)
  write path content := return (← attempt (IO.FS.writeBinFile path content)).isSome
  makeDirectories path := return (← attempt (IO.FS.createDirAll path)).isSome

end TopdownMetrics

open TopdownMetrics in
def main (arguments : List String) : IO UInt32 := do
  let env : CommandLine.Environment := {
    workingDirectory := toString (← IO.currentDir)
    basePath := ← IO.getEnv "PERFMON_BASEPATH" }
  let outcome : CommandLine.Outcome ← CommandLine.run env arguments
  IO.print outcome.output
  IO.eprint outcome.complaint
  return outcome.exitCode.toUInt32
