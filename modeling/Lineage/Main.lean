import Lineage.CommandLine.Run

/-!
# The program

The outer layer of the program: it reads the files that an invocation calls for, and prints
what `Lineage.CommandLine.Invocation.run` says about them.
-/

namespace Lineage.CommandLine

/-- The number by which the system says that a path leads to a directory. -/
def directoryCode : UInt32 := 21

/-- What is found at a path. -/
def readPath (path : String) : IO (Except AccessError String) := do
  try
    let bytes ← IO.FS.readBinFile path
    return (String.fromUTF8? bytes).elim (.error .notText) .ok
  catch
    | .inappropriateType _ code _ =>
        return .error (if code = directoryCode then .isDirectory else .notDirectory)
    | .permissionDenied .. => return .error .denied
    | _ => return .error .notFound

/-- The files at some paths. -/
def readFiles (paths : List String) : IO Files := do
  let found ← paths.mapM fun path => return (path, ← readPath path)
  return {
    read := fun path => (found.lookup path).getD (.error .notFound)
    isPresent := fun path =>
      match found.lookup path with
      | some (.error .notFound) => false
      | some (.error .notDirectory) => false
      | some _ => true
      | none => false }

/-- How the program is used. -/
def usage : String :=
  "usage: classgraph [-v] [-c FILE] [-w FILE]... [--json] " ++
    "(parents C | descendants C | edges C | family C | check | version)"

/-- Run the program on some arguments and the files around it. -/
def perform (args : List String) : IO UInt32 := do
  match Invocation.ofArguments args with
  | none =>
      IO.eprintln usage
      return 2
  | some inv => do
      let paths := inv.paths (← readFiles [inv.config])
      let outcome := inv.run (← readFiles (inv.config :: paths))
      IO.print outcome.output
      match outcome with
      | .failed failure => IO.eprint failure.report
      | _ => pure ()
      return outcome.exitCode.toUInt32

end Lineage.CommandLine

/-- The program. -/
def main (args : List String) : IO UInt32 := Lineage.CommandLine.perform args
