import FlatSheet.CommandLine.Run

/-!
# The program

The command line on real files.
-/

namespace FlatSheet.CommandLine

/-- The reason for which the system refused an operation. -/
def systemReason : IO.Error → String
  | .noFileOrDirectory _ code details => details ++ " (os error " ++ code.toNat.repr ++ ")"
  | .permissionDenied _ code details => details ++ " (os error " ++ code.toNat.repr ++ ")"
  | .inappropriateType _ code details => details ++ " (os error " ++ code.toNat.repr ++ ")"
  | e => toString e

/-- Access to the files of the system. -/
def systemFiles : FileAccess IO where
  read path := do
    try return .ok (← IO.FS.readBinFile path)
    catch e => return .error (systemReason e)
  write path text := do
    try
      IO.FS.writeFile path text
      return .ok ()
    catch e => return .error (systemReason e)

/-- How the program is called. -/
def usage : String :=
  "usage: flatsheet build FILE [-o FILE] [--prelude FILE] [--format text|json]\n" ++
    "       flatsheet check FILE [--prelude FILE] [--format text|json]"

end FlatSheet.CommandLine

open FlatSheet.CommandLine in
/-- Run the request that the arguments make. -/
def main (arguments : List String) : IO UInt32 := do
  match Request.ofArguments arguments with
  | none =>
    IO.eprintln usage
    return 2
  | some request =>
    let report ← request.run systemFiles
    IO.print report.stdout
    IO.eprint report.stderr
    return report.code
