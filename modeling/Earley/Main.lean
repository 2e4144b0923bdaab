import Earley.Command.Report

namespace Earley.Command

/-- What stands at a path of the system. -/
def lookUp (path : Path) : IO Found := do
  try
    let bytes ← IO.FS.readBinFile path.text
    return .file (bytes.toList.map UInt8.toNat)
  catch
    | .inappropriateType .. => return .directory
    | _ => return .missing

/-- Looks up each path. -/
def lookUpAll (paths : List Path) : IO Files := do
  let found ← paths.mapM fun path => do return (path, ← lookUp path)
  return .ofFound found

end Earley.Command

open Earley

/-- Runs the program with its arguments and gives its code. It looks up the files that its command may
read, runs the command, and prints the report. The service is inside the program, and what it keeps
lasts as long as one run. -/
def main (arguments : List String) : IO UInt32 := do
  let paths := match Command.ofTexts arguments with
    | .ok command => command.paths
    | .error _ => []
  let files ← Command.lookUpAll paths
  let (report, _) := Command.runTexts files {} arguments
  IO.print report.output
  match report.ending with
  | .code n => return n.toUInt32
  | .fault f =>
    IO.eprintln f.message
    return 1
