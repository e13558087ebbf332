import Mips.Launch
/-!
# Command line

The program on a real host: it collects the files that a launch names, and hands out what the
launch leaves behind.
-/

namespace Mips

/-- Adds a directory to a table, if the name stands for one: only then can it be opened with `/.`
behind it. -/
def Files.surveyDirectory (files : Files) (name : String) : IO Files := do
  match ← (IO.FS.Handle.mk (name ++ "/.") .read).toBaseIO with
  | .ok _ => return files.makeDirectory name
  | .error _ => return files

def Files.survey (files : Files) (name : String) : IO Files := do
  match ← (IO.FS.readBinFile name).toBaseIO with
  | .ok content => return files.install name content
  | .error _ => files.surveyDirectory name

/-- Adds to a table what stands in the way of a file that is to be made, and the directory around
it. -/
def Files.surveyTarget (files : Files) (name : String) : IO Files := do
  let parent := "/".intercalate (parts name).dropLast
  (← files.surveyDirectory parent).surveyDirectory name

end Mips

open Mips in
def main (args : List String) : IO UInt32 := do
  let values ← Launch.variableNames.filterMapM fun name => do
    return (← IO.getEnv name).map fun value => (name.toList, value.toList)
  let levels := (Files.parts (← IO.currentDir).toString).length
  let files ← (Launch.inputs levels args).foldlM Files.survey {}
  let trace := Launch.traceFile? files args
  let files ← trace.elim (pure files) files.surveyTarget
  let l := Launch.run values files args
  (← IO.getStdout).putStr l.output
  l.messages.forM IO.eprintln
  if let some name := trace then
    if let some content := l.files.content? name then
      IO.FS.writeBinFile name content
  return l.status.code.toUInt32
