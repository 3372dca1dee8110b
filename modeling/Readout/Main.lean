import Readout.CommandLine.Run
/-!
# The program

Carries out one command line at a bench with a fresh board.  The files of the bench are those of the
working directory: they are read before the run, and those that the run made or changed are written
after it.
-/

namespace Readout.Program

/-- The time on the bench after which nothing more is waited for. -/
def horizon : Duration := Duration.seconds (3600 * 24 * 365)

/-- The files of the working directory. -/
def readFiles : IO Files := do
  let mut files : Files := {}
  let here ← IO.currentDir
  for entry in ← here.readDir do
    try
      let bytes ← IO.FS.readBinFile entry.path
      files := files.put entry.fileName { data := bytes.toList }
    catch _ => pure ()
  return files

/-- Write the files that differ from what they were. -/
def writeFiles (before after : Files) : IO Unit := do
  for (name, content) in after.entries do
    if before.get? name ≠ some content then
      IO.FS.writeBinFile name (ByteArray.mk content.bytes.toArray)
  for (name, _) in before.entries do
    if (after.get? name).isNone then IO.FS.removeFile name

/-- Carry out what was asked for; the answer is the exit code. -/
def run (invocation : CommandLine.Invocation) : IO UInt32 := do
  let files ← readFiles
  let desk : CommandLine.Desk :=
    { station := {}
      journal := { link := { files, horizon, bound := [commandPort, firmwarePort] } } }
  let (result, desk) := invocation.run.run.run desk
  for text in desk.output do IO.print text
  for text in desk.warnings do IO.eprint text
  writeFiles files desk.journal.link.files
  match result with
  | .ok _ => return 0
  | .error (.failed f) =>
    IO.eprintln ("Error: " ++ f.message)
    return 1
  | .error .never =>
    IO.eprintln "Error: the board does not answer"
    return 1

end Readout.Program

/-- The program: its exit code is zero if the command line was carried out. -/
def main (args : List String) : IO UInt32 := do
  match Readout.CommandLine.Invocation.parse args with
  | .ok invocation => Readout.Program.run invocation
  | .error usage =>
    if usage.isMistake then
      IO.eprintln ("Error: " ++ usage.message)
      return 2
    else
      IO.println usage.message
      return 0
