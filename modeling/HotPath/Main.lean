import HotPath.Command.Layout
import HotPath.Files.Snapshot
import HotPath.Json.Reader

/-! The command line. The working folder is read from the standard input as a snapshot, because
trees have to come with their files. -/

namespace HotPath.Main

/-- Everything up to the end of a stream. -/
partial def readAll (stream : IO.FS.Stream) (before : String) : IO String := do
  let line ← stream.getLine
  if line.isEmpty then return before else readAll stream (before ++ line)

/-- The working folder, none if the input is no snapshot. -/
def readFolder : IO (Option Folder) := do
  let text ← readAll (← IO.getStdin) ""
  return (Json.readChars text.toList).toOption.bind Snapshot.folder?

/-- The variables that are looked at, as far as they are set. -/
def readVariables : IO Variables := do
  let mut vars : Variables := {}
  for name in Settings.variableNames do
    if let some v ← IO.getEnv name then vars := vars.insert name v
  return vars

/-- The output is written as UTF-8. -/
def terminal : Terminal := ⟨some "utf-8", none⟩

/-- Show what a command leaves, and give its exit code. -/
def present (out : CommandOutcome) : IO UInt32 := do
  IO.print out.output
  for p in out.printed do
    for line in (terminal.receive p).lines do IO.println line
  for n in out.log do IO.eprintln n.line
  if let some e := out.error then IO.eprintln e.message
  return UInt32.ofNat out.exitCode

/-- Run a request. Only linting needs the working folder. -/
def run : Request → IO UInt32
  | .lint r => do
    match ← readFolder with
    | none =>
      IO.eprintln "the input is not a snapshot of a folder"
      return 2
    | some folder => present (r.run ⟨folder, ← readVariables⟩)
  | request => present (request.run ⟨{}, {}⟩)

end HotPath.Main

def main (args : List String) : IO UInt32 := do
  match HotPath.Request.ofArguments args with
  | .ok request => HotPath.Main.run request
  | .error e =>
    IO.eprintln e.message
    return 2
