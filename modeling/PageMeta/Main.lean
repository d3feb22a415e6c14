import PageMeta.CommandLine.Check

/-!
# The command

Looks the settings file up, and writes down how the check ended.
-/

namespace PageMeta.CommandLine

/-- What a path leads to. -/
def lookUp (path : String) : IO Found := do
  try
    let content ← IO.FS.readBinFile path
    return .file content.toList
  catch
    | .noFileOrDirectory .. => return .nothing
    | .invalidArgument .. => return .tooLong
    | _ => return .directory

/-- Writes down how a command ended, and gives its exit code. -/
def Ending.conclude (ending : Ending) : IO UInt32 := do
  IO.print ending.output
  IO.eprint ending.messages
  match ending.result with
  | .ok code => return code.toUInt32
  | .error e => do
    IO.eprintln (e.kind ++ ": " ++ e.message)
    return 1

/-- Runs the command, and gives its exit code. -/
def execute (arguments : List String) : IO UInt32 := do
  match interpret arguments with
  | .error ending => ending.conclude
  | .ok job => do
    let found ← lookUp (normalPath job.path)
    (job.carryOut found).conclude

end PageMeta.CommandLine

/-- The command. -/
def main (arguments : List String) : IO UInt32 := PageMeta.CommandLine.execute arguments
