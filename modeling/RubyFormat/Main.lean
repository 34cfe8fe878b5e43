import RubyFormat.CommandLine.Run

/-!
# The program

The command line on the files of the machine.
-/

namespace RubyFormat.CommandLine

/-- Read a stream up to its end. -/
partial def readAll (stream : IO.FS.Stream) (read : ByteArray) : IO ByteArray := do
  let chunk ← stream.read 65536
  if chunk.isEmpty then
    return read
  else
    readAll stream (read ++ chunk)

/-- The files of the machine. -/
def machineFiles : Files IO where
  readInput := do readAll (← IO.getStdin) ByteArray.empty
  readFile fileName := do
    try
      return some (← IO.FS.readBinFile fileName)
    catch _ =>
      return none
  writeFile fileName content := do
    try
      IO.FS.writeBinFile fileName content
      return true
    catch _ =>
      return false

end RubyFormat.CommandLine

open RubyFormat.CommandLine

/-- Run the command line. -/
def main (arguments : List String) : IO UInt32 := do
  match ← run machineFiles arguments with
  | .error crash =>
      IO.eprintln crash.message
      return 1
  | .ok outcome =>
      IO.print outcome.stdout
      IO.eprint outcome.stderr
      return outcome.exitCode.toUInt32
