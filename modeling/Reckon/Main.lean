import Reckon.Command.Run

/-!
The command itself. It reads its input only when no expression is given.
-/

namespace Reckon.Command

def needsInput (arguments : List String) : Bool :=
  match Options.ofArguments arguments with
  | .ok options => options.expression.isNone
  | .error _ => false

/-- Reads a stream to its end, after what has been read of it. -/
partial def readAll (stream : IO.FS.Stream) (read : String) : IO String := do
  let line ← stream.getLine
  if line.isEmpty then return read else readAll stream (read ++ line)

end Reckon.Command

/-- Runs the command on the input of the process, writes what it writes and exits as it does. -/
def main (arguments : List String) : IO UInt32 := do
  let input ←
    if Reckon.Command.needsInput arguments then Reckon.Command.readAll (← IO.getStdin) ""
    else pure ""
  let transcript := Reckon.Command.run arguments input
  IO.print transcript.output
  IO.eprint transcript.errors
  return transcript.status
