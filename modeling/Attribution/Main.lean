/-
  Attribution.Main — the command line.

  The words of the command line are the program's own; the scene of the run is read
  from standard input. The run happens in the scene alone: what it prints is printed,
  and after it the files that the scene asks to be shown.
-/
import Attribution.Scene

namespace Attribution.Scene

/-- The scene in the lines of a stream, or the first line that says nothing. -/
partial def readAll (input : IO.FS.Stream) (s : Scene) : IO (Except String Scene) := do
  let line ← input.getLine
  if line.isEmpty then return .ok s
  match s.read? line.toList with
  | none => return .error line
  | some s => readAll input s

end Attribution.Scene

def main (args : List String) : IO UInt32 := do
  let output ← IO.getStdout
  let errors ← IO.getStderr
  match ← Attribution.Scene.readAll (← IO.getStdin) .empty with
  | .error line =>
    errors.putStr ("unknown line: " ++ line)
    return 3
  | .ok scene =>
    let outcome := scene.run (args.map Attribution.Path.ofString)
    output.putStr (String.ofList outcome.stdout)
    errors.putStr (String.ofList outcome.stderr)
    output.write ⟨(scene.contents outcome).toArray⟩
    output.flush
    return outcome.ending.status.toUInt32
