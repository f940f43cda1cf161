import PolicyVault.Console.Session
import PolicyVault.Service.Options

/-!
# The program

Starts a service with the options on the command line, and runs the client calls that stand on the
lines of the standard input against it, until the input ends.
-/

namespace PolicyVault

/-- The words of a line, which blanks part. -/
def wordsOf (line : String) : List String :=
  (Text.cutAt ' ' (line.toList.filter fun c => c ≠ '\n' ∧ c ≠ '\r')).filterMap fun word =>
    if word.isEmpty then none else some (String.ofList word)

def Console.Response.text : Console.Response → String
  | .usage _ => "usage error\n"
  | .failed e => "Error: " ++ e.message ++ "\n"
  | .done p => p.output

partial def serveLines (input output : IO.FS.Stream) (s : Console.Local) : IO Unit := do
  let line ← input.getLine
  unless line.isEmpty do
    let (response, s) := s.call (wordsOf line)
    output.putStr response.text
    output.flush
    serveLines input output s

end PolicyVault

open PolicyVault in
/-- Runs the program. -/
def main (words : List String) : IO UInt32 := do
  match Service.Options.read words with
  | .error _ =>
    (← IO.getStderr).putStrLn "usage error"
    return 2
  | .ok options =>
    match options.check with
    | .error e =>
      (← IO.getStderr).putStrLn e.message
      return 1
    | .ok options =>
      serveLines (← IO.getStdin) (← IO.getStdout) (.fresh options.limits)
      return 0
