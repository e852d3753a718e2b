import Subplans.Experiment.Program
import Subplans.Host.Request

/-!
The command line of the program that runs experiments.

Requests to the host are lines on standard output, and its replies are lines on standard input.
-/

namespace Subplans

def askHost (request : HostRequest) : IO HostReply := do
  let output ← IO.getStdout
  output.putStrLn request.toJson.compact
  output.flush
  let line ← (← IO.getStdin).getLine
  return .ofJson ((Json.read? line).getD .null)

end Subplans

def main (arguments : List String) : IO UInt32 := do
  let ending ← Subplans.Program.start (Subplans.Host.files Subplans.askHost)
    (Subplans.Host.client Subplans.askHost) arguments
  if let some message := ending.message then
    (← IO.getStderr).putStrLn message
  return ending.status.toUInt32
