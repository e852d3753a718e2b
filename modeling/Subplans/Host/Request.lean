import Subplans.Client.Backend
import Subplans.Files.Basic
import Subplans.Json.Record
import Subplans.Json.Writer

/-!
What a program asks of the host that it runs under.

The program holds no files and starts no other programs itself. It asks its host for each such thing with one
record, and is given one record in reply.
-/

namespace Subplans

inductive HostRequest
  | read (path : String)
  | write (path contents : String)
  | remove (path : String)
  | makeDirectory (path : String)
  | list (directory : String)
  | client (request : ClientRequest)
deriving DecidableEq, Repr

def HostRequest.toJson : HostRequest → Json
  | read path => Json.ofFields [("read", Json.ofString path)]
  | write path contents => Json.ofFields [("write", Json.ofString path), ("contents", Json.ofString contents)]
  | remove path => Json.ofFields [("remove", Json.ofString path)]
  | makeDirectory path => Json.ofFields [("make_directory", Json.ofString path)]
  | list directory => Json.ofFields [("list", Json.ofString directory)]
  | client r => Json.ofFields [
      ("run", Json.ofString r.program), ("arguments", .array (r.arguments.map Json.ofString)),
      ("password", (r.password.map Json.ofString).getD .null), ("script", Json.ofString r.script)]

structure HostReply where
  isMissing : Bool
  result : Option Json

namespace HostReply

def ofJson (value : Json) : HostReply :=
  let record := value.record? ["result", "missing"]
  { isMissing := (record.bind fun r => r.required? "missing" Json.bool?) == some true
    result := record.bind fun r => r.required? "result" some }

def read {α : Type} (r : HostReply) (read : Json → Option α) : Except FileError α :=
  match r.isMissing, r.result.bind read with
  | true, _ => .error .missing
  | false, some value => .ok value
  | false, none => .error .failed

def outcome? (value : Json) : Option ClientOutcome := do
  let r ← value.record? ["status", "output", "errors"]
  pure {
    status := ← r.required? "status" (Json.integer? (-Int.pow 2 31) (Int.pow 2 31 - 1))
    output := ← r.required? "output" Json.string?
    errors := ← r.required? "errors" Json.string?
  }

end HostReply

abbrev Host (m : Type → Type) : Type :=
  HostRequest → m HostReply

namespace Host

variable {m : Type → Type} [Monad m]

-- Asks for something that has no result but success.
def order (ask : Host m) (request : HostRequest) : m (Except FileError Unit) := do
  return (← ask request).read fun _ => some ()

def files (ask : Host m) : Files m where
  read path := do return (← ask (.read path)).read Json.string?
  write path contents := order ask (.write path contents)
  remove path := order ask (.remove path)
  makeDirectory path := order ask (.makeDirectory path)
  list directory := do return (← ask (.list directory)).read (Json.list? Json.string?)

def client (ask : Host m) : ClientRunner m := fun request => do
  return ((← ask (.client request)).read HostReply.outcome?).toOption

end Host

end Subplans
