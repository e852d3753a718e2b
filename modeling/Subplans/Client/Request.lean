import Subplans.Backend.Basic
import Subplans.Settings.Connection

/-!
Runs of the database's client program.

The client is given a script on its standard input and writes the result to its standard output. With the
arguments used here it stops at the first statement that fails, and prints nothing but rows.
-/

namespace Subplans

structure ClientRequest where
  program : String
  arguments : List String
  -- The password, which is handed over in the environment.
  password : Option String
  script : String
deriving DecidableEq, Repr

structure ClientOutcome where
  status : Int
  output : String
  errors : String
deriving DecidableEq, Repr

namespace ClientRequest

-- Milliseconds are counted in 64 bits.
def milliseconds (seconds : Nat) : Nat :=
  seconds * 1000 % Nat.pow 2 64

def scriptOf (timeout : Option Nat) (settings : List String) (sql : String) : String :=
  let limit := (timeout.map fun seconds =>
    "SET statement_timeout = " ++ toString (milliseconds seconds) ++ ";\n").getD ""
  let text := limit ++ String.join (settings.map (· ++ "\n")) ++ Text.trimmed sql
  text ++ (if text.toList.getLast? == some ';' then "\n" else ";\n")

def ofStatement (c : ConnectionSettings) (settings : List String) (sql : String) : ClientRequest where
  program := c.client
  arguments := ["-X", "-q", "-A", "-t", "-v", "ON_ERROR_STOP=1", "-h", c.host, "-p", toString c.portNumber,
    "-U", c.user, "-d", c.database]
  password := c.password
  script := scriptOf c.timeout settings sql

end ClientRequest

namespace ClientOutcome

def timeoutReport : String := "canceling statement due to statement timeout"

-- What a run resulted in. Status 3 says that a statement failed, any other but 0 that there was no connection to the
-- end.
def result (o : ClientOutcome) : Except BackendError String :=
  let errors := Text.trimmed o.errors
  if o.status == 0 then .ok o.output
  else if Text.contains errors timeoutReport then .error .timeout
  else if o.status == 3 then .error (.rejected errors)
  else .error (.connection errors)

end ClientOutcome

end Subplans
