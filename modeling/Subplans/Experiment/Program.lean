import Subplans.Client.Backend
import Subplans.Experiment.Trial
import Subplans.Schema.Movies

/-!
The program that runs experiments.

It reads settings, a schema and queries, runs the trials, and writes a table of what came of them.
-/

namespace Subplans

inductive ProgramError
  | emptyChunks
  | unknownLogLevel (name : String)
  | unreadableSettings
  | malformedSettings
  | schema (error : SchemaError)
  | unreadableQueries
  | trial (error : TrialError)
  | unwritableOutput

def ProgramError.message : ProgramError → String
  | emptyChunks => "--parallel needs a positive chunk size"
  | unknownLogLevel name => "unknown log level: " ++ name
  | unreadableSettings => "the settings cannot be read"
  | malformedSettings => "invalid settings"
  | schema error => error.message
  | unreadableQueries => "the queries cannot be read"
  | trial error => error.message
  | unwritableOutput => "the output cannot be written"

namespace Program

variable {m : Type → Type} [Monad m]

def settings (files : Files m) (o : Options) : ExceptT ProgramError m Settings := do
  let settings : Settings ← match o.settings with
    | none => pure {}
    | some path => do
      let text ← (ExceptT.mk (files.read path)).adapt fun _ => .unreadableSettings
      match Settings.ofText? text with
      | some settings => pure settings
      | none => throw .malformedSettings
  match o.timeout with
  | none => return settings
  | some _ => return { settings with connection := { settings.connection with timeout := o.timeout } }

-- The schema of a run: that of movies if no other is given.
def schema (files : Files m) (o : Options) : ExceptT ProgramError m Schema := do
  let text ← match o.schema with
    | none => pure none
    | some path => (ExceptT.mk (files.read path)).adapt (fun _ => ProgramError.schema .unreadable) <&> some
  match (text.map Schema.ofText).getD (Schema.ofDescription .movies) with
  | .ok s => return s
  | .error e => throw (.schema e)

def writeOutput (files : Files m) (o : Options) (trials : List Trial) : ExceptT ProgramError m Unit := do
  if o.withoutOutput then return
  if let some directory := Files.parent? o.outputPath then
    -- The table may go to a directory that is not there yet.
    (ExceptT.mk (files.makeDirectory directory)).adapt fun _ => .unwritableOutput
  (files.save o.outputPath (Trial.table trials)).adapt fun _ => .unwritableOutput

def run (files : Files m) (client : ClientRunner m) (o : Options) : ExceptT ProgramError m Unit := do
  if o.chunkSize == some 0 then throw .emptyChunks
  if !o.hasLogLevel then throw (.unknownLogLevel o.logLevel)
  let settings ← settings files o
  let schema ← schema files o
  let queries ← (QueryFile.readAll files o.queryDirectory o.selection).adapt fun _ => .unreadableQueries
  let backend := Backend.ofClient client settings.connection
  let trials ← (Experiment.run { schema, backend, files, settings, options := o } queries).adapt .trial
  writeOutput files o trials

-- How a run ended: with an exit status, and something to say unless all went well.
structure Ending where
  status : Nat
  message : Option String
deriving DecidableEq, Repr

def start (files : Files m) (client : ClientRunner m) (arguments : List String) : m Ending := do
  match Options.ofArguments arguments with
  | .error e => return { status := e.status, message := some e.message }
  | .ok none => return { status := 0, message := some Options.usage }
  | .ok (some o) =>
    match ← (run files client o).run with
    | .ok _ => return { status := 0, message := none }
    | .error e => return { status := 1, message := some e.message }

end Program

end Subplans
