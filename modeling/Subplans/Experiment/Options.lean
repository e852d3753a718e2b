import Subplans.Estimate.Source
import Subplans.Number.Reader

/-!
Options of an experiment, and how they are given as arguments.

An option is given by its long name or, if it has one, by its short name. A value follows as the next argument,
after a sign of equality or, for a short name, immediately. No option may be given twice.
-/

namespace Subplans

inductive ExperimentMode
  -- The queries of the parts of its plan are recovered.
  | reconstruct
  -- It is executed with estimates for the sub-queries in logs of aliases.
  | inject
  -- It is executed with estimates for the queries in logs of records.
  | parseInject
deriving DecidableEq, Repr

namespace ExperimentMode

def all : List ExperimentMode :=
  [reconstruct, inject, parseInject]

def name : ExperimentMode → String
  | reconstruct => "reconstruct"
  | inject => "inject"
  | parseInject => "parse-inject"

def named? (name : String) : Option ExperimentMode :=
  all.find? (·.name == name)

end ExperimentMode

structure Options where
  trials : Nat := 3
  mode : ExperimentMode := .inject
  -- Positions of the queries that are run, counted from one.
  selection : Option (List Nat) := none
  sources : List EstimateSource := [.planner, .count]
  settings : Option String := none
  schema : Option String := none
  queryDirectory : String := "queries"
  -- What the name of the table starts with if no other is given.
  outputName : String := "experiment"
  output : Option String := none
  withoutOutput : Bool := false
  -- The limit for statements in seconds, in place of that of the settings.
  timeout : Option Nat := none
  withTables : Bool := false
  onlyInner : Bool := false
  parsesPredicates : Bool := false
  chunkSize : Option Nat := none
  remembers : Bool := false
  printsPlans : Bool := false
  logLevel : String := "info"

inductive ArgumentError
  | unexpected (argument : String)
  | repeated (name : String)
  | missingValue (name : String)
  | unexpectedValue (name : String)
  | invalidValue (name value : String)
  | overflow
deriving DecidableEq, Repr

def ArgumentError.message : ArgumentError → String
  | unexpected argument => "unexpected argument: " ++ argument
  | repeated name => name ++ " is given more than once"
  | missingValue name => name ++ " needs a value"
  | unexpectedValue name => name ++ " takes no value"
  | invalidValue name value => "invalid value for " ++ name ++ ": " ++ value
  | overflow => Number.RangeError.endOverflow.message

-- Arithmetic that overflows aborts the program, with the status of an abort.
def ArgumentError.status : ArgumentError → Nat
  | overflow => 101
  | _ => 2

-- Why a value does not denote what its option needs.
inductive ValueFault
  | invalid
  | overflow

def ValueFault.error (name value : String) : ValueFault → ArgumentError
  | invalid => .invalidValue name value
  | overflow => .overflow

namespace Options

inductive Effect
  | flag (set : Options → Options)
  -- Sets what a value denotes.
  | value (set : String → Except ValueFault (Options → Options))

def path? (text : String) : Option String :=
  if text.isEmpty then none else some text

def number? (text : String) : Option Nat :=
  (Number.readNat Number.wordBound text.toList).toOption

-- A list of numbers and ranges.
def numbers (text : String) : Except ValueFault (List Nat) :=
  (Number.readRanges true text.toList).mapError fun
    | .endOverflow => .overflow
    | .number _ => .invalid

-- The options with their names, the long one last.
def known : List (List String × Effect) :=
  let value := fun {α : Type} (read : String → Option α) (set : α → Options → Options) =>
    Effect.value fun text => ((read text).map set).elim (.error .invalid) .ok
  [(["-t", "--num-trials"], value number? fun x o => { o with trials := x }),
    (["--mode"], value ExperimentMode.named? fun x o => { o with mode := x }),
    (["-q", "--query"], .value fun text => (numbers text).map fun x o => { o with selection := some x }),
    (["-e", "--estimator"], value EstimateSource.readList? fun x o => { o with sources := x }),
    (["--config"], value path? fun x o => { o with settings := some x }),
    (["--schema"], value path? fun x o => { o with schema := some x }),
    (["--queries-dir"], value path? fun x o => { o with queryDirectory := x }),
    (["--output-prefix"], value some fun x o => { o with outputName := x }),
    (["-o", "--output"], value path? fun x o => { o with output := some x }),
    (["--no-output"], .flag fun o => { o with withoutOutput := true }),
    (["--timeout"], value number? fun x o => { o with timeout := some x }),
    (["--single-table"], .flag fun o => { o with withTables := true }),
    (["--only-inner"], .flag fun o => { o with onlyInner := true }),
    (["--parse-predicates"], .flag fun o => { o with parsesPredicates := true }),
    (["--parallel"], value number? fun x o => { o with chunkSize := some x }),
    (["--remember"], .flag fun o => { o with remembers := true }),
    (["--print-plan"], .flag fun o => { o with printsPlans := true }),
    (["--log-level"], value some fun x o => { o with logLevel := x })]

def named? (name : String) : Option (String × Effect) :=
  (known.find? fun (names, _) => names.contains name).map fun (names, effect) => (names.getLastD name, effect)

def helpNames : List String := ["-h", "--help"]

def usage : String :=
  let line := fun (names : List String) (effect : Effect) =>
    "  " ++ ", ".intercalate names ++ (match effect with | .flag _ => "" | .value _ => " VALUE")
  "\n".intercalate ("Options:" :: known.map (fun (names, effect) => line names effect) ++
    ["  " ++ ", ".intercalate helpNames])

-- The name in an argument, and the value that comes with it; none if it names no option.
def split? (argument : String) : Option (String × Option String) :=
  match argument.toList with
  | '-' :: '-' :: _ :: _ =>
    match Text.cutAt? '=' argument with
    | some (name, value) => some (name, some value)
    | none => some (argument, none)
  | ['-', c] => some (String.ofList ['-', c], none)
  | '-' :: c :: '=' :: value => some (String.ofList ['-', c], some (String.ofList value))
  | '-' :: c :: value => some (String.ofList ['-', c], some (String.ofList value))
  | _ => none

-- The argument can be the value of the option before it: it does not look like an option.
def isValue (argument : String) : Bool :=
  argument.toList.head? != some '-' || argument == "-"

-- The options with those that are given by arguments; none if help is asked for. `seen` are the names of those that
-- were given before.
def read (o : Options) (seen : List String) : (arguments : List String) → Except ArgumentError (Option Options)
  | [] => .ok (some o)
  | ["--"] => .ok (some o)
  | argument :: rest =>
    match split? argument with
    | none => .error (.unexpected argument)
    | some (given, attached) =>
      if helpNames.contains given then .ok none
      else match named? given with
        | none => .error (.unexpected argument)
        | some (name, effect) =>
          if seen.contains name then .error (.repeated name)
          else match effect, attached, rest with
            | .flag set, none, rest => read (set o) (name :: seen) rest
            | .flag _, some _, _ => .error (.unexpectedValue name)
            | .value set, some value, rest =>
              match set value with
              | .ok set => read (set o) (name :: seen) rest
              | .error fault => .error (fault.error name value)
            | .value _, none, [] => .error (.missingValue name)
            | .value set, none, value :: rest =>
              if isValue value then
                match set value with
                | .ok set => read (set o) (name :: seen) rest
                | .error fault => .error (fault.error name value)
              else .error (.missingValue name)

-- The options that arguments give; none if help is asked for.
def ofArguments (arguments : List String) : Except ArgumentError (Option Options) :=
  read {} [] arguments

def outputPath (o : Options) : String :=
  o.output.getD ("output/" ++ o.outputName ++ ".csv")

-- The levels of logging, whose names may be given in letters of either case.
def logLevels : List String := ["off", "error", "warn", "info", "debug", "trace"]

def hasLogLevel (o : Options) : Bool :=
  logLevels.any fun level => Text.equalsIgnoringCase level o.logLevel

end Options

end Subplans
