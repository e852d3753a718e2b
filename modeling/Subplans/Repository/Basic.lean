import Subplans.Files.Basic
import Subplans.Repository.Estimates
import Subplans.Repository.Record

/-!
Query graphs and estimates in files.

Every query has a file of its own, named by its identifier, and so has every source of estimates, named by
the name of the source.
-/

namespace Subplans

structure Repository (m : Type → Type) where
  schema : Schema
  files : Files m
  root : String

namespace Repository

variable {m : Type → Type} [Monad m]

def queryDirectory (r : Repository m) : String :=
  r.root ++ "/queries"

def queryPath (r : Repository m) (id : Nat) : String :=
  r.queryDirectory ++ "/" ++ toString id ++ ".json"

def estimatePath (r : Repository m) (source : String) : String :=
  r.root ++ "/cardinalities/" ++ source ++ ".json"

def saveQuery (r : Repository m) (id : Nat) (g : QueryGraph) : ExceptT RepositoryError m Unit :=
  (r.files.save (r.queryPath id) ((QueryRecord.ofGraph r.schema id g).toJson.pretty 0)).adapt fun _ => .file

def loadQuery (r : Repository m) (id : Nat) : ExceptT RepositoryError m QueryGraph := do
  match ← (r.files.read? (r.queryPath id)).adapt fun _ => .file with
  | none => throw (.notFound id)
  | some text =>
    match (Json.read? text).bind QueryRecord.ofJson? with
    | none => throw .malformedRecord
    | some record => ExceptT.mk (pure (record.toGraph r.schema))

def fileId? (name : String) : Option Nat :=
  match Files.splitExtension name with
  | (stem, some "json") => (Number.readNat (Nat.pow 2 64) stem.toList).toOption
  | _ => none

def queryIds (r : Repository m) : ExceptT RepositoryError m (List Nat) := do
  let names ← (ExceptT.mk (r.files.list r.queryDirectory)).adapt fun _ => .file
  return (names.filterMap fileId?).mergeSort

def saveEstimates (r : Repository m) (source : String) (table : EstimateTable) : ExceptT RepositoryError m Unit :=
  (r.files.save (r.estimatePath source) (table.toJson.pretty 0)).adapt fun _ => .file

-- Loads the estimates of a source. There are none if nothing was saved.
def loadEstimates (r : Repository m) (source : String) : ExceptT RepositoryError m EstimateTable := do
  match ← (r.files.read? (r.estimatePath source)).adapt fun _ => .file with
  | none => return []
  | some text =>
    match (Json.read? text).bind EstimateTable.ofJson? with
    | none => throw .malformedRecord
    | some table => return table

end Repository

end Subplans
