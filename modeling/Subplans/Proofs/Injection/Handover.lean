import Subplans.Backend.Script
import Subplans.Estimate.Fixed
import Subplans.Injection.Handover
import Subplans.Proofs.Files
import Subplans.Proofs.Injection.Correction
import Subplans.Proofs.Injection.LoggedQueries
import Subplans.Proofs.Merge.Aliases

/-!
The files with estimates.

Nothing but its line ties an estimate to an entry of the logs. The queries keep the order of the entries up to the
files (`estimated_estimates`, `handedOver_save`), and what is read are the logs that the server has just written, as
older ones are removed first (`asked_writeLogs`).
-/

namespace Subplans

open Outcome FileTree

variable {σ : Type} {get : σ → FileTree} {set : FileTree → σ → σ}

namespace Injection

variable {i : Injection (StateM σ)} {st st' s asked : σ} {directory sql path : String} {g : QueryGraph}

-- In the state `asked` the server has just been asked for the plan of the text. There were no logs before.
structure Asked (i : Injection (StateM σ)) (get : σ → FileTree) (sql : String) (st : σ) (directory : String)
    (asked : σ) : Prop where
  run   : ∃ s, Yields (ExceptT.mk i.backend.dataDirectory) st directory s ∧
    Yields (i.writeLogs directory sql) s () asked
  fresh : ∃ s plan, (get s).Lacks (i.tableLog directory) ∧ (get s).Lacks (i.joinLog directory) ∧
    Yields (ExceptT.mk (i.backend.explain sql i.settings.logging)) s plan asked

section Access

variable (hfiles : i.files = FileTree.access get set)
include hfiles

theorem of_loggedEntries {α : Type} {read : Json → Option α} {entries : List α}
    (h : Yields (i.loggedEntries read path) st entries st') :
    st' = st ∧ logEntries? read ((get st).contents path) = some entries := by
  rw [loggedEntries, hfiles] at h
  have ⟨found, s₁, hread, h⟩ := yields_bind.mp h
  obtain ⟨rfl, rfl, -⟩ := yields_read? (yields_adapt.mp hread)
  split at h
  case h_1 heq =>
    obtain ⟨rfl, rfl⟩ := yields_pure.mp h
    exact ⟨rfl, heq⟩
  case h_2 => exact absurd h yields_throw

theorem of_loggedQueries {queries : List QueryGraph} (h : Yields (i.loggedQueries g path) st queries st') :
    st' = st ∧ ∃ logged, OrderLog.nodes g ((get st).contents path) = .ok logged ∧
      queries = logged.map (g.subquery i.schema) := by
  rw [loggedQueries, hfiles] at h
  have ⟨found, s₁, hread, hqueries⟩ := yields_bind.mp h
  obtain ⟨rfl, hfound, -⟩ := yields_read? (yields_adapt.mp hread)
  rw [contents, ← hfound]
  split at hqueries
  case h_1 =>
    obtain ⟨rfl, rfl⟩ := yields_pure.mp hqueries
    exact ⟨rfl, [], rfl, rfl⟩
  case h_2 text =>
    obtain ⟨hlog, rfl⟩ := yields_mk_pure.mp hqueries
    have ⟨logged, hlogged, heq⟩ := Outcome.bind_eq_ok.mp hlog
    exact ⟨rfl, logged, hlogged, (pure_eq_ok.mp heq).symm⟩

end Access

-- What is an estimate of a query, of which a missing one has none.
def Answers (Of : QueryGraph → Float → Prop) : Option QueryGraph → Float → Prop
  | none, x => x = unknownEstimate
  | some g, x => Of g x

-- The queries are estimated one by one and in their order.
def Estimates (Of : QueryGraph → Float → Prop) (estimation : Estimation (StateM σ)) : Prop :=
  ∀ queries st xs st', Yields (estimation queries) st xs st' → List.Forall₂ (Answers Of) queries xs

-- The numbers are estimates of the queries, and those of joins are corrected for the types of the joins.
structure Estimated (Of : QueryGraph → Float → Prop) (tables joins : List (Option QueryGraph))
    (infos : List (Option JoinInfo)) (ofTables ofJoins : List Float) : Prop where
  tables  : List.Forall₂ (Answers Of) tables ofTables
  length  : ofJoins.length = joins.length
  missing : ∀ k : Nat, joins[k]? = some none → ofJoins[k]? = some unknownEstimate
  joins   : ∀ (k : Nat) query, joins[k]? = some query → ∃ x, Answers Of query x ∧
    ofJoins[k]? = some (Correction.corrected ofTables ofJoins x (infos.getD k none))

variable {Of : QueryGraph → Float → Prop} {estimation : Estimation (StateM σ)} {tables joins : List (Option QueryGraph)}
  {infos : Option (List (Option JoinInfo))} {ofTables ofJoins : List Float}

-- The four files are different ones.
def Distinct (settings : InjectionSettings) (directory : String) : Prop :=
  ([settings.tableEstimates, settings.joinEstimates, settings.tableLog, settings.joinLog].map fun name =>
    placeOf (Files.path directory name)).Nodup

theorem distinct_of_names {settings : InjectionSettings} {names : List String}
    (heq : names = [settings.tableEstimates, settings.joinEstimates, settings.tableLog, settings.joinLog])
    (hnames : ∀ name ∈ names, IsName name) (hnodup : names.Nodup) : Distinct settings directory := by
  rw [Distinct, ← heq]
  exact hnodup.map_on fun a ha b hb => eq_of_placeOf_path (hnames a ha) (hnames b hb)

-- A link and an information are joined. The logs are records without the names of their fields.
def filmsScript : BackendScript where
  logs := [("single_table_subplan_order.txt", "[1, \"ml\", \"link\", [], 1],\n[2, \"mi\", \"info\", [], 1],\n"),
    ("multi_table_subplan_order.txt", "[3, \"Left\", 1, [[1, 1], [2, 1]], [\"ml.film_id = mi.film_id\"]],\n")]
  directory := some "/data"

def filmsInjection : Injection (StateM BackendSession) where
  schema := QueryGraph.filmsSchema
  backend := filmsScript.backend
  files := BackendSession.files

-- What another query has left in the directory.
def leftover : BackendSession where
  tree := {
    directories := ["/data"]
    files := [("/data/multi_table_subplan_order.txt", "[9"), ("/data/multi_table_estimations.txt", "9.000000\n")] }

def cardinalities : Estimator (StateM BackendSession) :=
  .fixed []

end Injection

end Subplans
