import Subplans.Estimate.Source
import Subplans.Proofs.Injection.Faults

/-!
The files with estimates after a failure.

Whatever goes wrong before all estimates are there leaves both files as they are (`untouched_of_fault`): until then logs
are removed and written, and nothing else.
-/

namespace Subplans.Injection

open Outcome FileTree

variable {σ : Type} {get : σ → FileTree} {set : FileTree → σ → σ} {i : Injection (StateM σ)} {directory sql : String}
  {g : QueryGraph} {t : FileTree} {estimation : Estimation (StateM σ)}

-- Both files with estimates are as they were.
def Untouched (settings : InjectionSettings) (directory : String) (t t' : FileTree) : Prop :=
  ∀ name ∈ [settings.tableEstimates, settings.joinEstimates], Agree t t' (Files.path directory name)

def IsLog (i : Injection (StateM σ)) (directory file : String) : Prop :=
  placeOf file ∈ [i.tableLog directory, i.joinLog directory].map placeOf

-- The server has this data directory, and it writes no files but the logs.
structure WritesOnlyLogs (i : Injection (StateM σ)) (get : σ → FileTree) (directory : String) : Prop where
  answer        : ∀ st d s, Yields (ExceptT.mk i.backend.dataDirectory) st d s → d = directory
  dataDirectory : ∀ file, ¬i.IsLog directory file → ∀ t,
    Keeps (fun s => Agree t (get s) file) (ExceptT.mk i.backend.dataDirectory)
  explain       : ∀ file, ¬i.IsLog directory file → ∀ t sql settings,
    Keeps (fun s => Agree t (get s) file) (ExceptT.mk (i.backend.explain sql settings))
  count         : ∀ file, ¬i.IsLog directory file → ∀ t sql,
    Keeps (fun s => Agree t (get s) file) (ExceptT.mk (i.backend.count sql))

-- The run leaves the files with estimates alone, whether it fails or not.
def LeavesAlone {α ε : Type} (i : Injection (StateM σ)) (get : σ → FileTree) (directory : String)
    (x : ExceptT ε (StateM σ) α) : Prop :=
  ∀ t, Keeps (fun s => Untouched i.settings directory t (get s)) x

theorem not_isLog (hdistinct : Distinct i.settings directory) :
    ∀ name ∈ [i.settings.tableEstimates, i.settings.joinEstimates], ¬i.IsLog directory (Files.path directory name) := by
  simp only [Distinct, List.map_cons, List.map_nil, List.nodup_cons, List.mem_cons, List.not_mem_nil, or_false,
    not_or] at hdistinct
  obtain ⟨⟨-, htables⟩, hjoins, -⟩ := hdistinct
  simp only [List.mem_cons, List.not_mem_nil, or_false, forall_eq_or_imp, forall_eq, IsLog, List.map_cons, List.map_nil,
    not_or]
  exact ⟨htables, hjoins⟩

theorem leavesAlone {α ε : Type} {x : ExceptT ε (StateM σ) α} (hdistinct : Distinct i.settings directory)
    (h : ∀ file, ¬i.IsLog directory file → ∀ t, Keeps (fun s => Agree t (get s) file) x) :
    i.LeavesAlone get directory x :=
  fun t s hs name hname => h _ (not_isLog hdistinct name hname) t s (hs name hname)

theorem leavesAlone_estimateAll {e : Estimator (StateM σ)} {s : Schema} {queries : List (Option QueryGraph)}
    (h : ∀ q, i.LeavesAlone get directory (e.connected s q)) :
    i.LeavesAlone get directory (e.estimateAll s queries) := by
  intro t
  have hfactors : ∀ product factors, Keeps (fun s => Untouched i.settings directory t (get s))
      (e.estimateFactors s product factors) := by
    intro product factors
    induction factors generalizing product
    case nil => exact keeps_pure
    case cons q factors ih =>
      refine keeps_bind (h q t) fun x _ _ _ => ?_
      split
      case isTrue => exact keeps_pure
      case isFalse => exact ih (product * x)
  refine keeps_mapM fun query _ => ?_
  rcases query with _ | q
  case none => exact keeps_pure
  case some =>
    rw [Estimator.estimate]
    split
    case isTrue => exact hfactors 1 (q.factors s)
    case isFalse => exact h q t

theorem leavesAlone_estimates {x : Wanted} (hestimation : ∀ queries, i.LeavesAlone get directory (estimation queries)) :
    i.LeavesAlone get directory (estimates estimation x.tables x.joins x.infos) := by
  intro t
  rw [estimates]
  refine keeps_bind (keeps_adapt (hestimation _ t)) fun all _ _ _ => ?_
  dsimp only
  split
  case h_1 => exact keeps_pure
  case h_2 =>
    split
    case h_1 => exact keeps_pure
    case h_2 => exact keeps_throw

section Server

variable (hdistinct : Distinct i.settings directory) (hwrites : i.WritesOnlyLogs get directory)
include hdistinct hwrites

theorem leavesAlone_explain {settings : List String} {s : σ}
    (h : Untouched i.settings directory t (get s)) :
    Untouched i.settings directory t (get ((i.backend.explain sql settings).run s).run.2) :=
  leavesAlone hdistinct (fun file hfile t => hwrites.explain file hfile t sql settings) t s h

theorem leavesAlone_occurrence {table : Nat} {clauses : Clauses} {a : String} :
    i.LeavesAlone get directory (i.backend.occurrence i.schema table clauses a) := by
  intro t
  unfold Backend.occurrence
  dsimp only
  split
  case isTrue => exact keeps_pure
  case isFalse =>
    refine keeps_bind (keeps_lift fun s hs => leavesAlone_explain hdistinct hwrites hs) fun outcome _ _ _ => ?_
    rcases outcome with (_ | _) | _
    all_goals first | exact keeps_pure | exact keeps_throw

theorem leavesAlone_ofTable {number : Nat} {e : TableEntry} :
    i.LeavesAlone get directory (LoggedQuery.ofTable i.schema i.backend number e) := by
  intro t
  unfold LoggedQuery.ofTable
  dsimp only
  split
  case isTrue => exact keeps_pure
  case isFalse =>
    split
    case h_1 => exact keeps_throw
    case h_2 =>
      exact keeps_bind (keeps_adapt (leavesAlone_occurrence hdistinct hwrites t)) fun _ _ _ _ => keeps_pure

theorem leavesAlone_ofEntries {tables : List TableEntry} {joins : List JoinEntry} :
    i.LeavesAlone get directory (LoggedQueries.ofEntries i.schema i.backend i.onlyInner tables joins) := fun t =>
  keeps_bind (keeps_mapM fun _ _ => leavesAlone_ofTable hdistinct hwrites t) fun _ _ _ _ => keeps_mk_pure

-- So do all sources of estimates.
theorem leavesAlone_source {source : EstimateSource} {queries : List (Option QueryGraph)} :
    i.LeavesAlone get directory ((source.estimator i.backend).estimateAll i.schema queries) := by
  refine leavesAlone_estimateAll fun q t => ?_
  cases source
  case planner =>
    refine keeps_bind (keeps_lift fun s hs => leavesAlone_explain hdistinct hwrites hs) fun outcome _ _ _ => ?_
    rcases outcome with (_ | _) | _
    all_goals first | exact keeps_pure | exact keeps_throw
  case count =>
    have hcount := leavesAlone hdistinct (fun file hfile t => hwrites.count file hfile t (q.sql i.schema true)) t
    refine keeps_bind (keeps_lift hcount) fun outcome _ _ _ => ?_
    rcases outcome with (_ | _) | _
    all_goals first | exact keeps_pure | exact keeps_throw
  case nothing => exact keeps_pure

theorem leavesAlone_gather {collect : String → ExceptT InjectionError (StateM σ) Wanted}
    (hestimation : ∀ queries, i.LeavesAlone get directory (estimation queries))
    (hcollect : i.LeavesAlone get directory (collect directory)) :
    i.LeavesAlone get directory (i.gather estimation collect) := by
  intro t
  have hdirectory : i.LeavesAlone get directory i.directory := fun t =>
    keeps_adapt (leavesAlone hdistinct hwrites.dataDirectory t)
  refine keeps_bind (hdirectory t) fun d s s' hd => ?_
  obtain rfl := hwrites.answer s d s' (yields_adapt.mp hd)
  exact keeps_bind (hcollect t) fun _ _ _ _ =>
    keeps_bind (leavesAlone_estimates hestimation t) fun _ _ _ _ => keeps_pure

-- What goes wrong is told, and the files are as they were. Otherwise only writing them fails.
theorem untouched_of_stops {collect : String → ExceptT InjectionError (StateM σ) Wanted}
    {Collecting : String → σ → InjectionError → Prop} {st : σ} {e : InjectionError}
    (hestimation : ∀ queries, i.LeavesAlone get directory (estimation queries))
    (hcollect : i.LeavesAlone get directory (collect directory))
    (hfault : ∀ directory s e, Stops (collect directory) s e ↔ Collecting directory s e) :
    (i.Fault estimation collect Collecting st e → Stops (i.gather estimation collect >>= i.write) st e ∧
      Untouched i.settings directory (get st) (get (after (i.gather estimation collect >>= i.write) st))) ∧
    (Stops (i.gather estimation collect >>= i.write) st e → i.Fault estimation collect Collecting st e ∨
      ∃ x s, Yields (i.gather estimation collect) st x s ∧ Stops (i.write x) s e) := by
  constructor
  case left =>
    intro h
    have hstops := (stops_gather hfault).mpr h
    refine ⟨stops_bind.mpr (.inl hstops), ?_⟩
    rw [hstops.after_bind]
    exact leavesAlone_gather hdistinct hwrites hestimation hcollect (get st) st fun _ _ => .refl
  case right =>
    intro h
    exact (stops_bind.mp h).imp_left (stops_gather hfault).mp

end Server

section Access

variable (hfiles : i.files = FileTree.access get set)
include hfiles

theorem leavesAlone_loggedQueries {path : String} : i.LeavesAlone get directory (i.loggedQueries g path) := by
  intro t
  rw [loggedQueries, hfiles]
  refine keeps_bind (keeps_adapt keeps_read?) fun found _ _ _ => ?_
  cases found
  case none => exact keeps_pure
  case some => exact keeps_mk_pure

theorem leavesAlone_loggedEntries {α : Type} {read : Json → Option α} {path : String} :
    i.LeavesAlone get directory (i.loggedEntries read path) := by
  intro t
  rw [loggedEntries, hfiles]
  refine keeps_bind (keeps_adapt keeps_read?) fun found _ _ _ => ?_
  cases logEntries? read (found.getD "")
  case none => exact keeps_throw
  case some => exact keeps_pure

variable (hdistinct : Distinct i.settings directory) (hwrites : i.WritesOnlyLogs get directory)
  (hget : ∀ t s, get (set t s) = t)
include hdistinct hwrites hget

theorem leavesAlone_writeLogs : i.LeavesAlone get directory (i.writeLogs directory sql) := by
  intro t
  have hclear : ∀ file, i.IsLog directory file → i.LeavesAlone get directory (i.files.clear file) := by
    intro file hfile
    rw [hfiles]
    refine leavesAlone hdistinct fun other hother t => keeps_clear hget fun heq => hother ?_
    rwa [IsLog, heq]
  rw [writeLogs]
  refine keeps_bind (keeps_adapt (hclear _ (by simp [IsLog]) t)) fun _ _ _ _ => ?_
  refine keeps_bind (keeps_adapt (hclear _ (by simp [IsLog]) t)) fun _ _ _ _ => ?_
  refine keeps_bind (keeps_lift fun s hs => leavesAlone_explain hdistinct hwrites hs) fun outcome _ _ _ => ?_
  cases outcome
  case error => exact keeps_throw
  case ok => exact keeps_pure

theorem leavesAlone_wanted {withTables : Bool} : i.LeavesAlone get directory (i.wanted g withTables directory) :=
  fun t => keeps_bind (leavesAlone_writeLogs hfiles hdistinct hwrites hget t) fun _ _ _ _ =>
    keeps_bind (leavesAlone_loggedQueries hfiles t) fun _ _ _ _ =>
    keeps_bind (leavesAlone_loggedQueries hfiles t) fun _ _ _ _ => keeps_pure

theorem leavesAlone_wantedOfStatement {withTables : Bool} :
    i.LeavesAlone get directory (i.wantedOfStatement sql withTables directory) := by
  intro t
  have hrebuild : i.LeavesAlone get directory (i.rebuild directory sql) := fun t =>
    keeps_bind (leavesAlone_writeLogs hfiles hdistinct hwrites hget t) fun _ _ _ _ =>
      keeps_bind (leavesAlone_loggedEntries hfiles t) fun _ _ _ _ =>
      keeps_bind (leavesAlone_loggedEntries hfiles t) fun _ _ _ _ => leavesAlone_ofEntries hdistinct hwrites t
  exact keeps_bind (hrebuild t) fun _ _ _ _ => keeps_pure

end Access

theorem error_of_write {x : Gathered} {st : σ} {e : InjectionError} (h : Stops (i.write x) st e) : e = .file := by
  have hsave : ∀ {path text s}, Stops ((i.files.save path text).adapt fun _ => InjectionError.file) s e →
      e = .file := by
    intro path text s h
    obtain ⟨_, _, rfl⟩ := stops_adapt.mp h
    rfl
  have hlast : ∀ {path text s} {files : EstimateFiles},
      Stops (do (i.files.save path text).adapt fun _ => InjectionError.file; return files) s e → e = .file := by
    intro path text s files h
    rcases stops_bind.mp h with h | ⟨_, _, _, h⟩
    case inl => exact hsave h
    case inr => exact absurd h stops_pure
  rw [write] at h
  dsimp only at h
  split at h
  case isTrue =>
    rcases stops_bind.mp h with h | ⟨_, _, _, h⟩
    case inl => exact hsave h
    case inr => exact hlast h
  case isFalse => exact hlast h

-- For statements and for queries: a fault is told and leaves the files as they were. Where there is none, nothing fails
-- but writing them.
theorem untouched_of_fault (hget : ∀ t s, get (set t s) = t) (hfiles : i.files = FileTree.access get set)
    (hdistinct : Distinct i.settings directory) (hwrites : i.WritesOnlyLogs get directory)
    (hestimation : ∀ queries, i.LeavesAlone get directory (estimation queries)) :
    (∀ sql withTables st e,
      (i.Fault estimation (i.wantedOfStatement sql withTables) (i.StatementFault get sql) st e →
        Stops (i.prepareStatement estimation sql withTables) st e ∧
        Untouched i.settings directory (get st) (get (after (i.prepareStatement estimation sql withTables) st))) ∧
      (Stops (i.prepareStatement estimation sql withTables) st e →
        i.Fault estimation (i.wantedOfStatement sql withTables) (i.StatementFault get sql) st e ∨
        ∃ x s, Yields (i.gather estimation (i.wantedOfStatement sql withTables)) st x s ∧ Stops (i.write x) s e)) ∧
    ∀ g withTables st e,
      (i.Fault estimation (i.wanted g withTables) (i.QueryFault get g) st e →
        Stops (i.prepare estimation g withTables) st e ∧
        Untouched i.settings directory (get st) (get (after (i.prepare estimation g withTables) st))) ∧
      (Stops (i.prepare estimation g withTables) st e →
        i.Fault estimation (i.wanted g withTables) (i.QueryFault get g) st e ∨
        ∃ x s, Yields (i.gather estimation (i.wanted g withTables)) st x s ∧ Stops (i.write x) s e) := by
  constructor
  case left =>
    intro sql withTables st e
    rw [prepareStatement_eq]
    exact untouched_of_stops hdistinct hwrites hestimation
      (leavesAlone_wantedOfStatement hfiles hdistinct hwrites hget) fun _ _ _ => stops_wantedOfStatement hfiles
  case right =>
    intro g withTables st e
    rw [prepare_eq]
    exact untouched_of_stops hdistinct hwrites hestimation (leavesAlone_wanted hfiles hdistinct hwrites hget)
      fun _ _ _ => stops_wanted hfiles

-- A scripted server whose only files are the logs.
theorem writesOnlyLogs_script {script : BackendScript} {i : Injection (StateM BackendSession)}
    (hbackend : i.backend = script.backend) (hdirectory : script.directory = some directory)
    (hlogs : ∀ log ∈ script.logs, log.1 ∈ [i.settings.tableLog, i.settings.joinLog]) :
    i.WritesOnlyLogs BackendSession.tree directory := by
  have hcheck : ∀ {file t sql settings}, Keeps (fun s => Agree t (BackendSession.tree s) file)
      (script.check sql settings) := by
    intro file t sql settings
    refine keeps_bind (fun _ hs => hs) fun _ _ _ _ => ?_
    split
    case h_1 => exact keeps_throw
    case h_2 => exact keeps_pure
  have hwriteLogs : ∀ {file t settings}, ¬i.IsLog directory file →
      Keeps (fun s => Agree t (BackendSession.tree s) file) (script.writeLogs settings) := by
    intro file t settings hfile
    rw [BackendScript.writeLogs, hdirectory]
    cases settings.any (Text.contains · BackendScript.loggingMark)
    case false => exact keeps_pure
    case true =>
      refine keeps_forM fun log hlog => keeps_adapt (keeps_save (fun _ _ => rfl) fun heq => hfile ?_)
      have hname := hlogs log hlog
      simp only [List.mem_cons, List.not_mem_nil, or_false] at hname
      rcases hname with hname | hname
      · simp [IsLog, tableLog, heq, hname]
      · simp [IsLog, joinLog, heq, hname]
  constructor
  case answer =>
    intro st d s h
    rw [hbackend] at h
    have hanswer : script.dataDirectory = .ok d := (yields_mk_pure.mp h).1
    rw [BackendScript.dataDirectory, hdirectory] at hanswer
    split at hanswer <;> simp_all
  case dataDirectory =>
    rw [hbackend]
    exact fun _ _ _ => keeps_mk_pure
  case explain =>
    intro file hfile t sql settings
    rw [hbackend]
    exact keeps_bind hcheck fun _ _ _ _ => keeps_bind (hwriteLogs hfile) fun _ _ _ _ => keeps_pure
  case count =>
    intro file hfile t sql
    rw [hbackend]
    exact keeps_bind hcheck fun _ _ _ _ => keeps_pure

-- The connection is lost when the join is to be estimated.
def interrupted : Estimator (StateM BackendSession) where
  connected _ g := if g.realNodes.length ≤ 1 then pure 1 else throw (.connection "lost")

def interruption : Estimation (StateM BackendSession) :=
  interrupted.estimateAll filmsInjection.schema

theorem stops_interruption : Stops (filmsInjection.prepareStatement interruption "SELECT 1" true) leftover
    (.backend (.connection "lost")) := by
  unfold Stops
  decide +kernel

-- The estimates that another query has left are still there.
theorem untouched_of_fault_interruption :
    filmsInjection.Fault interruption (filmsInjection.wantedOfStatement "SELECT 1" true)
      (filmsInjection.StatementFault BackendSession.tree "SELECT 1") leftover (.backend (.connection "lost")) ∧
    Stops (filmsInjection.prepareStatement interruption "SELECT 1" true) leftover (.backend (.connection "lost")) ∧
    Untouched filmsInjection.settings "/data" leftover.tree
      (after (filmsInjection.prepareStatement interruption "SELECT 1" true) leftover).tree := by
  have hdistinct : Distinct filmsInjection.settings "/data" :=
    distinct_of_names rfl (by simp [IsName, filmsInjection]) (by decide)
  have hwrites : filmsInjection.WritesOnlyLogs BackendSession.tree "/data" := writesOnlyLogs_script rfl rfl (by decide)
  have hestimation : ∀ queries, filmsInjection.LeavesAlone BackendSession.tree "/data" (interruption queries) := by
    refine fun _ => leavesAlone_estimateAll fun g t => ?_
    unfold interrupted
    dsimp only
    split
    case isTrue => exact keeps_pure
    case isFalse => exact keeps_throw
  obtain ⟨htold, hfault⟩ := (untouched_of_fault (fun _ _ => rfl) rfl hdistinct hwrites hestimation).1 "SELECT 1" true
    leftover (.backend (.connection "lost"))
  rcases hfault stops_interruption with hfault | ⟨_, _, _, hwrite⟩
  case inl => exact ⟨hfault, htold hfault⟩
  -- That a file cannot be written is another error.
  case inr => cases error_of_write hwrite

end Subplans.Injection
