import Mathlib.Data.List.Basic
import Subplans.Proofs.Injection.Handover

/-!
What can go wrong before estimates are written.

The causes are listed for each step, with the error that tells of them. A step fails if and only if one of them is there
(`stops_handOver`), so none is passed over.
-/

namespace Subplans

open Outcome FileTree

namespace OrderLog

variable {s : Schema} {g : QueryGraph} {line : List Char} {text a : String} {e : InjectionError}

-- The aliases that a line tells of, unless it is malformed.
def aliases? (line : List Char) : Option (List String) :=
  let line := Text.trimStart line
  if tablesMark.isPrefixOf line then (Json.read? (String.ofList (value line))).bind (Json.list? Json.string?)
  else if tableMark.isPrefixOf line then
    some [String.ofList (dropEnd Text.nameMark ((value line).dropWhile (· == Text.nameMark)))]
  else some []

-- Of the unknown aliases in a line the first is told.
inductive LineFault (g : QueryGraph) (line : List Char) : InjectionError → Prop
  | malformed : aliases? line = none → LineFault g line .malformedLog
  | unknownAlias {before after : List String} {a : String} : aliases? line = some (before ++ a :: after) →
    (∀ b ∈ before, (g.realNode? b).isSome) → g.realNode? a = none → LineFault g line (.unknownAlias a)

-- Of the faults in a log the first is told.
inductive TextFault (g : QueryGraph) (text : String) : InjectionError → Prop
  | line {before after : List (List Char)} {line : List Char} {e : InjectionError} :
    Text.splitOn ['\n'] text.toList = before ++ line :: after → (∀ l ∈ before, ∃ found, lineNodes g l = .ok found) →
    LineFault g line e → TextFault g text e

theorem node_eq_error : node g a = .error e ↔ g.realNode? a = none ∧ .unknownAlias a = e := by
  unfold node
  cases g.realNode? a <;> simp

theorem exists_node_eq_ok : (∃ n, node g a = .ok n) ↔ (g.realNode? a).isSome := by
  unfold node
  cases g.realNode? a <;> simp

theorem mapM_node_eq_error {aliases : List String} : aliases.mapM (node g) = .error e ↔ ∃ before a after,
    aliases = before ++ a :: after ∧ (∀ b ∈ before, (g.realNode? b).isSome) ∧ g.realNode? a = none ∧
      .unknownAlias a = e := by
  simp only [mapM_eq_error, exists_node_eq_ok, node_eq_error]

-- A line tells of the nodes of its aliases.
theorem lineNodes_eq_error_iff : lineNodes g line = .error e ↔
    (aliases? line = none ∧ .malformedLog = e) ∨ ∃ aliases, aliases? line = some aliases ∧
      aliases.mapM (node g) = .error e := by
  unfold lineNodes aliases?
  dsimp only
  split
  case isTrue =>
    cases (Json.read? (String.ofList (value (Text.trimStart line)))).bind (Json.list? Json.string?)
    case none => simp
    case some aliases => cases haliases : aliases.mapM (node g) <;> simp [haliases, Except.map]
  case isFalse =>
    split
    case isTrue =>
      generalize String.ofList _ = a
      cases ha : node g a <;> simp [List.mapM_cons, ha, Except.map, bind, Except.bind, pure, Except.pure]
    case isFalse => simp [pure, Except.pure]

theorem lineNodes_eq_error : lineNodes g line = .error e ↔ LineFault g line e := by
  rw [lineNodes_eq_error_iff]
  simp only [mapM_node_eq_error]
  constructor
  case mp =>
    rintro (⟨hnone, rfl⟩ | ⟨_, haliases, before, a, after, rfl, hbefore, ha, rfl⟩)
    case inl => exact .malformed hnone
    case inr => exact .unknownAlias haliases hbefore ha
  case mpr =>
    rintro (hnone | ⟨haliases, hbefore, ha⟩)
    case malformed => exact .inl ⟨hnone, rfl⟩
    case unknownAlias => exact .inr ⟨_, haliases, _, _, _, rfl, hbefore, ha, rfl⟩

theorem queries_eq_error : queries s g text = .error e ↔ TextFault g text e := by
  have hqueries : queries s g text = .error e ↔ (Text.splitOn ['\n'] text.toList).mapM (lineNodes g) = .error e := by
    unfold queries nodes
    cases (Text.splitOn ['\n'] text.toList).mapM (lineNodes g) <;> simp [bind, Except.bind, pure, Except.pure]
  simp only [hqueries, mapM_eq_error, lineNodes_eq_error]
  constructor
  case mp =>
    rintro ⟨before, line, after, htext, hbefore, hline⟩
    exact .line htext hbefore hline
  case mpr =>
    rintro ⟨htext, hbefore, hline⟩
    exact ⟨_, _, _, htext, hbefore, hline⟩

end OrderLog

variable {σ : Type} {s : Schema} {b : Backend (StateM σ)} {onlyInner : Bool} {st : σ} {k : Nat} {err : InjectionError}

-- The clauses of a table in a log.
def TableEntry.clauses (s : Schema) (table : Nat) (e : TableEntry) : Clauses :=
  ({ schema := s, table, aliasName := e.aliasName, bareLists := true } : Scope).clauses
    (e.predicates.map fun p => "(" ++ p ++ ")")

namespace LoggedQuery

-- The server has told the table and its predicates.
def Told (e : TableEntry) : Prop :=
  e.table ≠ noTable ∧ ∀ p ∈ e.predicates, Text.contains p noPredicate = false

-- That planning takes too long is no fault.
inductive TableFault (s : Schema) (b : Backend (StateM σ)) (st : σ) (e : TableEntry) : InjectionError → Prop
  | unknownTable : Told e → s.table? e.table = none → TableFault s b st e (.unknownTable e.table)
  | backend {table : Nat} {error : BackendError} : Told e → s.table? e.table = some table →
    (e.clauses s table).isEmpty = false →
    Stops (ExceptT.mk (b.explain (Occurrence.sql s table (e.clauses s table) e.aliasName) [])) st error →
    error ≠ .timeout → TableFault s b st e (.backend error)

-- Of the unknown inputs of a join the first is told, unless one before it is left without a query.
inductive JoinFault (onlyInner : Bool) (log : List LoggedQuery) (e : JoinEntry) : InjectionError → Prop
  | unknownType : onlyInner = false → JoinType.named? e.joinType = none →
    JoinFault onlyInner log e (.unknownJoinType e.joinType)
  | unknownInput {type : JoinType} {before after : List InputEntry} {input : InputEntry}
      {found : List (LoggedQuery × QueryGraph)} : joinType? onlyInner e.joinType = .ok (some type) →
    e.inputs = before ++ input :: after → List.Forall₂ (Resolves log) before found → input.id ≠ notLogged →
    find? log input.id = none → JoinFault onlyInner log e (.unknownSubplan input.id)
  | inputCount {type : JoinType} {found : List (LoggedQuery × QueryGraph)} :
    joinType? onlyInner e.joinType = .ok (some type) → List.Forall₂ (Resolves log) e.inputs found →
    e.inputs.length ≠ 2 → JoinFault onlyInner log e (.inputCount e.id e.inputs.length)

theorem stops_occurrence {table : Nat} {clauses : Clauses} {a : String} {error : BackendError} :
    Stops (b.occurrence s table clauses a) st error ↔ clauses.isEmpty = false ∧
      Stops (ExceptT.mk (b.explain (Occurrence.sql s table clauses a) [])) st error ∧ error ≠ .timeout := by
  unfold Backend.occurrence
  dsimp only
  split
  case isTrue hempty => simp [hempty, stops_pure]
  case isFalse hempty =>
    have hrun : ∀ {error}, Stops (ExceptT.mk (b.explain (Occurrence.sql s table clauses a) [])) st error ↔
        ((b.explain (Occurrence.sql s table clauses a) []).run st).run.1 = .error error := .rfl
    rw [stops_lift_bind, hrun, and_iff_right (by simpa using hempty)]
    generalize ((b.explain (Occurrence.sql s table clauses a) []).run st).run.2 = s₁
    rcases ((b.explain (Occurrence.sql s table clauses a) []).run st).run.1 with (_ | _) | _ <;>
      simp [stops_pure, stops_throw]
    all_goals grind

theorem stops_ofTable {e : TableEntry} : Stops (ofTable s b k e) st err ↔ TableFault s b st e err := by
  have htold : (e.table == noTable || e.predicates.any (Text.contains · noPredicate)) = true ↔ ¬Told e := by
    simp [Told, or_iff_not_imp_left]
  unfold ofTable
  dsimp only
  split
  case isTrue h =>
    rw [htold] at h
    refine iff_of_false stops_pure ?_
    rintro (htold | htold)
    · exact h htold
    · exact h htold
  case isFalse h =>
    rw [htold, not_not] at h
    split
    case h_1 hnone =>
      rw [stops_throw]
      constructor
      case mp =>
        rintro rfl
        exact .unknownTable h hnone
      case mpr =>
        rintro (_ | ⟨_, hsome, _⟩)
        case unknownTable => rfl
        case backend => simp [hnone] at hsome
    case h_2 table hsome =>
      rw [stops_bind]
      simp only [stops_adapt, stops_pure, and_false, exists_false, or_false, stops_occurrence]
      constructor
      case mp =>
        rintro ⟨error, ⟨hclauses, hstops, herror⟩, rfl⟩
        exact .backend h hsome hclauses hstops herror
      case mpr =>
        rintro (⟨_, hnone⟩ | ⟨_, hsome', hclauses, hstops, herror⟩)
        case unknownTable => simp [hsome] at hnone
        case backend =>
          cases hsome.symm.trans hsome'
          exact ⟨_, ⟨hclauses, hstops, herror⟩, rfl⟩

theorem joinType?_eq_error {name : String} : joinType? onlyInner name = .error err ↔
    onlyInner = false ∧ JoinType.named? name = none ∧ .unknownJoinType name = err := by
  have hinner : name = JoinType.inner.name → JoinType.named? name ≠ none := by
    rintro rfl
    decide
  unfold joinType?
  cases onlyInner <;> cases htype : JoinType.named? name <;> grind

variable {log : List LoggedQuery} {inputs : List InputEntry} {found : List (LoggedQuery × QueryGraph)}

theorem inputs?_cons {input : InputEntry} {p : LoggedQuery × QueryGraph} (h : Resolves log input p) :
    inputs? log (input :: inputs) = (inputs? log inputs).map (Option.map (p :: ·)) := by
  rw [inputs?, if_neg (by simpa using h.logged)]
  simp only [h.found, h.query, h.joinable, if_true]

theorem inputs?_of_resolves (h : List.Forall₂ (Resolves log) inputs found) :
    inputs? log inputs = .ok (some found) := by
  induction h
  case nil => rfl
  case cons hinput _ ih => rw [inputs?_cons hinput, ih, Except.map, Option.map_some]

theorem inputs?_eq_error : inputs? log inputs = .error err ↔ ∃ before input after found,
    inputs = before ++ input :: after ∧ List.Forall₂ (Resolves log) before found ∧ input.id ≠ notLogged ∧
      find? log input.id = none ∧ .unknownSubplan input.id = err := by
  constructor
  case mp =>
    intro h
    induction inputs
    case nil => cases h
    case cons input inputs ih =>
      by_cases hresolves : ∃ p, Resolves log input p
      case pos =>
        obtain ⟨p, hp⟩ := hresolves
        rw [inputs?_cons hp] at h
        have hrest : inputs? log inputs = .error err := by
          cases hrest : inputs? log inputs <;> simp_all [Except.map]
        obtain ⟨before, unknown, after, found, rfl, hbefore, hunknown⟩ := ih hrest
        exact ⟨input :: before, unknown, after, p :: found, rfl, .cons hp hbefore, hunknown⟩
      case neg =>
        rw [inputs?] at h
        split at h
        case isTrue => cases h
        case isFalse hlogged =>
          split at h
          case h_1 hnone =>
            cases h
            exact ⟨[], input, inputs, [], rfl, .nil, by simpa using hlogged, hnone, rfl⟩
          case h_2 q hq =>
            split at h
            case h_1 => cases h
            case h_2 query hquery =>
              split at h
              case isTrue hjoinable =>
                exact absurd ⟨(q, query), by simpa using hlogged, hq, hquery, hjoinable⟩ hresolves
              case isFalse => cases h
  case mpr =>
    rintro ⟨before, input, after, found, rfl, hbefore, hlogged, hnone, rfl⟩
    induction hbefore
    case nil => rw [List.nil_append, inputs?, if_neg (by simpa using hlogged), hnone]
    case cons hinput _ ih => rw [List.cons_append, inputs?_cons hinput, ih, Except.map]

theorem ofJoin_eq_error {e : JoinEntry} :
    ofJoin s onlyInner log k e = .error err ↔ JoinFault onlyInner log e err := by
  unfold ofJoin
  dsimp only
  constructor
  case mp =>
    intro h
    rcases bind_eq_error.mp h with h | ⟨type?, htype, h⟩
    case inl =>
      obtain ⟨rfl, hnone, rfl⟩ := joinType?_eq_error.mp h
      exact .unknownType rfl hnone
    case inr =>
      split at h
      case h_2 => cases h
      case h_1 type =>
        rcases bind_eq_error.mp h with h | ⟨found?, hfound, h⟩
        case inl =>
          obtain ⟨before, input, after, found, heq, hbefore, hlogged, hnone, rfl⟩ := inputs?_eq_error.mp h
          exact .unknownInput htype heq hbefore hlogged hnone
        case inr =>
          split at h
          case h_2 => cases h
          case h_1 found =>
            have hresolves := resolves_of_inputs? hfound
            split at h
            case h_1 => split at h <;> cases h
            case h_2 hpair =>
              cases h
              rw [← hresolves.length_eq]
              refine .inputCount htype hresolves fun htwo => ?_
              rw [hresolves.length_eq] at htwo
              obtain ⟨outer, inner, rfl⟩ := List.length_eq_two.mp htwo
              exact hpair _ _ _ _ rfl
  case mpr =>
    rintro (⟨hall, hnone⟩ | ⟨htype, heq, hbefore, hlogged, hnone⟩ | ⟨htype, hresolves, hcount⟩)
    case unknownType => exact bind_eq_error.mpr (.inl (joinType?_eq_error.mpr ⟨hall, hnone, rfl⟩))
    case unknownInput =>
      have hinputs := inputs?_eq_error.mpr ⟨_, _, _, _, heq, hbefore, hlogged, hnone, rfl⟩
      exact bind_eq_error.mpr (.inr ⟨_, htype, bind_eq_error.mpr (.inl hinputs)⟩)
    case inputCount found =>
      have hinputs := inputs?_of_resolves hresolves
      refine bind_eq_error.mpr (.inr ⟨_, htype, bind_eq_error.mpr (.inr ⟨_, hinputs, ?_⟩)⟩)
      rw [hresolves.length_eq] at hcount ⊢
      dsimp only
      split
      case h_1 => exact absurd rfl hcount
      case h_2 => rfl

end LoggedQuery

namespace LoggedQueries

variable {tables : List TableEntry} {joins : List JoinEntry}

-- Of the faults in the entries the first is told, those for tables before those for joins.
inductive EntryFault (s : Schema) (b : Backend (StateM σ)) (onlyInner : Bool) (tables : List TableEntry)
    (joins : List JoinEntry) (st : σ) : InjectionError → Prop
  | table {before after : List TableEntry} {e : TableEntry} {logged : LoggedQueries} {s₁ : σ} {err : InjectionError} :
    tables = before ++ e :: after → Yields (ofEntries s b onlyInner before []) st logged s₁ →
    LoggedQuery.TableFault s b s₁ e err → EntryFault s b onlyInner tables joins st err
  | join {before after : List JoinEntry} {e : JoinEntry} {logged : LoggedQueries} {s₁ : σ} {err : InjectionError} :
    joins = before ++ e :: after → Yields (ofEntries s b onlyInner tables before) st logged s₁ →
    LoggedQuery.JoinFault onlyInner (logged.tables ++ logged.joins) e err → EntryFault s b onlyInner tables joins st err

theorem addJoins_eq_error {q : LoggedQueries} : addJoins s onlyInner q k joins = .error err ↔
    ∃ before e after logged, joins = before ++ e :: after ∧ addJoins s onlyInner q k before = .ok logged ∧
      LoggedQuery.JoinFault onlyInner (logged.tables ++ logged.joins) e err := by
  constructor
  case mp =>
    intro h
    induction joins generalizing q k
    case nil => cases h
    case cons e joins ih =>
      rw [addJoins] at h
      rcases bind_eq_error.mp h with h | ⟨join, hjoin, h⟩
      case inl => exact ⟨[], e, joins, q, rfl, rfl, LoggedQuery.ofJoin_eq_error.mp h⟩
      case inr =>
        obtain ⟨before, e', after, logged, rfl, hbefore, hfault⟩ := ih h
        exact ⟨e :: before, e', after, logged, rfl, bind_eq_ok.mpr ⟨join, hjoin, hbefore⟩, hfault⟩
  case mpr =>
    rintro ⟨before, e, after, logged, rfl, hbefore, hfault⟩
    induction before generalizing q k
    case nil =>
      cases hbefore
      exact bind_eq_error.mpr (.inl (LoggedQuery.ofJoin_eq_error.mpr hfault))
    case cons e' before ih =>
      obtain ⟨join, hjoin, hbefore⟩ := bind_eq_ok.mp hbefore
      exact bind_eq_error.mpr (.inr ⟨join, hjoin, ih hbefore⟩)

theorem stops_ofTables : Stops (tables.zipIdx.mapM fun (e, number) => LoggedQuery.ofTable s b number e) st err ↔
    ∃ before e after qs s₁, tables = before ++ e :: after ∧
      Yields (before.zipIdx.mapM fun (e, number) => LoggedQuery.ofTable s b number e) st qs s₁ ∧
      LoggedQuery.TableFault s b s₁ e err := by
  rw [stops_mapM]
  constructor
  case mp =>
    rintro ⟨_, _, _, qs, s₁, heq, hbefore, hfault⟩
    obtain ⟨before, rest, rfl, rfl, hrest⟩ := List.zipIdx_eq_append_iff.mp heq
    obtain ⟨e, after, rfl, rfl, rfl⟩ := List.zipIdx_eq_cons_iff.mp hrest.symm
    exact ⟨before, e, after, qs, s₁, rfl, hbefore, LoggedQuery.stops_ofTable.mp hfault⟩
  case mpr =>
    rintro ⟨before, e, after, qs, s₁, rfl, hbefore, hfault⟩
    exact ⟨before.zipIdx, (e, 0 + before.length), after.zipIdx (0 + before.length + 1), qs, s₁,
      by rw [List.zipIdx_append, List.zipIdx_cons], hbefore, LoggedQuery.stops_ofTable.mpr hfault⟩

theorem yields_ofEntries {logged : LoggedQueries} {st' : σ} :
    Yields (ofEntries s b onlyInner tables joins) st logged st' ↔ ∃ qs,
      Yields (tables.zipIdx.mapM fun (e, number) => LoggedQuery.ofTable s b number e) st qs st' ∧
      addJoins s onlyInner { tables := qs, joins := [] } 0 joins = .ok logged := by
  rw [ofEntries, yields_bind]
  simp only [yields_mk_pure]
  grind

theorem stops_ofEntries : Stops (ofEntries s b onlyInner tables joins) st err ↔
    EntryFault s b onlyInner tables joins st err := by
  rw [ofEntries, stops_bind, stops_ofTables]
  simp only [stops_mk_pure, addJoins_eq_error]
  constructor
  case mp =>
    rintro (⟨before, e, after, qs, s₁, rfl, hbefore, hfault⟩ |
      ⟨qs, s₁, hqs, before, e, after, logged, rfl, hbefore, hfault⟩)
    case inl => exact .table rfl (yields_ofEntries.mpr ⟨qs, hbefore, rfl⟩) hfault
    case inr => exact .join rfl (yields_ofEntries.mpr ⟨qs, hqs, hbefore⟩) hfault
  case mpr =>
    rintro (⟨rfl, hbefore, hfault⟩ | ⟨rfl, hbefore, hfault⟩)
    case table =>
      have ⟨qs, hqs, _⟩ := yields_ofEntries.mp hbefore
      exact .inl ⟨_, _, _, qs, _, rfl, hqs, hfault⟩
    case join =>
      have ⟨qs, hqs, hadded⟩ := yields_ofEntries.mp hbefore
      exact .inr ⟨qs, _, hqs, _, _, _, _, rfl, hadded, hfault⟩

end LoggedQueries

namespace Injection

section Steps

variable {m : Type → Type} [Monad m]

-- The queries whose estimates are wanted, and what is told of the joins.
structure Wanted where
  tables : List (Option QueryGraph)
  joins  : List (Option QueryGraph)
  infos  : Option (List (Option JoinInfo))

def wanted (i : Injection m) (g : QueryGraph) (withTables : Bool) (directory : String) :
    ExceptT InjectionError m Wanted := do
  i.writeLogs directory (g.sql i.schema false)
  let tables ← i.loggedQueries g (i.tableLog directory)
  let joins ← i.loggedQueries g (i.joinLog directory)
  return { tables := if withTables then tables.map some else [], joins := joins.map some, infos := none }

def wantedOfStatement (i : Injection m) (sql : String) (withTables : Bool) (directory : String) :
    ExceptT InjectionError m Wanted := do
  let logged ← i.rebuild directory sql
  return {
    tables := if withTables then logged.tables.map LoggedQuery.complete? else []
    joins := logged.joins.map LoggedQuery.complete?
    infos := some (logged.joins.map LoggedQuery.join) }

-- What is written, and where.
structure Gathered where
  directory  : String
  withTables : Bool
  tables     : List Float
  joins      : List Float

def gather (i : Injection m) (estimation : Estimation m) (collect : String → ExceptT InjectionError m Wanted) :
    ExceptT InjectionError m Gathered := do
  let directory ← i.directory
  let wanted ← collect directory
  let (tables, joins) ← estimates estimation wanted.tables wanted.joins wanted.infos
  return { directory, withTables := !wanted.tables.isEmpty, tables, joins }

def write (i : Injection m) (x : Gathered) : ExceptT InjectionError m EstimateFiles := do
  let write := fun name estimates =>
    (i.files.save (Files.path x.directory name) (estimateText estimates)).adapt fun _ => InjectionError.file
  if x.withTables then write i.settings.tableEstimates x.tables
  write i.settings.joinEstimates x.joins
  return { tables := i.settings.tableEstimates, joins := i.settings.joinEstimates }

variable [LawfulMonad m] {i : Injection m} {estimation : Estimation m} {withTables : Bool}

-- Files are written after all else.
theorem prepare_eq {g : QueryGraph} :
    i.prepare estimation g withTables = i.gather estimation (i.wanted g withTables) >>= i.write := by
  simp only [prepare, gather, wanted, save, write, bind_assoc, pure_bind]

theorem prepareStatement_eq {sql : String} : i.prepareStatement estimation sql withTables =
    i.gather estimation (i.wantedOfStatement sql withTables) >>= i.write := by
  simp only [prepareStatement, gather, wantedOfStatement, save, write, bind_assoc, pure_bind]

end Steps

section Faults

variable {get : σ → FileTree} {set : FileTree → σ → σ} {i : Injection (StateM σ)} {directory sql path : String}
  {g : QueryGraph} {estimation : Estimation (StateM σ)} {collect : String → ExceptT InjectionError (StateM σ) Wanted}

-- An older log stays, or the server refuses to plan the statement.
inductive LogsFault (i : Injection (StateM σ)) (get : σ → FileTree) (directory sql : String) (st : σ) :
    InjectionError → Prop
  | tableLog : (get st).remove (i.tableLog directory) = .error .failed → LogsFault i get directory sql st .file
  | joinLog {s₁ : σ} : Yields (i.files.clear (i.tableLog directory)) st () s₁ →
    (get s₁).remove (i.joinLog directory) = .error .failed → LogsFault i get directory sql st .file
  | backend {s₁ s₂ : σ} {error : BackendError} : Yields (i.files.clear (i.tableLog directory)) st () s₁ →
    Yields (i.files.clear (i.joinLog directory)) s₁ () s₂ →
    Stops (ExceptT.mk (i.backend.explain sql i.settings.logging)) s₂ error →
    LogsFault i get directory sql st (.backend error)

inductive AliasesFault (g : QueryGraph) (t : FileTree) (path : String) : InjectionError → Prop
  | unreadable : t.read path = .error .failed → AliasesFault g t path .file
  | text {text : String} {e : InjectionError} : t.read path = .ok text → OrderLog.TextFault g text e →
    AliasesFault g t path e

inductive RecordsFault {α : Type} (read : Json → Option α) (t : FileTree) (path : String) : InjectionError → Prop
  | unreadable : t.read path = .error .failed → RecordsFault read t path .file
  | malformed : t.read path ≠ .error .failed → logEntries? read (t.contents path) = none →
    RecordsFault read t path .malformedLog

-- What keeps the queries of a query from being collected.
inductive QueryFault (i : Injection (StateM σ)) (get : σ → FileTree) (g : QueryGraph) (directory : String) (st : σ) :
    InjectionError → Prop
  | logs {e : InjectionError} : LogsFault i get directory (g.sql i.schema false) st e →
    QueryFault i get g directory st e
  | tables {asked : σ} {e : InjectionError} : Yields (i.writeLogs directory (g.sql i.schema false)) st () asked →
    AliasesFault g (get asked) (i.tableLog directory) e → QueryFault i get g directory st e
  | joins {asked : σ} {tables : List QueryGraph} {e : InjectionError} :
    Yields (i.writeLogs directory (g.sql i.schema false)) st () asked →
    Yields (i.loggedQueries g (i.tableLog directory)) asked tables asked →
    AliasesFault g (get asked) (i.joinLog directory) e → QueryFault i get g directory st e

-- What keeps the queries of a statement from being collected.
inductive StatementFault (i : Injection (StateM σ)) (get : σ → FileTree) (sql directory : String) (st : σ) :
    InjectionError → Prop
  | logs {e : InjectionError} : LogsFault i get directory sql st e → StatementFault i get sql directory st e
  | tables {asked : σ} {e : InjectionError} : Yields (i.writeLogs directory sql) st () asked →
    RecordsFault TableEntry.ofJson? (get asked) (i.tableLog directory) e → StatementFault i get sql directory st e
  | joins {asked : σ} {tables : List TableEntry} {e : InjectionError} : Yields (i.writeLogs directory sql) st () asked →
    Yields (i.loggedEntries TableEntry.ofJson? (i.tableLog directory)) asked tables asked →
    RecordsFault JoinEntry.ofJson? (get asked) (i.joinLog directory) e → StatementFault i get sql directory st e
  | entry {asked : σ} {tables : List TableEntry} {joins : List JoinEntry} {e : InjectionError} :
    Yields (i.writeLogs directory sql) st () asked →
    Yields (i.loggedEntries TableEntry.ofJson? (i.tableLog directory)) asked tables asked →
    Yields (i.loggedEntries JoinEntry.ofJson? (i.joinLog directory)) asked joins asked →
    LoggedQueries.EntryFault i.schema i.backend i.onlyInner tables joins asked e →
    StatementFault i get sql directory st e

inductive EstimatesFault (estimation : Estimation (StateM σ)) (x : Wanted) (st : σ) : InjectionError → Prop
  | backend {error : BackendError} : Stops (estimation (x.tables ++ x.joins)) st error →
    EstimatesFault estimation x st (.backend error)
  | count {all : List Float} {s₁ : σ} {infos : List (Option JoinInfo)} :
    Yields (estimation (x.tables ++ x.joins)) st all s₁ → x.infos = some infos →
    infos.length ≠ (all.drop x.tables.length).length →
    EstimatesFault estimation x st (.countMismatch ⟨infos.length, (all.drop x.tables.length).length⟩)

-- What keeps estimates from being gathered, if `Collecting` is what keeps queries from being collected.
inductive Fault (i : Injection (StateM σ)) (estimation : Estimation (StateM σ))
    (collect : String → ExceptT InjectionError (StateM σ) Wanted) (Collecting : String → σ → InjectionError → Prop)
    (st : σ) : InjectionError → Prop
  | directory {error : BackendError} : Stops (ExceptT.mk i.backend.dataDirectory) st error →
    Fault i estimation collect Collecting st (.backend error)
  | collecting {directory : String} {s₁ : σ} {e : InjectionError} :
    Yields (ExceptT.mk i.backend.dataDirectory) st directory s₁ → Collecting directory s₁ e →
    Fault i estimation collect Collecting st e
  | estimates {directory : String} {s₁ s₂ : σ} {x : Wanted} {e : InjectionError} :
    Yields (ExceptT.mk i.backend.dataDirectory) st directory s₁ → Yields (collect directory) s₁ x s₂ →
    EstimatesFault estimation x s₂ e → Fault i estimation collect Collecting st e

section Access

variable (hfiles : i.files = FileTree.access get set)
include hfiles

theorem stops_writeLogs : Stops (i.writeLogs directory sql) st err ↔ LogsFault i get directory sql st err := by
  have hclear : ∀ {file s e}, Stops (i.files.clear file) s e ↔ (get s).remove file = .error .failed ∧ e = .failed :=
    hfiles ▸ stops_clear
  rw [writeLogs, stops_bind]
  simp only [stops_bind (x := (i.files.clear (i.joinLog directory)).adapt _), stops_lift_bind, stops_adapt,
    yields_adapt, hclear]
  constructor
  case mp =>
    rintro (⟨_, ⟨hremove, -⟩, rfl⟩ | ⟨_, s₁, hs₁, ⟨_, ⟨hremove, -⟩, rfl⟩ | ⟨_, s₂, hs₂, hstops⟩⟩)
    · exact .tableLog hremove
    · exact .joinLog hs₁ hremove
    · split at hstops
      case h_1 => exact absurd hstops stops_pure
      case h_2 error herror =>
        cases stops_throw.mp hstops
        exact .backend hs₁ hs₂ herror
  case mpr =>
    rintro (hremove | ⟨hs₁, hremove⟩ | ⟨hs₁, hs₂, hstops⟩)
    case tableLog => exact .inl ⟨_, ⟨hremove, rfl⟩, rfl⟩
    case joinLog => exact .inr ⟨_, _, hs₁, .inl ⟨_, ⟨hremove, rfl⟩, rfl⟩⟩
    case backend s₁ s₂ error =>
      refine .inr ⟨_, _, hs₁, .inr ⟨_, _, hs₂, ?_⟩⟩
      have herror : ((i.backend.explain sql i.settings.logging).run s₂).run.1 = .error error := hstops
      rw [herror]
      exact stops_throw.mpr rfl

theorem stops_loggedQueries : Stops (i.loggedQueries g path) st err ↔ AliasesFault g (get st) path err := by
  rw [loggedQueries, hfiles, stops_bind]
  simp only [stops_adapt, yields_adapt, stops_read?, yields_read?_iff]
  constructor
  case mp =>
    rintro (⟨_, ⟨hread, -⟩, rfl⟩ | ⟨_, s₁, ⟨rfl, hfound, -⟩, hstops⟩)
    case inl => exact .unreadable hread
    case inr =>
      split at hstops
      case h_1 => exact absurd hstops stops_pure
      case h_2 text =>
        have htext : (get s₁).read path = .ok text := by
          cases hread : (get s₁).read path <;> simp_all [Except.toOption]
        exact .text htext (OrderLog.queries_eq_error.mp (stops_mk_pure.mp hstops))
  case mpr =>
    rintro (hread | ⟨htext, hfault⟩)
    case unreadable => exact .inl ⟨_, ⟨hread, rfl⟩, rfl⟩
    case text =>
      refine .inr ⟨_, _, ⟨rfl, rfl, by simp [htext]⟩, ?_⟩
      rw [htext]
      exact stops_mk_pure.mpr (OrderLog.queries_eq_error.mpr hfault)

theorem stops_loggedEntries {α : Type} {read : Json → Option α} :
    Stops (i.loggedEntries read path) st err ↔ RecordsFault read (get st) path err := by
  rw [loggedEntries, hfiles, stops_bind]
  simp only [stops_adapt, yields_adapt, stops_read?, yields_read?_iff]
  constructor
  case mp =>
    rintro (⟨_, ⟨hread, -⟩, rfl⟩ | ⟨_, _, ⟨rfl, rfl, hreadable⟩, hstops⟩)
    case inl => exact .unreadable hread
    case inr =>
      split at hstops
      case h_1 => exact absurd hstops stops_pure
      case h_2 hnone =>
        cases stops_throw.mp hstops
        exact .malformed hreadable hnone
  case mpr =>
    rintro (hread | ⟨hreadable, hnone⟩)
    case unreadable => exact .inl ⟨_, ⟨hread, rfl⟩, rfl⟩
    case malformed =>
      refine .inr ⟨_, _, ⟨rfl, rfl, hreadable⟩, ?_⟩
      have hnone : logEntries? read (((get st).read path).toOption.getD "") = none := hnone
      rw [hnone]
      exact stops_throw.mpr rfl

theorem stops_wanted {withTables : Bool} :
    Stops (i.wanted g withTables directory) st err ↔ QueryFault i get g directory st err := by
  rw [wanted, stops_bind]
  simp only [stops_bind, stops_pure, and_false, exists_false, or_false, stops_writeLogs hfiles,
    stops_loggedQueries hfiles]
  constructor
  case mp =>
    rintro (hstops | ⟨_, asked, hasked, hstops | ⟨tables, s₁, htables, hstops⟩⟩)
    · exact .logs hstops
    · exact .tables hasked hstops
    · obtain rfl := (of_loggedQueries hfiles htables).1
      exact .joins hasked htables hstops
  case mpr =>
    rintro (hstops | ⟨hasked, hstops⟩ | ⟨hasked, htables, hstops⟩)
    case logs => exact .inl hstops
    case tables => exact .inr ⟨_, _, hasked, .inl hstops⟩
    case joins => exact .inr ⟨_, _, hasked, .inr ⟨_, _, htables, hstops⟩⟩

theorem stops_wantedOfStatement {withTables : Bool} :
    Stops (i.wantedOfStatement sql withTables directory) st err ↔ StatementFault i get sql directory st err := by
  rw [wantedOfStatement, rebuild, stops_bind]
  simp only [stops_bind, stops_pure, and_false, exists_false, or_false, stops_writeLogs hfiles,
    stops_loggedEntries hfiles, LoggedQueries.stops_ofEntries]
  constructor
  case mp =>
    rintro (hstops | ⟨_, asked, hasked, hstops | ⟨tables, s₁, htables, hstops | ⟨joins, s₂, hjoins, hstops⟩⟩⟩)
    · exact .logs hstops
    · exact .tables hasked hstops
    · obtain rfl := (of_loggedEntries hfiles htables).1
      exact .joins hasked htables hstops
    · obtain rfl := (of_loggedEntries hfiles htables).1
      obtain rfl := (of_loggedEntries hfiles hjoins).1
      exact .entry hasked htables hjoins hstops
  case mpr =>
    rintro (hstops | ⟨hasked, hstops⟩ | ⟨hasked, htables, hstops⟩ | ⟨hasked, htables, hjoins, hstops⟩)
    case logs => exact .inl hstops
    case tables => exact .inr ⟨_, _, hasked, .inl hstops⟩
    case joins => exact .inr ⟨_, _, hasked, .inr ⟨_, _, htables, .inl hstops⟩⟩
    case entry => exact .inr ⟨_, _, hasked, .inr ⟨_, _, htables, .inr ⟨_, _, hjoins, hstops⟩⟩⟩

end Access

theorem stops_estimates {x : Wanted} :
    Stops (estimates estimation x.tables x.joins x.infos) st err ↔ EstimatesFault estimation x st err := by
  rw [estimates, stops_bind]
  simp only [stops_adapt, yields_adapt, List.splitAt_eq]
  constructor
  case mp =>
    rintro (⟨error, hstops, rfl⟩ | ⟨all, s₁, hall, hstops⟩)
    case inl => exact .backend hstops
    case inr =>
      split at hstops
      case h_1 => exact absurd hstops stops_pure
      case h_2 infos hinfos =>
        split at hstops
        case h_1 => exact absurd hstops stops_pure
        case h_2 mismatch hmismatch =>
          cases stops_throw.mp hstops
          obtain ⟨hne, rfl⟩ := Correction.correctAll_eq_error.mp hmismatch
          exact .count hall hinfos hne
  case mpr =>
    rintro (hstops | ⟨hall, hinfos, hne⟩)
    case backend => exact .inl ⟨_, hstops, rfl⟩
    case count =>
      refine .inr ⟨_, _, hall, ?_⟩
      rw [hinfos]
      dsimp only
      rw [Correction.correctAll_eq_error.mpr ⟨hne, rfl⟩]
      exact stops_throw.mpr rfl

-- An estimator that fails at any query fails as a whole, after the queries before have their estimates.
theorem stops_estimateAll {estimator : Estimator (StateM σ)} {queries : List (Option QueryGraph)}
    {error : BackendError} : Stops (estimator.estimateAll s queries) st error ↔ ∃ before query after xs s₁,
      queries = before ++ query :: after ∧ Yields (estimator.estimateAll s before) st xs s₁ ∧
      Stops (estimator.estimate s query) s₁ error :=
  stops_mapM

theorem stops_gather {Collecting : String → σ → InjectionError → Prop}
    (hcollect : ∀ directory s e, Stops (collect directory) s e ↔ Collecting directory s e) :
    Stops (i.gather estimation collect) st err ↔ Fault i estimation collect Collecting st err := by
  rw [gather, directory, stops_bind]
  simp only [stops_bind, stops_pure, and_false, exists_false, or_false, stops_adapt, yields_adapt, hcollect,
    stops_estimates]
  constructor
  case mp =>
    rintro (⟨error, hstops, rfl⟩ | ⟨directory, s₁, hdirectory, hstops | ⟨x, s₂, hx, hstops⟩⟩)
    · exact .directory hstops
    · exact .collecting hdirectory hstops
    · exact .estimates hdirectory hx hstops
  case mpr =>
    rintro (hstops | ⟨hdirectory, hstops⟩ | ⟨hdirectory, hx, hstops⟩)
    case directory => exact .inl ⟨_, hstops, rfl⟩
    case collecting => exact .inr ⟨_, _, hdirectory, .inl hstops⟩
    case estimates => exact .inr ⟨_, _, hdirectory, .inr ⟨_, _, hx, hstops⟩⟩

end Faults

end Injection

end Subplans
