import Subplans.Condition.Resolve
import Subplans.Estimate.Basic
import Subplans.Injection.Log
import Subplans.Query.Merge

/-!
Queries of what the server logs for SQL text.

An entry for a single table becomes a query for the table with its predicates. An entry for a join becomes
the merged query of its two inputs, which stand earlier in the logs, on its clauses. A clause that belongs to
no such pair of inputs yet is handed on to the joins above. Where an entry says anything else it is left
without a query.
-/

namespace Subplans

structure LoggedQuery where
  id : Int
  place : EstimateRef
  rows : Float
  query : Option QueryGraph
  -- Clauses that belong to a join further up.
  pending : List String
  join : Option JoinInfo

namespace LoggedQuery

-- The query of the entry as a whole. As long as clauses are pending there is none.
def complete? (q : LoggedQuery) : Option QueryGraph :=
  if q.pending.isEmpty then q.query else none

def find? (log : List LoggedQuery) (id : Int) : Option LoggedQuery :=
  log.reverse.find? (·.id == id)

-- The name that stands for the table where the server cannot tell it.
def noTable : String := "(null)"

-- What a predicate contains that the server cannot print.
def noPredicate : String := "unsupported expr"

variable {m : Type → Type} [Monad m]

def ofTable (s : Schema) (b : Backend m) (number : Nat) (e : TableEntry) :
    ExceptT InjectionError m LoggedQuery := do
  let place : EstimateRef := { isJoin := false, index := number }
  if e.table == noTable || e.predicates.any (Text.contains · noPredicate) then
    return { id := e.id, place, rows := unknownEstimate, query := none, pending := [], join := none }
  match s.table? e.table with
  | none => throw (.unknownTable e.table)
  | some table =>
    let scope : Scope := { schema := s, table, aliasName := e.aliasName, bareLists := true }
    let clauses := scope.clauses (e.predicates.map fun p => "(" ++ p ++ ")")
    let occurrence ← (b.occurrence s table clauses e.aliasName).adapt .backend
    let (_, query) := QueryGraph.empty.add occurrence e.aliasName
    return { id := e.id, place, rows := e.rows, query := some query, pending := [], join := none }

-- The identifier of an input that is not in the logs.
def notLogged : Int := -1

-- The type of a join; none if only inner joins are wanted and it is another.
def joinType? (onlyInner : Bool) (name : String) : Except InjectionError (Option JoinType) :=
  if name == JoinType.inner.name then .ok (some .inner)
  else if onlyInner then .ok none
  else match JoinType.named? name with
    | some type => .ok (some type)
    | none => .error (.unknownJoinType name)

-- The entry can be joined further: it is the one that was meant, as it has the same rows, and it is no join that keeps
-- other rows than those that match.
def isJoinable (q : LoggedQuery) (rows : Float) : Bool :=
  q.rows == rows && q.join.all (·.joinType == .inner)

-- The inputs of a join with their queries; none from the first on that has no query or cannot be joined further.
def inputs? (log : List LoggedQuery) :
    List InputEntry → Except InjectionError (Option (List (LoggedQuery × QueryGraph)))
  | [] => .ok (some [])
  | e :: rest =>
    if e.id == notLogged then .ok none
    else match find? log e.id with
      | none => .error (.unknownSubplan e.id)
      | some q =>
        match q.query with
        | none => .ok none
        | some query =>
          if q.isJoinable e.rows then (inputs? log rest).map (Option.map ((q, query) :: ·)) else .ok none

def qualifiedColumn? (text : List Char) : Option (String × String) :=
  match Text.splitOn ['.'] text with
  | [aliasName, column] => some (String.ofList aliasName, String.ofList column)
  | _ => none

-- What becomes of a clause between two queries. One that is no equality of qualified columns is rejected.
def placeClause (s : Schema) (first second : QueryGraph) (clause : String) : JoinResolution :=
  match Text.words clause.toList with
  | [left, ['='], right] =>
    match qualifiedColumn? left, qualifiedColumn? right with
    | some left, some right => QueryGraph.resolve s first second left right
    | _, _ => .rejected
  | _ => .rejected

-- The query of a join of two queries on some clauses, and the clauses that are pending then.
def joined? (s : Schema) (first second : QueryGraph) (clauses : List String) :
    Option (QueryGraph × List String) :=
  (QueryGraph.placeConditions (placeClause s first second) [] [] clauses).map fun (joins, pending) =>
    (QueryGraph.merge s first second joins, pending)

def ofJoin (s : Schema) (onlyInner : Bool) (log : List LoggedQuery) (number : Nat) (e : JoinEntry) :
    Except InjectionError LoggedQuery := do
  let place : EstimateRef := { isJoin := true, index := number }
  let unresolved : LoggedQuery :=
    { id := e.id, place, rows := e.rows, query := none, pending := [], join := none }
  let some joinType ← joinType? onlyInner e.joinType | return unresolved
  let some inputs ← inputs? log e.inputs | return unresolved
  match inputs with
  | [(outer, first), (inner, second)] =>
    match joined? s first second (outer.pending ++ inner.pending ++ e.clauses) with
    | none => return unresolved
    | some (query, pending) =>
      let placeOf := fun (q : LoggedQuery) => if q.id == e.id then place else q.place
      let join : JoinInfo := { joinType, outer := placeOf outer, inner := placeOf inner }
      return { unresolved with query := some query, pending, join := some join }
  | _ => throw (.inputCount e.id inputs.length)

end LoggedQuery

structure LoggedQueries where
  tables : List LoggedQuery
  joins : List LoggedQuery

namespace LoggedQueries

-- Adds the entries for joins one after another, as each refers to those before it.
def addJoins (s : Schema) (onlyInner : Bool) (q : LoggedQueries) (number : Nat) :
    List JoinEntry → Except InjectionError LoggedQueries
  | [] => .ok q
  | e :: rest => do
    let join ← LoggedQuery.ofJoin s onlyInner (q.tables ++ q.joins) number e
    addJoins s onlyInner { q with joins := q.joins ++ [join] } (number + 1) rest

variable {m : Type → Type} [Monad m]

def ofEntries (s : Schema) (b : Backend m) (onlyInner : Bool) (tables : List TableEntry) (joins : List JoinEntry) :
    ExceptT InjectionError m LoggedQueries := do
  let tables ← tables.zipIdx.mapM fun (e, number) => LoggedQuery.ofTable s b number e
  ExceptT.mk (pure (addJoins s onlyInner { tables, joins := [] } 0 joins))

end LoggedQueries

end Subplans
