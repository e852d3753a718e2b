import Subplans.Json.Record
import Subplans.Json.Writer
import Subplans.Query.Graph

/-!
Records of query graphs.

A record names tables and foreign keys and holds predicates as SQL text, so that it does not depend on how a
schema numbers things. The graph of a record has the same SQL as the graph that the record was made of.
-/

namespace Subplans

inductive RepositoryError
  | notFound (id : Nat)
  | unknownTable (name : String)
  | unknownKey (name : String)
  | unknownAlias (aliasName : String)
  | file
  | malformedRecord
deriving DecidableEq, Repr

def RepositoryError.message : RepositoryError → String
  | notFound id => "no query with id " ++ toString id
  | unknownTable name => "unknown table: " ++ name
  | unknownKey name => "unknown foreign key: " ++ name
  | unknownAlias aliasName => "edge references unknown alias " ++ aliasName
  | file => "I/O error"
  | malformedRecord => "invalid record"

structure NodeRecord where
  aliasName : String
  table : String
  cardinality : Float
  isVirtual : Bool
  clauses : List (List String)

-- An edge as a record; its ends are given by their aliases.
structure EdgeRecord where
  source : String
  key : String
  target : String
deriving DecidableEq, Repr

structure QueryRecord where
  id : Nat
  nodes : List NodeRecord
  edges : List EdgeRecord

def NodeRecord.ofNode (s : Schema) (g : QueryGraph) (n : Nat) : NodeRecord :=
  let o := g.node n
  { aliasName := g.aliasName n
    table := (s.table o.table).name
    cardinality := o.cardinality
    isVirtual := o.isVirtual
    clauses := o.clauses.map fun clause => clause.map (·.sql (g.aliasName n)) }

def EdgeRecord.ofEdge (s : Schema) (g : QueryGraph) (e : Edge) : EdgeRecord where
  source := g.aliasName e.source
  key := (s.key e.key).name
  target := g.aliasName e.target

def QueryRecord.ofGraph (s : Schema) (id : Nat) (g : QueryGraph) : QueryRecord where
  id
  nodes := g.nodes.map (NodeRecord.ofNode s g)
  edges := (g.edgesBySource.filterMap g.edge?).map (EdgeRecord.ofEdge s g)

def NodeRecord.occurrence (s : Schema) (r : NodeRecord) : Except RepositoryError Occurrence :=
  match s.table? r.table with
  | none => .error (.unknownTable r.table)
  | some table =>
    if r.isVirtual then .ok (.virtual s table)
    else
      let clauses := r.clauses.map fun clause => clause.map fun text => Atom.verbatim text true
      .ok { table, cardinality := r.cardinality, clauses, isVirtual := false }

def NodeRecord.addTo (s : Schema) (g : QueryGraph) (r : NodeRecord) : Except RepositoryError QueryGraph := do
  return (g.add (← r.occurrence s) r.aliasName).2

def EdgeRecord.node (g : QueryGraph) (aliasName : String) : Except RepositoryError Nat :=
  match g.byAlias? aliasName with
  | some n => .ok n
  | none => .error (.unknownAlias aliasName)

def EdgeRecord.addTo (s : Schema) (g : QueryGraph) (r : EdgeRecord) : Except RepositoryError QueryGraph := do
  let source ← node g r.source
  let target ← node g r.target
  match s.key? r.key with
  | some key => return (g.addEdge source key target).2
  | none => throw (.unknownKey r.key)

def QueryRecord.toGraph (s : Schema) (r : QueryRecord) : Except RepositoryError QueryGraph := do
  let g ← r.nodes.foldlM (NodeRecord.addTo s) QueryGraph.empty
  r.edges.foldlM (EdgeRecord.addTo s) g

def NodeRecord.toJson (r : NodeRecord) : Json :=
  Json.ofFields [
    ("alias", Json.ofString r.aliasName), ("table", Json.ofString r.table),
    ("cardinality", Json.ofFloat r.cardinality), ("is_virtual", .bool r.isVirtual),
    ("predicates", .array (r.clauses.map fun clause => .array (clause.map Json.ofString)))]

def NodeRecord.ofJson? (value : Json) : Option NodeRecord := do
  let r ← value.record? ["alias", "table", "cardinality", "is_virtual", "predicates"]
  pure {
    aliasName := ← r.required? "alias" Json.string?
    table := ← r.required? "table" Json.string?
    cardinality := ← r.required? "cardinality" Json.float?
    isVirtual := ← r.defaulting? "is_virtual" false Json.bool?
    clauses := ← r.defaulting? "predicates" [] (Json.list? (Json.list? Json.string?))
  }

def EdgeRecord.toJson (r : EdgeRecord) : Json :=
  Json.ofFields [("from", Json.ofString r.source), ("foreign_key", Json.ofString r.key),
    ("to", Json.ofString r.target)]

def EdgeRecord.ofJson? (value : Json) : Option EdgeRecord := do
  let r ← value.record? ["from", "foreign_key", "to"]
  pure {
    source := ← r.required? "from" Json.string?
    key := ← r.required? "foreign_key" Json.string?
    target := ← r.required? "to" Json.string?
  }

def QueryRecord.toJson (r : QueryRecord) : Json :=
  Json.ofFields [("id", Json.ofNat r.id), ("nodes", .array (r.nodes.map NodeRecord.toJson)),
    ("edges", .array (r.edges.map EdgeRecord.toJson))]

def QueryRecord.ofJson? (value : Json) : Option QueryRecord := do
  let r ← value.record? ["id", "nodes", "edges"]
  pure {
    id := ← r.required? "id" (Json.nat? (Nat.pow 2 64))
    nodes := ← r.required? "nodes" (Json.list? NodeRecord.ofJson?)
    edges := ← r.required? "edges" (Json.list? EdgeRecord.ofJson?)
  }

end Subplans
