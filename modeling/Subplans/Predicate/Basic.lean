import Subplans.Schema.Links

/-!
Predicates on the columns of a table.

An atom is a comparison of a column with a value, or a piece of SQL that is kept as it stands; either
may be negated. Predicates come as a formula of atoms, and are kept as an AND of ORs of atoms, which
`Formula.normalForm` computes by the distributive law.
-/

namespace Subplans

-- A comparison of a column with a value, which has to hold if `positive` and to fail if not.
structure ColumnPredicate where
  column : ColumnRef
  name : String
  dataType : DataType
  comparison : Comparison
  value : Value
  positive : Bool
deriving Repr

-- A comparison that the type of the column does not support.
structure UnsupportedComparison where
  comparison : Comparison
  column : String
  dataType : DataType
deriving DecidableEq, Repr

def UnsupportedComparison.message (e : UnsupportedComparison) : String :=
  "operator " ++ e.comparison.symbol ++ " is not supported by " ++ e.column ++ " (" ++ e.dataType.name ++ ")"

namespace ColumnPredicate

-- The predicate on a column, provided that the type of the column supports the comparison.
def on (s : Schema) (column : ColumnRef) (comparison : Comparison) (value : Value) (positive : Bool) :
    Except UnsupportedComparison ColumnPredicate :=
  let dataType := s.dataType column
  if dataType.supports comparison then
    .ok { column, name := s.columnName column, dataType, comparison, value, positive }
  else .error { comparison, column := s.qualifiedName column, dataType }

def complement (p : ColumnPredicate) : ColumnPredicate :=
  { p with positive := !p.positive }

-- The predicate in SQL, for the table under an alias. Where texts are compared with a number, only those that look like
-- one are.
def sql (p : ColumnPredicate) (aliasName : String) : String :=
  let negation := if p.positive then "" else "NOT "
  let column := aliasName ++ "." ++ p.name
  if p.dataType.isText && p.value.isNumeric then
    "(" ++ column ++ " ~ '^(?:[1-9]\\d*|0)?(?:\\.\\d+)?$' AND " ++ negation ++ column ++ "::float " ++
      p.comparison.symbol ++ " " ++ p.value.literal ++ ")"
  else negation ++ column ++ " " ++ p.comparison.symbol ++ " " ++ p.value.literal

end ColumnPredicate

inductive Atom
  | comparison (p : ColumnPredicate)
  | verbatim (text : String) (positive : Bool)
deriving Repr

namespace Atom

def complement : Atom → Atom
  | comparison p => comparison p.complement
  | verbatim text positive => verbatim text (!positive)

theorem complement_complement (a : Atom) : a.complement.complement = a := by
  cases a <;> simp [complement, ColumnPredicate.complement]

def sql (a : Atom) (aliasName : String) : String :=
  match a with
  | comparison p => p.sql aliasName
  | verbatim text true => text
  | verbatim text false => "NOT (" ++ text ++ ")"

def isVerbatim : Atom → Bool
  | verbatim _ _ => true
  | comparison _ => false

end Atom

abbrev Clause := List Atom

abbrev Clauses := List Clause

def Clause.sql (c : Clause) (aliasName : String) : String :=
  let joined := " OR ".intercalate (c.map (·.sql aliasName))
  if 1 < c.length then "(" ++ joined ++ ")" else joined

def Clauses.sql (cs : Clauses) (aliasName : String) : String :=
  "\n\tAND ".intercalate (cs.map fun (c : Clause) => c.sql aliasName)

inductive Formula
  | and (parts : List Formula)
  | or (parts : List Formula)
  | atom (a : Atom)
deriving Repr

namespace Formula

mutual

-- The formula that holds where this one fails, with the negation pushed down to the atoms.
def negate : Formula → Formula
  | and parts => or (negateAll parts)
  | or parts => and (negateAll parts)
  | atom a => atom a.complement

def negateAll : List Formula → List Formula
  | [] => []
  | f :: fs => f.negate :: negateAll fs

end

mutual

def atoms : Formula → List Atom
  | and parts => atomsAll parts
  | or parts => atomsAll parts
  | atom a => [a]

def atomsAll : List Formula → List Atom
  | [] => []
  | f :: fs => f.atoms ++ atomsAll fs

end

def distribute (left right : Clauses) : Clauses :=
  left.flatMap fun c => right.map fun d => c ++ d

mutual

-- The formula as AND of ORs, without empty clauses.
def normalForm : Formula → Clauses
  | and parts => conjunction parts
  | or parts => (disjunction [[]] parts).filter (!·.isEmpty)
  | atom a => [[a]]

def conjunction : List Formula → Clauses
  | [] => []
  | f :: fs => f.normalForm ++ conjunction fs

-- The clauses of formulas with OR between them, each joined to one of `clauses`.
def disjunction (clauses : Clauses) : List Formula → Clauses
  | [] => clauses
  | f :: fs => disjunction (distribute clauses f.normalForm) fs

end

def ofClauses (cs : Clauses) : Formula :=
  and (cs.map fun c => or (c.map atom))

mutual

def display : Formula → String
  | and parts => "(" ++ " AND ".intercalate (displayAll parts) ++ ")"
  | or parts => "(" ++ " OR ".intercalate (displayAll parts) ++ ")"
  | atom a => a.sql "_"

def displayAll : List Formula → List String
  | [] => []
  | f :: fs => f.display :: displayAll fs

end

end Formula

end Subplans
