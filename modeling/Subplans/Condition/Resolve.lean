import Subplans.Condition.Grammar
import Subplans.Predicate.Basic

/-!
Conditions on one table as formulas of predicates.

`Scope.formula?` resolves the names of columns and the literals of a condition. It gives up on a condition
as a whole as soon as one part of it is no comparison of a column of the table with a value of its type;
such a condition can still be kept as it stands.
-/

namespace Subplans

structure Scope where
  schema : Schema
  table : Nat
  aliasName : String
  -- Lists may be given without a cast to an array type.
  bareLists : Bool

namespace Scope

open Condition (Operand Term)

def column? (s : Scope) (t : Term) : Option ColumnRef :=
  match t.operand with
  | .column name =>
    match Text.cutAt? '.' name with
    | some (aliasName, column) => if aliasName == s.aliasName then s.schema.column? s.table column else none
    | none => s.schema.column? s.table name
  | _ => none

-- The first `count` bytes of a text, if a character ends there.
def takeBytes? : (count : Nat) → List Char → Option (List Char)
  | 0, _ => some []
  | _ + 1, [] => none
  | count + 1, c :: rest =>
    if c.utf8Size ≤ count + 1 then (takeBytes? (count + 1 - c.utf8Size) rest).map (c :: ·) else none

def plainCasts : List String :=
  ["numeric", "bpchar", "text", "integer", "bigint", "smallint", "character varying", "double precision"]

def literal? (type : DataType) (text : String) (cast : Option String) : Option Value :=
  match cast with
  | none =>
    -- A time of day after the date does not count.
    if type == .date then
      (Date.ofText? ((takeBytes? 10 text.toList).getD text.toList)).map .date
    else type.value? text.toList
  | some "timestamp without time zone" =>
    (Timestamp.ofText? text.toList).map fun t => if type == .date then .date t.date else .timestamp t
  | some "date" => (Date.ofText? text.toList).map .date
  | some cast => if plainCasts.contains cast then type.value? text.toList else none

def value? (s : Scope) (column : ColumnRef) (t : Term) : Option Value :=
  match t.operand with
  | .literal text => literal? (s.schema.dataType column) text t.cast
  | _ => none

-- The rest of a quoted element of an array, in which a reverse solidus stands before characters that are to be taken as
-- they are, and the text after its closing mark.
def quotedElement? : List Char → Option (List Char × List Char)
  | [] => none
  | '\\' :: c :: rest => (quotedElement? rest).map fun (element, after) => (c :: element, after)
  | c :: rest =>
    if c == '\\' then none
    else if c == Text.nameMark then some ([], rest)
    else (quotedElement? rest).map fun (element, after) => (c :: element, after)

def element? (text : List Char) : Option (List Char × List Char) :=
  match text with
  | c :: rest =>
    if c == Text.nameMark then quotedElement? rest
    else some (text.takeWhile (· != ','), text.dropWhile (· != ','))
  | [] => some ([], [])

def elements? (text : List Char) : Option (List (List Char)) :=
  match element? text with
  | none => none
  | some (element, []) => some [element]
  | some (element, c :: rest) =>
    if c == ',' then
      if _h : rest.length < text.length then (elements? rest).map (element :: ·) else none
    else none
termination_by text.length

-- The elements between the braces of an array; blanks alone are none.
def arrayElements? (body : List Char) : Option (List (List Char)) :=
  if (Text.trim body).isEmpty then some [] else elements? body

def arrayBody? (text : List Char) : Option (List Char) :=
  match text with
  | q :: '\x7b' :: rest =>
    if q == Text.quoteMark && rest.getLast? == some Text.quoteMark &&
      rest.dropLast.getLast? == some '\x7d' then some rest.dropLast.dropLast else none
  | _ => none

def plainArrayCasts : List String :=
  ["bpchar[]", "text[]", "integer[]", "bigint[]", "numeric[]", "character varying[]"]

def quotedText? (text : List Char) : Option (List Char) :=
  match text with
  | q :: rest => if q == Text.quoteMark && rest.getLast? == some Text.quoteMark then some rest.dropLast else none
  | [] => none

-- The values of a list: an array literal with its type, or values with commas between them, all of them quoted or none.
def listValues? (s : Scope) (column : ColumnRef) (list : String) : Option (List Value) :=
  let type := s.schema.dataType column
  let dates := fun (text : List Char) => (Date.ofText? text).map Value.date
  match Text.cutLast? "::".toList list.toList with
  | some (options, cast) => do
    let elements ← arrayElements? (← arrayBody? (Text.trim options))
    let cast := String.ofList (Text.trim cast)
    if plainArrayCasts.contains cast then elements.mapM type.value?
    else if cast == "date[]" then elements.mapM dates
    else none
  | none =>
    if !s.bareLists then none
    else
      let options := (Text.splitTopLevel [','] list.toList).map Text.trim
      let read := if type == .date then dates else type.value?
      match options.mapM quotedText? with
      | some texts => texts.mapM fun text => read (Text.undouble Text.quoteMark text)
      | none => if options.any fun o => (quotedText? o).isSome then none else options.mapM read

def predicate? (s : Scope) (column : ColumnRef) (comparison : Comparison) (value : Value)
    (positive : Bool) : Option Formula :=
  (ColumnPredicate.on s.schema column comparison value positive).toOption.map fun p =>
    .atom (.comparison p)

def membership? (s : Scope) (column : ColumnRef) (values : List Value) (positive : Bool) :
    Option Formula :=
  if values.isEmpty then none
  else do
    let atoms ← values.mapM fun v => s.predicate? column .eq v positive
    pure (if positive then .or atoms else .and atoms)

mutual

def formula? (s : Scope) : Condition → Option Formula
  | .and parts => (s.formulas? parts).map .and
  | .or parts => (s.formulas? parts).map .or
  | .not part => (s.formula? part).map .negate
  | .nullTest term negated => do s.predicate? (← s.column? term) .is .null (!negated)
  | .compare left symbol right =>
    match s.column? left, s.column? right with
    | some column, none => compare? column symbol right
    | none, some column => do compare? column (← Comparison.flip? symbol) left
    | _, _ => none
  | .quantified left symbol all list => do
    let column ← s.column? left
    let positive ← match symbol, all with
      | "=", false => some true
      | "<>", true | "!=", true => some false
      | _, _ => none
    s.membership? column (← s.listValues? column list) positive
  | .inList term list negated => do
    let column ← s.column? term
    s.membership? column (← list.mapM (s.value? column)) (!negated)
where
  compare? (column : ColumnRef) (symbol : String) (literal : Term) : Option Formula := do
    let (comparison, positive) ← Comparison.ofSymbol? symbol
    s.predicate? column comparison (← s.value? column literal) positive

def formulas? (s : Scope) : List Condition → Option (List Formula)
  | [] => some []
  | c :: cs => do pure ((← s.formula? c) :: (← s.formulas? cs))

end

def parse? (s : Scope) (text : String) : Option Formula :=
  (Condition.ofText? text).bind s.formula?

-- The clauses of some condition texts with AND between them. Those that do not resolve are kept as they stand.
def clauses (s : Scope) (texts : List String) : Clauses :=
  (Formula.and (texts.map fun text => (s.parse? text).getD (.atom (.verbatim text true)))).normalForm

end Scope

end Subplans
