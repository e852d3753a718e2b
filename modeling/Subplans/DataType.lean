import Subplans.Value

/-!
The types of columns, and the comparisons that each type supports.

SQL has many names for types and many symbols for comparisons; only the classes below matter to a
predicate. A comparison that is missing here is the negation of one that is there: `>=` is the negation
of `<`, see `Comparison.ofSymbol?`.
-/

namespace Subplans

inductive DataType
  | integer
  | numeric
  | text
  | date
  | dateTime
deriving DecidableEq, Repr

inductive Comparison
  | eq
  | lt
  | gt
  | like
  | ilike
  | is
deriving DecidableEq, Repr

namespace Comparison

def symbol : Comparison → String
  | eq => "="
  | lt => "<"
  | gt => ">"
  | like => "LIKE"
  | ilike => "ILIKE"
  | is => "IS"

def named? (symbol : String) : Option Comparison :=
  [eq, lt, gt, like, ilike, is].find? (·.symbol == symbol)

-- What the symbol of an operator means: a comparison and whether it has to hold or to fail.
def ofSymbol? : String → Option (Comparison × Bool)
  | "=" => some (eq, true)
  | "<>" => some (eq, false)
  | "!=" => some (eq, false)
  | "<" => some (lt, true)
  | ">=" => some (lt, false)
  | ">" => some (gt, true)
  | "<=" => some (gt, false)
  | "LIKE" => some (like, true)
  | "~~" => some (like, true)
  | "!~~" => some (like, false)
  | "ILIKE" => some (ilike, true)
  | "~~*" => some (ilike, true)
  | "!~~*" => some (ilike, false)
  | "IS" => some (is, true)
  | _ => none

-- The symbol `f` with `x ◦ y` equal to `y f x`, for the symbols of equality and order.
def flip? : String → Option String
  | "=" => some "="
  | "<>" => some "<>"
  | "!=" => some "!="
  | "<" => some ">"
  | ">" => some "<"
  | "<=" => some ">="
  | ">=" => some "<="
  | _ => none

end Comparison

namespace DataType

def ofSqlName? : String → Option DataType
  | "integer" | "bigint" | "smallint" | "Long" => some integer
  | "numeric" | "double precision" | "real" => some numeric
  | "character" | "character varying" | "text" | "String" => some text
  | "date" | "Date" => some date
  | "datetime" | "DateTime" | "timestamp without time zone" => some dateTime
  | _ => none

def name : DataType → String
  | integer => "integer"
  | numeric => "numeric"
  | text => "text"
  | date => "date"
  | dateTime => "date_time"

-- Texts can be matched with patterns, all else has only equality, order and the test for `NULL`.
def comparisons : DataType → List Comparison
  | text => [.eq, .lt, .gt, .like, .ilike, .is]
  | _ => [.eq, .lt, .gt, .is]

def supports (t : DataType) (c : Comparison) : Bool :=
  t.comparisons.contains c

def isText (t : DataType) : Bool :=
  t == text

def value? (t : DataType) (s : List Char) : Option Value :=
  match t with
  | integer => (Number.readInt (Text.trim s)).toOption.map .integer
  | numeric => (Number.readFloat? (Text.trim s)).map .number
  | text => some (.text (String.ofList s))
  | date => (Date.ofText? (Text.trim s)).map .date
  | dateTime => (Timestamp.ofText? (Text.trim s)).map .timestamp

end DataType

end Subplans
