/-!
Estimates of joins that keep other rows than those that match.

The estimate of a join is that of the inner join of its inputs. For another type of join it is corrected by
what is known of the inputs; `-1` stands for what is not known. All of it is for numbers of any kind, so that
it can be computed with doubles and reasoned about with rationals.
-/

namespace Subplans

inductive JoinType
  | inner
  | left
  | full
  | semi
  | anti
deriving DecidableEq, Repr

namespace JoinType

def all : List JoinType :=
  [inner, left, full, semi, anti]

def name : JoinType → String
  | inner => "Inner"
  | left => "Left"
  | full => "Full"
  | semi => "Semi"
  | anti => "Anti"

def named? (name : String) : Option JoinType :=
  all.find? (·.name == name)

end JoinType

-- The position of an estimate among those of joins or of single tables.
structure EstimateRef where
  isJoin : Bool
  index : Nat
deriving DecidableEq, Repr

structure JoinInfo where
  joinType : JoinType
  outer : EstimateRef
  inner : EstimateRef
deriving DecidableEq, Repr

namespace Correction

variable {α : Type} [BEq α] [LT α] [DecidableLT α] [Sub α] [Neg α] [OfNat α 0] [OfNat α 1]

-- The larger of two numbers; what is no number counts as smaller than any.
def larger (a b : α) : α :=
  if a < b || a != a then b else a

def unknown : α := -1

-- The estimate of a join, given the one of the inner join of its inputs and those of its inputs.
def correct (type : JoinType) (estimate outer inner : α) : α :=
  if type == .inner then estimate
  else if outer == unknown || inner == unknown then unknown
  else match type with
    | .inner => estimate
    | .left => larger estimate outer
    | .full => larger estimate (larger outer inner)
    | .semi => unknown
    | .anti => larger (outer - estimate) 0

def estimateAt? (tables joins : List α) (r : EstimateRef) : Option α :=
  if r.isJoin then joins[r.index]? else tables[r.index]?

-- Corrects the estimate of one join, if something is known of it and of both of its inputs.
def correctAt (tables joins : List α) (index : Nat) (info : Option JoinInfo) : List α :=
  match info, joins[index]? with
  | some info, some estimate =>
    if estimate == unknown || info.joinType == .inner then joins
    else
      match estimateAt? tables joins info.outer, estimateAt? tables joins info.inner with
      | some outer, some inner => joins.set index (correct info.joinType estimate outer inner)
      | _, _ => joins
  | _, _ => joins

structure CountMismatch where
  infos : Nat
  estimates : Nat
deriving DecidableEq, Repr

-- Corrects the estimates of joins in order, so that a join sees what became of those before it.
def correctAll (tables joins : List α) (infos : List (Option JoinInfo)) : Except CountMismatch (List α) :=
  if infos.length != joins.length then .error ⟨infos.length, joins.length⟩
  else .ok (infos.zipIdx.foldl (fun joins (info, index) => correctAt tables joins index info) joins)

end Correction

end Subplans
